import AbiIndex.Graph
import Mathlib.Data.List.Nodup
import Mathlib.Data.Set.Insert
import Mathlib.Logic.Relation

/-!
# Depth-first search as a recursion

A search that enters a node searches the successors of the node before it goes on with the nodes
next to it. The search with a stack and a pool enters the same nodes in the same order.

## Key results

- `exists_depthFirst`, `depthFirst_preorder`: the recursion comes to an end, and it is the search
  with a stack
- `DepthFirst.mem_iff_reaches`: a search from nothing seen enters the nodes that can be reached
- `DepthFirst.before_iff`: in a graph without cycles a node is entered before another one that it
  leads to exactly if the first way to that one goes through it
-/

namespace AbiIndex

variable {α : Type}

/-- From one node there is a way to another one. -/
def Reaches (next : α → List α) : α → α → Prop :=
  Relation.ReflTransGen fun a b => b ∈ next a

/-- A search from some nodes in order, of which those that were seen before are passed over. It
enters the nodes of the second list, in this order. -/
inductive DepthFirst (next : α → List α) : Set α → List α → List α → Prop
  | done {seen : Set α} : DepthFirst next seen [] []
  | again {seen : Set α} {x : α} {xs order : List α} (hx : x ∈ seen)
      (rest : DepthFirst next seen xs order) : DepthFirst next seen (x :: xs) order
  | enter {seen : Set α} {x : α} {xs below order : List α} (hx : x ∉ seen)
      (inner : DepthFirst next (insert x seen) (next x) below)
      (rest : DepthFirst next (insert x seen ∪ {y | y ∈ below}) xs order) :
      DepthFirst next seen (x :: xs) (x :: (below ++ order))

namespace DepthFirst

variable {next : α → List α} {seen : Set α} {xs ys order : List α}

/-- A search goes on from where the search from the first nodes ends. -/
theorem of_append (h : DepthFirst next seen (xs ++ ys) order) :
    ∃ first last, order = first ++ last ∧ DepthFirst next seen xs first ∧
      DepthFirst next (seen ∪ {y | y ∈ first}) ys last := by
  induction xs generalizing seen order with
  | nil =>
    refine ⟨[], order, rfl, .done, ?_⟩
    simpa using h
  | cons x xs ih =>
    cases h with
    | again hx rest =>
      obtain ⟨first, last, rfl, hfirst, hlast⟩ := ih rest
      exact ⟨first, last, rfl, .again hx hfirst, hlast⟩
    | @enter _ _ _ below order hx inner rest =>
      obtain ⟨first, last, rfl, hfirst, hlast⟩ := ih rest
      refine ⟨x :: (below ++ first), last, by simp, .enter hx inner hfirst, ?_⟩
      have hseen : seen ∪ {y | y ∈ x :: (below ++ first)} =
          insert x seen ∪ {y | y ∈ below} ∪ {y | y ∈ first} := by
        ext y
        simp only [Set.mem_union, Set.mem_ofPred_eq, Set.mem_insert_iff, List.mem_cons,
          List.mem_append]
        tauto
      rwa [hseen]

/-- The order of a search is determined. -/
theorem unique (h : DepthFirst next seen xs order) {order' : List α}
    (h' : DepthFirst next seen xs order') : order = order' := by
  induction h generalizing order' with
  | done =>
    cases h'
    rfl
  | again hx rest ih =>
    cases h' with
    | again _ rest' => exact ih rest'
    | enter hx' _ _ => exact absurd hx hx'
  | enter hx inner rest ihInner ihRest =>
    cases h' with
    | again hx' _ => exact absurd hx' hx
    | enter _ inner' rest' =>
      have hbelow := ihInner inner'
      subst hbelow
      rw [ihRest rest']

/-- No node is entered that was seen before, and none is entered twice. -/
theorem nodup (h : DepthFirst next seen xs order) : (∀ y ∈ order, y ∉ seen) ∧ order.Nodup := by
  induction h with
  | done => exact ⟨by simp, .nil⟩
  | again hx rest ih => exact ih
  | @enter seen x xs below order hx inner rest ihInner ihRest =>
    obtain ⟨hbelow, hnodup⟩ := ihInner
    obtain ⟨horder, hnodup'⟩ := ihRest
    simp only [Set.mem_union, Set.mem_insert_iff, Set.mem_ofPred_eq, not_or] at hbelow horder
    constructor
    · intro y hy
      rcases List.mem_cons.1 hy with rfl | hy
      · exact hx
      · exact (List.mem_append.1 hy).elim (fun hy => (hbelow y hy).2) fun hy => (horder y hy).1.2
    · refine List.nodup_cons.2 ⟨?_, List.Nodup.append hnodup hnodup' ?_⟩
      · intro hmem
        rcases List.mem_append.1 hmem with hmem | hmem
        · exact (hbelow x hmem).1 rfl
        · exact (horder x hmem).1.1 rfl
      · exact fun y hy hy' => (horder y hy').2 hy

/-- Every node that is entered can be reached. -/
theorem exists_reaches (h : DepthFirst next seen xs order) :
    ∀ y ∈ order, ∃ x ∈ xs, Reaches next x y := by
  induction h with
  | done => simp
  | again hx rest ih =>
    intro y hy
    obtain ⟨x, hx, hreaches⟩ := ih y hy
    exact ⟨x, List.mem_cons_of_mem _ hx, hreaches⟩
  | @enter seen x xs below order hx inner rest ihInner ihRest =>
    intro y hy
    rcases List.mem_cons.1 hy with rfl | hy
    · exact ⟨y, List.mem_cons_self, .refl⟩
    rcases List.mem_append.1 hy with hy | hy
    · obtain ⟨z, hz, hreaches⟩ := ihInner y hy
      exact ⟨x, List.mem_cons_self, .head hz hreaches⟩
    · obtain ⟨z, hz, hreaches⟩ := ihRest y hy
      exact ⟨z, List.mem_cons_of_mem _ hz, hreaches⟩

/-- What a search starts from, and what the nodes that it enters lead to, was seen before or is
entered. -/
theorem closed (h : DepthFirst next seen xs order) :
    (∀ x ∈ xs, x ∈ seen ∨ x ∈ order) ∧
      ∀ x ∈ order, ∀ y ∈ next x, y ∈ seen ∨ y ∈ order := by
  induction h with
  | done => simp
  | again hx rest ih => exact ⟨List.forall_mem_cons.2 ⟨.inl hx, ih.1⟩, ih.2⟩
  | @enter seen x xs below order hx inner rest ihInner ihRest =>
    simp only [Set.mem_union, Set.mem_insert_iff, Set.mem_ofPred_eq] at ihInner ihRest
    simp only [List.mem_cons, List.mem_append]
    constructor
    · rintro y (rfl | hy)
      · exact .inr (.inl rfl)
      · have := ihRest.1 y hy
        tauto
    · rintro z (rfl | hz | hz) y hy
      · have := ihInner.1 y hy
        tauto
      · have := ihInner.2 z hz y hy
        tauto
      · have := ihRest.2 z hz y hy
        tauto

/-- A way out of a search goes through a node that was seen before. -/
theorem mem_or_exists_seen (h : DepthFirst next seen xs order) {x y : α}
    (hx : x ∈ seen ∨ x ∈ order) (hreaches : Reaches next x y) :
    y ∈ order ∨ ∃ z ∈ seen, Reaches next x z ∧ Reaches next z y := by
  induction hreaches with
  | refl => exact hx.elim (fun hx => .inr ⟨x, hx, .refl, .refl⟩) .inl
  | @tail y z hxy hz ih =>
    rcases ih with hy | ⟨w, hw, hxw, hwy⟩
    · rcases h.closed.2 y hy z hz with hseen | horder
      · exact .inr ⟨z, hseen, hxy.tail hz, .refl⟩
      · exact .inl horder
    · exact .inr ⟨w, hw, hxw, hwy.tail hz⟩

/-- A search that has seen nothing before enters what can be reached. -/
theorem mem_iff_reaches {x y : α} (h : DepthFirst next ∅ [x] order) :
    y ∈ order ↔ Reaches next x y := by
  constructor
  · intro hy
    obtain ⟨x', hx', hreaches⟩ := h.exists_reaches y hy
    rwa [List.mem_singleton.1 hx'] at hreaches
  · intro hreaches
    rcases h.mem_or_exists_seen (h.closed.1 x (List.mem_singleton_self x)) hreaches with hy | hseen
    · exact hy
    · obtain ⟨z, hz, -⟩ := hseen
      exact absurd hz (Set.notMem_empty z)

end DepthFirst

/-- The search with a stack is a search by recursion, which comes to an end. What is in no pool
leads nowhere. -/
theorem exists_depthFirst [DecidableEq α] {next : α → List α} {nodes : List α}
    (hnext : ∀ x, x ∉ nodes → next x = []) {pool stack : List α} {seen : Set α}
    (hpool : ∀ x, x ∈ pool ↔ x ∈ nodes ∧ x ∉ seen) :
    ∃ order, DepthFirst next seen stack order ∧
      preorder next pool stack = order.filter (· ∈ nodes) := by
  fun_induction preorder next pool stack generalizing seen with
  | case1 => exact ⟨[], .done, rfl⟩
  | case2 pool x rest hx ih =>
    obtain ⟨hnode, hseen⟩ := (hpool x).1 hx
    obtain ⟨order, horder, heq⟩ := @ih (insert x seen) (by
      intro y
      rw [mem_without, hpool, Set.mem_insert_iff]
      tauto)
    obtain ⟨below, last, rfl, hbelow, hlast⟩ := horder.of_append
    refine ⟨x :: (below ++ last), .enter hseen hbelow hlast, ?_⟩
    rw [heq]
    exact (List.filter_cons_of_pos (by simpa using hnode)).symm
  | case3 pool x rest hx ih =>
    by_cases hseen : x ∈ seen
    · obtain ⟨order, horder, heq⟩ := ih hpool
      exact ⟨order, .again hseen horder, heq⟩
    · -- the node is entered, but there is nothing behind it
      have hnode : x ∉ nodes := fun hnode => hx ((hpool x).2 ⟨hnode, hseen⟩)
      obtain ⟨order, horder, heq⟩ := @ih (insert x seen) (by
        intro y
        rw [hpool, Set.mem_insert_iff, not_or]
        constructor
        · rintro ⟨hy, hunseen⟩
          exact ⟨hy, fun heq => hnode (heq ▸ hy), hunseen⟩
        · rintro ⟨hy, -, hunseen⟩
          exact ⟨hy, hunseen⟩)
      have hbelow : DepthFirst next (insert x seen) (next x) [] := by
        rw [hnext x hnode]
        exact .done
      refine ⟨x :: ([] ++ order), .enter hseen hbelow ?_, ?_⟩
      · simpa using horder
      · rw [List.filter_cons_of_neg (by simpa using hnode), heq]
        rfl

/-- Where all nodes have their successors among the nodes, the search with a stack enters what the
recursion enters. -/
theorem depthFirst_preorder [DecidableEq α] {next : α → List α} {nodes : List α}
    (hnext : ∀ x ∈ nodes, ∀ y ∈ next x, y ∈ nodes) {pool stack : List α} {seen : Set α}
    (hpool : ∀ x, x ∈ pool ↔ x ∈ nodes ∧ x ∉ seen) (hstack : ∀ x ∈ stack, x ∈ nodes) :
    DepthFirst next seen stack (preorder next pool stack) := by
  fun_induction preorder next pool stack generalizing seen with
  | case1 => exact .done
  | case2 pool x rest hx ih =>
    obtain ⟨hnode, hseen⟩ := (hpool x).1 hx
    have horder := @ih (insert x seen) (by
      intro y
      rw [mem_without, hpool, Set.mem_insert_iff]
      tauto) (by
      intro y hy
      exact (List.mem_append.1 hy).elim (hnext x hnode y)
        fun hy => hstack y (List.mem_cons_of_mem _ hy))
    obtain ⟨below, last, heq, hbelow, hlast⟩ := horder.of_append
    rw [heq]
    exact .enter hseen hbelow hlast
  | case3 pool x rest hx ih =>
    have hseen : x ∈ seen := by
      by_contra hseen
      exact hx ((hpool x).2 ⟨hstack x List.mem_cons_self, hseen⟩)
    exact .again hseen (ih hpool fun y hy => hstack y (List.mem_cons_of_mem _ hy))

/-! ## Ways without cycles -/

/-- There are ways from no node back to it. -/
def Acyclic (next : α → List α) : Prop := ∀ x, ∀ y ∈ next x, ¬ Reaches next y x

theorem Acyclic.of_rank {next : α → List α} (rank : α → Nat)
    (h : ∀ x, ∀ y ∈ next x, rank y < rank x) : Acyclic next := by
  intro x y hy hreaches
  have hle : rank x ≤ rank y := by
    clear hy
    induction hreaches with
    | refl => exact Nat.le_refl _
    | @tail z w _ hw ih => exact (Nat.le_of_lt (h z w hw)).trans ih
  exact Nat.not_lt.2 hle (h x y hy)

/-- The first way from a node to `y` takes at each node the first successor that leads to `y`. This
way goes through `x`. -/
inductive OnFirstWay (next : α → List α) (y x : α) : α → Prop
  | here (h : Reaches next x y) : OnFirstWay next y x x
  | step {n c : α} {before after : List α} (hnext : next n = before ++ c :: after)
      (hbefore : ∀ d ∈ before, ¬ Reaches next d y) (hc : Reaches next c y)
      (rest : OnFirstWay next y x c) : OnFirstWay next y x n

namespace OnFirstWay

variable {next : α → List α} {n x y : α}

/-- Nothing else is on the first way from a node to itself. -/
theorem eq_of_acyclic (hacyclic : Acyclic next) (h : OnFirstWay next y x y) : x = y := by
  cases h with
  | here _ => rfl
  | step hnext _ hc _ =>
    exact absurd hc (hacyclic y _ (hnext ▸ List.mem_append_right _ List.mem_cons_self))

/-- The first of the successors that lead to a node is determined. -/
theorem first_unique {xs before before' after after' : List α} {c c' : α} {P : α → Prop}
    (h : xs = before ++ c :: after) (hbefore : ∀ d ∈ before, ¬ P d) (hc : P c)
    (h' : xs = before' ++ c' :: after') (hbefore' : ∀ d ∈ before', ¬ P d) (hc' : P c') : c = c' := by
  induction before generalizing xs before' with
  | nil =>
    cases before' with
    | nil =>
      rw [h] at h'
      exact (List.cons.inj h').1
    | cons d before' =>
      rw [h] at h'
      exact absurd hc ((List.cons.inj h').1 ▸ hbefore' d List.mem_cons_self)
  | cons d before ih =>
    cases before' with
    | nil =>
      rw [h'] at h
      exact absurd hc' ((List.cons.inj h).1 ▸ hbefore d List.mem_cons_self)
    | cons d' before' =>
      rw [h] at h'
      obtain ⟨rfl, hrest⟩ := List.cons.inj h'
      exact ih rfl (fun e he => hbefore e (List.mem_cons_of_mem _ he)) hrest
        fun e he => hbefore' e (List.mem_cons_of_mem _ he)

/-- The first way from a node goes on with the first successor that leads on. -/
theorem iff_of_next {before after : List α} {c : α} (hnext : next n = before ++ c :: after)
    (hbefore : ∀ d ∈ before, ¬ Reaches next d y) (hc : Reaches next c y) :
    OnFirstWay next y x n ↔ x = n ∨ OnFirstWay next y x c := by
  constructor
  · intro h
    cases h with
    | here _ => exact .inl rfl
    | step hnext' hbefore' hc' rest =>
      exact .inr (first_unique hnext' hbefore' hc' hnext hbefore hc ▸ rest)
  · rintro (rfl | h)
    · exact .here (.head (hnext ▸ List.mem_append_right _ List.mem_cons_self) hc)
    · exact .step hnext hbefore hc h

end OnFirstWay

/-- Of the nodes in a list that lead to `y` there is a first one. -/
theorem exists_first {P : α → Prop} {xs : List α} {x : α} (hx : x ∈ xs) (h : P x) :
    ∃ before c after, xs = before ++ c :: after ∧ (∀ d ∈ before, ¬ P d) ∧ P c := by
  induction xs with
  | nil => cases hx
  | cons y ys ih =>
    by_cases hy : P y
    · exact ⟨[], y, ys, rfl, by simp, hy⟩
    · have hmem : x ∈ ys := (List.mem_cons.1 hx).resolve_left fun heq => hy (heq ▸ h)
      obtain ⟨before, c, after, rfl, hbefore, hc⟩ := ih hmem
      exact ⟨y :: before, c, after, rfl, List.forall_mem_cons.2 ⟨hy, hbefore⟩, hc⟩

/-- A node that leads to another one has a first successor that does. -/
theorem exists_first_next {next : α → List α} {n y : α} (h : Reaches next n y) (hne : n ≠ y) :
    ∃ before c after, next n = before ++ c :: after ∧ (∀ d ∈ before, ¬ Reaches next d y) ∧
      Reaches next c y := by
  rcases Relation.ReflTransGen.cases_head h with heq | ⟨m, hm, hmy⟩
  · exact absurd heq hne
  · exact exists_first hm hmy

/-! ## What is entered first -/

/-- One element of a list stands before another one. -/
def Before (x y : α) (xs : List α) : Prop := [x, y].Sublist xs

theorem before_cons_iff {x y z : α} {xs : List α} :
    Before x y (z :: xs) ↔ x = z ∧ y ∈ xs ∨ Before x y xs := by
  rw [Before, List.sublist_cons_iff, or_comm]
  refine or_congr ⟨?_, ?_⟩ Iff.rfl
  · rintro ⟨rest, heq, hrest⟩
    cases heq
    exact ⟨rfl, List.singleton_sublist.1 hrest⟩
  · rintro ⟨rfl, hy⟩
    exact ⟨[y], rfl, List.singleton_sublist.2 hy⟩

/-- Elements of the second list stand before none of the first. -/
theorem before_append_left_iff {x y : α} {xs ys : List α} (hy : y ∉ ys) :
    Before x y (xs ++ ys) ↔ Before x y xs := by
  refine ⟨fun h => ?_, fun h => h.trans (List.sublist_append_left xs ys)⟩
  obtain ⟨front, back, heq, hfront, hback⟩ := List.sublist_append_iff.1 h
  rcases List.eq_nil_or_concat back with rfl | ⟨init, last, rfl⟩
  · rw [List.append_nil] at heq
    rwa [Before, heq]
  · rw [List.concat_eq_append, ← List.append_assoc] at heq
    have hlast : y = last := by simpa using congrArg List.getLast? heq
    exact absurd (hback.subset (by simp [hlast])) hy

theorem before_append_right_iff {x y : α} {xs ys : List α} (hx : x ∉ xs) :
    Before x y (xs ++ ys) ↔ Before x y ys := by
  refine ⟨fun h => ?_, fun h => h.trans (List.sublist_append_right xs ys)⟩
  obtain ⟨front, back, heq, hfront, hback⟩ := List.sublist_append_iff.1 h
  cases front with
  | nil =>
    rw [List.nil_append] at heq
    rwa [Before, heq]
  | cons z front =>
    obtain ⟨rfl, -⟩ := List.cons.inj heq
    exact absurd (hfront.subset List.mem_cons_self) hx

/-- What stands before an element of a list without repetitions is what comes in front of it. -/
theorem before_append_cons_iff {x y : α} {front back : List α}
    (h : (front ++ y :: back).Nodup) : Before x y (front ++ y :: back) ↔ x ∈ front := by
  induction front with
  | nil =>
    have hy : y ∉ back := (List.nodup_cons.1 h).1
    rw [List.nil_append, before_cons_iff]
    constructor
    · rintro (⟨-, hmem⟩ | hbefore)
      · exact absurd hmem hy
      · exact absurd (hbefore.subset (by simp)) hy
    · rintro ⟨⟩
  | cons z front ih =>
    rw [List.cons_append, before_cons_iff, ih (List.nodup_cons.1 h).2, List.mem_cons]
    exact or_congr (and_iff_left (by simp)) Iff.rfl

/-- Nothing stands before the first element of a list without repetitions. -/
theorem not_before_head {x y : α} {ys : List α} (h : (y :: ys).Nodup) : ¬ Before x y (y :: ys) := by
  rw [← List.nil_append (y :: ys)] at h ⊢
  rw [before_append_cons_iff h]
  exact List.not_mem_nil

namespace DepthFirst

variable {next : α → List α} {seen : Set α} {xs order : List α} {x y : α}

/-- A search whose ways to `y` go through nothing seen before enters `y`, and of the nodes that lead
to `y` it enters those first that are on the first way. -/
theorem before_iff_of_first (hacyclic : Acyclic next) (h : DepthFirst next seen xs order)
    (hseen : ∀ z ∈ seen, (∃ n ∈ xs, Reaches next n z) → ¬ Reaches next z y)
    {before after : List α} {c : α} (hxs : xs = before ++ c :: after)
    (hbefore : ∀ d ∈ before, ¬ Reaches next d y) (hc : Reaches next c y) (hxy : Reaches next x y)
    (hne : x ≠ y) : y ∈ order ∧ (Before x y order ↔ OnFirstWay next y x c) := by
  induction h generalizing before c after with
  | done => simp at hxs
  | @again seen n xs order hn rest ih =>
    have hstays := hseen n hn ⟨n, List.mem_cons_self, .refl⟩
    cases before with
    | nil =>
      cases hxs
      exact absurd hc hstays
    | cons d before =>
      obtain ⟨rfl, htail⟩ := List.cons.inj hxs
      refine ih ?_ htail (fun e he => hbefore e (List.mem_cons_of_mem _ he)) hc
      rintro z hz ⟨m, hm, hmz⟩
      exact hseen z hz ⟨m, List.mem_cons_of_mem _ hm, hmz⟩
  | @enter seen n xs below order hn inner rest ihInner ihRest =>
    have hbelow : ∀ z ∈ n :: below, Reaches next n z := by
      rintro z hz
      rcases List.mem_cons.1 hz with rfl | hz
      · exact .refl
      · obtain ⟨m, hm, hmz⟩ := inner.exists_reaches z hz
        exact .head hm hmz
    have hnodup := (DepthFirst.enter hn inner rest).nodup.2
    rw [← List.cons_append] at hnodup ⊢
    cases before with
    | cons d before =>
      -- nothing of what is entered first leads to `y`
      obtain ⟨rfl, htail⟩ := List.cons.inj hxs
      have hstays : ¬ Reaches next n y := hbefore n List.mem_cons_self
      have hrest := ihRest (by
        rintro z hz ⟨m, hm, hmz⟩ hzy
        rcases hz with (rfl | hz) | hz
        · exact hstays hzy
        · exact hseen z hz ⟨m, List.mem_cons_of_mem _ hm, hmz⟩ hzy
        · exact hstays ((hbelow z (List.mem_cons_of_mem _ hz)).trans hzy)) htail
        (fun e he => hbefore e (List.mem_cons_of_mem _ he)) hc
      refine ⟨List.mem_append_right _ hrest.1, ?_⟩
      rw [before_append_right_iff fun hx => hstays ((hbelow x hx).trans hxy)]
      exact hrest.2
    | nil =>
      obtain ⟨rfl, -⟩ := List.cons.inj hxs
      by_cases hny : n = y
      · -- the first node is `y` itself
        subst hny
        rw [List.cons_append] at hnodup ⊢
        exact ⟨List.mem_cons_self, iff_of_false (not_before_head hnodup)
          fun hway => hne (hway.eq_of_acyclic hacyclic)⟩
      · -- the way goes on with a successor of the node
        obtain ⟨before, c, after, hnext, hbefore', hc'⟩ := exists_first_next hc hny
        obtain ⟨hy, hiff⟩ := ihInner (by
          rintro z (rfl | hz) ⟨m, hm, hmz⟩
          · exact absurd hmz (hacyclic z m hm)
          · exact hseen z hz ⟨n, List.mem_cons_self, .head hm hmz⟩) hnext hbefore' hc'
        have hlast : y ∉ order := by
          intro hmem
          exact (List.nodup_append.1 hnodup).2.2 y (List.mem_cons_of_mem _ hy) y hmem rfl
        refine ⟨List.mem_append_left _ (List.mem_cons_of_mem _ hy), ?_⟩
        rw [before_append_left_iff hlast, before_cons_iff, OnFirstWay.iff_of_next hnext hbefore' hc',
          hiff]
        exact or_congr (and_iff_left hy) Iff.rfl

/-- A node that leads to another one is entered before it exactly if the first way to that one goes
through it. -/
theorem before_iff {n : α} (hacyclic : Acyclic next) (h : DepthFirst next ∅ [n] order)
    (hny : Reaches next n y) (hxy : Reaches next x y) (hne : x ≠ y) :
    Before x y order ↔ OnFirstWay next y x n :=
  (before_iff_of_first hacyclic h (fun z hz => absurd hz (Set.notMem_empty z))
    (List.nil_append [n]).symm (by simp) hny hxy hne).2

end DepthFirst

end AbiIndex
