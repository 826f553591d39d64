import AbiIndex.Tree.FileTree
import Mathlib.Data.List.Nodup

/-!
# Where paths and walks lead

In a directory no two entries have the same name, and none is called `..`. In such a tree a path
leads where its names lead once double dots are folded, and a walk visits a directory exactly if it
goes along every name on the way to it.

## Key results

- `Node.at?_foldDots_of_follow`: a path that can be followed leads to the node at its folded names
- `Node.mem_walk_iff`: the directories that a walk visits
-/

namespace AbiIndex

namespace Path

/-- The path that some names lead to from `p`. -/
def below (p : Path) (names : List String) : Path := { p with names := p.names ++ names }

/-- The names from the top to what a path means. -/
def target (p : Path) : List String := foldDots p.names

@[simp] theorem below_nil (p : Path) : p.below [] = p := by
  simp [below]

theorem below_cons (p : Path) (name : String) (names : List String) :
    p.below (name :: names) = (p.child name).below names := by
  simp [below, child]

@[simp] theorem parent_child (p : Path) (name : String) : (p.child name).parent = p := by
  simp [parent, child]

@[simp] theorem name_child (p : Path) (name : String) : (p.child name).name = name := by
  simp [Path.name, child]

/-- Names without double dots are kept. -/
theorem foldDots_append {names : List String} (h : ".." ∉ names) (before : List String) :
    foldDots (before ++ names) = foldDots before ++ names := by
  rw [foldDots, List.foldl_append]
  show names.foldl _ (foldDots before) = _
  -- the fold goes on from whatever the first names leave
  generalize foldDots before = seen
  induction names generalizing seen with
  | nil => simp
  | cons name names ih =>
    rw [List.mem_cons, not_or] at h
    rw [List.foldl_cons, if_neg (Ne.symm h.1), ih h.2, List.append_assoc, List.singleton_append]

theorem foldDots_concat (names : List String) (name : String) :
    foldDots (names ++ [name]) =
      if name = ".." then (foldDots names).dropLast else foldDots names ++ [name] := by
  simp only [foldDots, List.foldl_append, List.foldl_cons, List.foldl_nil]

theorem foldDots_of_not_mem {names : List String} (h : ".." ∉ names) : foldDots names = names :=
  foldDots_append h []

/-- No double dot is left. -/
theorem not_mem_foldDots (names : List String) : ".." ∉ foldDots names := by
  have hstep : ∀ (names seen : List String), ".." ∉ seen →
      ".." ∉ names.foldl (fun seen name => if name = ".." then seen.dropLast else seen ++ [name])
        seen := by
    intro names
    induction names with
    | nil => exact fun seen h => h
    | cons name names ih =>
      intro seen h
      rw [List.foldl_cons]
      apply ih
      split
      · exact fun hmem => h (List.dropLast_subset _ hmem)
      · rename_i hname
        rw [List.mem_append, List.mem_singleton, not_or]
        exact ⟨h, fun heq => hname heq.symm⟩
  exact hstep names [] (by simp)

end Path

namespace Node

/-- A tree as there is one on a disk: the entries of a directory have different names, and none is
called `..`. -/
inductive Proper : Node → Prop
  | file (bytes : List UInt8) : Proper (file bytes)
  | dangling : Proper dangling
  | dir {es : List (String × Node)} (nodup : (es.map (·.1)).Nodup) (dots : ∀ e ∈ es, e.1 ≠ "..")
      (below : ∀ e ∈ es, Proper e.2) : Proper (dir es)

/-- The node that some names lead to, one entry after the other. -/
def at? : Node → List String → Option Node
  | n, [] => some n
  | n, name :: names => (n.entry? name).bind (·.at? names)

theorem at?_append (n : Node) (xs ys : List String) :
    n.at? (xs ++ ys) = (n.at? xs).bind (·.at? ys) := by
  induction xs generalizing n with
  | nil => rfl
  | cons name xs ih =>
    rw [List.cons_append, at?, at?, Option.bind_assoc]
    exact congrArg _ (funext ih)

theorem entry?_eq_some {n : Node} {name : String} {child : Node} (h : n.entry? name = some child) :
    ∃ es, n = dir es ∧ (name, child) ∈ es := by
  cases n with
  | file bytes => cases h
  | dangling => cases h
  | dir es =>
    rw [ entry?, Option.map_eq_some_iff] at h
    obtain ⟨⟨name', child'⟩, hfind, rfl⟩ := h
    have hname : name' = name := by simpa using List.find?_some hfind
    subst hname
    exact ⟨es, rfl, List.mem_of_find?_eq_some hfind⟩

theorem Proper.of_entry? {n : Node} (h : n.Proper) {name : String} {child : Node}
    (hentry : n.entry? name = some child) : name ≠ ".." ∧ child.Proper := by
  obtain ⟨es, rfl, hmem⟩ := entry?_eq_some hentry
  cases h with
  | dir nodup dots below => exact ⟨dots _ hmem, below _ hmem⟩

/-- In a proper directory each entry is found by its name. -/
theorem Proper.entry?_of_mem {es : List (String × Node)} (h : Proper (.dir es))
    {e : String × Node} (he : e ∈ es) : Node.entry? (.dir es) e.1 = some e.2 := by
  cases h with
  | dir nodup dots below =>
    cases hfind : es.find? (·.1 = e.1) with
    | none =>
      have := List.find?_eq_none.1 hfind e he
      simp at this
    | some e' =>
      have hname : e'.1 = e.1 := by simpa using List.find?_some hfind
      have heq : e' = e :=
        List.inj_on_of_nodup_map nodup (List.mem_of_find?_eq_some hfind) he hname
      rw [ entry?, entries, hfind, heq]
      rfl

/-- What directories pass on to their entries, and what they say about the names of these, holds
along some names. -/
theorem forall_of_at? {P : Node → Prop} {Q : String → Prop}
    (hentries : ∀ es, P (dir es) → ∀ e ∈ es, Q e.1 ∧ P e.2) {n m : Node} {names : List String}
    (h : P n) (hat : n.at? names = some m) : (∀ name ∈ names, Q name) ∧ P m := by
  induction names generalizing n with
  | nil =>
    cases hat
    exact ⟨List.forall_mem_nil _, h⟩
  | cons name names ih =>
    rw [at?, Option.bind_eq_some_iff] at hat
    obtain ⟨child, hentry, hat⟩ := hat
    obtain ⟨es, rfl, hmem⟩ := entry?_eq_some hentry
    obtain ⟨hname, hchild⟩ := hentries es h _ hmem
    obtain ⟨hnames, hm⟩ := ih hchild hat
    exact ⟨List.forall_mem_cons.2 ⟨hname, hnames⟩, hm⟩

theorem Proper.of_at? {n : Node} (h : n.Proper) {names : List String} {m : Node}
    (hat : n.at? names = some m) : ".." ∉ names ∧ m.Proper := by
  have hentries : ∀ es, Proper (Node.dir es) → ∀ e ∈ es, e.1 ≠ ".." ∧ Proper e.2 := by
    intro es hes e he
    cases hes with
    | dir nodup dots below => exact ⟨dots e he, below e he⟩
  obtain ⟨hnames, hm⟩ := forall_of_at? (Q := (· ≠ "..")) hentries h hat
  exact ⟨fun hdots => hnames _ hdots rfl, hm⟩

/-- What some names lead through is a directory. -/
theorem isDir_of_at?_cons {n m : Node} {name : String} {names : List String}
    (h : n.at? (name :: names) = some m) : n.isDir := by
  rw [at?, Option.bind_eq_some_iff] at h
  obtain ⟨child, hentry, -⟩ := h
  obtain ⟨es, rfl, -⟩ := entry?_eq_some hentry
  rfl

/-! ## Following a path -/

/-- The nodes on the way along some names: `n` is at their end, and `above` are those before it,
the nearest first. -/
inductive Trail (top : Node) : List String → Node → List Node → Prop
  | start : Trail top [] top []
  | step {names : List String} {n : Node} {above : List Node} {name : String} {child : Node}
      (trail : Trail top names n above) (entry : n.entry? name = some child) :
      Trail top (names ++ [name]) child (n :: above)

theorem Trail.at?_eq {top n : Node} {names : List String} {above : List Node}
    (h : Trail top names n above) : top.at? names = some n := by
  induction h with
  | start => rfl
  | step trail entry ih => simp [at?_append, ih, at?, entry]

/-- One step into a directory. -/
theorem follow_dir_cons (above : List Node) (es : List (String × Node)) (name : String)
    (rest : List String) : (dir es).follow above (name :: rest) =
      if name = ".." then
        match above with
        | [] => (dir es).follow [] rest
        | parent :: further => parent.follow further rest
      else if maxNameBytes < name.utf8ByteSize then .error .nameTooLong
      else
        match entry? (dir es) name with
        | none => .error .notFound
        | some child => child.follow (dir es :: above) rest :=
  follow.eq_def above (dir es) (name :: rest)

/-- A path that can be followed leaves a trail to its end, from which every longer path goes on. -/
theorem Trail.follow_append {top n m : Node} {seen names : List String} {above : List Node}
    (h : Trail top seen n above) (hfollow : n.follow above names = .ok m) :
    ∃ above', Trail top (names.foldl
        (fun seen name => if name = ".." then seen.dropLast else seen ++ [name]) seen) m above' ∧
      ∀ further, n.follow above (names ++ further) = m.follow above' further := by
  induction names generalizing seen n above with
  | nil =>
    rw [Node.follow] at hfollow
    cases hfollow
    exact ⟨above, h, fun _ => rfl⟩
  | cons name names ih =>
    rw [List.foldl_cons]
    cases n with
    | file bytes => cases hfollow
    | dangling => cases hfollow
    | dir es =>
      simp only [List.cons_append, follow_dir_cons] at hfollow ⊢
      by_cases hdots : name = ".."
      · -- back to the directory that was come from
        simp only [if_pos hdots] at hfollow ⊢
        cases h with
        | start => exact ih .start hfollow
        | step trail entry =>
          rw [List.dropLast_concat]
          exact ih trail hfollow
      -- one entry further down
      simp only [if_neg hdots] at hfollow ⊢
      by_cases hlong : maxNameBytes < name.utf8ByteSize
      · rw [if_pos hlong] at hfollow
        cases hfollow
      simp only [if_neg hlong] at hfollow ⊢
      cases hentry : entry? (dir es) name with
      | none =>
        rw [hentry] at hfollow
        cases hfollow
      | some child =>
        rw [hentry] at hfollow
        exact ih (h.step hentry) hfollow

/-- What a path leads to is at the end of its folded names. -/
theorem at?_foldDots_of_follow {top m : Node} {names : List String}
    (h : follow [] top names = .ok m) : top.at? (Path.foldDots names) = some m := by
  obtain ⟨above, trail, -⟩ := Trail.start.follow_append h
  exact trail.at?_eq

end Node

/-- What is found at a path is what its names lead to. -/
theorem FileTree.at?_of_locate {t : FileTree} {p : Path} {n : Node} (h : t.locate p = .ok n) :
    t.top.at? (Path.foldDots (t.names p)) = some n := by
  rw [FileTree.locate, FileTree.follow] at h
  split at h
  · cases h
  split at h
  · cases h
  split at h
  · rename_i hfollow
    cases h
    exact Node.at?_foldDots_of_follow hfollow
  · cases h

namespace Node

/-! ## Walks -/

/-- Whether a walk goes along the names from a path on. -/
def goesAlong (descend : Path → String → Bool) : Path → List String → Bool
  | _, [] => true
  | path, name :: names => descend path name && goesAlong descend (path.child name) names

theorem goesAlong_append (descend : Path → String → Bool) (path : Path) (xs ys : List String) :
    goesAlong descend path (xs ++ ys) =
      (goesAlong descend path xs && goesAlong descend (path.below xs) ys) := by
  induction xs generalizing path with
  | nil => simp [goesAlong]
  | cons name xs ih =>
    rw [List.cons_append, goesAlong, goesAlong, ih, Path.below_cons, Bool.and_assoc]

/-- The walk stops at a directory, and at what it visits in the entries that it goes into. -/
theorem mem_walk_dir {descend : Path → String → Bool} {path : Path} {es : List (String × Node)}
    {stop : Stop} : stop ∈ (dir es).walk descend path ↔
      stop = ⟨path, (dir es).namesOf (!·.isDir)⟩ ∨
      ∃ e ∈ es, descend path e.1 ∧ stop ∈ e.2.walk descend (path.child e.1) := by
  rw [walk, List.mem_cons]
  apply or_congr Iff.rfl
  rw [List.mem_flatMap]
  constructor
  · rintro ⟨visit, hvisit, hstop⟩
    -- the order of the visits does not matter
    rw [List.mem_mergeSort, List.mem_map] at hvisit
    obtain ⟨e, he, rfl⟩ := hvisit
    dsimp only at hstop
    split at hstop
    · exact ⟨e, he, ‹_›, hstop⟩
    · cases hstop
  · rintro ⟨e, he, hdescend, hstop⟩
    refine ⟨_, List.mem_mergeSort.2 (List.mem_map_of_mem he), ?_⟩
    dsimp only
    rwa [if_pos hdescend]

/-- A directory that lists its entries by name is walked in the order of its entries. -/
theorem walk_dir_of_pairwise {descend : Path → String → Bool} {path : Path}
    {es : List (String × Node)} (h : es.Pairwise fun a b => Text.noLater a.1 b.1) :
    (dir es).walk descend path = ⟨path, (dir es).namesOf (!·.isDir)⟩ ::
      es.flatMap fun e => if descend path e.1 then e.2.walk descend (path.child e.1) else [] := by
  rw [walk, List.mergeSort_of_pairwise]
  · rw [List.flatMap_map]
  · exact List.pairwise_map.2 h

/-- The directories that a walk visits are those that it goes along every name to. -/
theorem mem_walk_iff {n : Node} (hn : n.Proper) (descend : Path → String → Bool) (path : Path)
    (stop : Stop) : stop ∈ n.walk descend path ↔
      ∃ names m, n.at? names = some m ∧ m.isDir ∧ goesAlong descend path names ∧
        stop = ⟨path.below names, m.namesOf (!·.isDir)⟩ := by
  constructor
  · intro hstop
    -- by induction on the tree: each stop is its root, or lies in one of the entries
    induction hn generalizing path with
    | file bytes => simp [walk] at hstop
    | dangling => simp [walk] at hstop
    | @dir es nodup dots below ih =>
      rcases mem_walk_dir.1 hstop with rfl | ⟨e, he, hdescend, hstop⟩
      · exact ⟨[], dir es, rfl, rfl, rfl, by rw [Path.below_nil]⟩
      · obtain ⟨names, m, hat, hm, hgoes, rfl⟩ := ih e he (path.child e.1) hstop
        refine ⟨e.1 :: names, m, ?_, hm, ?_, by rw [Path.below_cons]⟩
        · rw [at?, (Proper.dir nodup dots below).entry?_of_mem he]
          exact hat
        · rw [goesAlong, hdescend, hgoes]
          rfl
  · rintro ⟨names, m, hat, hm, hgoes, rfl⟩
    -- by induction on the way down
    induction names generalizing n path with
    | nil =>
      cases hat
      cases m with
      | file bytes => cases hm
      | dangling => cases hm
      | dir es =>
        rw [Path.below_nil]
        exact mem_walk_dir.2 (.inl rfl)
    | cons name names ih =>
      rw [at?, Option.bind_eq_some_iff] at hat
      obtain ⟨child, hentry, hat⟩ := hat
      rw [goesAlong, Bool.and_eq_true] at hgoes
      have hchild := (hn.of_entry? hentry).2
      obtain ⟨es, rfl, hmem⟩ := entry?_eq_some hentry
      rw [Path.below_cons]
      exact mem_walk_dir.2 (.inr ⟨(name, child), hmem, hgoes.1, ih hchild _ hat hgoes.2⟩)

end Node

end AbiIndex
