import AbiIndex.Abi.Resolution
import AbiIndex.Proofs.CanonicalForm
import AbiIndex.Proofs.ListFacts
import Mathlib.Data.List.Perm.Basic

/-!
# The order of declarations

Where every scope declares a name once, what a name stands for does not depend on the order in which
files, contracts and the names in them are declared.

A registry is compared with another one by its outline: what tells its definitions and contracts
apart, together with what the lookups read of them. Reordering declarations permutes the outline,
and each lookup gives the same for permuted outlines. Only the lookup in the whole project may find
another contract or another enum of the same name, which are the same to every type.

## Key results

- `Registry.sameOutline_ofUnits`: registries of reordered files have the same outline
- `Registry.SameOutline.meaning_resolvePath`: registries with the same outline give every name the
  same meaning
- `canonicalWithin_congr`: the canonical form of a type depends on the meaning of names alone
- `resolve_reordered`: every declaration has the same outcome
-/

namespace AbiIndex

/-! ## Lists in another order -/

section Lists

variable {α β : Type}

/-- The lists hold related elements, in whatever order. -/
def Shuffled (R : α → α → Prop) (xs ys : List α) : Prop :=
  ∃ zs, xs.Perm zs ∧ List.Forall₂ R zs ys

namespace Shuffled

variable {R : α → α → Prop} {xs ys : List α}

theorem flatMap_perm (h : Shuffled R xs ys) {f g : α → List β}
    (hfg : ∀ x y, R x y → (f x).Perm (g y)) : (xs.flatMap f).Perm (ys.flatMap g) := by
  obtain ⟨zs, hperm, hrel⟩ := h
  refine (hperm.flatMap_right f).trans ?_
  clear hperm
  induction hrel with
  | nil => exact .nil
  | cons hxy _ ih => exact (hfg _ _ hxy).append ih

theorem map_perm (h : Shuffled R xs ys) {f : α → β} (hf : ∀ x y, R x y → f x = f y) :
    (xs.map f).Perm (ys.map f) := by
  rw [← List.flatMap_singleton' (xs.map f), ← List.flatMap_singleton' (ys.map f),
    List.flatMap_map, List.flatMap_map]
  exact h.flatMap_perm fun x y hxy => by rw [hf x y hxy]

end Shuffled

/-- What at most one element of a list answers to is found in any order. -/
theorem find?_eq_of_perm {xs ys : List α} {p : α → Bool} (h : xs.Perm ys)
    (hp : ∀ x ∈ xs, ∀ y ∈ xs, p x → p y → x = y) : xs.find? p = ys.find? p := by
  cases hys : ys.find? p with
  | none =>
    rw [List.find?_eq_none] at hys ⊢
    exact fun x hx => hys x (h.mem_iff.1 hx)
  | some y =>
    have hy : y ∈ xs := h.mem_iff.2 (List.mem_of_find?_eq_some hys)
    have hpy : p y := List.find?_some hys
    cases hxs : xs.find? p with
    | none => exact absurd hpy (List.find?_eq_none.1 hxs y hy)
    | some x => rw [hp x (List.mem_of_find?_eq_some hxs) y hy (List.find?_some hxs) hpy]

/-- The element of a list with only one. -/
def only? : List α → Option α
  | [x] => some x
  | _ => none

/-- A list has only one element if it has this element, once, and no other one. -/
theorem only?_eq_some_iff {xs : List α} {x : α} (h : xs.Nodup) :
    only? xs = some x ↔ x ∈ xs ∧ ∀ y ∈ xs, y = x := by
  match xs, h with
  | [], _ => simp [only?]
  | [y], _ => simp [only?, eq_comm]
  | y :: z :: ys, h =>
    refine iff_of_false (by simp [only?]) ?_
    rintro ⟨-, hall⟩
    have hyz : y = z := (hall y (by simp)).trans (hall z (by simp)).symm
    exact (List.nodup_cons.1 h).1 (hyz ▸ List.mem_cons_self)

/-- The only element of a list is the only one in any order. -/
theorem map_only?_of_perm {f : α → β} {xs ys : List α} (h : (xs.map f).Perm (ys.map f)) :
    (only? xs).map f = (only? ys).map f := by
  have hlength := h.length_eq
  match xs, ys with
  | [], [] => rfl
  | [x], [y] => exact List.head?_eq_some_iff.2 ⟨[], List.perm_singleton.1 h⟩
  | _ :: _ :: _, _ :: _ :: _ => rfl

/-- A depth-first search asks of its pool only which nodes it holds. -/
theorem preorder_congr [DecidableEq α] {next : α → List α} {pool pool' stack : List α}
    (h : ∀ x, x ∈ pool ↔ x ∈ pool') : preorder next pool stack = preorder next pool' stack := by
  fun_induction preorder next pool stack generalizing pool' with
  | case1 => rw [preorder]
  | case2 pool x rest hx ih =>
    rw [preorder, if_pos ((h x).1 hx), ih]
    intro y
    rw [mem_without, mem_without, h]
  | case3 pool x rest hx ih => rw [preorder, if_neg (fun hx' => hx ((h x).2 hx')), ih h]

end Lists

namespace Abi

open AbiIndex.Source

/-! ## Outlines -/

/-- What a definition is to a type that names it. Of a contract and of an enum only the kind
counts. -/
inductive Meaning where
  | contract
  | enum
  | other (d : Definition)

namespace Definition

def meaning (d : Definition) : Meaning :=
  match d.decl with
  | .contract _ => .contract
  | .enum _ => .enum
  | _ => .other d

/-- What tells a definition apart, and what it means. -/
def outline (d : Definition) : Identity × Meaning := (d.identity, d.meaning)

theorem meaning_eq_contract_iff {d : Definition} :
    d.meaning = .contract ↔ d.decl.isContract := by
  cases d with
  | mk scope decl => cases decl <;> simp [meaning, Defined.isContract]

theorem meaning_eq_enum_iff {d : Definition} : d.meaning = .enum ↔ d.decl.isEnum := by
  cases d with
  | mk scope decl => cases decl <;> simp [meaning, Defined.isEnum]

theorem eq_of_meaning_eq_other {d e : Definition} (h : d.meaning = .other e) : d = e := by
  cases d with
  | mk scope decl =>
    cases decl with
    | contract _ => cases h
    | enum _ => cases h
    | struct _ => exact Meaning.other.inj h
    | valueType _ => exact Meaning.other.inj h
    | constant _ => exact Meaning.other.inj h

end Definition

/-- What tells a contract apart, and its bases. -/
def Located.outline (c : Located) : (String × String) × List String :=
  ((c.path, c.decl.name), c.decl.bases)

namespace Registry

/-- The registries have the same definitions and contracts in outline, in whatever order. -/
structure SameOutline (reg reg' : Registry) : Prop where
  definitions : (reg.definitions.map Definition.outline).Perm
    (reg'.definitions.map Definition.outline)
  contracts : (reg.contracts.map Located.outline).Perm (reg'.contracts.map Located.outline)

/-- No two definitions and no two contracts with different outlines have the same identity. -/
structure Unambiguous (reg : Registry) : Prop where
  definitions : ∀ o ∈ reg.definitions.map Definition.outline,
    ∀ o' ∈ reg.definitions.map Definition.outline, o.1 = o'.1 → o = o'
  contracts : ∀ o ∈ reg.contracts.map Located.outline,
    ∀ o' ∈ reg.contracts.map Located.outline, o.1 = o'.1 → o = o'

/-! ## What lookups read of a registry -/

/-- The outline of what is found in a scope is found in the outline. -/
theorem outline_inScope (reg : Registry) (scope : Scope) (name : String) :
    (reg.inScope scope name).map Definition.outline =
      (reg.definitions.map Definition.outline).find? (·.1 = (scope, name)) := by
  rw [inScope, List.find?_map]
  congr 2
  funext d
  simp [Definition.outline, Definition.identity]

/-- The contracts that a name can stand for. -/
def candidates (reg : Registry) (name : String) : List Located :=
  reg.contracts.filter (·.decl.name = name)

theorem contract?_eq (reg : Registry) (name : String) (path : Option String) :
    reg.contract? name path = ((reg.candidates name).find? fun c => some c.path = path).or
      (only? (reg.candidates name)) := by
  unfold contract? candidates
  dsimp only
  split
  · rename_i c hc
    rw [hc]
    rfl
  · rename_i hnone
    rw [hnone, Option.none_or]
    generalize reg.contracts.filter (·.decl.name = name) = cs
    match cs with
    | [] => rfl
    | [_] => rfl
    | _ :: _ :: _ => rfl

theorem outline_candidates (reg : Registry) (name : String) :
    (reg.candidates name).map Located.outline =
      (reg.contracts.map Located.outline).filter (·.1.2 = name) := by
  rw [List.filter_map]
  rfl

theorem identity_of_find? {ds : List Definition} {id : Definition.Identity} {d : Definition}
    (h : ds.find? (·.identity = id) = some d) : d.identity = id := by
  simpa using List.find?_some h

/-- The definitions of a name have different identities. -/
theorem nodup_identity_named (reg : Registry) (name : String) :
    ((reg.named name).map Definition.identity).Nodup := by
  rw [named, List.map_filterMap]
  refine List.Nodup.filterMap ?_ (nodup_eraseDups _)
  intro id id' x hx hx'
  obtain ⟨d, hd, rfl⟩ := Option.map_eq_some_iff.1 hx
  obtain ⟨d', hd', heq⟩ := Option.map_eq_some_iff.1 hx'
  rw [← identity_of_find? hd, ← identity_of_find? hd', heq]

/-- All definitions of a name are found, up to their outline. -/
theorem mem_outline_named {reg : Registry} (hreg : reg.Unambiguous) {name : String}
    {o : Definition.Identity × Meaning} :
    o ∈ (reg.named name).map Definition.outline ↔
      o ∈ reg.definitions.map Definition.outline ∧ o.1.2 = name := by
  constructor
  · intro ho
    obtain ⟨d, hd, rfl⟩ := List.mem_map.1 ho
    refine ⟨List.mem_map_of_mem (mem_of_named hd), ?_⟩
    obtain ⟨id, -, hfind⟩ := List.mem_filterMap.1 hd
    have hmem := List.mem_reverse.1 (List.mem_of_find?_eq_some hfind)
    exact of_decide_eq_true (List.mem_filter.1 hmem).2
  · rintro ⟨ho, hname⟩
    obtain ⟨d, hd, rfl⟩ := List.mem_map.1 ho
    have hall : d ∈ reg.definitions.filter (·.name = name) :=
      List.mem_filter.2 ⟨hd, decide_eq_true hname⟩
    obtain ⟨e, he⟩ : ∃ e, (reg.definitions.filter (·.name = name)).reverse.find?
        (·.identity = d.identity) = some e := by
      rw [← Option.isSome_iff_exists, List.find?_isSome]
      exact ⟨d, List.mem_reverse.2 hall, by simp⟩
    -- the definition found has the identity asked for, and so the same outline
    have hmem : e ∈ reg.named name :=
      List.mem_filterMap.2 ⟨d.identity, List.mem_eraseDups.2 (List.mem_map_of_mem hall), he⟩
    have houtline := hreg.definitions e.outline (List.mem_map_of_mem (mem_of_named hmem))
      d.outline ho (identity_of_find? he)
    exact List.mem_map.2 ⟨e, hmem, houtline⟩

/-- Definitions are as good as one if they all mean a contract or all mean an enum. -/
theorem uniform_iff {ds : List Definition} :
    (ds.all (·.decl.isContract) || ds.all (·.decl.isEnum)) ↔
      ∃ m, (m = Meaning.contract ∨ m = Meaning.enum) ∧
        ∀ m' ∈ ds.map Definition.meaning, m' = m := by
  simp only [Bool.or_eq_true, List.all_eq_true, ← Definition.meaning_eq_contract_iff,
    ← Definition.meaning_eq_enum_iff, List.forall_mem_map]
  constructor
  · rintro (h | h)
    · exact ⟨_, .inl rfl, h⟩
    · exact ⟨_, .inr rfl, h⟩
  · rintro ⟨m, rfl | rfl, h⟩
    · exact .inl h
    · exact .inr h

theorem resolve_eq (reg : Registry) (scope : Scope) (name : String) :
    reg.resolve scope name = (scope.contract.bind fun c => reg.inChain (scope.path, c) name).elim
      ((reg.inScope ⟨scope.path, none⟩ name).elim (reg.unique name) .ok) .ok := by
  unfold resolve
  cases scope.contract.bind fun c => reg.inChain (scope.path, c) name with
  | some d => rfl
  | none => cases reg.inScope ⟨scope.path, none⟩ name <;> rfl

theorem resolvePath_pair (reg : Registry) (scope : Scope) (owner name : String) :
    reg.resolvePath scope [owner, name] = ((reg.contract? owner (some scope.path)).bind fun c =>
      reg.inChain (c.path, c.decl.name) name).elim (reg.unique name) .ok := by
  rw [resolvePath]
  cases (reg.contract? owner (some scope.path)).bind fun c =>
    reg.inChain (c.path, c.decl.name) name <;> rfl

/-- What is found, or else what is looked for elsewhere, means the same if both do. -/
theorem meaning_elim_congr {x x' : Option Definition} {y y' : Except TypeError Definition}
    (hx : x.map Definition.outline = x'.map Definition.outline)
    (hy : y.map Definition.meaning = y'.map Definition.meaning) :
    (x.elim y .ok).map Definition.meaning = (x'.elim y' .ok).map Definition.meaning := by
  match x, x' with
  | none, none => exact hy
  | some d, some d' => exact congrArg Except.ok (Prod.mk.inj (Option.some.inj hx)).2

/-! ## Lookups in registries with the same outline -/

namespace SameOutline

variable {reg reg' : Registry} (h : SameOutline reg reg') (hreg : reg.Unambiguous)

include h hreg

theorem unambiguous : reg'.Unambiguous where
  definitions := fun o ho o' ho' =>
    hreg.definitions o (h.definitions.mem_iff.2 ho) o' (h.definitions.mem_iff.2 ho')
  contracts := fun o ho o' ho' =>
    hreg.contracts o (h.contracts.mem_iff.2 ho) o' (h.contracts.mem_iff.2 ho')

theorem outline_inScope (scope : Scope) (name : String) :
    (reg.inScope scope name).map Definition.outline =
      (reg'.inScope scope name).map Definition.outline := by
  rw [Registry.outline_inScope, Registry.outline_inScope]
  apply find?_eq_of_perm h.definitions
  intro o ho o' ho' hid hid'
  simp only [decide_eq_true_eq] at hid hid'
  exact hreg.definitions o ho o' ho' (hid.trans hid'.symm)

theorem outline_contract? (name : String) (path : Option String) :
    (reg.contract? name path).map Located.outline =
      (reg'.contract? name path).map Located.outline := by
  have hperm : ((reg.candidates name).map Located.outline).Perm
      ((reg'.candidates name).map Located.outline) := by
    rw [outline_candidates, outline_candidates]
    exact h.contracts.filter _
  -- contracts of one name are told apart by their files
  have hfind := find?_eq_of_perm (p := fun o => some o.1.1 = path) hperm (by
    rw [outline_candidates]
    intro o ho o' ho' hpath hpath'
    obtain ⟨ho, hname⟩ := List.mem_filter.1 ho
    obtain ⟨ho', hname'⟩ := List.mem_filter.1 ho'
    simp only [decide_eq_true_eq] at hname hname' hpath hpath'
    exact hreg.contracts o ho o' ho' (Prod.ext (Option.some.inj (hpath.trans hpath'.symm))
      (hname.trans hname'.symm)))
  rw [List.find?_map, List.find?_map] at hfind
  rw [contract?_eq, contract?_eq, Option.map_or, Option.map_or, map_only?_of_perm hperm]
  exact congrArg (Option.or · _) hfind

/-- What is found under the same name has the same outline. -/
theorem contract?_cases (name : String) (path : Option String) :
    reg.contract? name path = none ∧ reg'.contract? name path = none ∨
      ∃ c c', reg.contract? name path = some c ∧ reg'.contract? name path = some c' ∧
        c.path = c'.path ∧ c.decl.name = c'.decl.name ∧ c.decl.bases = c'.decl.bases := by
  have heq := h.outline_contract? hreg name path
  cases hc : reg.contract? name path with
  | none =>
    rw [hc] at heq
    exact .inl ⟨rfl, Option.map_eq_none_iff.1 heq.symm⟩
  | some c =>
    rw [hc] at heq
    obtain ⟨c', hc', houtline⟩ := Option.map_eq_some_iff.1 heq.symm
    obtain ⟨hkey, hbases⟩ := Prod.mk.inj houtline
    obtain ⟨hpath, hname⟩ := Prod.mk.inj hkey
    exact .inr ⟨c, c', rfl, hc', hpath.symm, hname.symm, hbases.symm⟩

theorem bases_eq : reg.bases = reg'.bases := by
  -- of the contract that a name stands for only its file is read
  have hfile : ∀ name path, (reg.contract? name path).map Located.path =
      (reg'.contract? name path).map Located.path := by
    intro name path
    have := congrArg (Option.map fun o => o.1.1) (h.outline_contract? hreg name path)
    rwa [Option.map_map, Option.map_map] at this
  funext key
  rcases h.contract?_cases hreg key.2 (some key.1) with
    ⟨hc, hc'⟩ | ⟨c, c', hc, hc', hpath, -, hbases⟩
  · rw [bases, bases, hc, hc']
  · rw [bases, bases, hc, hc']
    dsimp only
    rw [hbases, hpath]
    congr 1
    funext base
    have := congrArg (Option.map fun file => (file, base)) (hfile base (some c'.path))
    rwa [Option.map_map, Option.map_map] at this

theorem chain_eq (key : String × String) : reg.chain key = reg'.chain key := by
  rw [chain, chain, h.bases_eq hreg]
  apply preorder_congr
  intro x
  have hkeys := (h.contracts.map Prod.fst).mem_iff (a := x)
  rw [List.map_map, List.map_map] at hkeys
  rw [List.mem_cons, List.mem_cons]
  exact or_congr Iff.rfl hkeys

theorem outline_inChain (key : String × String) (name : String) :
    (reg.inChain key name).map Definition.outline =
      (reg'.inChain key name).map Definition.outline := by
  rw [inChain, inChain, List.map_findSome?, List.map_findSome?, h.chain_eq hreg]
  congr 1
  funext ⟨path, contract⟩
  exact h.outline_inScope hreg _ _

theorem named_perm (name : String) :
    ((reg.named name).map Definition.outline).Perm ((reg'.named name).map Definition.outline) := by
  -- both lists are free of repetitions, so that it is enough to compare their members
  have hnodup : ∀ reg : Registry, ((reg.named name).map Definition.outline).Nodup := by
    intro reg
    apply List.Nodup.of_map Prod.fst
    rw [List.map_map]
    exact reg.nodup_identity_named name
  rw [List.perm_ext_iff_of_nodup (hnodup reg) (hnodup reg')]
  intro o
  rw [mem_outline_named hreg, mem_outline_named (h.unambiguous hreg), h.definitions.mem_iff]

theorem meaning_unique (name : String) :
    (reg.unique name).map Definition.meaning = (reg'.unique name).map Definition.meaning := by
  have hperm : ((reg.named name).map Definition.meaning).Perm
      ((reg'.named name).map Definition.meaning) := by
    have := (h.named_perm hreg name).map Prod.snd
    rwa [List.map_map, List.map_map] at this
  have hlength := hperm.length_eq
  rw [List.length_map, List.length_map] at hlength
  unfold unique
  generalize reg.named name = ds at hperm hlength ⊢
  generalize reg'.named name = ds' at hperm hlength ⊢
  match ds, ds' with
  | [], [] => rfl
  | [d], [d'] => exact congrArg Except.ok (List.cons.inj (List.perm_singleton.1 hperm)).1
  | d :: e :: more, d' :: e' :: more' =>
    have huniform : ((d :: e :: more).all (·.decl.isContract) ||
        (d :: e :: more).all (·.decl.isEnum)) ↔ ((d' :: e' :: more').all (·.decl.isContract) ||
        (d' :: e' :: more').all (·.decl.isEnum)) := by
      simp only [uniform_iff, hperm.mem_iff]
    dsimp only
    split
    · rename_i hall
      rw [if_pos (huniform.1 hall)]
      -- which of them is the first does not matter, since they all mean the same
      obtain ⟨m, -, hm⟩ := uniform_iff.1 hall
      have hd : d.meaning = m := hm _ List.mem_cons_self
      have hd' : d'.meaning = m := hm _ (hperm.mem_iff.2 List.mem_cons_self)
      exact congrArg Except.ok (hd.trans hd'.symm)
    · rename_i hall
      rw [if_neg (fun hall' => hall (huniform.2 hall'))]
      simp only [List.length_cons] at hlength ⊢
      rw [Nat.succ.inj hlength]

theorem meaning_resolve (scope : Scope) (name : String) :
    (reg.resolve scope name).map Definition.meaning =
      (reg'.resolve scope name).map Definition.meaning := by
  have hchain : (scope.contract.bind fun c => reg.inChain (scope.path, c) name).map
      Definition.outline = (scope.contract.bind fun c => reg'.inChain (scope.path, c) name).map
      Definition.outline := by
    cases scope.contract with
    | none => rfl
    | some c => exact h.outline_inChain hreg _ _
  rw [resolve_eq, resolve_eq]
  exact meaning_elim_congr hchain
    (meaning_elim_congr (h.outline_inScope hreg _ _) (h.meaning_unique hreg name))

/-- Registries with the same outline give every name the same meaning, or refuse it for the same
reason. -/
theorem meaning_resolvePath (scope : Scope) (path : List String) :
    (reg.resolvePath scope path).map Definition.meaning =
      (reg'.resolvePath scope path).map Definition.meaning := by
  match path with
  | [] => rfl
  | [name] => exact h.meaning_resolve hreg scope name
  | [owner, name] =>
    have hchain : ((reg.contract? owner (some scope.path)).bind fun c =>
        reg.inChain (c.path, c.decl.name) name).map Definition.outline =
        ((reg'.contract? owner (some scope.path)).bind fun c =>
        reg'.inChain (c.path, c.decl.name) name).map Definition.outline := by
      rcases h.contract?_cases hreg owner (some scope.path) with
        ⟨hc, hc'⟩ | ⟨c, c', hc, hc', hpath, hname, -⟩
      · rw [hc, hc']
        rfl
      · rw [hc, hc', Option.bind_some, Option.bind_some, hpath, hname]
        exact h.outline_inChain hreg _ _
    rw [resolvePath_pair, resolvePath_pair]
    exact meaning_elim_congr hchain (h.meaning_unique hreg name)
  | _ :: _ :: _ :: _ => exact h.meaning_unique hreg _

end SameOutline

end Registry

/-! ## Canonical forms -/

section Canonical

variable {reg reg' : Registry}

/-- Names mean the same in both registries. -/
def SameMeanings (reg reg' : Registry) : Prop :=
  ∀ scope path, (reg.resolvePath scope path).map Definition.meaning =
    (reg'.resolvePath scope path).map Definition.meaning

namespace SameMeanings

variable {scope : Scope} {path : List String}

theorem error (h : SameMeanings reg reg') {e : TypeError}
    (he : reg.resolvePath scope path = .error e) : reg'.resolvePath scope path = .error e := by
  have heq := h scope path
  rw [he] at heq
  cases he' : reg'.resolvePath scope path with
  | error e' =>
    rw [he'] at heq
    exact congrArg Except.error (Except.error.inj heq).symm
  | ok d' =>
    rw [he'] at heq
    cases heq

theorem exists_ok (h : SameMeanings reg reg') {d : Definition}
    (hd : reg.resolvePath scope path = .ok d) :
    ∃ d', reg'.resolvePath scope path = .ok d' ∧ d'.meaning = d.meaning := by
  have heq := h scope path
  rw [hd] at heq
  cases hd' : reg'.resolvePath scope path with
  | error e' =>
    rw [hd'] at heq
    cases heq
  | ok d' =>
    rw [hd'] at heq
    exact ⟨d', rfl, (Except.ok.inj heq).symm⟩

theorem contract (h : SameMeanings reg reg') {home : Scope} {c : ContractDecl}
    (hd : reg.resolvePath scope path = .ok ⟨home, .contract c⟩) :
    ∃ home' c', reg'.resolvePath scope path = .ok ⟨home', .contract c'⟩ := by
  obtain ⟨⟨home', decl'⟩, hd', hmeaning⟩ := h.exists_ok hd
  cases decl' with
  | contract c' => exact ⟨home', c', hd'⟩
  | struct _ => cases hmeaning
  | enum _ => cases hmeaning
  | valueType _ => cases hmeaning
  | constant _ => cases hmeaning

theorem enum (h : SameMeanings reg reg') {home : Scope} {c : EnumDecl}
    (hd : reg.resolvePath scope path = .ok ⟨home, .enum c⟩) :
    ∃ home' c', reg'.resolvePath scope path = .ok ⟨home', .enum c'⟩ := by
  obtain ⟨⟨home', decl'⟩, hd', hmeaning⟩ := h.exists_ok hd
  cases decl' with
  | enum c' => exact ⟨home', c', hd'⟩
  | struct _ => cases hmeaning
  | contract _ => cases hmeaning
  | valueType _ => cases hmeaning
  | constant _ => cases hmeaning

/-- Apart from contracts and enums, the very same definition is found. -/
theorem other (h : SameMeanings reg reg') {d : Definition}
    (hd : reg.resolvePath scope path = .ok d) (hother : d.meaning = .other d) :
    reg'.resolvePath scope path = .ok d := by
  obtain ⟨d', hd', hmeaning⟩ := h.exists_ok hd
  rw [hd', Definition.eq_of_meaning_eq_other (hmeaning.trans hother)]

end SameMeanings

theorem arrayLength_congr (h : SameMeanings reg reg') (scope : Scope) (text : String) :
    arrayLength reg scope text = arrayLength reg' scope text := by
  unfold arrayLength
  congr 1
  funext value
  cases value with
  | some n => rfl
  | none =>
    dsimp only
    split
    · cases hd : reg.resolvePath scope ((Text.pieces (· = '.') text.toList).map String.ofList) with
      | error e => rw [h.error hd]
      | ok d =>
        obtain ⟨home, decl⟩ := d
        cases decl with
        -- contracts and enums are no lengths, whichever is found
        | contract c =>
          obtain ⟨home', c', hd'⟩ := h.contract hd
          rw [hd']
          rfl
        | enum c =>
          obtain ⟨home', c', hd'⟩ := h.enum hd
          rw [hd']
          rfl
        | struct _ => rw [h.other hd rfl]
        | valueType _ => rw [h.other hd rfl]
        | constant _ => rw [h.other hd rfl]
    · rfl

/-- The canonical form of a type depends on the meaning of names alone. -/
theorem canonicalWithin_congr (h : SameMeanings reg reg') (expanding : List Definition.Identity)
    (unfolding : List Definition) (scope : Scope) (type : TypeRef) :
    canonicalWithin reg expanding unfolding scope type =
      canonicalWithin reg' expanding unfolding scope type := by
  fun_induction canonicalWithin reg expanding unfolding scope type with
  | case1 => rw [canonicalWithin]
  | case2 => rw [canonicalWithin]
  | case3 => rw [canonicalWithin]
  | case4 => rw [canonicalWithin]
  | case5 expanding unfolding scope base length ih =>
    rw [canonicalWithin, ih]
    simp only [arrayLength_congr h]
  | case6 _ _ _ path e he =>
    rw [canonicalWithin]
    split
    · rename_i e' he'
      cases (h.error he).symm.trans he'
      rfl
    · rename_i d' hd'
      cases (h.error he).symm.trans hd'
  | case7 _ _ _ path d hd c hc =>
    obtain ⟨home, decl⟩ := d
    cases hc
    obtain ⟨home', c', hd'⟩ := h.contract hd
    rw [canonicalWithin_user hd']
  | case8 _ _ _ path d hd c hc =>
    obtain ⟨home, decl⟩ := d
    cases hc
    obtain ⟨home', c', hd'⟩ := h.enum hd
    rw [canonicalWithin_user hd']
  | case9 _ _ _ path d hd c hc =>
    obtain ⟨home, decl⟩ := d
    cases hc
    rw [canonicalWithin_user (h.other hd rfl)]
  -- value types and structs are the same in both, and so are the guards that hold them
  | case10 _ unfolding _ path d hd v hv hmem =>
    obtain ⟨home, decl⟩ := d
    cases hv
    rw [canonicalWithin_user (h.other hd rfl)]
    exact (if_pos hmem).symm
  | case11 _ unfolding scope path d hd v hv hmem ih =>
    obtain ⟨home, decl⟩ := d
    cases hv
    rw [canonicalWithin_user (h.other hd rfl), ih]
    exact (if_neg hmem).symm
  | case12 _ _ _ path d hd s hs hmem =>
    obtain ⟨home, decl⟩ := d
    cases hs
    rw [canonicalWithin_user (h.other hd rfl)]
    exact (if_pos hmem).symm
  | case13 _ _ _ path d hd s hs hmem ih =>
    obtain ⟨home, decl⟩ := d
    cases hs
    rw [canonicalWithin_user (h.other hd rfl)]
    simp only [ih]
    exact (if_neg hmem).symm

end Canonical

end Abi

/-! ## Declarations in another order -/

namespace Source

/-- The contracts differ at most in the order of the structs, enums, value types and constants that
they declare. -/
structure ContractDecl.Reordered (c c' : ContractDecl) : Prop where
  structs : c.structs.Perm c'.structs
  enums : c.enums.Perm c'.enums
  valueTypes : c.valueTypes.Perm c'.valueTypes
  constants : c.constants.Perm c'.constants
  rest : { c with
    structs := c'.structs, enums := c'.enums, valueTypes := c'.valueTypes,
    constants := c'.constants } = c'

/-- The files differ at most in the order of the contracts, structs, enums, value types and
constants that they declare, inside and outside of contracts. -/
structure SourceUnit.Reordered (unit unit' : SourceUnit) : Prop where
  contracts : Shuffled ContractDecl.Reordered unit.contracts unit'.contracts
  structs : unit.structs.Perm unit'.structs
  enums : unit.enums.Perm unit'.enums
  valueTypes : unit.valueTypes.Perm unit'.valueTypes
  constants : unit.constants.Perm unit'.constants
  rest : { unit with
    contracts := unit'.contracts, structs := unit'.structs, enums := unit'.enums,
    valueTypes := unit'.valueTypes, constants := unit'.constants } = unit'

namespace ContractDecl.Reordered

variable {c c' : ContractDecl}

theorem name_eq (h : c.Reordered c') : c.name = c'.name := by rw [← h.rest]

theorem bases_eq (h : c.Reordered c') : c.bases = c'.bases := by rw [← h.rest]

end ContractDecl.Reordered

theorem SourceUnit.Reordered.path_eq {unit unit' : SourceUnit} (h : unit.Reordered unit') :
    unit.path = unit'.path := by rw [← h.rest]

end Source

namespace Abi

open AbiIndex.Source

namespace Registry

theorem definitionsOf_perm (scope : Scope) {structs structs' : List StructDecl}
    {enums enums' : List EnumDecl} {valueTypes valueTypes' : List ValueTypeDecl}
    {constants constants' : List ConstantDecl} (hstructs : structs.Perm structs')
    (henums : enums.Perm enums') (hvalueTypes : valueTypes.Perm valueTypes')
    (hconstants : constants.Perm constants') :
    (definitionsOf scope structs enums valueTypes constants).Perm
      (definitionsOf scope structs' enums' valueTypes' constants') :=
  ((((hstructs.map _).append (henums.map _)).append (hvalueTypes.map _)).append
    (hconstants.map _)).map _

theorem outline_definitionsOfUnit_perm {unit unit' : SourceUnit} (h : unit.Reordered unit') :
    ((definitionsOfUnit unit).map Definition.outline).Perm
      ((definitionsOfUnit unit').map Definition.outline) := by
  rw [definitionsOfUnit, definitionsOfUnit, h.path_eq, List.map_append, List.map_append,
    List.map_flatMap, List.map_flatMap]
  refine .append ((definitionsOf_perm _ h.structs h.enums h.valueTypes h.constants).map _) ?_
  refine h.contracts.flatMap_perm fun c c' hc => ?_
  rw [List.map_cons, List.map_cons, hc.name_eq]
  -- of the contract itself only the name is left in the outline
  have hcontract : Definition.outline ⟨⟨unit'.path, none⟩, .contract c⟩ =
      Definition.outline ⟨⟨unit'.path, none⟩, .contract c'⟩ :=
    Prod.ext (Prod.ext rfl hc.name_eq) rfl
  rw [hcontract]
  exact ((definitionsOf_perm _ hc.structs hc.enums hc.valueTypes hc.constants).map _).cons _

/-- Registries of reordered files have the same outline. -/
theorem sameOutline_ofUnits {units units' : List SourceUnit}
    (h : Shuffled SourceUnit.Reordered units units') :
    SameOutline (ofUnits units) (ofUnits units') where
  definitions := by
    rw [ofUnits, ofUnits, List.map_flatMap, List.map_flatMap]
    exact h.flatMap_perm fun unit unit' hunit => outline_definitionsOfUnit_perm hunit
  contracts := by
    rw [ofUnits, ofUnits, List.map_flatMap, List.map_flatMap]
    refine h.flatMap_perm fun unit unit' hunit => ?_
    rw [List.map_map, List.map_map, hunit.path_eq]
    refine hunit.contracts.map_perm fun c c' hc => ?_
    exact Prod.ext (Prod.ext rfl hc.name_eq) hc.bases_eq

/-- A contract of a registry is also among its definitions. -/
theorem mem_definitions_of_mem_contracts {units : List SourceUnit} {c : Located}
    (h : c ∈ (ofUnits units).contracts) :
    ⟨⟨c.path, none⟩, .contract c.decl⟩ ∈ (ofUnits units).definitions := by
  obtain ⟨unit, hunit, hc⟩ := List.mem_flatMap.1 h
  obtain ⟨decl, hdecl, rfl⟩ := List.mem_map.1 hc
  refine List.mem_flatMap.2 ⟨unit, hunit, List.mem_append_right _ ?_⟩
  exact List.mem_flatMap.2 ⟨decl, hdecl, List.mem_cons_self⟩

/-- If identities tell all definitions apart, they tell the outlines apart. -/
theorem unambiguous_of_distinct {units : List SourceUnit} (h : (ofUnits units).Distinct) :
    (ofUnits units).Unambiguous where
  definitions := by
    intro o ho o' ho' hid
    obtain ⟨d, hd, rfl⟩ := List.mem_map.1 ho
    obtain ⟨d', hd', rfl⟩ := List.mem_map.1 ho'
    rw [h d hd d' hd' hid]
  contracts := by
    intro o ho o' ho' hkey
    obtain ⟨c, hc, rfl⟩ := List.mem_map.1 ho
    obtain ⟨c', hc', rfl⟩ := List.mem_map.1 ho'
    obtain ⟨hpath, hname⟩ := Prod.mk.inj hkey
    have hid : Definition.identity ⟨⟨c.path, none⟩, .contract c.decl⟩ =
        Definition.identity ⟨⟨c'.path, none⟩, .contract c'.decl⟩ :=
      Prod.ext (congrArg (Scope.mk · none) hpath) hname
    have heq :=
      h _ (mem_definitions_of_mem_contracts hc) _ (mem_definitions_of_mem_contracts hc') hid
    have hdecl : c.decl = c'.decl := Defined.contract.inj (Definition.mk.inj heq).2
    rw [Located.outline, Located.outline, hpath, hdecl]

end Registry

/-! ## The outcome of every declaration -/

/-- In another order of its files, and of what they and their contracts declare, a project that
declares every name once per scope gives every declaration the same record or the same report, and
ends the work on a file for the same reason if at all. -/
theorem resolve_reordered (units units' : List SourceUnit) (hpaths : (units.map (·.path)).Nodup)
    (hnames : ∀ unit ∈ units, DeclaresOnce unit) (h : Shuffled SourceUnit.Reordered units units')
    (unit : SourceUnit) :
    (∀ d ∈ Declared.ofUnit unit, d.resolve (Registry.ofUnits units) unit.path =
      d.resolve (Registry.ofUnits units') unit.path) ∧
    resolveUnit (Registry.ofUnits units) unit = resolveUnit (Registry.ofUnits units') unit := by
  -- the order of the declarations is gone from here on
  have hsame : SameMeanings (Registry.ofUnits units) (Registry.ofUnits units') :=
    (Registry.sameOutline_ofUnits h).meaning_resolvePath
      (Registry.unambiguous_of_distinct (ofUnits_distinct hpaths hnames))
  have hresolve : ∀ d : Declared, d.resolve (Registry.ofUnits units) unit.path =
      d.resolve (Registry.ofUnits units') unit.path := by
    intro d
    unfold Declared.resolve canonical
    simp only [canonicalWithin_congr hsame]
  refine ⟨fun d _ => hresolve d, ?_⟩
  unfold resolveUnit
  simp only [hresolve]

/-- Two files, with everything that they declare in the given order: a contract inherits the struct
of its event, and the other file states the length of an array. -/
def tradingDesk (order : {α : Type} → List α → List α) : List SourceUnit :=
  order
    [.ofMembers "Desk.sol" .contracts <| (order
      [{ name := "Desk", kind := .contract, bases := ["Quotes"], functions := [],
         events := [⟨"Traded", [⟨"quotes", .array (.user ["Quote"]) (some "SIZE"), false⟩], false,
           2, none⟩],
         errors := [], structs := [], enums := [], valueTypes := [], constants := [],
         modifiers := [], line := 1, natspec := none },
       { name := "Quotes", kind := .abstract, bases := [], functions := [], events := [],
         errors := [],
         structs := order [⟨"Quote", [⟨"side", .user ["Side"], false⟩], 5⟩,
           ⟨"Fill", [⟨"quote", .user ["Quote"], false⟩], 6⟩],
         enums := order [⟨"Side", ["buy", "sell"], 7⟩, ⟨"Venue", ["pit"], 8⟩],
         valueTypes := [], constants := [], modifiers := [], line := 4,
         natspec := none }]).map .contract,
     .ofMembers "Limits.sol" .contracts <|
      (order [⟨"SIZE", "2", 1⟩, ⟨"DEPTH", "3", 2⟩]).map .constant]

/-- All files of the project resolve to the same in reverse. -/
theorem resolve_reordered_tradingDesk :
    ((tradingDesk id).map (·.path)).Nodup ∧ (∀ unit ∈ tradingDesk id, DeclaresOnce unit) ∧
    Shuffled SourceUnit.Reordered (tradingDesk id) (tradingDesk List.reverse) ∧
    ∀ unit ∈ tradingDesk id, resolveUnit (Registry.ofUnits (tradingDesk id)) unit =
      resolveUnit (Registry.ofUnits (tradingDesk List.reverse)) unit := by
  have hpaths : ((tradingDesk id).map (·.path)).Nodup := by decide
  have hnames : ∀ unit ∈ tradingDesk id, DeclaresOnce unit := by decide
  have hshuffled : Shuffled SourceUnit.Reordered (tradingDesk id) (tradingDesk List.reverse) := by
    refine ⟨_, .swap _ _ _, .cons ?limits (.cons ?desk .nil)⟩
    case limits => exact ⟨⟨_, .nil, .nil⟩, .nil, .nil, .nil, .swap _ _ _, rfl⟩
    case desk =>
      refine ⟨⟨_, .swap _ _ _, .cons ?_ (.cons ?_ .nil)⟩, .nil, .nil, .nil, .nil, rfl⟩
      · exact ⟨.swap _ _ _, .swap _ _ _, .nil, .nil, rfl⟩
      · exact ⟨.nil, .nil, .nil, .nil, rfl⟩
  exact ⟨hpaths, hnames, hshuffled, fun unit _ =>
    (resolve_reordered _ _ hpaths hnames hshuffled unit).2⟩

end Abi

end AbiIndex
