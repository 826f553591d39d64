import AbiIndex.Proofs.DeclarationOrder
import AbiIndex.Proofs.DepthFirst
import Mathlib.Data.List.Permutation

/-!
# What a name stands for

A name is looked for in a contract and its bases, then in the file, and then among all definitions
of the project. The bases of a contract are visited depth first and from left to right, each one as
the file sees it that declares the contract. No contract is visited twice, so that the search comes
to an end where contracts are bases of each other, and still it visits all that can be reached.

## Key results

- `mem_definitions_iff`: what the registry of some files holds
- `contract?_eq_some_iff`: the contract that a name stands for in a file
- `basesOf_bases`: the bases that the search goes on with
- `resolve_iff_standsFor`: what a lookup finds, and why it fails
-/

namespace AbiIndex.Abi

open AbiIndex.Source

/-! ## What files declare -/

/-- One of the files declares this in the scope. -/
inductive Declares (units : List SourceUnit) : Scope → Defined → Prop
  | file {unit : SourceUnit} {decl : Defined} (hunit : unit ∈ units)
      (hdecl : decl ∈ fileDeclarations unit) : Declares units ⟨unit.path, none⟩ decl
  | contract {unit : SourceUnit} {c : ContractDecl} {decl : Defined} (hunit : unit ∈ units)
      (hc : c ∈ unit.contracts) (hdecl : decl ∈ contractDeclarations c) :
      Declares units ⟨unit.path, some c.name⟩ decl

/-- One of the files declares the name in the scope. -/
def DeclaresName (units : List SourceUnit) (scope : Scope) (name : String) : Prop :=
  ∃ decl, Declares units scope decl ∧ decl.name = name

/-- All definitions of a name, in the order in which they are declared. -/
def namesakes (units : List SourceUnit) (name : String) : List Definition :=
  (units.flatMap Registry.definitionsOfUnit).filter (·.name = name)

/-- In the file, the name stands for a contract in the file `home`: one that the file declares
itself, or, if it declares none, the only one in the project. -/
inductive Locates (units : List SourceUnit) (path name : String) : String → ContractDecl → Prop
  | here {unit : SourceUnit} {c : ContractDecl} (hunit : unit ∈ units) (hpath : unit.path = path)
      (hc : c ∈ unit.contracts) (hname : c.name = name) : Locates units path name unit.path c
  | elsewhere {unit : SourceUnit} {c : ContractDecl} (hunit : unit ∈ units)
      (hc : c ∈ unit.contracts) (hname : c.name = name)
      (hhere : ∀ other ∈ units, other.path = path → ∀ c' ∈ other.contracts, c'.name ≠ name)
      (honly : ∀ other ∈ units, ∀ c' ∈ other.contracts, c'.name = name → other = unit ∧ c' = c) :
      Locates units path name unit.path c

/-- The contracts that names stand for in a file, each with its own file. Names that stand for none
are left out. -/
inductive LocatesAll (units : List SourceUnit) (path : String) :
    List String → List (String × String) → Prop
  | nil : LocatesAll units path [] []
  | found {name home : String} {c : ContractDecl} {names : List String}
      {keys : List (String × String)} (h : Locates units path name home c)
      (rest : LocatesAll units path names keys) :
      LocatesAll units path (name :: names) ((home, name) :: keys)
  | dangling {name : String} {names : List String} {keys : List (String × String)}
      (h : ∀ home c, ¬ Locates units path name home c) (rest : LocatesAll units path names keys) :
      LocatesAll units path (name :: names) keys

/-- The bases of a contract: those that its own file sees, in the order in which they are listed. -/
inductive BasesOf (units : List SourceUnit) (key : String × String) :
    List (String × String) → Prop
  | known {home : String} {c : ContractDecl} {keys : List (String × String)}
      (h : Locates units key.1 key.2 home c) (hkeys : LocatesAll units home c.bases keys) :
      BasesOf units key keys
  | unknown (h : ∀ home c, ¬ Locates units key.1 key.2 home c) : BasesOf units key []

/-! ## What a name stands for -/

/-- A name stands for a definition: for the one in the first of the visited contracts that declares
the name, or else for the one in the file, or else for the first one in the project, as long as it
is the only one or only contracts or only enums have the name. -/
inductive StandsFor (units : List SourceUnit) (visited : List (String × String))
    (path name : String) : Definition → Prop
  | inherited {before after : List (String × String)} {key : String × String} {decl : Defined}
      (hvisited : visited = before ++ key :: after)
      (hbefore : ∀ k ∈ before, ¬ DeclaresName units ⟨k.1, some k.2⟩ name)
      (hdecl : Declares units ⟨key.1, some key.2⟩ decl) (hname : decl.name = name) :
      StandsFor units visited path name ⟨⟨key.1, some key.2⟩, decl⟩
  | file {decl : Defined} (hvisited : ∀ k ∈ visited, ¬ DeclaresName units ⟨k.1, some k.2⟩ name)
      (hdecl : Declares units ⟨path, none⟩ decl) (hname : decl.name = name) :
      StandsFor units visited path name ⟨⟨path, none⟩, decl⟩
  | project {d : Definition} {more : List Definition}
      (hvisited : ∀ k ∈ visited, ¬ DeclaresName units ⟨k.1, some k.2⟩ name)
      (hfile : ¬ DeclaresName units ⟨path, none⟩ name) (hall : namesakes units name = d :: more)
      (huniform : more = [] ∨ (∀ e ∈ d :: more, e.decl.isContract) ∨
        ∀ e ∈ d :: more, e.decl.isEnum) :
      StandsFor units visited path name d

/-- Why a name that stands for nothing does so. -/
def lookupFailure (units : List SourceUnit) (name : String) : TypeError :=
  if namesakes units name = [] then .unknown name
  else .ambiguous name (namesakes units name).length

variable {units : List SourceUnit}

namespace Registry

/-! ## The definitions of a registry -/

/-- The definitions of a file are what it declares itself and what its contracts declare. -/
theorem definitionsOfUnit_perm (unit : SourceUnit) :
    (definitionsOfUnit unit).Perm
      ((fileDeclarations unit).map (Definition.mk ⟨unit.path, none⟩) ++
        unit.contracts.flatMap fun c =>
          (contractDeclarations c).map (Definition.mk ⟨unit.path, some c.name⟩)) := by
  rw [fileDeclarations, List.map_append, List.append_assoc, List.map_map]
  exact (List.map_append_flatMap_perm _ _ _).symm.append_left _

theorem mem_definitions_iff {d : Definition} :
    d ∈ (ofUnits units).definitions ↔ Declares units d.scope d.decl := by
  obtain ⟨scope, decl⟩ := d
  rw [ofUnits, List.mem_flatMap]
  simp only [(definitionsOfUnit_perm _).mem_iff, List.mem_append, List.mem_map, List.mem_flatMap]
  constructor
  · rintro ⟨unit, hunit, ⟨decl', hdecl, heq⟩ | ⟨c, hc, decl', hdecl, heq⟩⟩
    · cases heq
      exact .file hunit hdecl
    · cases heq
      exact .contract hunit hc hdecl
  · rintro (⟨hunit, hdecl⟩ | ⟨hunit, hc, hdecl⟩)
    · exact ⟨_, hunit, .inl ⟨_, hdecl, rfl⟩⟩
    · exact ⟨_, hunit, .inr ⟨_, hc, _, hdecl, rfl⟩⟩

theorem nodup_identity_definitionsOfUnit {unit : SourceUnit} (h : DeclaresOnce unit) :
    ((definitionsOfUnit unit).map Definition.identity).Nodup := by
  rw [((definitionsOfUnit_perm unit).map _).nodup_iff, List.map_append, List.map_map,
    List.map_flatMap]
  -- within a scope it is the name that tells definitions apart
  have hscope (scope : Scope) (decls : List Defined) (hdecls : (decls.map Defined.name).Nodup) :
      (decls.map (Definition.identity ∘ Definition.mk scope)).Nodup := by
    have heq : decls.map (Definition.identity ∘ Definition.mk scope) =
        (decls.map Defined.name).map (scope, ·) := by
      rw [List.map_map]
      rfl
    rw [heq]
    exact hdecls.map fun _ _ hpair => (Prod.mk.inj hpair).2
  have hcontracts : (unit.contracts.map (·.name)).Nodup := by
    have hsub := h.file
    rw [fileDeclarations, List.map_append, List.map_map] at hsub
    exact (List.nodup_append.1 hsub).2.1
  refine List.Nodup.append (hscope _ _ h.file) (List.nodup_flatMap.2 ⟨?_, ?_⟩) ?_
  · intro c hc
    rw [List.map_map]
    exact hscope _ _ (h.contracts c hc)
  · refine (List.pairwise_map.1 hcontracts).imp fun {c c'} hne => ?_
    intro id hid hid'
    simp only [List.map_map, List.mem_map] at hid hid'
    obtain ⟨_, _, rfl⟩ := hid
    obtain ⟨_, _, heq⟩ := hid'
    exact hne (Option.some.inj (congrArg (fun id => id.1.contract) heq)).symm
  · intro id hid hid'
    simp only [List.mem_map, List.mem_flatMap] at hid hid'
    obtain ⟨_, _, rfl⟩ := hid
    obtain ⟨c, _, _, ⟨_, _, rfl⟩, heq⟩ := hid'
    cases congrArg (fun id => id.1.contract) heq

/-- No two definitions of a project have the same identity. -/
theorem nodup_identity_definitions (hpaths : (units.map (·.path)).Nodup)
    (hnames : ∀ unit ∈ units, DeclaresOnce unit) :
    ((ofUnits units).definitions.map Definition.identity).Nodup := by
  rw [ofUnits, List.map_flatMap]
  refine List.nodup_flatMap.2
    ⟨fun unit hunit => nodup_identity_definitionsOfUnit (hnames unit hunit), ?_⟩
  refine (List.pairwise_map.1 hpaths).imp fun {unit unit'} hne => ?_
  -- all definitions of a file bear its path
  have hpath {unit : SourceUnit} {id : Definition.Identity}
      (h : id ∈ (definitionsOfUnit unit).map Definition.identity) : id.1.path = unit.path := by
    simp only [((definitionsOfUnit_perm unit).map _).mem_iff, List.mem_map, List.mem_append,
      List.mem_flatMap] at h
    obtain ⟨_, ⟨_, _, rfl⟩ | ⟨_, _, _, _, rfl⟩, rfl⟩ := h <;> rfl
  exact fun id hid hid' => hne ((hpath hid).symm.trans (hpath hid'))

/-- A scope holds the one definition of a name that it declares. -/
theorem inScope_eq_some_iff (hpaths : (units.map (·.path)).Nodup)
    (hnames : ∀ unit ∈ units, DeclaresOnce unit) {scope : Scope} {name : String} {d : Definition} :
    (ofUnits units).inScope scope name = some d ↔
      Declares units scope d.decl ∧ d.decl.name = name ∧ d = ⟨scope, d.decl⟩ := by
  have heq : (ofUnits units).inScope scope name =
      (ofUnits units).definitions.find? (Definition.identity · = (scope, name)) := by
    rw [inScope]
    congr 1
    funext d
    simp [Definition.identity]
  rw [heq, find?_key_eq_some_iff (nodup_identity_definitions hpaths hnames), mem_definitions_iff]
  obtain ⟨home, decl⟩ := d
  constructor
  · rintro ⟨hdecl, hid⟩
    obtain ⟨rfl, hname⟩ := Prod.mk.inj hid
    exact ⟨hdecl, hname, rfl⟩
  · rintro ⟨hdecl, hname, hd⟩
    cases hd
    exact ⟨hdecl, Prod.ext rfl hname⟩

theorem inScope_eq_none_iff {scope : Scope} {name : String} :
    (ofUnits units).inScope scope name = none ↔ ¬ DeclaresName units scope name := by
  rw [inScope, List.find?_eq_none]
  constructor
  · rintro h ⟨decl, hdecl, hname⟩
    exact h ⟨scope, decl⟩ (mem_definitions_iff.2 hdecl) (by simp [Definition.name, hname])
  · rintro h ⟨home, decl⟩ hd hfound
    simp only [Bool.and_eq_true, decide_eq_true_eq] at hfound
    obtain ⟨rfl, hname⟩ := hfound
    exact h ⟨decl, mem_definitions_iff.1 hd, hname⟩

theorem named_eq_namesakes (hpaths : (units.map (·.path)).Nodup)
    (hnames : ∀ unit ∈ units, DeclaresOnce unit) (name : String) :
    (ofUnits units).named name = namesakes units name := by
  have hnodup : ((namesakes units name).map Definition.identity).Nodup :=
    (nodup_identity_definitions hpaths hnames).sublist (List.filter_sublist.map _)
  show ((namesakes units name).map Definition.identity).eraseDups.filterMap
    (fun id => (namesakes units name).reverse.find? (Definition.identity · = id)) = _
  rw [eraseDups_of_nodup hnodup, List.filterMap_map]
  have hfind : ∀ d ∈ namesakes units name,
      (namesakes units name).reverse.find? (Definition.identity · = d.identity) = some d := by
    intro d hd
    rw [find?_key_eq_some_iff (by rwa [List.map_reverse, List.nodup_reverse])]
    exact ⟨List.mem_reverse.2 hd, rfl⟩
  exact (List.filterMap_congr hfind).trans List.filterMap_some

/-! ## The project as a scope -/

/-- Of the definitions in the whole project, the first one is found if the others are as good. -/
theorem unique_eq_ok_iff (hpaths : (units.map (·.path)).Nodup)
    (hnames : ∀ unit ∈ units, DeclaresOnce unit) {name : String} {d : Definition} :
    (ofUnits units).unique name = .ok d ↔ ∃ more, namesakes units name = d :: more ∧
      (more = [] ∨ (∀ e ∈ d :: more, e.decl.isContract) ∨ ∀ e ∈ d :: more, e.decl.isEnum) := by
  rw [unique, named_eq_namesakes hpaths hnames]
  match namesakes units name with
  | [] => simp
  | [e] => simp
  | e :: f :: more =>
    simp only [Bool.or_eq_true, List.all_eq_true]
    constructor
    · intro h
      split at h
      · rename_i huniform
        cases h
        exact ⟨f :: more, rfl, .inr huniform⟩
      · cases h
    · rintro ⟨more', heq, huniform⟩
      obtain ⟨rfl, rfl⟩ := List.cons.inj heq
      rw [if_pos (huniform.resolve_left (List.cons_ne_nil _ _))]

theorem eq_lookupFailure_of_unique (hpaths : (units.map (·.path)).Nodup)
    (hnames : ∀ unit ∈ units, DeclaresOnce unit) {name : String} {e : TypeError}
    (h : (ofUnits units).unique name = .error e) : e = lookupFailure units name := by
  rw [unique, named_eq_namesakes hpaths hnames] at h
  rw [lookupFailure]
  match hall : namesakes units name with
  | [] =>
    rw [hall] at h
    cases h
    rfl
  | [d] =>
    rw [hall] at h
    cases h
  | d :: d' :: more =>
    rw [hall] at h
    dsimp only at h
    split at h
    · cases h
    · cases h
      rfl

/-! ## Contracts and their bases -/

theorem mem_of_contract? {reg : Registry} {name : String} {path : Option String} {c : Located}
    (h : reg.contract? name path = some c) : c ∈ reg.contracts ∧ c.decl.name = name := by
  have hmem : c ∈ reg.candidates name := by
    rw [contract?_eq, Option.or_eq_some_iff] at h
    rcases h with h | ⟨-, h⟩
    · exact List.mem_of_find?_eq_some h
    · match hc : reg.candidates name with
      | [] => simp [hc, only?] at h
      | [c'] =>
        rw [hc] at h
        cases h
        exact List.mem_singleton_self _
      | _ :: _ :: _ => simp [hc, only?] at h
  simpa [candidates] using hmem

/-- The search for a name in a contract visits what a search by recursion enters. -/
theorem depthFirst_chain (reg : Registry) (key : String × String) :
    DepthFirst reg.bases ∅ [key] (reg.chain key) := by
  let nodes := key :: reg.contracts.map fun c => (c.path, c.decl.name)
  suffices hnext : ∀ k ∈ nodes, ∀ base ∈ reg.bases k, base ∈ nodes from
    depthFirst_preorder hnext (by simp [nodes]) (by simp [nodes])
  intro k _ base hbase
  rw [bases] at hbase
  split at hbase
  · cases hbase
  · obtain ⟨name, -, hbase⟩ := List.mem_filterMap.1 hbase
    obtain ⟨found, hfound, rfl⟩ := Option.map_eq_some_iff.1 hbase
    obtain ⟨hmem, rfl⟩ := mem_of_contract? hfound
    exact List.mem_cons_of_mem _ (List.mem_map.2 ⟨found, hmem, rfl⟩)

theorem mem_candidates_iff {name : String} {c : Located} :
    c ∈ (ofUnits units).candidates name ↔
      ∃ unit ∈ units, unit.path = c.path ∧ c.decl ∈ unit.contracts ∧ c.decl.name = name := by
  obtain ⟨path, decl⟩ := c
  rw [candidates, List.mem_filter, ofUnits, List.mem_flatMap, decide_eq_true_eq]
  constructor
  · rintro ⟨⟨unit, hunit, hc⟩, hname⟩
    obtain ⟨decl', hdecl, heq⟩ := List.mem_map.1 hc
    cases heq
    exact ⟨unit, hunit, rfl, hdecl, hname⟩
  · rintro ⟨unit, hunit, hpath, hdecl, hname⟩
    cases hpath
    exact ⟨⟨unit, hunit, List.mem_map_of_mem hdecl⟩, hname⟩

/-- Contracts of one name are told apart by their files. -/
theorem candidates_unique (hpaths : (units.map (·.path)).Nodup)
    (hnames : ∀ unit ∈ units, DeclaresOnce unit) {name : String} {c c' : Located}
    (hc : c ∈ (ofUnits units).candidates name) (hc' : c' ∈ (ofUnits units).candidates name)
    (hpath : c.path = c'.path) : c = c' := by
  obtain ⟨unit, hunit, hhome, hdecl, hname⟩ := mem_candidates_iff.1 hc
  obtain ⟨unit', hunit', hhome', hdecl', hname'⟩ := mem_candidates_iff.1 hc'
  have heq : unit = unit' :=
    List.inj_on_of_nodup_map hpaths hunit hunit' (hhome.trans (hpath.trans hhome'.symm))
  subst heq
  have hsame := (hnames unit hunit).contract_unique hdecl hdecl' (hname.trans hname'.symm)
  cases c
  cases c'
  cases hpath
  cases hsame
  rfl

theorem nodup_candidates (hpaths : (units.map (·.path)).Nodup)
    (hnames : ∀ unit ∈ units, DeclaresOnce unit) (name : String) :
    ((ofUnits units).candidates name).Nodup := by
  refine List.Nodup.filter _ (List.nodup_flatMap.2 ⟨fun unit hunit => ?_, ?_⟩)
  · have hcontracts := (hnames unit hunit).file
    rw [fileDeclarations, List.map_append] at hcontracts
    have hnodup := (List.nodup_append.1 hcontracts).2.1.of_map.of_map
    exact hnodup.map fun _ _ heq => (Located.mk.inj heq).2
  · refine (List.pairwise_map.1 hpaths).imp fun {unit unit'} hne => ?_
    intro c hc hc'
    obtain ⟨_, _, rfl⟩ := List.mem_map.1 hc
    obtain ⟨_, _, heq⟩ := List.mem_map.1 hc'
    exact hne (Located.mk.inj heq).1.symm

/-- A name stands for the contract of the file, or else for the only one of the project. -/
theorem contract?_eq_some_iff (hpaths : (units.map (·.path)).Nodup)
    (hnames : ∀ unit ∈ units, DeclaresOnce unit) {path name : String} {c : Located} :
    (ofUnits units).contract? name (some path) = some c ↔
      Locates units path name c.path c.decl := by
  obtain ⟨home, decl⟩ := c
  rw [contract?_eq, Option.or_eq_some_iff, only?_eq_some_iff (nodup_candidates hpaths hnames name),
    List.find?_eq_none]
  simp only [Option.some.injEq, decide_eq_true_eq]
  constructor
  · rintro (hfind | ⟨hnone, hmem, honly⟩)
    · have hpath : home = path := by simpa using List.find?_some hfind
      obtain ⟨unit, hunit, hhome, hdecl, hname⟩ :=
        mem_candidates_iff.1 (List.mem_of_find?_eq_some hfind)
      cases hhome
      exact .here hunit hpath hdecl hname
    · obtain ⟨unit, hunit, hhome, hdecl, hname⟩ := mem_candidates_iff.1 hmem
      cases hhome
      refine .elsewhere hunit hdecl hname ?_ ?_
      · intro other hother hpath c' hc' hname'
        exact hnone ⟨other.path, c'⟩ (mem_candidates_iff.2 ⟨other, hother, rfl, hc', hname'⟩) hpath
      · intro other hother c' hc' hname'
        have heq := honly ⟨other.path, c'⟩
          (mem_candidates_iff.2 ⟨other, hother, rfl, hc', hname'⟩)
        obtain ⟨hpath, hdecl'⟩ := Located.mk.inj heq
        exact ⟨List.inj_on_of_nodup_map hpaths hother hunit hpath, hdecl'⟩
  · intro h
    cases h with
    | @here unit _ hunit hpath hdecl hname =>
      left
      have hmem : ⟨unit.path, decl⟩ ∈ (ofUnits units).candidates name :=
        mem_candidates_iff.2 ⟨unit, hunit, rfl, hdecl, hname⟩
      cases hfind : ((ofUnits units).candidates name).find? (·.path = path) with
      | none => exact absurd (List.find?_eq_none.1 hfind _ hmem) (by simpa using hpath)
      | some c =>
        have hc : c.path = path := by simpa using List.find?_some hfind
        rw [candidates_unique hpaths hnames (List.mem_of_find?_eq_some hfind) hmem
          (hc.trans hpath.symm)]
    | @elsewhere unit _ hunit hdecl hname hhere honly =>
      refine .inr ⟨?_, mem_candidates_iff.2 ⟨unit, hunit, rfl, hdecl, hname⟩, ?_⟩
      · intro c hc hpath
        obtain ⟨other, hother, hhome, hc', hname'⟩ := mem_candidates_iff.1 hc
        exact hhere other hother (hhome.trans hpath) c.decl hc' hname'
      · rintro ⟨path', c'⟩ hc
        obtain ⟨other, hother, hhome, hc', hname'⟩ := mem_candidates_iff.1 hc
        obtain ⟨rfl, rfl⟩ := honly other hother c' hc' hname'
        cases hhome
        rfl

theorem contract?_eq_none_iff (hpaths : (units.map (·.path)).Nodup)
    (hnames : ∀ unit ∈ units, DeclaresOnce unit) {path name : String} :
    (ofUnits units).contract? name (some path) = none ↔
      ∀ home c, ¬ Locates units path name home c := by
  rw [Option.eq_none_iff_forall_ne_some]
  constructor
  · exact fun h home c hc => h ⟨home, c⟩ ((contract?_eq_some_iff hpaths hnames).2 hc)
  · exact fun h c hc => h c.path c.decl ((contract?_eq_some_iff hpaths hnames).1 hc)

theorem locatesAll_filterMap (hpaths : (units.map (·.path)).Nodup)
    (hnames : ∀ unit ∈ units, DeclaresOnce unit) (path : String) (names : List String) :
    LocatesAll units path names (names.filterMap fun name =>
      ((ofUnits units).contract? name (some path)).map fun found => (found.path, name)) := by
  induction names with
  | nil => exact .nil
  | cons name names ih =>
    cases hfound : (ofUnits units).contract? name (some path) with
    | none =>
      rw [List.filterMap_cons_none (by rw [hfound, Option.map_none])]
      exact .dangling ((contract?_eq_none_iff hpaths hnames).1 hfound) ih
    | some c =>
      rw [List.filterMap_cons_some (by rw [hfound, Option.map_some])]
      exact .found ((contract?_eq_some_iff hpaths hnames).1 hfound) ih

/-- The search goes on with the bases of a contract. -/
theorem basesOf_bases (hpaths : (units.map (·.path)).Nodup)
    (hnames : ∀ unit ∈ units, DeclaresOnce unit) (key : String × String) :
    BasesOf units key ((ofUnits units).bases key) := by
  rw [bases]
  split
  · rename_i hnone
    exact .unknown ((contract?_eq_none_iff hpaths hnames).1 hnone)
  · rename_i c hc
    exact .known ((contract?_eq_some_iff hpaths hnames).1 hc)
      (locatesAll_filterMap hpaths hnames c.path c.decl.bases)

/-! ## The lookup -/

section Lookup

variable {visited : List (String × String)} {path name : String}

/-- The definition in the first of the contracts that declares the name. -/
theorem findSome?_inScope_eq_some_iff (hpaths : (units.map (·.path)).Nodup)
    (hnames : ∀ unit ∈ units, DeclaresOnce unit) {d : Definition} :
    (visited.findSome? fun k => (ofUnits units).inScope ⟨k.1, some k.2⟩ name) = some d ↔
      ∃ before key after decl, visited = before ++ key :: after ∧
        (∀ k ∈ before, ¬ DeclaresName units ⟨k.1, some k.2⟩ name) ∧
        Declares units ⟨key.1, some key.2⟩ decl ∧ decl.name = name ∧
        d = ⟨⟨key.1, some key.2⟩, decl⟩ := by
  rw [List.findSome?_eq_some_iff]
  simp only [inScope_eq_none_iff, inScope_eq_some_iff hpaths hnames]
  constructor
  · rintro ⟨before, key, after, hvisited, ⟨hdecl, hname, hd⟩, hbefore⟩
    exact ⟨before, key, after, d.decl, hvisited, hbefore, hdecl, hname, hd⟩
  · rintro ⟨before, key, after, decl, hvisited, hbefore, hdecl, hname, rfl⟩
    exact ⟨before, key, after, hvisited, ⟨hdecl, hname, rfl⟩, hbefore⟩

theorem findSome?_inScope_eq_none_iff :
    (visited.findSome? fun k => (ofUnits units).inScope ⟨k.1, some k.2⟩ name) = none ↔
      ∀ k ∈ visited, ¬ DeclaresName units ⟨k.1, some k.2⟩ name := by
  rw [List.findSome?_eq_none_iff]
  simp only [inScope_eq_none_iff]

/-- What a name stands for is what the three stages of the lookup give, one after the other. -/
theorem standsFor_iff (hpaths : (units.map (·.path)).Nodup)
    (hnames : ∀ unit ∈ units, DeclaresOnce unit) {d : Definition} :
    StandsFor units visited path name d ↔
      (visited.findSome? fun k => (ofUnits units).inScope ⟨k.1, some k.2⟩ name).elim
        (((ofUnits units).inScope ⟨path, none⟩ name).elim ((ofUnits units).unique name) .ok) .ok
        = .ok d := by
  constructor
  · intro h
    cases h with
    | inherited hvisited hbefore hdecl hname =>
      rw [(findSome?_inScope_eq_some_iff hpaths hnames).2
        ⟨_, _, _, _, hvisited, hbefore, hdecl, hname, rfl⟩]
      rfl
    | file hvisited hdecl hname =>
      rw [findSome?_inScope_eq_none_iff.2 hvisited,
        (inScope_eq_some_iff hpaths hnames (d := ⟨_, _⟩)).2 ⟨hdecl, hname, rfl⟩]
      rfl
    | project hvisited hfile hall huniform =>
      rw [findSome?_inScope_eq_none_iff.2 hvisited, inScope_eq_none_iff.2 hfile]
      exact (unique_eq_ok_iff hpaths hnames).2 ⟨_, hall, huniform⟩
  · intro h
    cases hchain : visited.findSome? fun k => (ofUnits units).inScope ⟨k.1, some k.2⟩ name with
    | some d' =>
      rw [hchain] at h
      cases h
      obtain ⟨before, key, after, decl, hvisited, hbefore, hdecl, hname, rfl⟩ :=
        (findSome?_inScope_eq_some_iff hpaths hnames).1 hchain
      exact .inherited hvisited hbefore hdecl hname
    | none =>
      rw [hchain] at h
      have hvisited := findSome?_inScope_eq_none_iff.1 hchain
      cases hfile : (ofUnits units).inScope ⟨path, none⟩ name with
      | some d' =>
        rw [hfile] at h
        cases h
        obtain ⟨hdecl, hname, hd⟩ := (inScope_eq_some_iff hpaths hnames).1 hfile
        rw [hd]
        exact .file hvisited hdecl hname
      | none =>
        rw [hfile] at h
        obtain ⟨more, hall, huniform⟩ := (unique_eq_ok_iff hpaths hnames).1 h
        exact .project hvisited (inScope_eq_none_iff.1 hfile) hall huniform

end Lookup

/-- A lookup starts with the contracts that the recursion over the bases enters. -/
theorem exists_visited (reg : Registry) (path : String) (contract : Option String) :
    ∃ visited, DepthFirst reg.bases ∅ (contract.toList.map (path, ·)) visited ∧
      (∀ key, key ∈ visited ↔ ∃ c, contract = some c ∧ Reaches reg.bases (path, c) key) ∧
      ∀ name, reg.resolve ⟨path, contract⟩ name =
        (visited.findSome? fun k => reg.inScope ⟨k.1, some k.2⟩ name).elim
          ((reg.inScope ⟨path, none⟩ name).elim (reg.unique name) .ok) .ok := by
  cases contract with
  | none => exact ⟨[], .done, by simp, fun name => resolve_eq reg _ name⟩
  | some c =>
    have hchain := depthFirst_chain reg (path, c)
    refine ⟨reg.chain (path, c), hchain, fun key => ?_, fun name => resolve_eq reg _ name⟩
    simp [hchain.mem_iff_reaches]

/-- A search that fails has found nothing, and what is searched next fails as well. -/
theorem elim_eq_error {x : Option Definition} {y : Except TypeError Definition} {e : TypeError}
    (h : x.elim y .ok = .error e) : x = none ∧ y = .error e := by
  cases x with
  | none => exact ⟨rfl, h⟩
  | some d => cases h

theorem diagnosticKind?_lookupFailure (units : List SourceUnit) (name : String) :
    (lookupFailure units name).diagnosticKind? = some .unresolvableType := by
  unfold lookupFailure
  split <;> rfl

/-- In whatever way contracts are bases of each other, a lookup comes to an end. It visits all
contracts that can be reached from the one it starts in, each one once, as the recursion over the
bases does, and finds the name in a contract exactly if one of them declares it. What it finds is
what the name stands for, and it fails exactly if the name stands for nothing. -/
theorem resolve_iff_standsFor (hpaths : (units.map (·.path)).Nodup)
    (hnames : ∀ unit ∈ units, DeclaresOnce unit) (path : String) (contract : Option String)
    (name : String) :
    (∀ key, BasesOf units key ((ofUnits units).bases key)) ∧
    ∃ visited,
      DepthFirst (ofUnits units).bases ∅ (contract.toList.map (path, ·)) visited ∧
      (∀ other, DepthFirst (ofUnits units).bases ∅ (contract.toList.map (path, ·)) other →
        other = visited) ∧
      visited.Nodup ∧
      (∀ key, key ∈ visited ↔
        ∃ c, contract = some c ∧ Reaches (ofUnits units).bases (path, c) key) ∧
      (∀ d, (ofUnits units).resolve ⟨path, contract⟩ name = .ok d ↔
        StandsFor units visited path name d) ∧
      (∀ e, (ofUnits units).resolve ⟨path, contract⟩ name = .error e ↔
        (∀ d, ¬ StandsFor units visited path name d) ∧ e = lookupFailure units name) ∧
      (lookupFailure units name).diagnosticKind? = some .unresolvableType ∧
      (∀ c, contract = some c → ((ofUnits units).inChain (path, c) name = none ↔
        ∀ key, Reaches (ofUnits units).bases (path, c) key →
          ¬ DeclaresName units ⟨key.1, some key.2⟩ name)) := by
  refine ⟨basesOf_bases hpaths hnames, ?_⟩
  obtain ⟨visited, hvisited, hmem, hstages⟩ := (ofUnits units).exists_visited path contract
  have hok : ∀ d, (ofUnits units).resolve ⟨path, contract⟩ name = .ok d ↔
      StandsFor units visited path name d := by
    intro d
    rw [hstages, standsFor_iff hpaths hnames]
  have herror : ∀ e, (ofUnits units).resolve ⟨path, contract⟩ name = .error e →
      e = lookupFailure units name := by
    intro e he
    rw [hstages] at he
    obtain ⟨-, he⟩ := elim_eq_error he
    obtain ⟨-, he⟩ := elim_eq_error he
    exact eq_lookupFailure_of_unique hpaths hnames he
  refine ⟨visited, hvisited, fun other hother => hother.unique hvisited, hvisited.nodup.2, hmem,
    hok, fun e => ⟨fun he => ⟨fun d hd => ?_, herror e he⟩, ?_⟩,
    diagnosticKind?_lookupFailure units name, ?_⟩
  · cases he.symm.trans ((hok d).2 hd)
  · rintro ⟨hnone, rfl⟩
    cases hresult : (ofUnits units).resolve ⟨path, contract⟩ name with
    | ok d => exact absurd ((hok d).1 hresult) (hnone d)
    | error e => rw [herror e hresult]
  · rintro c rfl
    show ((ofUnits units).chain (path, c)).findSome?
      (fun k => (ofUnits units).inScope ⟨k.1, some k.2⟩ name) = none ↔ _
    rw [findSome?_inScope_eq_none_iff]
    simp only [(depthFirst_chain (ofUnits units) (path, c)).mem_iff_reaches]

/-- Two files with contracts that are bases of each other, in part by names that both files declare,
and with a base that no file declares. -/
def harbour : List SourceUnit :=
  [.ofMembers "Fleet.sol" .contracts
    [.contract (vessel "Ship" ["Hull", "Sail", "Lost"] []),
     .contract (vessel "Hull" ["Ship"] []),
     .contract (vessel "Sail" ["Engine"] [⟨"Fuel", ["wind"], 3⟩])],
   .ofMembers "Dock.sol" .contracts
    [.contract (vessel "Engine" ["Hull"] [⟨"Fuel", ["oil"], 1⟩]),
     .contract (vessel "Hull" ["Engine"] [⟨"Paint", ["red"], 2⟩]),
     .enum ⟨"Fuel", ["coal"], 3⟩]]
where
  vessel (name : String) (bases : List String) (enums : List EnumDecl) : ContractDecl :=
    { name, kind := .contract, bases, functions := [], events := [], errors := [], structs := [],
      enums, valueTypes := [], constants := [], modifiers := [], line := 1, natspec := none }

/-- The search enters the hull of the other file through the engine, and finds its paint there. -/
theorem resolve_harbour :
    (harbour.map (·.path)).Nodup ∧ (∀ unit ∈ harbour, DeclaresOnce unit) ∧
    ∃ visited, DepthFirst (ofUnits harbour).bases ∅ [("Fleet.sol", "Ship")] visited ∧
      StandsFor harbour visited "Fleet.sol" "Paint"
        ⟨⟨"Dock.sol", some "Hull"⟩, .enum ⟨"Paint", ["red"], 2⟩⟩ := by
  have hpaths : (harbour.map (·.path)).Nodup := by decide
  have hnames : ∀ unit ∈ harbour, DeclaresOnce unit := by decide
  have hpaint : (ofUnits harbour).resolve ⟨"Fleet.sol", some "Ship"⟩ "Paint" =
      .ok ⟨⟨"Dock.sol", some "Hull"⟩, .enum ⟨"Paint", ["red"], 2⟩⟩ := by cbv
  obtain ⟨-, visited, hvisited, -, -, -, hok, -⟩ :=
    resolve_iff_standsFor hpaths hnames "Fleet.sol" (some "Ship") "Paint"
  exact ⟨hpaths, hnames, visited, hvisited, (hok _).1 hpaint⟩

end Registry

end AbiIndex.Abi
