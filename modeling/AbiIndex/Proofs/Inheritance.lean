import AbiIndex.Proofs.DepthFirst
import AbiIndex.Scan.Result

/-!
# What a contract inherits

The records of a contract and of all its bases, of which the first one counts where several have the
same kind and signature. The bases are visited depth first and from right to left. In this order an
override does not always stand in front of what it overrides: where a base can be reached in several
ways, only those contracts are sure to stand in front of it that the first way goes through.

## Key results

- `Result.called_eq_some_iff`: the contract that a name stands for, within a project or among all
- `Result.lineage_eq`: the contracts in the order in which the recursion over the bases enters them
- `Result.fullInterface_spec`: the records of an interface, each with its own kind and signature
- `Result.supplies_iff`: the contract whose record counts, and when an override hides its base
-/

namespace AbiIndex.Scan

open AbiIndex.Abi AbiIndex.Source

/-! ## The first elements with their keys -/

namespace Result

section Distinct

variable {α β γ : Type} [DecidableEq β] {key : α → β} {seen : List β} {xs : List α}

theorem distinctOn_sublist (key : α → β) (seen : List β) (xs : List α) :
    (distinctOn key seen xs).Sublist xs := by
  induction xs generalizing seen with
  | nil => exact List.Sublist.slnil
  | cons x xs ih =>
    rw [distinctOn]
    split
    · exact (ih seen).cons x
    · exact (ih _).cons_cons x

/-- An element stays if its key is new and no earlier element has the same key. -/
theorem mem_distinctOn_iff {x : α} :
    x ∈ distinctOn key seen xs ↔ key x ∉ seen ∧ xs.find? (key · = key x) = some x := by
  induction xs generalizing seen with
  | nil => simp [distinctOn]
  | cons y ys ih =>
    rw [distinctOn]
    by_cases hkey : key y = key x
    · rw [List.find?_cons_of_pos (by simpa using hkey), Option.some.injEq]
      split
      · rename_i hy
        rw [ih]
        constructor
        · rintro ⟨hx, -⟩
          exact absurd (hkey ▸ hy) hx
        · rintro ⟨hx, rfl⟩
          exact absurd hy hx
      · rename_i hy
        rw [List.mem_cons, ih]
        constructor
        · rintro (rfl | ⟨hx, -⟩)
          · exact ⟨hy, rfl⟩
          · exact absurd (List.mem_cons.2 (.inl hkey.symm)) hx
        · rintro ⟨-, rfl⟩
          exact .inl rfl
    · rw [List.find?_cons_of_neg (by simpa using hkey)]
      split
      · exact ih
      · rw [List.mem_cons, ih, List.mem_cons, not_or]
        constructor
        · rintro (rfl | ⟨⟨-, hx⟩, hfind⟩)
          · exact absurd rfl hkey
          · exact ⟨hx, hfind⟩
        · rintro ⟨hx, hfind⟩
          exact .inr ⟨⟨fun heq => hkey heq.symm, hx⟩, hfind⟩

theorem nodup_map_distinctOn (key : α → β) (seen : List β) (xs : List α) :
    ((distinctOn key seen xs).map key).Nodup := by
  induction xs generalizing seen with
  | nil => exact .nil
  | cons x xs ih =>
    rw [distinctOn]
    split
    · exact ih seen
    · refine List.nodup_cons.2 ⟨?_, ih _⟩
      rw [List.mem_map]
      rintro ⟨y, hy, hkey⟩
      exact (mem_distinctOn_iff.1 hy).1 (hkey ▸ List.mem_cons_self)

theorem mem_map_distinctOn_iff {k : β} :
    k ∈ (distinctOn key [] xs).map key ↔ k ∈ xs.map key := by
  constructor
  · exact fun h => ((distinctOn_sublist key [] xs).map key).subset h
  · intro h
    obtain ⟨x, hx, rfl⟩ := List.mem_map.1 h
    cases hfind : xs.find? (key · = key x) with
    | none => exact absurd (List.find?_eq_none.1 hfind x hx) (by simp)
    | some y =>
      have hkey : key y = key x := by simpa using List.find?_some hfind
      rw [← hkey] at hfind ⊢
      exact List.mem_map_of_mem (mem_distinctOn_iff.2 ⟨by simp, hfind⟩)

/-- What belongs to the keys may be looked at later. -/
theorem map_distinctOn (key : γ → β) (f : α → γ) (seen : List β) (xs : List α) :
    (distinctOn (fun x => key (f x)) seen xs).map f = distinctOn key seen (xs.map f) := by
  induction xs generalizing seen with
  | nil => rfl
  | cons x xs ih =>
    rw [distinctOn, List.map_cons, distinctOn]
    split
    · exact ih seen
    · rw [List.map_cons, ih]

end Distinct

/-! ## The bases of a contract -/

/-- The first contract of a name, within a project if one is given. -/
def called (r : Result) (project : Option String) (name : String) : Option ContractRecords :=
  (r.contractsIn project).find? (·.name = name)

/-- Where a project is given only the contracts with its label count, and else all of them do. -/
def CountsFor (project : Option String) (c : ContractRecords) : Prop :=
  ∀ label ∈ project, c.project = some label

/-- The contract is the first one of the name among those that count. -/
def IsFirst (r : Result) (project : Option String) (name : String) (c : ContractRecords) : Prop :=
  ∃ before after, r.contracts = before ++ c :: after ∧ CountsFor project c ∧ c.name = name ∧
    ∀ d ∈ before, CountsFor project d → d.name ≠ name

/-- The bases of the contract of a name, from right to left. -/
def basesOf (r : Result) (project : Option String) (name : String) : List String :=
  match r.called project name with
  | some c => c.bases.reverse
  | none => []

/-- The contract of a name and its bases in the order of the visits. -/
def lineage (r : Result) (name : String) (project : Option String) : List ContractRecords :=
  (preorder (r.basesOf project) ((r.contractsIn project).map (·.name)) [name]).filterMap
    (r.called project)

/-- The contract is that of the name, or one of its direct and indirect bases. -/
def Inherits (r : Result) (project : Option String) (name : String) (c : ContractRecords) : Prop :=
  ∃ n, Reaches (r.basesOf project) name n ∧ r.called project n = some c

/-- What tells two declarations in an interface apart. -/
def interfaceKey (rec : Record) : SignatureKind × String := (rec.kind, rec.signature)

/-- A contract declares a record of the given kind and signature. -/
def Declares (c : ContractRecords) (k : SignatureKind × String) : Prop :=
  ∃ rec ∈ c.records, interfaceKey rec = k

/-- The records of an interface with the contracts that declare them. -/
def origins (r : Result) (name : String) (project : Option String) :
    List (ContractRecords × Record) :=
  distinctOn (fun o => interfaceKey o.2) []
    ((r.lineage name project).flatMap fun c => c.records.map (c, ·))

/-- The record of this kind and signature in an interface is that of the contract. -/
def Supplies (r : Result) (project : Option String) (name : String) (c : ContractRecords)
    (k : SignatureKind × String) : Prop :=
  ∃ rec, (c, rec) ∈ r.origins name project ∧ interfaceKey rec = k

variable {r : Result} {name : String} {project : Option String} {c : ContractRecords}
  {visited : List String}

theorem called_eq_some (h : r.called project name = some c) :
    c ∈ r.contractsIn project ∧ c.name = name :=
  ⟨List.mem_of_find?_eq_some h, by simpa using List.find?_some h⟩

/-- Of the contracts that count for a project, the first one with a name is called by it. -/
theorem called_eq_some_iff : r.called project name = some c ↔ r.IsFirst project name c := by
  have hcounts (d : ContractRecords) :
      (decide (project = none) || decide (d.project = project)) = true ↔ CountsFor project d := by
    cases project <;> simp [CountsFor]
  rw [called, contractsIn, List.find?_filter, List.find?_eq_some_iff_append, IsFirst]
  simp only [hcounts, decide_eq_true_eq, Bool.not_eq_true', decide_eq_false_iff_not, not_and]
  constructor
  · rintro ⟨⟨hcount, hname⟩, before, after, heq, hbefore⟩
    exact ⟨before, after, heq, hcount, hname, hbefore⟩
  · rintro ⟨before, after, heq, hcount, hname, hbefore⟩
    exact ⟨⟨hcount, hname⟩, before, after, heq, hbefore⟩

theorem exists_called_iff :
    name ∈ (r.contractsIn project).map (·.name) ↔ ∃ c, r.called project name = some c := by
  rw [← Option.isSome_iff_exists, called, List.find?_isSome, List.mem_map]
  simp

theorem fullInterface_eq (r : Result) (name : String) (project : Option String) :
    r.fullInterface name project =
      distinctOn interfaceKey [] ((r.lineage name project).flatMap (·.records)) := by
  rw [lineage, List.filterMap_eq_flatMap_toList, List.flatMap_assoc]
  have hrecords (n : String) : (r.called project n).toList.flatMap (·.records) =
      ((r.called project n).map (·.records)).getD [] := by
    cases r.called project n <;> simp
  simp only [hrecords]
  rfl

/-- The recursion over the bases of a contract comes to an end. -/
theorem exists_visited (r : Result) (name : String) (project : Option String) :
    ∃ visited, DepthFirst (r.basesOf project) ∅ [name] visited ∧
      r.lineage name project = visited.filterMap (r.called project) := by
  have hnext : ∀ n, n ∉ (r.contractsIn project).map (·.name) → r.basesOf project n = [] := by
    intro n hn
    rw [exists_called_iff, not_exists] at hn
    rw [basesOf, Option.eq_none_iff_forall_ne_some.2 hn]
  have hpool : ∀ n, n ∈ (r.contractsIn project).map (·.name) ↔
      n ∈ (r.contractsIn project).map (·.name) ∧ n ∉ (∅ : Set String) := by simp
  obtain ⟨visited, hvisited, heq⟩ := @exists_depthFirst _ _ _ _ hnext _ [name] _ hpool
  refine ⟨visited, hvisited, ?_⟩
  rw [lineage, heq, List.filterMap_filter]
  refine List.filterMap_congr fun n _ => ?_
  split
  · rfl
  · rename_i hn
    rw [decide_eq_true_eq, exists_called_iff, not_exists] at hn
    exact (Option.eq_none_iff_forall_ne_some.2 hn).symm

/-- The contracts are visited in the order in which the recursion enters their names. Names without
a contract are entered in vain. -/
theorem lineage_eq (h : DepthFirst (r.basesOf project) ∅ [name] visited) :
    r.lineage name project = visited.filterMap (r.called project) := by
  obtain ⟨visited', hvisited', heq⟩ := r.exists_visited name project
  rw [heq, h.unique hvisited']

/-- Every contract of a name and of its bases is visited. -/
theorem mem_lineage_iff : c ∈ r.lineage name project ↔ r.Inherits project name c := by
  obtain ⟨visited, hvisited, heq⟩ := r.exists_visited name project
  rw [heq, List.mem_filterMap, Inherits]
  exact exists_congr fun n => and_congr hvisited.mem_iff_reaches Iff.rfl

/-- No contract is visited twice. -/
theorem nodup_lineage (r : Result) (name : String) (project : Option String) :
    (r.lineage name project).Nodup := by
  obtain ⟨visited, hvisited, heq⟩ := r.exists_visited name project
  rw [heq]
  refine List.Nodup.filterMap ?_ hvisited.nodup.2
  intro n n' c hc hc'
  exact (called_eq_some hc).2.symm.trans (called_eq_some hc').2

/-- Contracts are visited in the order of their names. -/
theorem before_lineage_iff {d : ContractRecords}
    (h : DepthFirst (r.basesOf project) ∅ [name] visited)
    (hc : r.called project c.name = some c) (hd : r.called project d.name = some d) :
    Before c d (r.lineage name project) ↔ Before c.name d.name visited := by
  rw [lineage_eq h]
  constructor
  · intro hbefore
    have hnames : (visited.filterMap (r.called project)).map (·.name) =
        visited.filter fun n => (r.called project n).isSome := by
      rw [List.map_filterMap, ← List.filterMap_eq_filter]
      refine List.filterMap_congr fun n _ => ?_
      cases hn : r.called project n with
      | none => simp [Option.guard, hn]
      | some e => simp [Option.guard, hn, (called_eq_some hn).2]
    have hsub := List.Sublist.map (·.name) hbefore
    rw [hnames] at hsub
    exact hsub.trans List.filter_sublist
  · intro hbefore
    have hsub := List.Sublist.filterMap (r.called project) hbefore
    rwa [List.filterMap_cons_some hc, List.filterMap_cons_some hd, List.filterMap_nil] at hsub

/-! ## The records of an interface -/

theorem mem_map_interfaceKey {k : SignatureKind × String} :
    k ∈ c.records.map interfaceKey ↔ Declares c k := by
  rw [List.mem_map, Declares]

/-- Each record of an interface comes from one of its contracts. -/
theorem map_origins (r : Result) (name : String) (project : Option String) :
    (r.origins name project).map (·.2) = r.fullInterface name project := by
  have hrecords : ((r.lineage name project).flatMap fun c => c.records.map (c, ·)).map (·.2) =
      (r.lineage name project).flatMap (·.records) := by
    rw [List.map_flatMap]
    congr
    funext c
    rw [List.map_map]
    exact List.map_id' _
  rw [origins, map_distinctOn, hrecords, fullInterface_eq]

/-- For whatever result, name and project, the recursion over the bases comes to an end in exactly
one way. A name stands for the first contract that is called so, among those of the project if one
is given. The recursion enters the contracts that can be reached, each one once. The interface has
one record for each kind and signature that they declare, namely the first one in the order of the
visits, and keeps this order. -/
theorem fullInterface_spec (r : Result) (name : String) (project : Option String) :
    (∀ n c, r.called project n = some c ↔ r.IsFirst project n c) ∧
    ∃ visited, DepthFirst (r.basesOf project) ∅ [name] visited ∧
      (∀ other, DepthFirst (r.basesOf project) ∅ [name] other → other = visited) ∧
      (visited.filterMap (r.called project)).Nodup ∧
      (∀ c, c ∈ visited.filterMap (r.called project) ↔ r.Inherits project name c) ∧
      ((r.fullInterface name project).map interfaceKey).Nodup ∧
      (∀ k, k ∈ (r.fullInterface name project).map interfaceKey ↔
        ∃ c, r.Inherits project name c ∧ Declares c k) ∧
      (∀ rec ∈ r.fullInterface name project,
        ((visited.filterMap (r.called project)).flatMap (·.records)).find?
          (interfaceKey · = interfaceKey rec) = some rec) ∧
      (r.fullInterface name project).Sublist
        ((visited.filterMap (r.called project)).flatMap (·.records)) := by
  obtain ⟨visited, hvisited, heq⟩ := r.exists_visited name project
  refine ⟨fun n c => called_eq_some_iff, visited, hvisited,
    fun other hother => hother.unique hvisited, ?_⟩
  rw [← heq, fullInterface_eq]
  refine ⟨r.nodup_lineage name project, fun c => mem_lineage_iff, nodup_map_distinctOn _ _ _,
    fun k => ?_, fun rec hrec => (mem_distinctOn_iff.1 hrec).2, distinctOn_sublist _ _ _⟩
  rw [mem_map_distinctOn_iff, List.map_flatMap, List.mem_flatMap]
  exact exists_congr fun c => and_congr mem_lineage_iff mem_map_interfaceKey

/-- An external function without parameters. -/
def externalFunction (contract name selector : String) : Record :=
  ⟨name, name ++ "()", selector, .function, "A.sol", some contract, some "external", none, [], [],
    false, 1, none, none⟩

/-- The function `f` of a contract. -/
def functionF (contract : String) : Record := externalFunction contract "f" "0x26121ff0"

/-- The function `g` of a contract. -/
def functionG (contract : String) : Record := externalFunction contract "g" "0xe2179b8e"

/-- A contract with the given records. -/
def contractWith (name : String) (bases : List String) (records : List Record) : ContractRecords :=
  ⟨name, .contract, "A.sol", .contracts, bases, records, [], none⟩

/-- A result with the given contracts. -/
def ofContracts (contracts : List ContractRecords) : Result :=
  ⟨⟨.plain, ⟨.root, []⟩, ⟨.root, []⟩, none, []⟩, contracts, [], [], [], 1, false⟩

/-- The record as one of the project with the given label. -/
def recordOf (label : String) (rec : Record) : Record := { rec with project := some label }

/-- The contract as one of the project with the given label. -/
def contractOf (label : String) (c : ContractRecords) : ContractRecords :=
  { c with records := c.records.map (recordOf label), project := some label }

/-- Two projects. In the one, contracts are bases of each other, with a base that is missing and a
name that is declared twice. The other one comes first and has a contract of the same name. -/
def tangled : Result :=
  ofContracts [contractOf "lib" (contractWith "C" [] [functionG "C"]),
    contractOf "app" (contractWith "A" ["B", "Missing", "C"] [functionF "A"]),
    contractOf "app" (contractWith "B" ["A"] [functionF "B", functionG "B"]),
    contractOf "app" (contractWith "C" ["C", "B"] [functionG "C"]),
    contractOf "app" (contractWith "C" [] [functionF "C"])]

/-- The search ends, and of both functions `g` it takes the one in the base on the right. Within a
project that base is the project's own, and else the first one of its name. -/
theorem fullInterface_tangled :
    tangled.fullInterface "A" (some "app") =
      [recordOf "app" (functionF "A"), recordOf "app" (functionG "C")] ∧
    tangled.fullInterface "A" none =
      [recordOf "app" (functionF "A"), recordOf "lib" (functionG "C")] ∧
    ∃ visited, DepthFirst (tangled.basesOf (some "app")) ∅ ["A"] visited ∧
      ((visited.filterMap (tangled.called (some "app"))).flatMap (·.records)).find?
        (interfaceKey · = (.function, "g()")) = some (recordOf "app" (functionG "C")) := by
  have hlineage : tangled.lineage "A" (some "app") =
      [contractOf "app" (contractWith "A" ["B", "Missing", "C"] [functionF "A"]),
        contractOf "app" (contractWith "C" ["C", "B"] [functionG "C"]),
        contractOf "app" (contractWith "B" ["A"] [functionF "B", functionG "B"])] := by cbv
  have hlineage' : tangled.lineage "A" none =
      [contractOf "app" (contractWith "A" ["B", "Missing", "C"] [functionF "A"]),
        contractOf "lib" (contractWith "C" [] [functionG "C"]),
        contractOf "app" (contractWith "B" ["A"] [functionF "B", functionG "B"])] := by cbv
  have happ : tangled.fullInterface "A" (some "app") =
      [recordOf "app" (functionF "A"), recordOf "app" (functionG "C")] := by
    rw [fullInterface_eq, hlineage]
    decide
  have hall : tangled.fullInterface "A" none =
      [recordOf "app" (functionF "A"), recordOf "lib" (functionG "C")] := by
    rw [fullInterface_eq, hlineage']
    decide
  have hg : recordOf "app" (functionG "C") ∈ tangled.fullInterface "A" (some "app") := by
    rw [happ]
    exact List.mem_pair.2 (.inr rfl)
  obtain ⟨-, visited, hvisited, -, -, -, -, -, hfirst, -⟩ :=
    fullInterface_spec tangled "A" (some "app")
  exact ⟨happ, hall, visited, hvisited, hfirst _ hg⟩

/-! ## Overrides -/

/-- The contract whose record counts is the first one that declares it. -/
theorem supplies_iff_first {k : SignatureKind × String} : r.Supplies project name c k ↔
    Declares c k ∧ ∃ before after, r.lineage name project = before ++ c :: after ∧
      ∀ d ∈ before, ¬ Declares d k := by
  have hnone (d : ContractRecords) : d.records.find? (interfaceKey · = k) = none ↔ ¬ Declares d k := by
    simp [Declares, List.find?_eq_none]
  have hfind (d : ContractRecords) : (d.records.map (d, ·)).find? (interfaceKey ·.2 = k) =
      (d.records.find? (interfaceKey · = k)).map (d, ·) := by
    rw [List.find?_map]
    rfl
  constructor
  · rintro ⟨rec, hrec, rfl⟩
    obtain ⟨-, hfirst⟩ := mem_distinctOn_iff.1 hrec
    rw [List.find?_flatMap] at hfirst
    obtain ⟨before, d, after, heq, hd, hbefore⟩ := List.findSome?_eq_some_iff.1 hfirst
    rw [hfind] at hd
    obtain ⟨rec', hrec', hpair⟩ := Option.map_eq_some_iff.1 hd
    cases hpair
    refine ⟨⟨rec, List.mem_of_find?_eq_some hrec', rfl⟩, before, after, heq, fun d hd => ?_⟩
    have := hbefore d hd
    rw [hfind, Option.map_eq_none_iff] at this
    exact (hnone d).1 this
  · rintro ⟨hdeclares, before, after, heq, hbefore⟩
    cases hrec : c.records.find? (interfaceKey · = k) with
    | none => exact absurd hdeclares ((hnone c).1 hrec)
    | some rec =>
      have hkey : interfaceKey rec = k := by simpa using List.find?_some hrec
      refine ⟨rec, mem_distinctOn_iff.2 ⟨by simp, ?_⟩, hkey⟩
      rw [hkey, List.find?_flatMap]
      refine List.findSome?_eq_some_iff.2 ⟨before, c, after, heq, ?_, fun d hd => ?_⟩
      · rw [hfind, hrec]
        rfl
      · rw [hfind, (hnone d).2 (hbefore d hd)]
        rfl

/-- There are no cycles as long as every contract stands above its bases. -/
theorem acyclic_of_rank (rank : String → Nat)
    (h : ∀ c ∈ r.contractsIn project, ∀ b ∈ c.bases, rank b < rank c.name) :
    Acyclic (r.basesOf project) := by
  refine .of_rank rank fun n b hb => ?_
  rw [basesOf] at hb
  split at hb
  · rename_i c hc
    obtain ⟨hmem, rfl⟩ := called_eq_some hc
    exact h c hmem b (List.mem_reverse.1 hb)
  · cases hb

/-- The record of a base stays in the interface exactly if no contract that is visited before the
base declares its kind and signature. A contract derived from the base is visited before it exactly
if the first way to the base goes through this contract, that is the way that takes at each contract
the rightmost of the bases which lead to the base. Then an override hides what it overrides, and
otherwise only another contract can. -/
theorem supplies_iff (hacyclic : Acyclic (r.basesOf project)) {derived base : ContractRecords}
    (hderived : r.Inherits project name derived) (hbase : r.called project base.name = some base)
    (hway : Reaches (r.basesOf project) derived.name base.name) (hne : derived ≠ base)
    {k : SignatureKind × String} (hk : Declares base k) (hoverride : Declares derived k) :
    (r.origins name project).map (·.2) = r.fullInterface name project ∧
    (r.Supplies project name base k ↔
      ∀ c, Before c base (r.lineage name project) → ¬ Declares c k) ∧
    (Before derived base (r.lineage name project) ↔
      OnFirstWay (r.basesOf project) base.name derived.name name) ∧
    (OnFirstWay (r.basesOf project) base.name derived.name name →
      ¬ r.Supplies project name base k) := by
  have hlineage : base ∈ r.lineage name project := by
    obtain ⟨n, hn, hcalled⟩ := hderived
    rw [mem_lineage_iff]
    exact ⟨base.name, hn.trans ((called_eq_some hcalled).2 ▸ hway), hbase⟩
  have hsupplies : r.Supplies project name base k ↔
      ∀ c, Before c base (r.lineage name project) → ¬ Declares c k := by
    obtain ⟨front, back, heq⟩ := List.append_of_mem hlineage
    have hnodup := r.nodup_lineage name project
    rw [heq] at hnodup
    simp only [supplies_iff_first, heq, before_append_cons_iff hnodup]
    constructor
    · rintro ⟨-, front', back', heq', hfront⟩
      -- the base stands at one place only
      obtain ⟨hfront', hback'⟩ := not_or.1 (mt List.mem_append.2 (List.nodup_middle.1 hnodup).notMem)
      rwa [((List.append_cons_inj_of_notMem hfront' hback').1 heq').1]
    · exact fun hfront => ⟨hk, front, back, rfl, hfront⟩
  have horder : Before derived base (r.lineage name project) ↔
      OnFirstWay (r.basesOf project) base.name derived.name name := by
    obtain ⟨visited, hvisited, -⟩ := r.exists_visited name project
    obtain ⟨n, hn, hcalled⟩ := hderived
    have hname := (called_eq_some hcalled).2
    subst hname
    have hnames : derived.name ≠ base.name := by
      intro heq
      rw [heq, hbase] at hcalled
      exact hne (Option.some.inj hcalled).symm
    rw [before_lineage_iff hvisited hcalled hbase,
      hvisited.before_iff hacyclic (hn.trans hway) hway hnames]
  refine ⟨r.map_origins name project, hsupplies, horder, fun hfirst hsupplied => ?_⟩
  exact hsupplies.1 hsupplied derived (horder.2 hfirst) hoverride

/-- A contract with a function. -/
def overridden : ContractRecords := contractWith "Base" [] [functionF "Base"]

/-- A contract that overrides the function. -/
def overriding : ContractRecords := contractWith "Override" ["Base"] [functionF "Override"]

/-- Two contracts are derived from the override and from a contract that only inherits, in either
order. -/
def diamonds : Result :=
  ofContracts [overridden, overriding, contractWith "Plain" ["Base"] [],
    contractWith "Showing" ["Override", "Plain"] [], contractWith "Hiding" ["Plain", "Override"] []]

/-- With the override on the left, the base is reached on the right and its record is shown. With
the override on the right, the record of the base is hidden. -/
theorem supplies_diamonds :
    diamonds.Supplies none "Showing" overridden (.function, "f()") ∧
    ¬ diamonds.Supplies none "Hiding" overridden (.function, "f()") := by
  have hacyclic : Acyclic (diamonds.basesOf none) := by
    refine acyclic_of_rank (fun n => if n = "Base" then 0 else if n ∈ ["Override", "Plain"] then 1
      else 2) ?_
    decide
  have hbase : diamonds.called none overridden.name = some overridden := rfl
  have hway : Reaches (diamonds.basesOf none) overriding.name overridden.name :=
    .single (by decide)
  have hk : Declares overridden (.function, "f()") :=
    ⟨functionF "Base", List.mem_cons_self, by decide⟩
  have hk' : Declares overriding (.function, "f()") :=
    ⟨functionF "Override", List.mem_cons_self, by decide⟩
  constructor
  · have hderived : diamonds.Inherits none "Showing" overriding :=
      ⟨"Override", .single (by decide), rfl⟩
    have hlineage : diamonds.lineage "Showing" none =
        [contractWith "Showing" ["Override", "Plain"] [], contractWith "Plain" ["Base"] []] ++
        overridden :: [overriding] := by cbv
    refine (supplies_iff hacyclic hderived hbase hway (by decide) hk hk').2.1.2 ?_
    intro c hc
    rw [hlineage, before_append_cons_iff (by decide)] at hc
    rintro ⟨rec, hrec, -⟩
    rcases List.mem_pair.1 hc with rfl | rfl <;> cases hrec
  · have hderived : diamonds.Inherits none "Hiding" overriding :=
      ⟨"Override", .single (by decide), rfl⟩
    refine (supplies_iff hacyclic hderived hbase hway (by decide) hk hk').2.2.2 ?_
    have hnext : diamonds.basesOf none "Hiding" = [] ++ "Override" :: ["Plain"] := by decide
    exact .step hnext (by simp) hway (.here hway)

end Result

end AbiIndex.Scan
