import AbiIndex.Proofs.Containment
import AbiIndex.Proofs.SignedRecords

/-!
# What becomes of each declaration

A file that can be resolved gives something for each of its declarations: a record with what the
declaration says, or a report. Records and reports stand in the order of the declarations, and
nothing else is changed.

## Key results

- `Entry.map_declared_ofUnit`: the declarations that are resolved are those of the file, apart from
  its constructors, fallback and receive functions
- `accounts_of_outcome`: a declaration has a record that describes it, or a report that names it
- `resolveUnit_accounts`: all declarations of a file have their own, in order
-/

namespace AbiIndex.Abi

open AbiIndex.Source

/-! ## Declarations at their places -/

/-- A function, an event or an error of a file, with the contract that it stands in, if any. -/
inductive Entry where
  | function (contract : ContractDecl) (d : FunctionDecl)
  | event (contract : Option ContractDecl) (d : EventDecl)
  | error (contract : Option ContractDecl) (d : ErrorDecl)

namespace Entry

/-- The functions, the events and the errors of a contract. -/
def ofContract (c : ContractDecl) : List Entry :=
  (c.functions.filter fun d => d.kind ∉ [.constructor, .fallback, .receive]).map (function c)
    ++ c.events.map (event (some c)) ++ c.errors.map (error (some c))

/-- The declarations of all contracts of a file, and then the events and the errors outside of them.
-/
def ofUnit (unit : SourceUnit) : List Entry :=
  unit.contracts.flatMap ofContract ++ unit.events.map (event none) ++ unit.errors.map (error none)

def kind : Entry → SignatureKind
  | function _ _ => .function
  | event _ _ => .event
  | error _ _ => .error

def name : Entry → String
  | function _ d => d.name
  | event _ d => d.name
  | error _ d => d.name

def parameters : Entry → List Parameter
  | function _ d => d.parameters
  | event _ d => d.parameters
  | error _ d => d.parameters

def line : Entry → Nat
  | function _ d => d.line
  | event _ d => d.line
  | error _ d => d.line

def natspec : Entry → Option Natspec
  | function _ d => d.natspec
  | event _ d => d.natspec
  | error _ d => d.natspec

/-- The name of the contract. -/
def contract : Entry → Option String
  | function c _ => some c.name
  | event c _ => c.map (·.name)
  | error c _ => c.map (·.name)

/-- What is said of a declaration besides: the visibility, the mutability and the returned types of
a function, and whether an event is anonymous. -/
def details : Entry → Option String × Option String × List String × Bool
  | function _ d =>
    (some d.visibility.name, some d.mutability.name, d.returns.map (·.type.render), false)
  | event _ d => (none, none, [], d.anonymous)
  | error _ _ => (none, none, [], false)

/-- Where the types of the parameters are looked up. -/
def scope (e : Entry) (path : String) : Scope := ⟨path, e.contract⟩

/-- The declaration as it is resolved. -/
def declared : Entry → Declared
  | function c d => .ofFunction c.name d
  | event c d => .ofEvent (c.map (·.name)) d
  | error c d => .ofError (c.map (·.name)) d

theorem map_declared_ofContract (c : ContractDecl) :
    (ofContract c).map declared = Declared.ofContract c := by
  have hkind : c.functions.filter (fun d => d.kind ∉ [.constructor, .fallback, .receive]) =
      c.functions.filter (·.kind = .function) := by
    refine List.filter_congr fun d _ => ?_
    cases d.kind <;> rfl
  rw [ofContract, hkind]
  simp [Declared.ofContract, declared, Function.comp_def]

theorem map_declared_ofUnit (unit : SourceUnit) :
    (ofUnit unit).map declared = Declared.ofUnit unit := by
  simp only [ofUnit, Declared.ofUnit, List.map_append, List.map_flatMap, map_declared_ofContract,
    List.map_map]
  rfl

@[simp] theorem kind_declared (e : Entry) : e.declared.kind = e.kind := by cases e <;> rfl

@[simp] theorem name_declared (e : Entry) : e.declared.name = e.name := by cases e <;> rfl

@[simp] theorem parameters_declared (e : Entry) : e.declared.parameters = e.parameters := by
  cases e <;> rfl

@[simp] theorem line_declared (e : Entry) : e.declared.line = e.line := by cases e <;> rfl

@[simp] theorem natspec_declared (e : Entry) : e.declared.natspec = e.natspec := by cases e <;> rfl

@[simp] theorem contract_declared (e : Entry) : e.declared.contract = e.contract := by
  cases e <;> rfl

end Entry

/-! ## Records and reports -/

/-- The record says of the declaration what its source says, with canonical types for its
parameters. -/
structure Describes (reg : Registry) (file : String) (e : Entry) (r : Record) : Prop where
  kind : r.kind = e.kind
  name : r.name = e.name
  path : r.path = file
  contract : r.contract = e.contract
  line : r.line = e.line
  natspec : r.natspec = e.natspec
  details : (r.visibility, r.mutability, r.returns, r.anonymous) = e.details
  parameters : r.inputs.map (fun i => (i.name, i.indexed)) =
    e.parameters.map fun p => (p.name, p.indexed)
  types : List.Forall₂ (fun p i => canonical reg (e.scope file) p.type = .ok i.type) e.parameters
    r.inputs
  signature : r.signature = Abi.signature e.name (r.inputs.map (·.type))
  selector : r.selector = Abi.selector e.kind r.signature
  project : r.project = none

/-- The report names the declaration, which has a parameter without a canonical type. -/
structure Reports (reg : Registry) (file : String) (e : Entry) (d : Diagnostic) : Prop where
  kind : d.kind = .invalidParameterType ∨ d.kind = .unresolvableType
  path : d.path = some file
  line : d.line = some (e.line : Int)
  construct : d.construct = some (e.kind.name ++ " " ++ e.name)
  cause : ∃ p ∈ e.parameters, ∀ t, canonical reg (e.scope file) p.type ≠ .ok t

/-- What a declaration gives: a record, if none of its parameters leads to a mapping, or a report.
-/
inductive Accounts (reg : Registry) (path : String) (e : Entry) : Record ⊕ Diagnostic → Prop
  | record {r : Record} (h : Describes reg path e r)
      (hmapping : ∀ p ∈ e.parameters, ¬ ReachesMapping reg (e.scope path) p.type) :
      Accounts reg path e (.inl r)
  | report {d : Diagnostic} (h : Reports reg path e d) : Accounts reg path e (.inr d)

/-- There are two kinds of reports on types. -/
theorem TypeError.kind_of_diagnosticKind? {e : TypeError} {kind : DiagnosticKind}
    (h : e.diagnosticKind? = some kind) :
    kind = .invalidParameterType ∨ kind = .unresolvableType := by
  unfold diagnosticKind? at h
  split at h <;> simp_all

section Outcomes

variable {reg : Registry} {path : String} {e : Entry}

/-- The inputs of a record are the parameters, each with its type. -/
theorem forall₂_zipWith_inputs {R : Parameter → String → Prop} {ps : List Parameter}
    {types : List String} (h : List.Forall₂ R ps types) :
    List.Forall₂ (fun p (i : Input) => R p i.type) ps
      (ps.zipWith (fun p t => ⟨p.name, t, p.indexed⟩) types) := by
  induction h with
  | nil => exact .nil
  | cons hp _ ih => exact .cons hp ih

theorem describes_record {types : List String}
    (h : List.Forall₂ (fun p t => canonical reg (e.scope path) p.type = .ok t) e.parameters types) :
    Describes reg path e (e.declared.record path types) where
  kind := e.kind_declared
  name := e.name_declared
  path := rfl
  contract := e.contract_declared
  line := congrArg Int.ofNat e.line_declared
  natspec := e.natspec_declared
  details := by cases e <;> rfl
  parameters := by
    apply List.ext_getElem
    · simp [Declared.record, h.length_eq]
    · intro i _ _
      simp [Declared.record]
  types := by simpa [Declared.record] using forall₂_zipWith_inputs h
  signature := by
    rw [Declared.map_type_inputs (by simpa using h.length_eq)]
    simp [Declared.record]
  selector := by simp [Declared.record]
  project := rfl

/-- A type with a canonical form does not lead to a mapping. -/
theorem not_reachesMapping_of_canonical {scope : Scope} {type : TypeRef} {t : String}
    (h : canonical reg scope type = .ok t) : ¬ ReachesMapping reg scope type := by
  obtain ⟨n, hn⟩ := canonicalWithin_sound h
  exact fun hmapping => not_derives_of_reachesMapping hmapping n t hn

theorem accounts_of_outcome {o : Record ⊕ Diagnostic} (h : e.declared.Outcome reg path o) :
    Accounts reg path e o := by
  rcases h with @⟨types, htypes⟩ | @⟨err, kind, ⟨before, p, after, hsplit, -, hp⟩, hkind⟩
  · have htypes : List.Forall₂ (fun p t => canonical reg (e.scope path) p.type = .ok t)
        e.parameters types := by simpa [Entry.scope] using htypes
    refine .record (describes_record htypes) fun p hp => ?_
    obtain ⟨t, -, ht⟩ := exists_right_of_forall₂ htypes hp
    exact not_reachesMapping_of_canonical ht
  · refine .report ⟨err.kind_of_diagnosticKind? hkind, rfl, ?_, ?_, p, ?_, fun t ht => ?_⟩
    · simp [Declared.dropped]
    · simp [Declared.dropped, Declared.construct]
      rfl
    · rw [← Entry.parameters_declared, hsplit]
      simp
    · rw [Entry.scope, ← Entry.contract_declared, hp] at ht
      cases ht

end Outcomes

/-- If a file can be resolved, each of its functions apart from constructors, fallback and receive
functions, each of its events and each of its errors gives one record or one report of its own. The
records and the reports stand in the order of the declarations; what was reported before stands in
front, and the declarations of the file stay as they are. A declaration with a parameter that leads
to a mapping has no record. -/
theorem resolveUnit_accounts {reg : Registry} {unit : SourceUnit} {resolved : ResolvedUnit}
    (h : resolveUnit reg unit = .ok resolved) :
    resolved.unit = unit ∧ ∃ outcomes : List (Record ⊕ Diagnostic),
      List.Forall₂ (Accounts reg unit.path) (Entry.ofUnit unit) outcomes ∧
      resolved.records = outcomes.filterMap Sum.getLeft? ∧
      resolved.diagnostics = unit.diagnostics ++ outcomes.filterMap Sum.getRight? := by
  obtain ⟨outcomes, houtcomes, rfl⟩ := resolveUnit_eq_ok_iff.1 h
  rw [← Entry.map_declared_ofUnit, List.forall₂_map_left_iff] at houtcomes
  exact ⟨rfl, outcomes, houtcomes.imp fun _ _ => accounts_of_outcome, rfl, rfl⟩

/-- A function that takes an amount. -/
def deposit : FunctionDecl :=
  ⟨"deposit", [⟨"amount", .elementary "uint", false⟩], .function, .pub, .payable, true, [], [],
    false, false, 3, none⟩

/-- A function that takes a mapping. -/
def seed : FunctionDecl :=
  ⟨"seed", [⟨"shares", .mapping (.elementary "address") (.elementary "uint"), false⟩], .function,
    .internal, .nonpayable, true, [], [], false, false, 4, none⟩

/-- A contract with these functions and a constructor, and an error behind it. -/
def vault : SourceUnit :=
  .ofMembers "Vault.sol" .contracts
    [.contract ⟨"Vault", .contract, [],
      [⟨"", [], .constructor, .pub, .nonpayable, false, [], [], false, false, 2, none⟩, deposit,
        seed],
      [], [], [], [], [], [], [], 1, none⟩,
     .error ⟨"Locked", [], 6, none⟩]

/-- Of its three declarations two have records and one a report. -/
theorem resolveUnit_accounts_vault : ∃ resolved outcomes,
    resolveUnit (Registry.ofUnits [vault]) vault = .ok resolved ∧
      List.Forall₂ (Accounts (Registry.ofUnits [vault]) "Vault.sol") (Entry.ofUnit vault) outcomes ∧
      resolved.records = outcomes.filterMap Sum.getLeft? ∧
      resolved.diagnostics = vault.diagnostics ++ outcomes.filterMap Sum.getRight? ∧
      resolved.records.map (·.signature) = ["deposit(uint256)", "Locked()"] ∧
      resolved.diagnostics.map (·.construct) = [some "function seed"] := by
  let reg := Registry.ofUnits [vault]
  have hamount : canonical reg ⟨"Vault.sol", some "Vault"⟩ (.elementary "uint") =
      .ok "uint256" := by
    rw [canonical, canonicalWithin]
    rfl
  have hshares : canonical reg ⟨"Vault.sol", some "Vault"⟩
      (.mapping (.elementary "address") (.elementary "uint")) =
        .error (.mapping "mapping(address => uint)") := by
    rw [canonical, canonicalWithin]
    rfl
  have hall : List.Forall₂ (Declared.Outcome reg vault.path)
      [.ofFunction "Vault" deposit, .ofFunction "Vault" seed,
        .ofError none ⟨"Locked", [], 6, none⟩] _ :=
    .cons (.record (.cons hamount .nil))
      (.cons (.dropped ⟨[], _, [], rfl, by simp, hshares⟩ rfl) (.cons (.record .nil) .nil))
  have hdeclared : Declared.ofUnit vault = [.ofFunction "Vault" deposit, .ofFunction "Vault" seed,
      .ofError none ⟨"Locked", [], 6, none⟩] := rfl
  have hresolve := resolveUnit_eq_ok_iff.2 ⟨_, hdeclared ▸ hall, rfl⟩
  obtain ⟨-, outcomes, houtcomes, hrecords, hdiagnostics⟩ := resolveUnit_accounts hresolve
  exact ⟨_, outcomes, hresolve, houtcomes, hrecords, hdiagnostics, by decide, by decide⟩

end AbiIndex.Abi
