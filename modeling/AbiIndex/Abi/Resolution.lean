import AbiIndex.Abi.Canonical
import AbiIndex.Abi.Record

/-!
# Resolution

Turns the declarations of a file into records. Every declaration gives one record, or one report if
a parameter has no canonical type. A type that cannot even be reported ends the work.
-/

namespace AbiIndex.Abi

open AbiIndex.Source

/-- A declaration with a signature, wherever it stands. -/
structure Declared where
  kind : SignatureKind
  name : String
  parameters : List Parameter
  contract : Option String
  line : Nat
  natspec : Option Natspec
  visibility : Option Visibility
  mutability : Option Mutability
  returns : List Parameter
  anonymous : Bool

namespace Declared

def ofFunction (contract : String) (d : FunctionDecl) : Declared :=
  ⟨.function, d.name, d.parameters, some contract, d.line, d.natspec, some d.visibility,
    some d.mutability, d.returns, false⟩

def ofEvent (contract : Option String) (d : EventDecl) : Declared :=
  ⟨.event, d.name, d.parameters, contract, d.line, d.natspec, none, none, [], d.anonymous⟩

def ofError (contract : Option String) (d : ErrorDecl) : Declared :=
  ⟨.error, d.name, d.parameters, contract, d.line, d.natspec, none, none, [], false⟩

/-- The declarations of a contract: its functions that have a selector, its events and its
errors. -/
def ofContract (c : ContractDecl) : List Declared :=
  (c.functions.filter (·.kind = .function)).map (ofFunction c.name)
    ++ c.events.map (ofEvent (some c.name)) ++ c.errors.map (ofError (some c.name))

/-- The declarations of a file: those of its contracts, its events and its errors. -/
def ofUnit (unit : SourceUnit) : List Declared :=
  unit.contracts.flatMap ofContract ++ unit.events.map (ofEvent none)
    ++ unit.errors.map (ofError none)

/-- The name of the declaration in reports. -/
def construct (d : Declared) : String := s!"{d.kind.name} {d.name}"

/-- The record of the declaration in the file `path`, given the canonical types of its
parameters. -/
def record (d : Declared) (path : String) (types : List String) : Record :=
  let sig := signature d.name types
  { name := d.name
    signature := sig
    selector := selector d.kind sig
    kind := d.kind
    path := path
    contract := d.contract
    visibility := d.visibility.map (·.name)
    mutability := d.mutability.map (·.name)
    inputs := d.parameters.zipWith (fun p t => ⟨p.name, t, p.indexed⟩) types
    returns := d.returns.map (·.type.render)
    anonymous := d.anonymous
    line := d.line
    natspec := d.natspec
    project := none }

/-- The report that a parameter of the declaration has no canonical type. -/
def dropped (d : Declared) (path : String) (kind : DiagnosticKind) (e : TypeError) : Diagnostic :=
  ⟨kind, s!"{d.construct} dropped: {e.message}", some path, some d.line, some d.construct⟩

/-- The record of the declaration, or the report why it has none. -/
def resolve (d : Declared) (reg : Registry) (path : String) :
    Except TypeError (Record ⊕ Diagnostic) :=
  match d.parameters.mapM fun p => canonical reg ⟨path, d.contract⟩ p.type with
  | .ok types => .ok (.inl (d.record path types))
  | .error e =>
    match e.diagnosticKind? with
    | some kind => .ok (.inr (d.dropped path kind e))
    | none => .error e

end Declared

/-- A file with its records. The reports of the resolution follow those of the file itself. -/
structure ResolvedUnit where
  unit : SourceUnit
  records : List Record
  dropped : List Diagnostic

namespace ResolvedUnit

def diagnostics (r : ResolvedUnit) : List Diagnostic := r.unit.diagnostics ++ r.dropped

/-- The records of the given contract, or those outside contracts. -/
def recordsFor (r : ResolvedUnit) (contract : Option String) : List Record :=
  r.records.filter (·.contract = contract)

end ResolvedUnit

/-- Resolves all declarations of a file against the names of a project. -/
def resolveUnit (reg : Registry) (unit : SourceUnit) : Except TypeError ResolvedUnit := do
  let outcomes ← (Declared.ofUnit unit).mapM fun d => d.resolve reg unit.path
  return ⟨unit, outcomes.filterMap Sum.getLeft?, outcomes.filterMap Sum.getRight?⟩

/-- Why a single file has no records. -/
inductive ParseError where
  | unterminated (e : Unterminated)
  | type (e : TypeError)

/-- Reads a file and resolves it against its own names. -/
def parse (text : List Char) (path : String) : Except ParseError ResolvedUnit :=
  match SourceUnit.extract text path with
  | .error e => .error (.unterminated e)
  | .ok unit =>
    match resolveUnit (Registry.ofUnits [unit]) unit with
    | .error e => .error (.type e)
    | .ok resolved => .ok resolved

end AbiIndex.Abi
