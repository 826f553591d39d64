import AbiIndex.Collision
import AbiIndex.Graph
import AbiIndex.Project.Info
import AbiIndex.Source.Category

/-!
# Results of a scan

The records of a project by contract, with everything that was noticed on the way. Results of
several projects are combined into one, in which every record keeps the label of its project.
-/

namespace AbiIndex.Scan

open AbiIndex.Abi AbiIndex.Source

/-- The records of one contract. -/
structure ContractRecords where
  name : String
  kind : ContractKind
  path : String
  category : Category
  bases : List String
  records : List Record
  /-- The words for its constructor, fallback and receive function as far as it has them. -/
  specialFunctions : List String
  project : Option String
deriving DecidableEq

/-- What a scan found. -/
structure Result where
  project : Project.Info
  contracts : List ContractRecords
  freeRecords : List Record
  diagnostics : List Diagnostic
  collisions : List Collision
  filesScanned : Int
  /-- Whether the scan was cancelled before it had seen everything. -/
  isPartial : Bool
deriving DecidableEq

/-- Numbers of what was found. -/
structure Totals where
  contracts : Nat
  functions : Nat
  externalFunctions : Nat
  internalFunctions : Nat
  events : Nat
  errors : Nat
  collisions : Nat

namespace Result

/-- All records: those of the contracts, and then those outside contracts. -/
def records (r : Result) : List Record := r.contracts.flatMap (·.records) ++ r.freeRecords

def totals (r : Result) : Totals :=
  let functions := r.records.countP (·.kind = .function)
  let callable := r.records.countP (·.isCallable)
  { contracts := r.contracts.length
    functions := functions
    externalFunctions := callable
    internalFunctions := functions - callable
    events := r.records.countP (·.kind = .event)
    errors := r.records.countP (·.kind = .error)
    collisions := r.collisions.length }

/-- The contracts of the given name. -/
def findContracts (r : Result) (name : String) : List ContractRecords :=
  r.contracts.filter (·.name = name)

/-- The contracts of a project, or all of them. -/
def contractsIn (r : Result) (project : Option String) : List ContractRecords :=
  r.contracts.filter fun c => project = none || c.project = project

/-- The elements of a list whose key neither stands in `seen` nor belongs to an earlier one. -/
def distinctOn {α β : Type} [DecidableEq β] (key : α → β) (seen : List β) : List α → List α
  | [] => []
  | x :: rest =>
    if key x ∈ seen then distinctOn key seen rest
    else x :: distinctOn key (key x :: seen) rest

/-- What a contract and all its bases declare, within one project if one is given. The bases are
visited from right to left, and of several records with the same kind and signature the first one
counts, so that an override hides what it overrides. -/
def fullInterface (r : Result) (name : String) (project : Option String) : List Record :=
  let contracts := r.contractsIn project
  let called := fun n => contracts.find? (·.name = n)
  let next := fun n => match called n with
    | some c => c.bases.reverse
    | none => []
  let reached := preorder next (contracts.map (·.name)) [name]
  distinctOn (fun r => (r.kind, r.signature)) []
    (reached.flatMap fun n => ((called n).map (·.records)).getD [])

/-- The result with its collisions and the reports of them. -/
def withCollisions (r : Result) : Result :=
  let collisions := Collision.detect r.records
  { r with
    collisions := collisions
    diagnostics := r.diagnostics ++ collisions.map Collision.diagnostic }

/-- The results of several projects together. The collisions are looked for anew. -/
def combine (project : Project.Info) (results : List Result) : Result :=
  withCollisions
    { project := project
      contracts := results.flatMap (·.contracts)
      freeRecords := results.flatMap (·.freeRecords)
      diagnostics := results.flatMap fun r =>
        r.diagnostics.filter (·.kind ≠ .selectorCollision)
      collisions := []
      filesScanned := results.foldr (·.filesScanned + ·) 0
      isPartial := results.any (·.isPartial) }

end Result

end AbiIndex.Scan
