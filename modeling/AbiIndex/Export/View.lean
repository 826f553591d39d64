import AbiIndex.Export.Format
import AbiIndex.Scan.Result

/-!
# What an export shows

The options of an export say which records it shows. Contracts are shown even if none of their
records are.
-/

namespace AbiIndex.Export

open AbiIndex.Abi AbiIndex.Source

/-- The options of an export. -/
structure Options where
  outputDir : Path
  formats : List String
  includeInternal : Bool
  includePrivate : Bool
  includeEvents : Bool
  includeErrors : Bool
  basename : String

/-- The formats of an export for which none are given. -/
def defaultFormats : List String := [Format.txt.name, Format.json.name]

/-- The name of exported files, without extension, if none is given. -/
def defaultBasename : String := "signatures"

/-- Whether the export shows a record. -/
def Options.keeps (o : Options) (r : Record) : Bool :=
  match r.kind with
  | .event => o.includeEvents
  | .error => o.includeErrors
  | .function =>
    if r.visibility = some Visibility.internal.name then o.includeInternal
    else if r.visibility = some Visibility.priv.name then o.includePrivate
    else true

/-- A result with the records that an export shows. -/
structure View where
  result : Scan.Result
  /-- The contracts, each with the shown ones of its records. -/
  contracts : List Scan.ContractRecords
  freeRecords : List Record

namespace View

/-- What the options show of a result. -/
def of (o : Options) (result : Scan.Result) : View :=
  { result := result
    contracts := result.contracts.map fun c => { c with records := c.records.filter o.keeps }
    freeRecords := result.freeRecords.filter o.keeps }

/-- All shown records: those of the contracts, and then those outside contracts. -/
def records (v : View) : List Record := v.contracts.flatMap (·.records) ++ v.freeRecords

/-- The title of the export: the name of the directory and the layout of the project. -/
def title (v : View) : String :=
  let root := v.result.project.root
  let name := if root.name = "" then root.render else root.name
  s!"{name} ({v.result.project.layout.name})"

end View

/-- The lines of a document with blank space at its end removed and one line break put there. -/
def finish (cs : List Char) : String := String.ofList (Text.trimEnd cs ++ ['\n'])

end AbiIndex.Export
