import AbiIndex.Export.View

/-!
# Exports as plain text

Every contract with its records, one a line, then the records outside contracts, then the
collisions.
-/

namespace AbiIndex.Export.View

open AbiIndex.Abi

/-- What is said of a record behind its signature. -/
def details (r : Record) : List String :=
  let word := fun w : Option String => (w.filter (· ≠ "")).toList
  r.kind.name :: word r.visibility
    ++ (if r.kind = .function then word r.mutability else [])
    ++ (if r.anonymous then ["anonymous"] else [])

/-- The line of a record. -/
def textLine (r : Record) : String :=
  s!"  {r.selector}  {r.signature}  [" ++ " ".intercalate (details r) ++ "]"

/-- The lines of a contract. -/
def contractLines (c : Scan.ContractRecords) : List String :=
  s!"{c.kind.name} {c.name} ({c.path})"
    :: (if c.records = [] then ["  (no signatures)"] else c.records.map textLine) ++ [""]

/-- The lines of the document. -/
def textLines (v : View) : List String :=
  [s!"# {v.title}", ""] ++ v.contracts.flatMap contractLines
    ++ (if v.freeRecords = [] then []
        else "file-level declarations" :: v.freeRecords.map textLine ++ [""])
    ++ (if v.result.collisions = [] then []
        else "selector collisions" :: v.result.collisions.map fun c =>
          s!"  {c.selector} " ++ ", ".intercalate c.signatures)

/-- The document. -/
def plainText (v : View) : String := finish ("\n".intercalate v.textLines).toList

end AbiIndex.Export.View
