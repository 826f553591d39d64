import AbiIndex.Export.View

/-!
# Exports as Markdown

A table of numbers, a section for each contract with a table of its records, and sections for the
records outside contracts and for the collisions where there are any.
-/

namespace AbiIndex.Export.View

open AbiIndex.Abi

/-- A row of a table. -/
def tableRow (cells : List String) : String := "| " ++ " | ".intercalate cells ++ " |\n"

/-- The head of a table. -/
def tableHead (columns : List String) : String :=
  tableRow columns ++ tableRow (columns.map fun _ => "---")

/-- A text in code style. -/
def code (s : String) : String := s!"\x60{s}\x60"

/-- The table of numbers. -/
def totalsTable (t : Scan.Totals) : String :=
  tableHead ["Metric", "Count"]
    ++ tableRow ["Contracts", toString t.contracts]
    ++ tableRow ["Functions (external/public)", toString t.externalFunctions]
    ++ tableRow ["Functions (internal/private)", toString t.internalFunctions]
    ++ tableRow ["Events", toString t.events]
    ++ tableRow ["Errors", toString t.errors]
    ++ tableRow ["Selector collisions", toString t.collisions]

/-- The row of a record in the table of its contract. -/
def memberRow (r : Record) : String :=
  tableRow [code r.selector, code r.signature,
    r.kind.name ++ (if r.anonymous then " (anonymous)" else ""),
    r.visibility.getD "", r.mutability.getD ""]

/-- The row of a record outside contracts. -/
def freeRow (r : Record) : String :=
  tableRow [code r.selector, code r.signature, r.kind.name, code r.path]

/-- The section of a contract. -/
def contractSection (c : Scan.ContractRecords) : String :=
  let project := c.project.getD ""
  s!"## {c.kind.name} {code c.name}\n\nSource: {code c.path}"
    ++ (if project = "" then "" else s!" (project {code project})") ++ "\n"
    ++ (if c.bases = [] then "" else "Inherits: " ++ ", ".intercalate c.bases ++ "\n\n")
    ++ (if c.records = [] then "_No exported signatures._\n"
        else tableHead ["Selector", "Signature", "Kind", "Visibility", "Mutability"]
          ++ String.join (c.records.map memberRow))
    ++ "\n"

/-- The section of the records outside contracts. -/
def freeSection (records : List Record) : String :=
  if records = [] then ""
  else "## File-level declarations\n\n" ++ tableHead ["Selector", "Signature", "Kind", "Source"]
    ++ String.join (records.map freeRow) ++ "\n"

/-- The section of the collisions. -/
def collisionSection (collisions : List Collision) : String :=
  if collisions = [] then ""
  else "## Selector collisions\n\n" ++ String.join (collisions.map fun c =>
    s!"- {code c.selector} ({c.kind.name}): " ++ ", ".intercalate c.signatures ++ "\n")

/-- The document. -/
def markdown (v : View) : String :=
  finish (s!"# Signatures: {v.title}\n\n" ++ totalsTable v.result.totals ++ "\n"
    ++ String.join (v.contracts.map contractSection) ++ freeSection v.freeRecords
    ++ collisionSection v.result.collisions).toList

end AbiIndex.Export.View
