import AbiIndex.Export.View

/-!
# Exports as comma-separated values

A header, and a row for each record. A field is quoted only where it has to be. Releases of the
writer differ in whether a carriage return is a reason to quote a field, so that this is left open.
-/

namespace AbiIndex.Export

open AbiIndex.Abi

namespace Csv

variable (quotesReturns : Bool)

/-- Whether a field with this character is quoted. -/
def isSpecial (c : Char) : Bool := c = ',' || c = '"' || c = '\n' || (quotesReturns && c = '\r')

/-- The text between the quotes of a field. -/
def double (c : Char) : List Char := if c = '"' then ['"', '"'] else [c]

/-- A field. -/
def field (s : String) : List Char :=
  if s.toList.any (isSpecial quotesReturns) then '"' :: s.toList.flatMap double ++ ['"']
  else s.toList

/-- A row with its line break. -/
def row (fields : List String) : List Char :=
  [','].intercalate (fields.map (field quotesReturns)) ++ ['\n']

end Csv

/-- The names of the columns. -/
def csvHeader : List String :=
  ["project", "contract", "path", "kind", "name", "signature", "selector", "visibility",
   "state_mutability", "line"]

/-- The fields of a record; what is missing is empty. -/
def csvFields (r : Record) : List String :=
  [r.project.getD "", r.contract.getD "", r.path, r.kind.name, r.name, r.signature, r.selector,
   r.visibility.getD "", r.mutability.getD "", toString r.line]

/-- The document. -/
def View.csv (v : View) (quotesReturns : Bool) : String :=
  String.ofList ((csvHeader :: v.records.map csvFields).flatMap (Csv.row quotesReturns))

end AbiIndex.Export
