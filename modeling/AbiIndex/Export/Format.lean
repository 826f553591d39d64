import AbiIndex.Text.Blank
import AbiIndex.Text.Case

/-!
# Output formats

The formats that a result can be written in, and how a user names them: in any case, with white
space around them, separated by commas.
-/

namespace AbiIndex.Export

/-- A format of an exported file. -/
inductive Format where
  | txt
  | json
  | csv
  | md
deriving DecidableEq

namespace Format

/-- The name of a format, which is also the extension of its files. -/
def name : Format → String
  | txt => "txt"
  | json => "json"
  | csv => "csv"
  | md => "md"

def all : List Format := [txt, json, csv, md]

def ofName? (s : String) : Option Format := all.find? (·.name = s)

/-- The names in lower case and without white space around them; blank ones are left out. -/
def normalize (names : List String) : List String :=
  ((names.map fun s => Text.trim s.toList).filter (· ≠ [])).map fun cs =>
    String.ofList (Text.lower cs)

/-- The names in a list separated by commas. -/
def split (names : String) : List String :=
  normalize ((Text.pieces (· = ',') names.toList).map String.ofList)

end Format

end AbiIndex.Export
