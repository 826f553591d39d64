/-!
# JSON values

A value of the JSON data model whose numbers are integers. Fields of an object keep their order.
-/

namespace AbiIndex

/-- A JSON value. -/
inductive JsonValue where
  | null
  | bool (b : Bool)
  | num (n : Int)
  | str (s : String)
  | arr (items : List JsonValue)
  | obj (fields : List (String × JsonValue))

namespace JsonValue

/-- A text, or nothing. -/
def ofText? : Option String → JsonValue
  | some s => str s
  | none => null

/-- A list of texts. -/
def texts (xs : List String) : JsonValue := arr (xs.map str)

/-- The value of a field; of several fields with one name the last one counts. -/
def get? (v : JsonValue) (name : String) : Option JsonValue :=
  match v with
  | obj fields => (fields.reverse.find? (·.1 = name)).map (·.2)
  | _ => none

end JsonValue

end AbiIndex
