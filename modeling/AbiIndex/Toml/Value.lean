/-!
# TOML values

Only texts, arrays and tables are told apart; numbers, truth values and dates are all plain
scalars. A table lists its keys in the order in which they were set.
-/

namespace AbiIndex.Toml

inductive Value where
  | text (s : String)
  | scalar
  | array (items : List Value)
  | table (entries : List (String × Value))

/-- The entries of a table. -/
abbrev Table := List (String × Value)

/-- The value of a key. -/
def Table.get? (t : Table) (key : String) : Option Value := (t.find? (·.1 = key)).map (·.2)

/-- The value of a key in a value that is a table. -/
def Value.get? (v : Value) (key : String) : Option Value :=
  match v with
  | .table t => Table.get? t key
  | _ => none

/-- Sets the value of a key. -/
def Table.set (key : String) (v : Value) : Table → Table
  | [] => [(key, v)]
  | e :: rest => if e.1 = key then (key, v) :: rest else e :: set key v rest

/-- Changes the table at a path of keys, which is made if it is missing. A key may lead into the
last table of an array if `intoArrays` is set. It fails where a key leads to anything else. -/
def Table.change (intoArrays : Bool) (f : Table → Option Table) : List String → Table → Option Table
  | [], t => f t
  | key :: rest, t =>
    match t.get? key with
    | none => (change intoArrays f rest []).map fun sub => t.set key (.table sub)
    | some (.table sub) => (change intoArrays f rest sub).map fun sub => t.set key (.table sub)
    | some (.array items) =>
      match intoArrays, items.getLast? with
      | true, some (.table last) =>
        (change intoArrays f rest last).map fun last =>
          t.set key (.array (items.dropLast ++ [.table last]))
      | _, _ => none
    | some _ => none

/-- Adds a key that must be new. -/
def Table.add (key : String) (v : Value) (t : Table) : Option Table :=
  if (t.get? key).isSome then none else some (t.set key v)

/-- Appends an empty table to the array of a key, which is made if it is missing. -/
def Table.appendTable (key : String) (t : Table) : Option Table :=
  match t.get? key with
  | none => some (t.set key (.array [.table []]))
  | some (.array items) => some (t.set key (.array (items ++ [.table []])))
  | some _ => none

end AbiIndex.Toml
