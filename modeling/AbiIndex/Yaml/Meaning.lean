import AbiIndex.Yaml.Document
import AbiIndex.Yaml.Scalar

/-!
# The value of a document

Texts get their meaning only when the whole structure is known. If several texts are at fault, the
one that is nested least deeply is reported, and of those the first.
-/

namespace AbiIndex.Yaml

/-- A fault with the number of collections around it. -/
abbrev NestedFault := Nat × Fault

/-- Two outcomes together. Of two faults the one that is nested less deeply counts, and the first
one if they are nested alike. -/
def both {α β : Type} (a : Except NestedFault α) (b : Except NestedFault β) :
    Except NestedFault (α × β) :=
  match a, b with
  | .ok x, .ok y => .ok (x, y)
  | .error e, .ok _ => .error e
  | .ok _, .error e => .error e
  | .error e, .error e' => .error (if e'.1 < e.1 then e' else e)

/-- An outcome that concerns the present collection. -/
def here {α : Type} (a : Except Fault α) : Except NestedFault α := a.mapError fun f => (0, f)

/-- An outcome inside a collection of the present one. -/
def inside {α : Type} (a : Except NestedFault α) : Except NestedFault α :=
  a.mapError fun (depth, f) => (depth + 1, f)

namespace Node

/-- The value of a key. Collections and nodes with tags are no keys. -/
def keyValue : Node → Except NestedFault Value
  | scalar text isPlain => here (Scalar.key text isPlain)
  | _ => .error (0, .malformed)

mutual

/-- The value of a node in which everything is merged. -/
def value : Node → Except NestedFault Value
  | scalar text isPlain => here (Scalar.value text isPlain)
  | sequence items => inside ((itemValues items).map .list)
  | mapping pairs => inside ((pairValues pairs).map .map)
  | tagged _ => .error (0, .malformed)
  | unmergeable => .error (1, .malformed)

/-- The values of the items of a sequence. -/
def itemValues : List Node → Except NestedFault (List Value)
  | [] => .ok []
  | item :: rest => (both item.value (itemValues rest)).map fun (v, vs) => v :: vs

/-- The values of the pairs of a mapping. -/
def pairValues : List (Node × Node) → Except NestedFault (List (Value × Value))
  | [] => .ok []
  | (k, v) :: rest =>
    (both (both k.keyValue v.value) (pairValues rest)).map fun (pair, pairs) => pair :: pairs

end

end Node

/-- The value of a text. -/
def parse (text : List Char) : Except Fault Value := do
  let node ← Node.parse text
  node.merged.value.mapError (·.2)

end AbiIndex.Yaml
