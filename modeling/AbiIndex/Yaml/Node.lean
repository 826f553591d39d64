/-!
# YAML nodes

The structure of a document, before its plain texts are given a meaning. No name of a tag has a
meaning, so a node with one has no value.

A pair with the plain key `<<` stands for the pairs of the mapping, or of the mappings in the
sequence, that is its value. `Node.merged` puts those pairs in its place: in front of the pairs that
the mapping has itself, which therefore win over them, as do earlier mappings of a sequence over
later ones.
-/

namespace AbiIndex.Yaml

/-- What is said of a node in front of it. -/
inductive Tag where
  /-- Nothing but that there is something to be said. -/
  | unspecific
  | named
  /-- A name with a handle that is declared nowhere. -/
  | undeclared
deriving DecidableEq

/-- A part of a document. -/
inductive Node where
  | scalar (text : List Char) (isPlain : Bool)
  | sequence (items : List Node)
  | mapping (pairs : List (Node × Node))
  /-- A node with the name of a tag. -/
  | tagged (node : Node)
  /-- A mapping that is to be merged with what is no mapping. -/
  | unmergeable

namespace Node

/-- What is left out of a document. -/
def absent : Node := scalar [] true

/-- The node with a tag. A tag that says nothing makes a text in quotes as good as a plain one. -/
def withTag (t : Tag) (n : Node) : Node :=
  if t = .unspecific then
    match n with
    | scalar text _ => scalar text true
    | n => n
  else tagged n

/-- Whether a key asks for the pairs of its value. -/
def isMergeKey : Node → Bool
  | scalar text isPlain => isPlain && text = ['<', '<']
  | _ => false

/-- The pairs of a mapping, whatever is said of it. -/
def pairs? : Node → Option (List (Node × Node))
  | mapping pairs => some pairs
  | tagged n => n.pairs?
  | _ => none

/-- The pairs that a value stands for: those of a mapping, or those of several mappings with the
last mapping first. -/
def mergedPairs? : Node → Option (List (Node × Node))
  | mapping pairs => some pairs
  | sequence items => (items.mapM pairs?).map fun groups => groups.reverse.flatten
  | tagged n => n.mergedPairs?
  | _ => none

/-- The mapping with the given pairs, in which nothing is left to be merged. -/
def merge (pairs : List (Node × Node)) : Node :=
  let (asked, own) := pairs.partition fun p => p.1.isMergeKey
  match asked.mapM fun p => p.2.mergedPairs? with
  | some groups => mapping (groups.flatten ++ own)
  | none => unmergeable

mutual

/-- The node with all its mappings merged. -/
def merged : Node → Node
  | scalar text isPlain => scalar text isPlain
  | sequence items => sequence (mergedItems items)
  | mapping pairs => merge (mergedPairs pairs)
  | tagged n => tagged n.merged
  | unmergeable => unmergeable

/-- The items of a sequence with all their mappings merged. -/
def mergedItems : List Node → List Node
  | [] => []
  | item :: rest => item.merged :: mergedItems rest

/-- The pairs of a mapping with all their mappings merged. -/
def mergedPairs : List (Node × Node) → List (Node × Node)
  | [] => []
  | (key, value) :: rest => (key.merged, value.merged) :: mergedPairs rest

end

end Node

end AbiIndex.Yaml
