import AbiIndex.Text.Order
import AbiIndex.Tree.Path

/-!
# File trees

A node is a file, a directory, or an entry that leads nowhere: one that its directory lists and
that cannot be opened. Directories list their entries in any order. `Node.walk` visits the
directories below a node from the top down, each directory before those inside it, and sibling
directories by name.
-/

namespace AbiIndex

/-- An entry of a file tree. -/
inductive Node where
  | file (bytes : List UInt8)
  | dangling
  | dir (entries : List (String × Node))

namespace Node

def isDir : Node → Bool
  | dir _ => true
  | _ => false

def isFile : Node → Bool
  | file _ => true
  | _ => false

/-- The entries of a directory; there are none in anything else. -/
def entries : Node → List (String × Node)
  | dir es => es
  | _ => []

/-- The entry of the given name. -/
def entry? (n : Node) (name : String) : Option Node :=
  (n.entries.find? (·.1 = name)).map (·.2)

/-- The names of the entries that satisfy `p`. -/
def namesOf (p : Node → Bool) (n : Node) : List String :=
  (n.entries.filter fun e => p e.2).map (·.1)

/-- The most bytes that the name of an entry takes. -/
def maxNameBytes : Nat := 255

/-- Why a path leads nowhere: a name on it is missing, something on it is not a directory, or a name
on it is longer than any entry may be called. -/
inductive Missing where
  | notFound
  | notDirectory
  | nameTooLong
deriving DecidableEq

/-- Follows names from a node. A double dot leads back to the directory that was come from, and
stays at the top. Everything but the last node must be a directory. What is wrong first on the way
is the reason of a failure. -/
def follow (above : List Node) (n : Node) : List String → Except Missing Node
  | [] => .ok n
  | name :: rest =>
    match n with
    | file _ => .error .notDirectory
    | dangling => .error .notFound
    | dir _ =>
      if name = ".." then
        match above with
        | [] => follow [] n rest
        | parent :: further => follow further parent rest
      else if maxNameBytes < name.utf8ByteSize then .error .nameTooLong
      else
        match n.entry? name with
        | none => .error .notFound
        | some child => follow (n :: above) child rest

/-- The entries with `node` under the given name, in place of what was there. -/
def setEntry (name : String) (node : Node) : List (String × Node) → List (String × Node)
  | [] => [(name, node)]
  | e :: rest => if e.1 = name then (name, node) :: rest else e :: setEntry name node rest

/-- Puts a node at the end of a path without double dots. What is missing on the way, or is no
directory, becomes one. -/
def insert (new : Node) : List String → Node → Node
  | [], _ => new
  | name :: rest, n =>
    dir (setEntry name (insert new rest ((n.entry? name).getD (dir []))) n.entries)

/-- Removes the node at the end of a path without double dots, if there is one. -/
def remove : List String → Node → Node
  | [], n => n
  | [name], n => if n.isDir then dir (n.entries.filter (·.1 ≠ name)) else n
  | name :: rest, n =>
    match n.entry? name with
    | none => n
    | some child => dir (setEntry name (remove rest child) n.entries)

/-- What a directory lists is smaller than the directory. -/
theorem sizeOf_entry_lt {es : List (String × Node)} {e : String × Node} (h : e ∈ es) :
    sizeOf e.2 < sizeOf (dir es) := by
  have h₁ := List.sizeOf_lt_of_mem h
  have h₂ : sizeOf e.2 < sizeOf e := by
    cases e
    simp +arith
  simp only [dir.sizeOf_spec]
  omega

/-- A directory on a walk: its path, and the names of its entries that are no directories. -/
structure Stop where
  path : Path
  files : List String

/-- The order of visits among the entries of one directory. -/
def visitedFirst (a b : String × List Stop) : Bool := Text.noLater a.1 b.1

/-- The directories below a node, with the node itself first. The entry `name` of the directory at
`path` is gone into if `descend path name`. -/
def walk (descend : Path → String → Bool) (path : Path) (n : Node) : List Stop :=
  match n with
  | dir es =>
    let below := es.map fun e =>
      (e.1, if descend path e.1 then walk descend (path.child e.1) e.2 else [])
    ⟨path, (dir es).namesOf (fun e => !e.isDir)⟩
      :: (below.mergeSort visitedFirst).flatMap (·.2)
  | _ => []
termination_by sizeOf n
decreasing_by exact sizeOf_entry_lt ‹_›

/-- The files below a node with their contents. -/
def files (path : Path) (n : Node) : List (Path × List UInt8) :=
  match n with
  | file bytes => [(path, bytes)]
  | dangling => []
  | dir es => es.flatMap fun e => files (path.child e.1) e.2
termination_by sizeOf n
decreasing_by exact sizeOf_entry_lt ‹_›

end Node

end AbiIndex
