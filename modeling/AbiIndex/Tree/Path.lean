import AbiIndex.Text.Blank

/-!
# Paths

A path is an anchor and a list of names. Reading a path drops empty names and single dots and keeps
double dots, so that `a//./b` and `a/b` are the same path while `a/../b` is another one.
-/

namespace AbiIndex

/-- Where a path starts. Two leading slashes are kept apart from one; three or more count as
one. -/
inductive Anchor where
  | relative
  | root
  | doubled
deriving DecidableEq

/-- A file path. -/
structure Path where
  anchor : Anchor
  names : List String
deriving DecidableEq

namespace Path

def Anchor.text : Anchor → String
  | .relative => ""
  | .root => "/"
  | .doubled => "//"

/-- The anchor that a text starts with. -/
def anchorOf : List Char → Anchor
  | '/' :: '/' :: '/' :: _ => .root
  | '/' :: '/' :: _ => .doubled
  | '/' :: _ => .root
  | _ => .relative

/-- Reads a path. -/
def parse (s : String) : Path where
  anchor := anchorOf s.toList
  names := ((Text.pieces (· == '/') s.toList).map String.ofList).filter fun name =>
    name ≠ "" && name ≠ "."

/-- The text of a path; the relative path without names is a single dot. -/
def render (p : Path) : String :=
  if p.anchor = .relative ∧ p.names = [] then "."
  else Anchor.text p.anchor ++ "/".intercalate p.names

/-- The last name of a path, empty if there is none. -/
def name (p : Path) : String := p.names.getLastD ""

/-- Whether the path holds a null character, with which no file can be asked for. -/
def hasNull (p : Path) : Bool := p.names.any (·.toList.contains '\x00')

/-- The user in whose home directory the path starts: the one whose name follows a tilde. The empty
name is that of the user who asks. -/
def homeOwner? (p : Path) : Option String :=
  match p.anchor, p.names.head?.map String.toList with
  | .relative, some ('~' :: user) => some (String.ofList user)
  | _, _ => none

/-- The path without its last name. -/
def parent (p : Path) : Path := { p with names := p.names.dropLast }

/-- The path `q` seen from `p`. -/
def join (p q : Path) : Path :=
  if q.anchor = .relative then { p with names := p.names ++ q.names } else q

/-- The entry `name` of the directory `p`. -/
def child (p : Path) (name : String) : Path := { p with names := p.names ++ [name] }

/-- The names that lead from `base` to `p`, if `p` starts with all of `base`. -/
def relativeTo? (p base : Path) : Option (List String) :=
  if p.anchor = base.anchor ∧ p.names.take base.names.length = base.names then
    some (p.names.drop base.names.length)
  else none

/-- The path seen from `base` as a text: relative where `p` lies below `base`. -/
def label (base p : Path) : String :=
  match p.relativeTo? base with
  | some names => (Path.mk .relative names).render
  | none => p.render

/-- Removes each name that a double dot follows, together with the double dot. Beyond the first
name a double dot has no effect. -/
def foldDots (names : List String) : List String :=
  names.foldl (fun seen name => if name = ".." then seen.dropLast else seen ++ [name]) []

/-- The absolute path that `p` means in the directory `cwd`, without double dots. -/
def resolve (cwd p : Path) : Path := ⟨.root, foldDots (cwd.join p).names⟩

end Path

end AbiIndex
