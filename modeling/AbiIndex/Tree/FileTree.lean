import AbiIndex.Text.Quoted
import AbiIndex.Text.Utf8
import AbiIndex.Tree.Node

/-!
# A file tree with a working directory

Reading and changing files. Paths are taken as they are given, relative ones from the working
directory, and a failure names the path as it was given.
-/

namespace AbiIndex

/-- Where paths start: the directory that relative paths are seen from, and the texts of the home
directories that are known, by the names of their users. -/
structure WorkingDir extends Path where
  homes : String → Option String := fun _ => none

instance : Coe Path WorkingDir := ⟨fun p => { p with }⟩

/-- A file tree and the directory that relative paths start from. -/
structure FileTree where
  top : Node
  cwd : WorkingDir

/-- Why a file operation failed. -/
inductive TreeError where
  | notFound (path : Path)
  | alreadyExists (path : Path)
  | notDirectory (path : Path)
  | isDirectory (path : Path)
  | nameTooLong (path : Path)
  | nullCharacter
  | noHome
deriving DecidableEq

/-- The wording of the failure. -/
def TreeError.message : TreeError → String
  | notFound path => s!"[Errno 2] No such file or directory: {Text.quoted path.render}"
  | alreadyExists path => s!"[Errno 17] File exists: {Text.quoted path.render}"
  | notDirectory path => s!"[Errno 20] Not a directory: {Text.quoted path.render}"
  | isDirectory path => s!"[Errno 21] Is a directory: {Text.quoted path.render}"
  | nameTooLong path => s!"[Errno 36] File name too long: {Text.quoted path.render}"
  | nullCharacter => "embedded null byte"
  | noHome => "Could not determine home directory."

/-- The home directory with the given text. A text of slashes only, or of nothing, is the root. -/
def Path.ofHome (text : String) : Path :=
  if text.toList.all (· = '/') then ⟨.root, []⟩ else parse text

/-- The failure of an operation on `path` that could not follow it. -/
def Node.Missing.at (m : Node.Missing) (path : Path) : TreeError :=
  match m with
  | .notFound => .notFound path
  | .notDirectory => .notDirectory path
  | .nameTooLong => .nameTooLong path

namespace FileTree

/-- The path that a user gave, seen from the home directory that it starts in. The text of a home
directory cannot start in another one. -/
def expandHome (t : FileTree) (p : Path) : Except TreeError Path :=
  match p.homeOwner? with
  | none => .ok p
  | some user =>
    if user.toList.contains '\x00' then .error .nullCharacter
    else
      match (t.cwd.homes user).filter (·.toList.head? ≠ some '~') with
      | none => .error .noHome
      | some text => .ok ((Path.ofHome text).join { p with names := p.names.tail })

/-- The bytes that are too many for the text of a path. -/
def pathByteLimit : Nat := 4096

/-- The names that lead from the top to a path. -/
def names (t : FileTree) (p : Path) : List String := (t.cwd.join p).names

/-- The node at the end of some names on the way along a path. -/
def follow (t : FileTree) (p : Path) (names : List String) : Except TreeError Node :=
  if p.hasNull then .error .nullCharacter
  else if pathByteLimit ≤ p.render.utf8ByteSize then .error (.nameTooLong p)
  else
    match t.top.follow [] names with
    | .ok n => .ok n
    | .error m => .error (m.at p)

/-- The node at a path. -/
def locate (t : FileTree) (p : Path) : Except TreeError Node := t.follow p (t.names p)

/-- The node at a path, if there is one. It fails if the path is too long for an answer. -/
def find? (t : FileTree) (p : Path) : Except TreeError (Option Node) :=
  match t.locate p with
  | .ok n => .ok (some n)
  | .error (.nameTooLong path) => .error (.nameTooLong path)
  | .error _ => .ok none

def isDir (t : FileTree) (p : Path) : Except TreeError Bool :=
  (t.find? p).map (·.any Node.isDir)

/-- Whether there is a file or a directory at a path. -/
def isThere (t : FileTree) (p : Path) : Except TreeError Bool :=
  (t.find? p).map (·.any fun n => n.isFile || n.isDir)

/-- The absolute path of `p` without double dots. -/
def resolve (t : FileTree) (p : Path) : Except TreeError Path :=
  if p.hasNull then .error .nullCharacter else .ok (Path.resolve t.cwd.toPath p)

/-- The contents of a file. -/
def read (t : FileTree) (p : Path) : Except TreeError (List UInt8) :=
  match t.locate p with
  | .error e => .error e
  | .ok (.file bytes) => .ok bytes
  | .ok .dangling => .error (.notFound p)
  | .ok (.dir _) => .error (.isDirectory p)

/-- The directory for the last name of a path, which must be short enough for an entry. -/
def holder (t : FileTree) (p : Path) : Except TreeError Node :=
  match t.follow p (t.names p).dropLast with
  | .error e => .error e
  | .ok (.file _) => .error (.notDirectory p)
  | .ok .dangling => .error (.notFound p)
  | .ok n =>
    if Node.maxNameBytes < ((t.names p).getLastD "").utf8ByteSize then .error (.nameTooLong p)
    else .ok n

/-- The tree with a node at a path whose directory exists. -/
def put (t : FileTree) (p : Path) (n : Node) : FileTree :=
  { t with top := Node.insert n (Path.foldDots (t.names p)) t.top }

/-- Writes a file into an existing directory. An entry that leads nowhere cannot be written. -/
def write (t : FileTree) (p : Path) (bytes : List UInt8) : Except TreeError FileTree :=
  match t.holder p, t.locate p with
  | .error e, _ => .error e
  | .ok _, .ok (.dir _) => .error (.isDirectory p)
  | .ok _, .ok .dangling => .error (.notFound p)
  | .ok _, _ => .ok (t.put p (.file bytes))

/-- Adds to the end of a file, which is made if it is not there. -/
def append (t : FileTree) (p : Path) (bytes : List UInt8) : Except TreeError FileTree :=
  match t.locate p with
  | .ok (.file old) => t.write p (old ++ bytes)
  | _ => t.write p bytes

/-- Makes a directory in an existing one. -/
def makeDir (t : FileTree) (p : Path) : Except TreeError FileTree :=
  match t.holder p with
  | .error e => .error e
  | .ok dir =>
    -- the top and what a double dot leads to are always there
    let name := (t.names p).getLastD ".."
    if name = ".." ∨ (dir.entry? name).isSome then .error (.alreadyExists p)
    else .ok (t.put p (.dir []))

/-- What is left of the failure to make a directory: nothing if there is one. -/
def unlessDir (t : FileTree) (p : Path) (e : TreeError) : Option TreeError :=
  match t.isDir p with
  | .ok true => none
  | .ok false => some e
  | .error e' => some e'

/-- The tree with a directory at a path, or the tree as it is and why there is no directory. The
directory that holds it must be there. -/
def ensureDir (t : FileTree) (p : Path) : FileTree × Option TreeError :=
  match t.makeDir p with
  | .ok t' => (t', none)
  | .error e => (t, t.unlessDir p e)

/-- Makes sure that a directory and all those above it are there. Directories that were made before
a failure stay. -/
def ensureDirs (t : FileTree) (p : Path) : FileTree × Option TreeError :=
  match t.makeDir p with
  | .ok t' => (t', none)
  | .error (.notFound missing) =>
    if _h : p.names = [] then (t, some (.notFound missing))
    else
      match ensureDirs t p.parent with
      -- now only the last directory can be missing
      | (t', none) => t'.ensureDir p
      | (t', some e) => (t', some e)
  | .error e => (t, t.unlessDir p e)
termination_by p.names.length
decreasing_by
  have := List.length_pos_iff.2 _h
  simp only [Path.parent, List.length_dropLast]
  omega

/-- Removes what is at a path. -/
def delete (t : FileTree) (p : Path) : FileTree :=
  { t with top := t.top.remove (Path.foldDots (t.names p)) }

/-- All files with their absolute paths. -/
def files (t : FileTree) : List (Path × List UInt8) := t.top.files ⟨.root, []⟩

/-- The files of `t` that are not in `old` with the same contents, by path. -/
def changedSince (t old : FileTree) : List (String × List UInt8) :=
  let before := old.files
  let changed := t.files.filter fun f => !(before.any fun g => g.1 = f.1 && g.2 = f.2)
  (changed.map fun f => (f.1.render, f.2)).mergeSort fun a b => Text.noLater a.1 b.1

end FileTree

end AbiIndex
