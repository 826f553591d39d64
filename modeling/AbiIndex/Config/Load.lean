import AbiIndex.Config.Settings
import AbiIndex.Text.Lines
import AbiIndex.Yaml.Meaning

/-!
# Loading a configuration

The configuration of a directory is a file with a fixed name in it. A project without that file has
the usual settings.
-/

namespace AbiIndex.Config

/-- The name of configuration files. -/
def fileName : String := ".sigscan.yml"

/-- Why a configuration cannot be used. -/
inductive LoadError where
  | malformed
  | notMapping
  /-- A value in the file is at fault. -/
  | badValue (f : Yaml.Fault)
  | undecodable (file : Path)
  | unreadable (e : TreeError)
deriving DecidableEq

/-- The wording of the failure. -/
def LoadError.message : LoadError → String
  | malformed => s!"Failed to parse {fileName}"
  | notMapping => s!"{fileName} must contain a mapping at the root"
  | badValue f => f.message
  | undecodable file => s!"{file.render} is not valid UTF-8"
  | unreadable e => e.message

/-- The configuration file that belongs to a path: the one in a directory, the path itself if it has
the name of configuration files, and otherwise the one next to it. -/
def fileFor (t : FileTree) (given : Path) : Except TreeError Path := do
  let given ← t.expandHome given
  if ← t.isDir given then t.resolve (given.child fileName)
  else if given.name = fileName then t.resolve given
  else t.resolve (given.parent.child fileName)

/-- The configuration that a text states. A blank text states nothing. -/
def parse (root : Path) (text : List Char) : Except LoadError Config :=
  if Text.trim text = [] then .ok (.default root)
  else
    match Yaml.parse text with
    | .error .malformed => .error .malformed
    | .error f => .error (.badValue f)
    | .ok .null => .ok (.default root)
    | .ok (.map pairs) => (ofMapping root (.map pairs)).mapError fun e => .badValue (.tooLong e)
    | .ok _ => .error .notMapping

/-- The configuration file that belongs to a path, and whether it is there. -/
def findFile (t : FileTree) (given : Path) : Except TreeError (Path × Bool) := do
  let file ← fileFor t given
  return (file, ← t.isThere file)

/-- Loads the configuration that belongs to a path. -/
def load (t : FileTree) (given : Path) : Except LoadError Config :=
  match findFile t given with
  | .error e => .error (.unreadable e)
  | .ok (file, false) => .ok (.default file.parent)
  | .ok (file, true) =>
    match t.read file with
    | .error e => .error (.unreadable e)
    | .ok bytes =>
      match Text.Utf8.decode? bytes with
      | none => .error (.undecodable file)
      | some text => parse file.parent (Text.unifyNewlines text)

end AbiIndex.Config
