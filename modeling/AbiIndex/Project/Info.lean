import AbiIndex.Tree.Path
import AbiIndex.UnknownName

/-!
# Projects

How a directory is classified: by the tool that it is laid out for, with the directory that holds
its sources and the projects nested in it.
-/

namespace AbiIndex.Project

/-- The layout of a project. A directory with sources and without a marker is plain. -/
inductive Layout where
  | foundry
  | hardhat
  | truffle
  | plain
  | unknown
deriving DecidableEq

namespace Layout

def name : Layout → String
  | foundry => "foundry"
  | hardhat => "hardhat"
  | truffle => "truffle"
  | plain => "plain"
  | unknown => "unknown"

def ofName? : String → Option Layout
  | "foundry" => some foundry
  | "hardhat" => some hardhat
  | "truffle" => some truffle
  | "plain" => some plain
  | "unknown" => some unknown
  | _ => none

/-- The layout with a name. -/
def named (s : String) : Except UnknownName Layout := UnknownName.check "ProjectType" ofName? s

end Layout

/-- A classified directory. -/
structure Info where
  layout : Layout
  root : Path
  sourceRoot : Path
  marker : Option String
  nested : List Path
deriving DecidableEq

end AbiIndex.Project
