import AbiIndex.Command.Run
import Std.Time.DateTime

/-!
# The program

Reads the directory that a command is about, runs the command on it, and writes the files that it
changed.
-/

namespace AbiIndex.Program

/-- Whether a command looks into a file with this name. -/
def isRead (name : String) : Bool :=
  Project.isSourceName name || name = Project.foundryMarker || name = Config.fileName

/-- Reads an entry of a directory. Links to directories are not followed. -/
partial def readNode (entry : IO.FS.DirEntry) : IO Node := do
  try
    match (← entry.path.symlinkMetadata).type with
    | .dir =>
      let entries ← (← entry.path.readDir).toList.mapM fun e => do
        return (e.fileName, ← readNode e)
      return .dir entries
    | .symlink =>
      match (← entry.path.metadata).type with
      | .dir => return .dir []
      | _ => readFile
    | _ => readFile
  catch _ => return .dangling
where
  readFile : IO Node := do
    if isRead entry.fileName then
      return .file (← IO.FS.readBinFile entry.path).toList
    else return .file []

/-- Adds the contents of a directory to a tree, if it is there. -/
def addDir (t : FileTree) (dir : Path) : IO FileTree := do
  let place := (← IO.currentDir) / dir.render
  if ← place.isDir then
    let entries ← (← place.readDir).toList.mapM fun e => do
      return (e.fileName, ← readNode e)
    return t.put dir (.dir entries)
  else return t

/-- The directories that configurations in the tree name as places of sources. -/
def configuredDirs (t : FileTree) : List Path :=
  (t.files.filter fun f => f.1.name = Project.foundryMarker).filterMap fun f =>
    match Project.foundrySource t f.1 with
    | .ok source => some (Path.resolve t.cwd.toPath (f.1.parent.join (Path.parse source)))
    | .error _ => none

/-- The path that a command is about. -/
def target : Command.Action → Option Path
  | .scan path .. => some (Path.parse path)
  | .info path => some (Path.parse path)
  | .selector .. => none

/-- The working directory and the home directory of the user. -/
def workingDir : IO WorkingDir := do
  let home ← IO.getEnv "HOME"
  return {
    Path.parse (← IO.currentDir).toString with
    homes := fun user => if user = "" then home else none }

/-- Reads what a command needs: the directory that it is about, or the one around the file that it
is about, and the places of sources outside of it. -/
def load (action : Command.Action) : IO FileTree := do
  let cwd ← workingDir
  let start := (FileTree.ensureDirs ⟨.dir [], cwd⟩ cwd.toPath).1
  match (target action).bind fun path => (start.expandHome path).toOption with
  | none => return start
  | some path =>
    let path := Path.resolve cwd.toPath path
    let isDir ← ((← IO.currentDir) / path.render).isDir
    let t ← addDir start (if isDir then path else path.parent)
    let missing := (configuredDirs t).filter fun dir => (t.isDir dir).toOption ≠ some true
    missing.foldlM addDir t

/-- Writes the files that differ from those of an earlier tree. -/
def store (old new : FileTree) : IO Unit := do
  for (path, bytes) in new.changedSince old do
    IO.FS.createDirAll (Path.parse path).parent.render
    IO.FS.writeBinFile path ⟨bytes.toArray⟩

/-- The present time. -/
def now : IO Timestamp := do
  let t ← Std.Time.Timestamp.now
  return .ofMicroseconds (t.toNanosecondsSinceUnixEpoch.val.toNat / 1000)

/-- Runs a command and gives its exit code. -/
def run (invocation : Command.Invocation) : IO UInt32 := do
  let t ← load invocation.action
  let o := Command.run t (← now) invocation.action
  for line in o.console invocation.verbose do
    IO.eprint line
  store t o.tree
  for line in o.output do
    IO.println line
  match o.ending with
  | .exit code text =>
    unless text = "" do IO.eprintln text
    return code.toUInt32
  | .failed e =>
    IO.eprintln e.message
    return 1

end AbiIndex.Program

open AbiIndex in
/-- Runs the command line. -/
def main (words : List String) : IO UInt32 := do
  match Command.parse words with
  | .ok invocation => Program.run invocation
  | .error (.help topic) =>
    IO.print topic.page
    return 0
  | .error e =>
    IO.eprintln e.message
    return 2
