import AbiIndex.Project.Marker
import AbiIndex.Text.Utf8
import AbiIndex.Toml.Document
import AbiIndex.Tree.FileTree

/-!
# Finding projects and their sources

Every directory with a marker is a project of its own, whose sources leave out the projects nested
in it. Directories of dependencies and of build output are never looked into.
-/

namespace AbiIndex.Project

/-- Names of directories that are never looked into. -/
def excludedDirs : List String :=
  ["node_modules", "lib", "out", "cache", "artifacts", "build", "dist", "typechain",
   "typechain-types", "coverage", "broadcast", "forge-cache", "vendor", "dependencies", ".deps",
   ".git", ".hg", ".svn", ".venv", "__pycache__", ".pytest_cache", ".mypy_cache", ".idea",
   ".vscode", ".sigscan"]

/-- Why a directory cannot be looked at. The path is worded as it was given. -/
inductive DiscoveryError where
  | notFound (given : String)
  | notDirectory (given : String)
  /-- The configuration file at the path is not UTF-8. -/
  | undecodable (path : Path)
  /-- A number in a configuration file has too many digits. -/
  | oversized (e : Number.TooLong)
  /-- A path cannot be asked about. -/
  | inaccessible (e : TreeError)
deriving DecidableEq

/-- The wording of the failure. -/
def DiscoveryError.message : DiscoveryError → String
  | notFound given => s!"Project path not found: {given}"
  | notDirectory given => s!"Project path is not a directory: {given}"
  | undecodable path => s!"{path.render} is not valid UTF-8"
  | oversized e => e.message
  | inaccessible e => e.message

/-- The answer about a path. -/
def ask {α : Type} (answer : Except TreeError α) : Except DiscoveryError α :=
  answer.mapError .inaccessible

/-- The absolute path of a directory. -/
def validateRoot (t : FileTree) (given : String) : Except DiscoveryError Path := do
  let root ← ask (t.resolve (← ask (t.expandHome (Path.parse given))))
  if !(← ask (t.isThere root)) then throw (.notFound given)
  if !(← ask (t.isDir root)) then throw (.notDirectory given)
  return root

/-- Whether a name is that of a source file. -/
def isSourceName (name : String) : Bool := name.endsWith ".sol"

/-- The directories below `path`, itself included, that a walk visits. -/
def visited (t : FileTree) (descend : Path → String → Bool) (path : Path) : List Node.Stop :=
  match t.locate path with
  | .ok n => n.walk descend path
  | .error _ => []

/-- The first of some directories of `root` that exists, or else `root` itself. -/
def firstDir (t : FileTree) (root : Path) : List String → Except DiscoveryError Path
  | [] => .ok root
  | name :: rest => do
    let dir := root.join (Path.parse name)
    if ← ask (t.isDir dir) then return dir
    firstDir t root rest

/-- The text `src` in the table `profile.default` of a configuration. -/
def configuredSource (config : Toml.Table) : Option String :=
  match ((config.get? "profile").bind (·.get? "default")).bind (·.get? "src") with
  | some (.text src) => some src
  | _ => none

/-- The name of a source directory where none is stated. -/
def usualSource : String := "src"

/-- The name of the source directory that a configuration states, without slashes at its ends. -/
def sourceName (config : Toml.Table) : String :=
  match (configuredSource config).map fun s => Text.trimWhile (· = '/') s.toList with
  | some (c :: cs) => String.ofList (c :: cs)
  | _ => usualSource

/-- The name of the source directory that a configuration file states. A file that is no valid
configuration states none. -/
def foundrySource (t : FileTree) (file : Path) : Except DiscoveryError String :=
  match t.read file with
  | .error _ => .ok usualSource
  | .ok bytes =>
    match Text.Utf8.decode? bytes with
    | none => .error (.undecodable file)
    | some text =>
      match Toml.parse (Text.unifyNewlines text) with
      | .ok config => .ok (sourceName config)
      | .error .malformed => .ok usualSource
      | .error (.number e) => .error (.oversized e)

/-- Whether there is a source file in a directory or below it. -/
def containsSources (t : FileTree) (dir : Path) : Bool :=
  (visited t (fun _ name => name ∉ excludedDirs) dir).any fun stop => stop.files.any isSourceName

/-- The first of some entries of `root` that is a directory with sources. -/
def dirWithSources? (t : FileTree) (root : Path) :
    List String → Except DiscoveryError (Option Path)
  | [] => .ok none
  | name :: rest => do
    let dir := root.child name
    if (← ask (t.isDir dir)) && containsSources t dir then return some dir
    dirWithSources? t root rest

/-- Classifies a directory, given its absolute path. -/
def classifyDir (t : FileTree) (root : Path) : Except DiscoveryError Info := do
  -- an entry that leads nowhere is no marker
  let files := match t.locate root with
    | .ok n => n.namesOf (·.isFile)
    | .error _ => []
  match findMarker files with
  | some (.foundry, marker) =>
    let source ← foundrySource t (root.child marker)
    return ⟨.foundry, root, ← firstDir t root [source, "contracts"], some marker, []⟩
  | some (layout, marker) =>
    return ⟨layout, root, ← firstDir t root ["contracts"], some marker, []⟩
  | none =>
    match ← dirWithSources? t root ["contracts", "src"] with
    | some dir => return ⟨.plain, root, dir, none, []⟩
    | none =>
      return ⟨if files.any isSourceName then .plain else .unknown, root, root, none, []⟩

/-- Classifies a directory. -/
def classify (t : FileTree) (given : String) : Except DiscoveryError Info := do
  classifyDir t (← validateRoot t given)

/-- Limits of a search for projects. -/
structure SearchOptions where
  excludeDirs : List String
  maxDepth : Int

/-- The directories with a marker at and below `root`, from the top down. -/
def markedDirs (t : FileTree) (options : SearchOptions) (root : Path) : List Path :=
  let descend := fun (path : Path) name =>
    ((path.names.length - root.names.length : Nat) : Int) < options.maxDepth
      && name ∉ excludedDirs && name ∉ options.excludeDirs
  ((visited t descend root).filter fun stop => (findMarker stop.files).isSome).map (·.path)

/-- The directories with a marker at and below the given one. -/
def findRoots (t : FileTree) (options : SearchOptions) (given : String) :
    Except DiscoveryError (List Path) := do
  return markedDirs t options (← validateRoot t given)

/-- The source files of a project, by directory from the top down and by name. -/
def sourceFiles (t : FileTree) (excludeDirs : List String) (includeTests : Bool) (info : Info) :
    Except DiscoveryError (List Path) := do
  let descend := fun (path : Path) name =>
    name ∉ excludedDirs && name ∉ excludeDirs && path.child name ∉ info.nested
      && (includeTests || name ∉ ["test", "tests"])
  if ← ask (t.isDir info.sourceRoot) then
    return (visited t descend info.sourceRoot).flatMap fun stop =>
      ((Text.sorted stop.files).filter fun name =>
        isSourceName name && (includeTests || !name.endsWith ".t.sol")).map stop.path.child
  else return []

/-- The paths that lie below `parent`. -/
def nestedUnder (parent : Path) (paths : List Path) : List Path :=
  paths.filter fun p => p ≠ parent && (p.relativeTo? parent).isSome

/-- The projects at and below `root`, given the directories with a marker. A root without a marker
is a project if nothing is nested in it, or if it has sources of its own. -/
def projectsOf (t : FileTree) (options : SearchOptions) (root : Path) (marked : List Path) :
    Except DiscoveryError (List Info) := do
  -- the root itself, if no marker makes it one of the others
  let own ←
    if root ∈ marked then pure []
    else do
      let info := { ← classifyDir t root with nested := nestedUnder root marked }
      let files ← if info.nested = [] then pure [] else sourceFiles t options.excludeDirs true info
      pure (if info.nested = [] || files ≠ [] then [info] else [])
  let others ← marked.mapM fun path => do
    return { ← classifyDir t path with nested := nestedUnder path marked }
  return own ++ others

/-- The projects at and below the given directory. -/
def discover (t : FileTree) (options : SearchOptions) (given : String) :
    Except DiscoveryError (List Info) := do
  let root ← validateRoot t given
  projectsOf t options root (markedDirs t options root)

end AbiIndex.Project
