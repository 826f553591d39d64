import AbiIndex.Command.Arguments
import AbiIndex.Config.Load
import AbiIndex.Export.Run
import AbiIndex.Scan.Run

/-!
# Running commands

What a command does to a file tree, what it prints, and how it ends. A fault of the user ends it
with a message; any other failure is passed on.
-/

namespace AbiIndex.Command

open AbiIndex.Abi

/-- A failure that a command passes on. -/
inductive Failure where
  | config (e : Config.LoadError)
  | discovery (e : Project.DiscoveryError)
  | scan (e : Scan.ScanError)
  | exporting (e : Export.ExportError)

/-- How a command ended: with an exit code and a message, or with a failure. -/
inductive Ending where
  | exit (code : Nat) (message : String)
  | failed (e : Failure)

/-- What a command did. -/
structure Outcome where
  tree : FileTree
  output : List String
  log : List Log.Entry
  ending : Ending

/-- Whether a failure is reported as a fault of the user: a path that is not there or is no
directory. -/
def Failure.isFault : Failure → Bool
  | .discovery (.notFound _) => true
  | .discovery (.notDirectory _) => true
  | .scan (.discovery (.notFound _)) => true
  | .scan (.discovery (.notDirectory _)) => true
  | .exporting (.file (.notFound _)) => true
  | .exporting (.file (.notDirectory _)) => true
  | .config .malformed => true
  | .config .notMapping => true
  | .exporting (.unsupported _) => true
  | .exporting (.directory _ _) => true
  | _ => false

/-- The wording of a failure. -/
def Failure.message : Failure → String
  | .config e => e.message
  | .discovery e => e.message
  | .scan e => e.message
  | .exporting (.file e) => e.message
  | .exporting (.unencodable reason) => reason
  | .exporting e => s!"sigscan scan failed: {e.message}"

/-- How a failure ends a command. -/
def Failure.ending (e : Failure) : Ending :=
  if e.isFault then .exit 1 e.message else .failed e

/-- A path as it is printed: seen from the working directory. -/
def shown (t : FileTree) (p : Path) : String := t.cwd.label p

/-- The numbers of a result in words. -/
def counts (r : Scan.Result) : String :=
  let n := r.totals
  s!"{n.contracts} contracts, {n.externalFunctions} external + {n.internalFunctions} internal "
    ++ s!"functions, {n.events} events, {n.errors} errors"
    ++ (if r.isPartial then " (partial)" else "")

/-- The line about one project. -/
def summary (t : FileTree) (r : Scan.Result) : String :=
  s!"{r.project.layout.name} {shown t r.project.root}: {counts r}"

/-- What a scan prints. -/
def scanReport (t : FileTree) (projects : List Scan.Result) (result : Scan.Result)
    (written : List Path) : List String :=
  projects.map (summary t)
    ++ (if 1 < projects.length then [s!"combined: {counts result}"] else [])
    ++ (if result.collisions = [] then []
        else [s!"{result.collisions.length} selector collision(s) found"])
    ++ written.map fun p => s!"Wrote {shown t p}"

/-- The options of an export with the requests of a command line. -/
def withRequests (o : Export.Options) (output formats : Option String)
    (includeInternal includePrivate noEvents noErrors : Bool) : Export.Options :=
  { o with
    outputDir := ((output.filter (· ≠ "")).map Path.parse).getD o.outputDir
    formats := ((formats.filter (· ≠ "")).map Export.Format.split).getD o.formats
    includeInternal := o.includeInternal || includeInternal
    includePrivate := o.includePrivate || includePrivate
    includeEvents := o.includeEvents && !noEvents
    includeErrors := o.includeErrors && !noErrors }

/-- Scans and exports. -/
def runScan (t : FileTree) (now : Timestamp) (config : Config) (options : Export.Options)
    (path : Path) (noRecursive : Bool) : Outcome :=
  let session := Scan.Session.start config.scanSettings (.new Scan.Cache.defaultLimit)
    fun _ => false
  let work : Scan.SessionM Scan.Combined :=
    if noRecursive then do
      let r ← Scan.scanProject t path.render
      return ⟨[r], r⟩
    else Scan.scanAll t path.render
  match work.exec session with
  | (.error e, s) => ⟨t, [], s.log, (Failure.scan e).ending⟩
  | (.ok found, s) =>
    let written := Export.run t options now found.combined
    match written.error with
    | some e => ⟨written.tree, [], s.log ++ written.log, (Failure.exporting e).ending⟩
    | none =>
      ⟨written.tree, scanReport t found.projects found.combined written.written,
        s.log ++ written.log, .exit 0 ""⟩

/-- The lines about a project and the projects nested in it. -/
def infoLines (t : FileTree) (info : Project.Info) : List String :=
  let marker := match info.marker with
    | some m => s!" [{m}]"
    | none => ""
  s!"{info.layout.name}{marker} {shown t info.root} (sources: {shown t info.sourceRoot})"
    :: info.nested.map fun p => s!"  excludes {shown t p}"

/-- The projects at and below a path with the usual limits, and the messages about the search. -/
def findProjects (t : FileTree) (path : Path) :
    Except Project.DiscoveryError (List Project.Info × List Log.Entry) := do
  let search := Scan.Settings.default.search
  let root ← Project.validateRoot t path.render
  let marked := Project.markedDirs t search root
  let projects ← Project.projectsOf t search root marked
  return (projects, if marked = [] then [] else [Scan.discovered root projects.length])

/-- Says how directories are classified. -/
def runInfo (t : FileTree) (path : Path) : Outcome :=
  match findProjects t path with
  | .error e => ⟨t, [], [], (Failure.discovery e).ending⟩
  | .ok (projects, log) => ⟨t, projects.flatMap (infoLines t), log, .exit 0 ""⟩

/-- Runs a command. -/
def run (t : FileTree) (now : Timestamp) : Action → Outcome
  | .scan path output formats includeInternal includePrivate noEvents noErrors noRecursive =>
    match t.expandHome (Path.parse path) with
    | .error e => ⟨t, [], [], (Failure.config (.unreadable e)).ending⟩
    | .ok path =>
      match Config.load t path with
      | .error e => ⟨t, [], [], (Failure.config e).ending⟩
      | .ok config =>
        let options := withRequests config.exportOptions output formats includeInternal
          includePrivate noEvents noErrors
        match t.expandHome options.outputDir with
        | .error e => ⟨t, [], [], (Failure.exporting (.file e)).ending⟩
        | .ok dir => runScan t now config { options with outputDir := dir } path noRecursive
  | .info path =>
    match t.expandHome (Path.parse path) with
    | .error e => ⟨t, [], [], (Failure.discovery (.inaccessible e)).ending⟩
    | .ok path => runInfo t path
  | .selector sig kind =>
    ⟨t, [selector kind (String.ofList (sig.toList.filter (· ≠ ' ')))], [], .exit 0 ""⟩

/-- The messages that a command shows on the console. -/
def Outcome.console (o : Outcome) (verbose : Bool) : List String :=
  (o.log.filter fun e => Log.Setup.admits ⟨Log.Setup.thresholdFor verbose, none⟩ e).map
    Log.consoleLine

end AbiIndex.Command
