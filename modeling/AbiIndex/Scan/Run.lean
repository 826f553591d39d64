import AbiIndex.Scan.Result
import AbiIndex.Scan.SourceFile

/-!
# Scanning projects

A scan of a project reads the declarations of all its files, and only then resolves them, so that
every file sees the names of all others. A scan of a directory does so for every project in it and
combines the results.
-/

namespace AbiIndex.Scan

open AbiIndex.Abi AbiIndex.Source

/-- The record in a result of several projects. -/
def tagged (project : Option String) (r : Record) : Record :=
  if project.isSome then { r with project := project } else r

/-- The contracts of a file with their records. -/
def contractsOf (project : Option String) (r : ResolvedUnit) : List ContractRecords :=
  r.unit.contracts.map fun c =>
    { name := c.name
      kind := c.kind
      path := r.unit.path
      category := r.unit.category
      bases := c.bases
      records := (r.recordsFor (some c.name)).map (tagged project)
      specialFunctions := c.specialFunctions.map (·.name)
      project := project }

/-- The result of a project, given what its files contributed and how they were resolved. -/
def Result.ofFiles (info : Project.Info) (project : Option String) (isPartial : Bool)
    (outcomes : List FileOutcome) (resolved : List ResolvedUnit) : Result :=
  Result.withCollisions
    { project := info
      contracts := resolved.flatMap (contractsOf project)
      freeRecords := resolved.flatMap fun r => (r.recordsFor none).map (tagged project)
      diagnostics := outcomes.flatMap (·.diagnostics) ++ resolved.flatMap (·.diagnostics)
      collisions := []
      filesScanned := outcomes.length
      isPartial := isPartial }

/-- Says that the scan at `root` was stopped, and fails if the settings want that. -/
def stopped (root : Path) : SessionM Unit := do
  SessionM.report [message .info s!"Scan of {root.render} cancelled"]
  if (← get).settings.raiseOnCancel then throw (.cancelled root)

/-- Scans one classified project. The records carry the label of the project if it has one. -/
def scanInfo (t : FileTree) (info : Project.Info) (label : Option String) : SessionM Result := do
  let settings := (← get).settings
  let files ← SessionM.ofExcept <| Except.mapError .discovery <|
    Project.sourceFiles t settings.excludeDirs settings.includeTests info
  SessionM.report [message .info
    s!"Scanning {info.layout.name} project at {info.root.render} ({files.length} source files)"]
  let outcomes ← SessionM.forEach files (extractFile t info.root)
  let extracted := outcomes.filterMap id
  let units := extracted.filterMap (·.unit)
  -- only now are all names of the project known
  let reg := Registry.ofUnits units
  let attempts ← SessionM.forEach units (resolveFile reg)
  let resolved := attempts.filterMap id
  -- a request that comes after the last file has left nothing out
  let cancelled ← SessionM.poll
  let isPartial :=
    cancelled && (extracted.length < files.length || resolved.length < units.length)
  if isPartial then stopped info.root
  let result := Result.ofFiles info label isPartial extracted resolved
  SessionM.report (result.collisions.map fun c => message .warning
    (s!"Selector collision {c.selector}: " ++ ", ".intercalate c.signatures))
  SessionM.report [message .debug
    (s!"Found {result.contracts.length} contracts and {result.records.length} records in "
      ++ info.root.render)]
  return result

/-- Scans the project at a directory, without the projects nested in it. -/
def scanProject (t : FileTree) (given : String) : SessionM Result := do
  let settings := (← get).settings
  let info ← SessionM.ofExcept <| Except.mapError .discovery <| do
    let root ← Project.validateRoot t given
    let nested := (Project.markedDirs t settings.search root).filter (· ≠ root)
    return { ← Project.classifyDir t root with nested := nested }
  scanInfo t info none

/-- The results of all projects in a directory, and what they give together. -/
structure Combined where
  projects : List Result
  combined : Result

/-- The message about a search that found marked directories. -/
def discovered (root : Path) (count : Nat) : Log.Entry :=
  ⟨.debug, "discovery", s!"Discovered {count} project(s) under {root.render}"⟩

/-- Scans every project in a directory. -/
def scanAll (t : FileTree) (given : String) : SessionM Combined := do
  let settings := (← get).settings
  let (root, marked, projects) ← SessionM.ofExcept <| Except.mapError .discovery <| do
    let root ← Project.validateRoot t given
    let marked := Project.markedDirs t settings.search root
    return (root, marked, ← Project.projectsOf t settings.search root marked)
  SessionM.report ((if marked = [] then [] else [discovered root projects.length])
    ++ [message .info s!"Scanning {projects.length} project(s) under {root.render}"])
  let attempts ← SessionM.forEach projects fun info => do
    if ← SessionM.poll then return none
    return some (← scanInfo t info (some (root.label info.root)))
  let results := attempts.filterMap id
  -- here the request alone counts, whether or not anything was left out
  if ← SessionM.poll then stopped root
  let info ← SessionM.ofExcept (Except.mapError .discovery (Project.classifyDir t root))
  let nested := (projects.map (·.root)).filter (· ≠ root)
  let combined := Result.combine { info with nested := nested } results
  return {
    projects := results
    combined := { combined with
      isPartial := combined.isPartial || results.length < projects.length } }

end AbiIndex.Scan
