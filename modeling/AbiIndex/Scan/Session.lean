import AbiIndex.Abi.TypeError
import AbiIndex.Log
import AbiIndex.Project.Discovery
import AbiIndex.Scan.Cache
import AbiIndex.Source.Unit

/-!
# Scan sessions

A session is what scans have in common: their settings, the store of parsed files, the request to
stop, and the messages so far. A request to stop is never taken back. It may come at any moment,
which `Session.interrupt` states in terms of the work done so far.
-/

namespace AbiIndex.Scan

open AbiIndex.Source

/-- How to scan. Without a number of workers, there is one for each task. -/
structure Settings where
  maxWorkers : Option Int
  excludeDirs : List String
  maxDepth : Int
  includeTests : Bool
  /-- Whether a scan that was stopped fails instead of giving what it has. -/
  raiseOnCancel : Bool

namespace Settings

/-- The settings of a scan for which none are given. -/
def default : Settings := ⟨none, [], 8, true, false⟩

/-- The limits of the search for projects. -/
def search (s : Settings) : Project.SearchOptions := ⟨s.excludeDirs, s.maxDepth⟩

end Settings

/-- Work that a session has done: how often it has asked whether to stop, and how many files it has
read declarations from and resolved, also in vain. -/
structure Progress where
  polls : Nat
  extractions : Nat
  resolutions : Nat

/-- The state of a session. -/
structure Session where
  settings : Settings
  /-- Whether a request to stop comes at this point of the work. -/
  interrupt : Progress → Bool
  cache : Cache SourceUnit
  cancelled : Bool
  progress : Progress
  log : List Log.Entry

/-- Why a scan gave nothing. -/
inductive ScanError where
  | discovery (e : Project.DiscoveryError)
  | cancelled (root : Path)
  | type (e : Abi.TypeError)
  | noWorkers
deriving DecidableEq

/-- The wording of the failure. -/
def ScanError.message : ScanError → String
  | discovery e => e.message
  | cancelled root => s!"Scan of {root.render} was cancelled"
  | type e => e.message
  | noWorkers => "max_workers must be greater than 0"

namespace Session

/-- A session that has done nothing yet. -/
def start (settings : Settings) (cache : Cache SourceUnit) (interrupt : Progress → Bool) :
    Session :=
  ⟨settings, interrupt, cache, false, ⟨0, 0, 0⟩, []⟩

/-- The session with a request to stop. -/
def cancel (s : Session) : Session := { s with cancelled := true }

/-- The session after a piece of work, which a request to stop may follow. -/
def advance (s : Session) (step : Progress → Progress) : Session :=
  { s with
    progress := step s.progress
    cancelled := s.cancelled || s.interrupt (step s.progress) }

end Session

/-- Work in a session that may fail. What it did to the session before it failed stays. -/
abbrev SessionM := ExceptT ScanError (StateM Session)

namespace SessionM

/-- Runs work in a session. -/
def exec {α : Type} (work : SessionM α) (s : Session) : Except ScanError α × Session :=
  (ExceptT.run work).run s

/-- Whether to stop. -/
def poll : SessionM Bool := do
  modify (·.advance fun p => { p with polls := p.polls + 1 })
  return (← get).cancelled

/-- Notes that declarations were read from a file. -/
def countExtraction : SessionM Unit :=
  modify (·.advance fun p => { p with extractions := p.extractions + 1 })

/-- Notes that a file was resolved. -/
def countResolution : SessionM Unit :=
  modify (·.advance fun p => { p with resolutions := p.resolutions + 1 })

/-- Adds messages to the log. -/
def report (entries : List Log.Entry) : SessionM Unit :=
  modify fun s => { s with log := s.log ++ entries }

/-- Gives a result or fails. -/
def ofExcept {α : Type} : Except ScanError α → SessionM α
  | .ok a => pure a
  | .error e => throw e

/-- Runs a task without failing if it fails. -/
def attempt {α : Type} (task : SessionM α) : SessionM (Except ScanError α) := fun s =>
  let (outcome, s) := task.exec s
  (.ok outcome, s)

/-- Runs one task for each item, in order. A single worker stops at the first failure. With several
workers, too, the failure that counts is the first one in the order of the items. Which tasks behind
it have begun before it is passed on is up to the schedule, and the others are cancelled: this is
the schedule on which all of them have. -/
def forEach {α β : Type} (items : List α) (task : α → SessionM β) : SessionM (List β) := do
  let workers := (← get).settings.maxWorkers
  if items.length < 2 || workers = some 1 then items.mapM task
  else
    match workers with
    | some n => if n ≤ 0 then throw .noWorkers
    | none => pure ()
    let outcomes ← items.mapM fun item => attempt (task item)
    ofExcept (outcomes.mapM id)

end SessionM

end AbiIndex.Scan
