import AbiIndex.Proofs.Interleaving
import AbiIndex.Proofs.Traversal

/-!
# The stages of a scan

What work in a session gives and what it leaves of the session, as equations. A scan is put together
from a few stages: the files of a project are listed, read and resolved, and then the result is
announced. A scan of a directory does this for each of its projects and combines the results. What
is shown about scans is shown for each stage and put together along these equations.

## Key results

- `exec_forEach`: the work on a list of items, with one worker or with several
- `scanInfo_eq`: the scan of a project up to its result, and what becomes of the result
- `exec_scanProject`, `exec_scanAll`: what is planned is done
-/

namespace AbiIndex.Scan

open AbiIndex.Abi AbiIndex.Source

/-- The session once it has asked whether to stop. -/
def Session.polled (s : Session) : Session := s.advance fun p => { p with polls := p.polls + 1 }

/-! ## One piece of work after the other -/

section Sequence

variable {α β : Type} {work : SessionM α} {next : α → SessionM β} {s s' : Session}

theorem exec_bind_ok {a : α} (h : work.exec s = (.ok a, s')) :
    (work >>= next).exec s = (next a).exec s' := by
  show (ExceptT.bindCont next (work.exec s).1).run (work.exec s).2 = _
  rw [h]
  rfl

theorem exec_bind_error {e : ScanError} (h : work.exec s = (.error e, s')) :
    (work >>= next).exec s = (.error e, s') := by
  show (ExceptT.bindCont next (work.exec s).1).run (work.exec s).2 = _
  rw [h]
  rfl

/-- Work in two steps that gave something. -/
theorem exists_of_exec_bind {b : β} (h : (work >>= next).exec s = (.ok b, s')) :
    ∃ a s₁, work.exec s = (.ok a, s₁) ∧ (next a).exec s₁ = (.ok b, s') := by
  cases hexec : work.exec s with
  | mk outcome s₁ =>
    cases outcome with
    | ok a => exact ⟨a, s₁, rfl, exec_bind_ok hexec ▸ h⟩
    | error e =>
      rw [exec_bind_error hexec] at h
      cases h

/-- Work that is left out if the session is told to stop. -/
theorem exec_unless_stopped (s : Session) (a : α) (work : SessionM α) :
    (SessionM.poll >>= fun b => if b = true then pure a else work).exec s =
      if s.polled.cancelled = true then (.ok a, s.polled) else work.exec s.polled := by
  show (if s.polled.cancelled = true then pure a else work : SessionM α).exec s.polled = _
  split <;> rfl

/-- Work that looks at the session. -/
theorem exec_get_bind (next : Session → SessionM α) (s : Session) :
    (get >>= next).exec s = (next s).exec s := rfl

/-- Messages, and what follows them. -/
theorem exec_report_bind (entries : List Log.Entry) (next : Unit → SessionM α) (s : Session) :
    (SessionM.report entries >>= next).exec s =
      (next ()).exec { s with log := s.log ++ entries } := rfl

theorem exec_ofExcept_bind (outcome : Except ScanError α) (next : α → SessionM β) (s : Session) :
    (SessionM.ofExcept outcome >>= next).exec s =
      match outcome with
      | .ok a => (next a).exec s
      | .error e => (.error e, s) := by
  cases outcome <;> rfl

theorem ofExcept_bind (x : Except ScanError α) (f : α → Except ScanError β) :
    SessionM.ofExcept (x >>= f) = SessionM.ofExcept x >>= fun a => SessionM.ofExcept (f a) := by
  cases x <;> rfl

/-- Work whose result is only put into another form. -/
theorem exec_map_eq (work : SessionM α) (f : α → β) (s : Session) :
    (work >>= fun a => pure (f a)).exec s = ((work.exec s).1.map f, (work.exec s).2) := by
  cases hexec : work.exec s with
  | mk outcome s' =>
    cases outcome with
    | error e => exact exec_bind_error hexec
    | ok a => exact exec_bind_ok hexec

theorem exec_map (work : SessionM α) (f : α → β) (s : Session) :
    ((work >>= fun a => pure (f a)).exec s).1 = (work.exec s).1.map f :=
  congrArg Prod.fst (exec_map_eq work f s)

end Sequence

/-! ## Work on several items -/

/-- The work on items in order. After a failure the others are left, unless the work goes on. -/
def workAll {α β : Type} (goesOn : Bool) (task : α → SessionM β) :
    List α → Session → Except ScanError (List β) × Session
  | [], s => (.ok [], s)
  | a :: as, s =>
    match (task a).exec s with
    | (.ok b, s₁) => ((workAll goesOn task as s₁).1.map (b :: ·), (workAll goesOn task as s₁).2)
    | (.error e, s₁) => (.error e, if goesOn then (workAll goesOn task as s₁).2 else s₁)

section Items

variable {α β : Type}

/-- The first item is done. -/
theorem workAll_ok {goesOn : Bool} {task : α → SessionM β} {a : α} {items : List α} {b : β}
    {s s₁ : Session} (h : (task a).exec s = (.ok b, s₁)) :
    workAll goesOn task (a :: items) s =
      ((workAll goesOn task items s₁).1.map (b :: ·), (workAll goesOn task items s₁).2) := by
  rw [workAll, h]

/-- The first item fails. -/
theorem workAll_error {goesOn : Bool} {task : α → SessionM β} {a : α} {items : List α}
    {e : ScanError} {s s₁ : Session} (h : (task a).exec s = (.error e, s₁)) :
    workAll goesOn task (a :: items) s =
      (.error e, if goesOn then (workAll goesOn task items s₁).2 else s₁) := by
  rw [workAll, h]

variable (task : α → SessionM β) (items : List α) (s : Session)

/-- Seen as work in a session. -/
theorem exec_workAll (goesOn : Bool) :
    SessionM.exec (workAll goesOn task items) s = workAll goesOn task items s := rfl

/-- A single worker leaves all others after the first failure. -/
theorem exec_mapM : (items.mapM task).exec s = workAll false task items s := by
  induction items generalizing s with
  | nil => rfl
  | cons a items ih =>
    rw [List.mapM_cons]
    cases hexec : (task a).exec s with
    | mk outcome s₁ =>
      cases outcome with
      | error e => rw [exec_bind_error hexec, workAll_error hexec, if_neg Bool.false_ne_true]
      | ok b => rw [exec_bind_ok hexec, workAll_ok hexec, exec_map_eq, ih]

/-- The outcomes of all tasks, and the session after them. -/
theorem exec_attempts : ∃ outcomes, (items.mapM fun item => SessionM.attempt (task item)).exec s =
    (.ok outcomes, (workAll true task items s).2) ∧
      outcomes.mapM id = (workAll true task items s).1 := by
  induction items generalizing s with
  | nil => exact ⟨[], rfl, rfl⟩
  | cons a items ih =>
    obtain ⟨outcomes, hexec, houtcomes⟩ := ih ((task a).exec s).2
    have hattempt : (SessionM.attempt (task a)).exec s =
        (.ok ((task a).exec s).1, ((task a).exec s).2) := rfl
    refine ⟨((task a).exec s).1 :: outcomes, ?_, ?_⟩
    · rw [List.mapM_cons, exec_bind_ok hattempt, exec_bind_ok hexec, workAll]
      cases (task a).exec s with
      | mk outcome s₁ => cases outcome <;> rfl
    · rw [List.mapM_cons, houtcomes, workAll]
      cases (task a).exec s with
      | mk outcome s₁ =>
        cases outcome with
        | error e => rfl
        | ok b =>
          dsimp only [id]
          cases (workAll true task items s₁).1 <;> rfl

/-- What the number of workers means for the work on several items. -/
theorem exec_forEach : (SessionM.forEach items task).exec s =
    if s.settings.refuses items.length then (.error .noWorkers, s)
    else workAll (!(items.length < 2 || s.settings.maxWorkers = some 1)) task items s := by
  show (if items.length < 2 || s.settings.maxWorkers = some 1 then items.mapM task else _ :
    SessionM (List β)).exec s = _
  by_cases hone : (items.length < 2 || s.settings.maxWorkers = some 1) = true
  · have hallows : ¬ s.settings.refuses items.length = true := by
      rw [Settings.refuses, Bool.and_eq_true, decide_eq_true_eq]
      rw [Bool.or_eq_true, decide_eq_true_eq, decide_eq_true_eq] at hone
      rintro ⟨hmany, hnone⟩
      rcases hone with hfew | hsome
      · omega
      · rw [hsome] at hnone
        cases hnone
    rw [if_pos hone, if_neg hallows, hone, exec_mapM]
    rfl
  · have hmany : 2 ≤ items.length := by
      have hlength := (Bool.or_eq_false_iff.1 (Bool.eq_false_iff.2 hone)).1
      exact Nat.not_lt.1 (of_decide_eq_false hlength)
    rw [if_neg hone, Bool.eq_false_iff.2 hone, Settings.refuses, decide_eq_true hmany, Bool.true_and]
    obtain ⟨outcomes, hexec, houtcomes⟩ := exec_attempts task items s
    have hall : (do
        let outcomes ← items.mapM fun item => SessionM.attempt (task item)
        SessionM.ofExcept (outcomes.mapM id)).exec s = workAll true task items s := by
      rw [exec_bind_ok hexec, houtcomes]
      cases hwork : workAll true task items s with
      | mk outcome s' => cases outcome <;> rfl
    cases s.settings.maxWorkers with
    | none => exact hall
    | some n =>
      rw [Option.any_some]
      by_cases hnone : n ≤ 0
      · rw [if_pos (decide_eq_true hnone)]
        dsimp only
        rw [if_pos hnone]
        rfl
      · rw [if_neg (by simpa using hnone)]
        dsimp only
        rw [if_neg hnone]
        exact hall

variable {task items s} {s' : Session} {bs : List β}

/-- Without any worker nothing is done. -/
theorem exec_forEach_refused (h : s.settings.refuses items.length = true) :
    (SessionM.forEach items task).exec s = (.error .noWorkers, s) := by
  rw [exec_forEach, if_pos h]

/-- Work on all items has an outcome for each of them. -/
theorem forall₂_of_workAll {goesOn : Bool} (h : workAll goesOn task items s = (.ok bs, s')) :
    List.Forall₂ (fun a b => ∃ s₁ s₂, (task a).exec s₁ = (.ok b, s₂)) items bs := by
  induction items generalizing s bs with
  | nil =>
    cases h
    exact .nil
  | cons a items ih =>
    cases hexec : (task a).exec s with
    | mk outcome s₁ =>
      cases outcome with
      | error e =>
        rw [workAll_error hexec] at h
        cases h
      | ok b =>
        rw [workAll_ok hexec] at h
        cases hrest : workAll goesOn task items s₁ with
        | mk rest s₂ =>
          rw [hrest] at h
          cases rest with
          | error e => cases h
          | ok bs' =>
            cases h
            exact .cons ⟨s, s₁, hexec⟩ (ih hrest)

theorem forall₂_of_forEach (h : (SessionM.forEach items task).exec s = (.ok bs, s')) :
    List.Forall₂ (fun a b => ∃ s₁ s₂, (task a).exec s₁ = (.ok b, s₂)) items bs := by
  rw [exec_forEach] at h
  split at h
  · cases h
  · exact forall₂_of_workAll h

end Items

/-! ## A project -/

section Projects

/-- The scan of a project whose files are listed. -/
def scanFiles (t : FileTree) (info : Project.Info) (label : Option String) (files : List Path) :
    SessionM Result := do
  SessionM.report [message .info
    s!"Scanning {info.layout.name} project at {info.root.render} ({files.length} source files)"]
  let outcomes ← SessionM.forEach files (extractFile t info.root)
  let extracted := outcomes.filterMap id
  let units := extracted.filterMap (·.unit)
  let attempts ← SessionM.forEach units (resolveFile (.ofUnits units))
  let resolved := attempts.filterMap id
  let cancelled ← SessionM.poll
  let isPartial :=
    cancelled && (extracted.length < files.length || resolved.length < units.length)
  if isPartial then stopped info.root
  let result := Result.ofFiles info label isPartial extracted resolved
  SessionM.report (result.collisions.map fun c => message .warning
    (s!"Selector collision {c.selector}: " ++ ", ".intercalate c.signatures))
  SessionM.report [message .debug
    (s!"Found {result.contracts.length} contracts and {result.records.length} records in "
      ++ info.root.render)]
  return result

/-- The resolution of the files of a project whose declarations were read, with the result that this
gives. -/
def resolveRead (info : Project.Info) (label : Option String) (count : Nat)
    (outcomes : List (Option FileOutcome)) : SessionM Result := do
  let extracted := outcomes.filterMap id
  let units := extracted.filterMap (·.unit)
  let attempts ← SessionM.forEach units (resolveFile (.ofUnits units))
  let resolved := attempts.filterMap id
  let cancelled ← SessionM.poll
  return .ofFiles info label
    (cancelled && (extracted.length < count || resolved.length < units.length)) extracted resolved

/-- The scan of a project up to its result. -/
def readProject (t : FileTree) (info : Project.Info) (label : Option String) : SessionM Result := do
  let settings := (← get).settings
  let files ← SessionM.ofExcept <| Except.mapError .discovery <|
    Project.sourceFiles t settings.excludeDirs settings.includeTests info
  SessionM.report [message .info
    s!"Scanning {info.layout.name} project at {info.root.render} ({files.length} source files)"]
  let outcomes ← SessionM.forEach files (extractFile t info.root)
  resolveRead info label files.length outcomes

/-- What becomes of the result of a project: it is thrown away if the scan was stopped and the
settings want that. -/
def announce (info : Project.Info) (result : Result) : SessionM Result := do
  if result.isPartial then stopped info.root
  SessionM.report (result.collisions.map fun c => message .warning
    (s!"Selector collision {c.selector}: " ++ ", ".intercalate c.signatures))
  SessionM.report [message .debug
    (s!"Found {result.contracts.length} contracts and {result.records.length} records in "
      ++ info.root.render)]
  return result

theorem scanInfo_eq_scanFiles (t : FileTree) (info : Project.Info) (label : Option String) :
    scanInfo t info label = (do
      let settings := (← get).settings
      let files ← SessionM.ofExcept <| Except.mapError .discovery <|
        Project.sourceFiles t settings.excludeDirs settings.includeTests info
      scanFiles t info label files) := rfl

theorem scanInfo_eq (t : FileTree) (info : Project.Info) (label : Option String) :
    scanInfo t info label = readProject t info label >>= announce info := by
  simp only [scanInfo, readProject, resolveRead, bind_assoc, pure_bind]
  rfl

/-- Without the wish to fail, a scan that was stopped goes on to its result. -/
theorem exec_stopped {root : Path} {s : Session} (h : s.settings.raiseOnCancel = false) :
    (stopped root).exec s =
      (.ok (), { s with log := s.log ++ [message .info s!"Scan of {root.render} cancelled"] }) := by
  show (if s.settings.raiseOnCancel = true then throw _ else pure () : SessionM Unit).exec _ = _
  rw [h]
  rfl

end Projects

/-! ## Requests -/

section Requests

/-- The scan of one of several projects. -/
def scanMember (t : FileTree) (root : Path) (info : Project.Info) : SessionM (Option Result) := do
  if ← SessionM.poll then return none
  return some (← scanInfo t info (some (root.label info.root)))

theorem scanMember_eq (t : FileTree) (root : Path) (info : Project.Info) :
    scanMember t root info = SessionM.poll >>= fun b => if b = true then pure none else
      scanInfo t info (some (root.label info.root)) >>= fun r => pure (some r) := rfl

/-- What becomes of the results of several projects. -/
def combineScanned (t : FileTree) (root : Path) (infos : List Project.Info)
    (attempts : List (Option Result)) : SessionM Combined := do
  if ← SessionM.poll then stopped root
  SessionM.ofExcept (combineAll t root (infos.map (·.root)) (attempts.filterMap id))

/-- The messages at the beginning of a scan of several projects. -/
def scanMessages (root : Path) (marked : List Path) (infos : List Project.Info) : List Log.Entry :=
  (if marked = [] then [] else [discovered root infos.length])
    ++ [message .info s!"Scanning {infos.length} project(s) under {root.render}"]

theorem scanAll_eq (t : FileTree) (given : String) :
    scanAll t given = (do
      let settings := (← get).settings
      let (root, marked, infos) ← SessionM.ofExcept <| Except.mapError .discovery <| do
        let root ← Project.validateRoot t given
        let marked := Project.markedDirs t settings.search root
        return (root, marked, ← Project.projectsOf t settings.search root marked)
      SessionM.report (scanMessages root marked infos)
      SessionM.forEach infos (scanMember t root) >>= combineScanned t root infos) := by
  have hcombine (root : Path) (infos : List Project.Info) : combineScanned t root infos =
      fun attempts => do
        if ← SessionM.poll then stopped root
        let info ← SessionM.ofExcept (Except.mapError .discovery (Project.classifyDir t root))
        let results := attempts.filterMap id
        let combined := Result.combine
          { info with nested := (infos.map (·.root)).filter (· ≠ root) } results
        return {
          projects := results
          combined := { combined with
            isPartial := combined.isPartial || results.length < infos.length } } := by
    funext attempts
    simp only [combineScanned, combineAll, ofExcept_bind, List.length_map]
    rfl
  simp only [hcombine]
  rfl

/-- What can be planned is done: a single project is scanned. Of the settings, the plan depends on
the limits of the search only. -/
theorem exec_scanProject (t : FileTree) (settings : Settings) (given : String) :
    match (Request.project given).plan settings t with
    | .error e => ∀ s : Session, s.settings.search = settings.search →
        (scanProject t given).exec s = (.error e, s)
    | .ok plan => ∃ info, plan.projects = [(info, none)] ∧
        ∀ s : Session, s.settings.search = settings.search →
          (scanProject t given).exec s = (scanInfo t info none).exec s := by
  rw [Request.plan]
  cases hroot : Project.validateRoot t given with
  | error e =>
    intro s _
    rw [scanProject, exec_get_bind, hroot]
    exact exec_ofExcept_bind _ _ s
  | ok root =>
    cases hclassify : Project.classifyDir t root with
    | error e =>
      simp only [bind, Except.bind, hclassify]
      intro s _
      rw [scanProject, exec_get_bind, hroot]
      simp only [bind, Except.bind, hclassify]
      exact exec_ofExcept_bind _ _ s
    | ok info =>
      simp only [bind, Except.bind, hclassify]
      refine ⟨_, rfl, fun s hs => ?_⟩
      rw [scanProject, exec_get_bind, hroot]
      simp only [bind, Except.bind, hclassify, hs]
      exact exec_ofExcept_bind _ _ s

/-- What can be planned is done: all projects are scanned, and the results are combined. -/
theorem exec_scanAll (t : FileTree) (settings : Settings) (given : String) :
    match (Request.all given).plan settings t with
    | .error e => ∀ s : Session, s.settings.search = settings.search →
        (scanAll t given).exec s = (.error e, s)
    | .ok plan => ∃ infos entries,
        Project.projectsOf t settings.search plan.root
          (Project.markedDirs t settings.search plan.root) = .ok infos ∧
        plan.projects = (infos.map fun info => (info, some (plan.root.label info.root))) ∧
        ∀ s : Session, s.settings.search = settings.search →
          (scanAll t given).exec s = (SessionM.report entries >>= fun _ =>
            SessionM.forEach infos (scanMember t plan.root) >>=
            combineScanned t plan.root infos).exec s := by
  rw [Request.plan]
  cases hroot : Project.validateRoot t given with
  | error e =>
    intro s _
    rw [scanAll_eq, exec_get_bind, hroot]
    exact exec_ofExcept_bind _ _ s
  | ok root =>
    cases hprojects : Project.projectsOf t settings.search root
        (Project.markedDirs t settings.search root) with
    | error e =>
      simp only [bind, Except.bind, hprojects]
      intro s hs
      rw [scanAll_eq, exec_get_bind, hroot]
      simp only [bind, Except.bind, hs, hprojects]
      exact exec_ofExcept_bind _ _ s
    | ok infos =>
      simp only [bind, Except.bind, hprojects]
      refine ⟨infos, scanMessages root (Project.markedDirs t settings.search root) infos, hprojects,
        rfl, fun s hs => ?_⟩
      rw [scanAll_eq, exec_get_bind, hroot]
      simp only [bind, Except.bind, hs, hprojects]
      exact exec_ofExcept_bind _ _ s

end Requests

end AbiIndex.Scan
