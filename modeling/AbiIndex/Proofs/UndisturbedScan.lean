import AbiIndex.Proofs.ScanStages

/-!
# Scans that nothing interrupts

In a session without a request to stop, the work of a scan is determined by the settings and the
store of parsed files: it does not depend on the messages and on the work done before. A scan that
works on its files one after the other makes the steps of its tasks in one particular order.

## Key results

- `Does`: what work gives and what it makes of the store, with a rule for each kind of work
- `does_forEach`: the work on a list of items, with one worker or with several
- `does_scanFiles`: the scan of the listed files of a project
- `Request.isRun`: a scan is a run of its tasks in a suitable order
-/

namespace AbiIndex.Scan

open AbiIndex.Abi AbiIndex.Source

/-! ## Work in an undisturbed session -/

/-- No request to stop has come, and none will come. -/
structure Session.Undisturbed (s : Session) : Prop where
  running : s.cancelled = false
  quiet : ∀ p, s.interrupt p = false

/-- With these settings and this store, the work gives the outcome and leaves the other store, as
long as nothing disturbs it. -/
def Does {α : Type} (settings : Settings) (work : SessionM α) (cache : Cache SourceUnit)
    (outcome : Except ScanError α) (cache' : Cache SourceUnit) : Prop :=
  ∀ s : Session, s.Undisturbed → s.settings = settings → s.cache = cache →
    (work.exec s).1 = outcome ∧ (work.exec s).2.Undisturbed ∧
      (work.exec s).2.settings = settings ∧ (work.exec s).2.cache = cache'

section Rules

variable {α β : Type} {settings : Settings} {cache cache₁ cache₂ : Cache SourceUnit}

theorem Session.Undisturbed.advance {s : Session} (h : s.Undisturbed) (step : Progress → Progress) :
    (s.advance step).Undisturbed := by
  refine ⟨?_, h.quiet⟩
  show (s.cancelled || s.interrupt (step s.progress)) = false
  rw [h.running, h.quiet]
  rfl

namespace Does

theorem ok (a : α) : Does settings (pure a) cache (.ok a) cache :=
  fun _ hs hsettings hcache => ⟨rfl, hs, hsettings, hcache⟩

theorem throw (e : ScanError) : Does settings (throw e : SessionM α) cache (.error e) cache :=
  fun _ hs hsettings hcache => ⟨rfl, hs, hsettings, hcache⟩

/-- Work that does the same under these settings. -/
theorem congr {work work' : SessionM α} {outcome : Except ScanError α}
    (h : ∀ s : Session, s.settings = settings → work.exec s = work'.exec s)
    (hdoes : Does settings work' cache outcome cache₁) :
    Does settings work cache outcome cache₁ := by
  intro s hs hsettings hcache
  rw [h s hsettings]
  exact hdoes s hs hsettings hcache

/-- Work that succeeds, and what follows it. -/
theorem bind {work : SessionM α} {next : α → SessionM β} {a : α} {outcome : Except ScanError β}
    (hwork : Does settings work cache (.ok a) cache₁)
    (hnext : Does settings (next a) cache₁ outcome cache₂) :
    Does settings (work >>= next) cache outcome cache₂ := by
  intro s hs hsettings hcache
  obtain ⟨hok, hs', hsettings', hcache'⟩ := hwork s hs hsettings hcache
  rw [exec_bind_ok (Prod.ext hok rfl)]
  exact hnext _ hs' hsettings' hcache'

/-- Work that fails, whatever was to follow it. -/
theorem bind_error {work : SessionM α} {next : α → SessionM β} {e : ScanError}
    (hwork : Does settings work cache (.error e) cache₁) :
    Does settings (work >>= next) cache (.error e) cache₁ := by
  intro s hs hsettings hcache
  obtain ⟨herror, hrest⟩ := hwork s hs hsettings hcache
  rw [exec_bind_error (Prod.ext herror rfl)]
  exact ⟨rfl, hrest⟩

/-- Work whose result is only put into another form. -/
theorem map {work : SessionM α} {outcome : Except ScanError α} (f : α → β)
    (hwork : Does settings work cache outcome cache₁) :
    Does settings (work >>= fun a => pure (f a)) cache (outcome.map f) cache₁ := by
  cases outcome with
  | error e => exact .bind_error hwork
  | ok a => exact .bind hwork (.ok _)

/-- Work that looks at the session may use no more of it than the settings and the store. -/
theorem get {next : Session → SessionM α} {outcome : Except ScanError α}
    (hnext : ∀ s : Session, s.settings = settings → s.cache = cache →
      Does settings (next s) cache outcome cache₁) :
    Does settings (MonadState.get >>= next) cache outcome cache₁ := by
  intro s hs hsettings hcache
  exact hnext s hsettings hcache s hs hsettings hcache

/-- Work that is only counted. -/
theorem advance (step : Progress → Progress) :
    Does settings (modify (·.advance step)) cache (.ok ()) cache :=
  fun _ hs hsettings hcache => ⟨rfl, hs.advance step, hsettings, hcache⟩

theorem poll : Does settings SessionM.poll cache (.ok false) cache := by
  intro s hs hsettings hcache
  have hs' := hs.advance fun p => { p with polls := p.polls + 1 }
  exact ⟨congrArg Except.ok hs'.running, hs', hsettings, hcache⟩

theorem report (entries : List Log.Entry) :
    Does settings (SessionM.report entries) cache (.ok ()) cache :=
  fun _ hs hsettings hcache => ⟨rfl, ⟨hs.running, hs.quiet⟩, hsettings, hcache⟩

/-- A change of the store. -/
theorem modifyCache (change : Cache SourceUnit → Cache SourceUnit) :
    Does settings (modify fun s => { s with cache := change s.cache }) cache (.ok ())
      (change cache) :=
  fun _ hs hsettings hcache => ⟨rfl, ⟨hs.running, hs.quiet⟩, hsettings, congrArg change hcache⟩

theorem ofExcept (outcome : Except ScanError α) :
    Does settings (SessionM.ofExcept outcome) cache outcome cache := by
  cases outcome with
  | ok a => exact .ok a
  | error e => exact .throw e

end Does

end Rules

/-! ## Work on several items -/

section Items

variable {α β : Type}

/-- Work on items one after the other, given what the work on each may do. After a failure the
others may still be worked on, and the first failure counts. -/
inductive Worked (Each : α → Cache SourceUnit → Except ScanError β → Cache SourceUnit → Prop) :
    List α → Cache SourceUnit → Except ScanError (List β) → Cache SourceUnit → Prop
  | nil (cache) : Worked Each [] cache (.ok []) cache
  | cons {a as cache b cache₁ outcome cache₂} (head : Each a cache (.ok b) cache₁)
      (tail : Worked Each as cache₁ outcome cache₂) :
      Worked Each (a :: as) cache (outcome.map (b :: ·)) cache₂
  | stop {a as cache e cache₁} (head : Each a cache (.error e) cache₁) :
      Worked Each (a :: as) cache (.error e) cache₁
  | goOn {a as cache e cache₁ outcome cache₂} (head : Each a cache (.error e) cache₁)
      (tail : Worked Each as cache₁ outcome cache₂) :
      Worked Each (a :: as) cache (.error e) cache₂

variable {Each : α → Cache SourceUnit → Except ScanError β → Cache SourceUnit → Prop}
  {task : α → SessionM β} {settings : Settings}

/-- Nothing is left out of a list in which nothing is missing. -/
theorem filterMap_id_map_some (xs : List α) : (xs.map some).filterMap id = xs := by
  rw [List.filterMap_map]
  exact List.filterMap_some

/-- Items are worked on in order, whether or not the work goes on after a failure. -/
theorem does_workAll (htask : ∀ a cache, ∃ outcome cache₁, Each a cache outcome cache₁ ∧
      Does settings (task a) cache outcome cache₁) (goesOn : Bool) (items : List α)
    (cache : Cache SourceUnit) :
    ∃ outcome cache₁, Worked Each items cache outcome cache₁ ∧
      Does settings (workAll goesOn task items) cache outcome cache₁ := by
  induction items generalizing cache with
  | nil => exact ⟨_, _, .nil cache, .ok []⟩
  | cons a as ih =>
    obtain ⟨outcome, cache₁, heach, hdoes⟩ := htask a cache
    obtain ⟨rest, cache₂, hworked, hrest⟩ := ih cache₁
    cases outcome with
    | ok b =>
      refine ⟨_, _, .cons heach hworked, fun s hs hsettings hcache => ?_⟩
      obtain ⟨hok, hs₁, hsettings₁, hcache₁⟩ := hdoes s hs hsettings hcache
      obtain ⟨houtcome, hend⟩ := hrest _ hs₁ hsettings₁ hcache₁
      rw [exec_workAll, workAll_ok (Prod.ext hok rfl)]
      exact ⟨congrArg (Except.map (b :: ·)) houtcome, hend⟩
    | error e =>
      cases goesOn with
      -- the other items are not worked on
      | false =>
        refine ⟨_, _, .stop heach, fun s hs hsettings hcache => ?_⟩
        obtain ⟨herror, hend⟩ := hdoes s hs hsettings hcache
        rw [exec_workAll, workAll_error (Prod.ext herror rfl)]
        exact ⟨rfl, hend⟩
      -- the failure is kept, and the work goes on
      | true =>
        refine ⟨_, _, .goOn heach hworked, fun s hs hsettings hcache => ?_⟩
        obtain ⟨herror, hs₁, hsettings₁, hcache₁⟩ := hdoes s hs hsettings hcache
        obtain ⟨-, hend⟩ := hrest _ hs₁ hsettings₁ hcache₁
        rw [exec_workAll, workAll_error (Prod.ext herror rfl)]
        exact ⟨rfl, hend⟩

/-- Without any worker nothing is done. -/
theorem does_forEach_refused {items : List α} (h : settings.refuses items.length)
    (cache : Cache SourceUnit) :
    Does settings (SessionM.forEach items task) cache (.error .noWorkers) cache := by
  intro s hs hsettings hcache
  rw [exec_forEach_refused (hsettings ▸ h)]
  exact ⟨rfl, hs, hsettings, hcache⟩

/-- Items are worked on in order, by one worker or by several. -/
theorem does_forEach (htask : ∀ a cache, ∃ outcome cache₁, Each a cache outcome cache₁ ∧
      Does settings (task a) cache outcome cache₁) {items : List α}
    (h : ¬ settings.refuses items.length) (cache : Cache SourceUnit) :
    ∃ outcome cache₁, Worked Each items cache outcome cache₁ ∧
      Does settings (SessionM.forEach items task) cache outcome cache₁ := by
  obtain ⟨outcome, cache₁, hworked, hdoes⟩ := does_workAll htask
    (!(items.length < 2 || settings.maxWorkers = some 1)) items cache
  refine ⟨outcome, cache₁, hworked, fun s hs hsettings hcache => ?_⟩
  rw [exec_forEach, hsettings, if_neg h]
  exact hdoes s hs hsettings hcache

end Items

/-! ## Orders of steps -/

section Orders

variable {κ τ σ : Type}

/-- Steps of the tasks behind the first one are steps of these tasks alone. -/
theorem run_stepAt_succ (step : τ → σ → τ × σ) (is : List Nat) (x : τ) (xs : List τ) (s : σ) :
    run (stepAt step) (is.map (· + 1)) (x :: xs) s =
      (x :: (run (stepAt step) is xs s).1, (run (stepAt step) is xs s).2) := by
  induction is generalizing xs s with
  | nil => rfl
  | cons i is ih => exact ih _ _

end Orders

/-! ## Files -/

section Files

variable {t : FileTree} {settings : Settings}

/-- Both steps of a task, one right after the other. -/
def FileTask.finish (t : FileTree) (task : FileTask) (cache : Cache SourceUnit) :
    FileTask × Cache SourceUnit :=
  (task.step t cache).1.step t (task.step t cache).2

/-- Two steps are enough for a task. -/
theorem FileTask.exists_finish (t : FileTree) (root path : Path) (cache : Cache SourceUnit) :
    ∃ o cache₁, FileTask.finish t ⟨root, path, .waiting⟩ cache = (⟨root, path, .done o⟩, cache₁) := by
  cases hload : LoadedFile.load t root path with
  | error e => exact ⟨_, cache, by simp only [finish, step, hload]; rfl⟩
  | ok file =>
    cases hlookUp : file.lookUp cache with
    | mk found cache₁ =>
      cases found with
      | some unit => exact ⟨_, cache₁, by simp only [finish, step, hload, hlookUp]; rfl⟩
      | none =>
        exact ⟨.ofUnit file file.extract, file.remember cache₁ file.extract, by
          simp only [finish, step, hload, hlookUp]⟩

/-- The work on a file is both steps of its task. -/
theorem does_extractFile {root path : Path} {cache cache₁ : Cache SourceUnit} {o : FileOutcome}
    (h : FileTask.finish t ⟨root, path, .waiting⟩ cache = (⟨root, path, .done o⟩, cache₁)) :
    Does settings (extractFile t root path) cache (.ok (some o)) cache₁ := by
  refine .bind .poll ?_
  rw [if_neg Bool.false_ne_true]
  cases hload : LoadedFile.load t root path with
  | error e =>
    simp only [FileTask.finish, FileTask.step, hload] at h
    cases h
    exact .bind (.report _) (.ok _)
  | ok file =>
    refine .bind (.report _) (.get fun s _ hcache => ?_)
    rw [hcache]
    cases hlookUp : file.lookUp cache with
    | mk found cache₂ =>
      refine .bind (.modifyCache fun _ => cache₂) ?_
      simp only [FileTask.finish, FileTask.step, hload, hlookUp] at h
      cases found with
      | some unit =>
        cases h
        exact .ok _
      | none =>
        cases h
        -- the file is read, and reported if this fails
        refine .bind (.advance _) ?_
        have hend : Does settings (do
            modify fun s : Session => { s with cache := file.remember s.cache file.extract }
            return some (FileOutcome.ofUnit file file.extract)) cache₂
            (.ok (some (.ofUnit file file.extract))) (file.remember cache₂ file.extract) :=
          .bind (.modifyCache (file.remember · file.extract)) (.ok _)
        split
        · exact .bind (.report _) hend
        · exact hend

/-- The work on a file gives the outcome of its task. -/
def FileDone (t : FileTree) (root path : Path) (cache : Cache SourceUnit)
    (outcome : Except ScanError (Option FileOutcome)) (cache₁ : Cache SourceUnit) : Prop :=
  ∃ o, outcome = .ok (some o) ∧
    FileTask.finish t ⟨root, path, .waiting⟩ cache = (⟨root, path, .done o⟩, cache₁)

theorem exists_fileDone (root path : Path) (cache : Cache SourceUnit) :
    ∃ outcome cache₁, FileDone t root path cache outcome cache₁ ∧
      Does settings (extractFile t root path) cache outcome cache₁ := by
  obtain ⟨o, cache₁, hfinish⟩ := FileTask.exists_finish t root path cache
  exact ⟨.ok (some o), cache₁, ⟨o, rfl, hfinish⟩, does_extractFile hfinish⟩

/-- The files of a project, one after the other, are a run of their tasks. -/
theorem Worked.exists_schedule {root : Path} {paths : List Path} {cache cache₁ : Cache SourceUnit}
    {outcome : Except ScanError (List (Option FileOutcome))}
    (h : Worked (FileDone t root) paths cache outcome cache₁) :
    ∃ outcomes schedule tasks, outcome = .ok (outcomes.map some) ∧
      run (stepAt (FileTask.step t)) schedule (paths.map fun path => ⟨root, path, .waiting⟩) cache =
        (tasks, cache₁) ∧
      tasks.mapM FileTask.outcome? = some outcomes ∧ tasks.length = paths.length := by
  induction h with
  | nil cache => exact ⟨[], [], [], rfl, rfl, rfl, rfl⟩
  | @cons path paths cache b cache₁ outcome cache₂ head tail ih =>
    obtain ⟨o, ho, hfinish⟩ := head
    obtain ⟨outcomes, schedule, tasks, rfl, hrun, houtcomes, hlength⟩ := ih
    cases ho
    refine ⟨o :: outcomes, 0 :: 0 :: schedule.map (· + 1), ⟨root, path, .done o⟩ :: tasks, rfl, ?_,
      ?_, congrArg (· + 1) hlength⟩
    · -- the first task makes both of its steps before the others begin
      show run (stepAt (FileTask.step t)) (schedule.map (· + 1))
        ((FileTask.finish t ⟨root, path, .waiting⟩ cache).1 :: paths.map _)
        (FileTask.finish t ⟨root, path, .waiting⟩ cache).2 = _
      rw [hfinish, run_stepAt_succ, hrun]
    · rw [List.mapM_cons, houtcomes]
      rfl
  -- no file fails as a whole
  | stop head =>
    obtain ⟨o, ho, -⟩ := head
    cases ho
  | goOn head tail ih =>
    obtain ⟨o, ho, -⟩ := head
    cases ho

end Files

/-! ## Projects -/

section Projects

variable {t : FileTree} {settings : Settings}

/-- The resolution of a file does not use the store. -/
def UnitDone (reg : Registry) (unit : SourceUnit) (cache : Cache SourceUnit)
    (outcome : Except ScanError (Option ResolvedUnit)) (cache₁ : Cache SourceUnit) : Prop :=
  (Except.mapError .type (resolveUnit reg unit)).map some = outcome ∧ cache₁ = cache

theorem does_resolveFile (reg : Registry) (unit : SourceUnit) (cache : Cache SourceUnit) :
    ∃ outcome cache₁, UnitDone reg unit cache outcome cache₁ ∧
      Does settings (resolveFile reg unit) cache outcome cache₁ := by
  refine ⟨_, cache, ⟨rfl, rfl⟩, .bind .poll ?_⟩
  rw [if_neg Bool.false_ne_true]
  refine .bind (.advance _) ?_
  cases resolveUnit reg unit with
  | error e => exact .throw _
  | ok r => exact .bind (.report _) (.ok _)

theorem Worked.eq_mapM {reg : Registry} {units : List SourceUnit} {cache cache₁ : Cache SourceUnit}
    {outcome : Except ScanError (List (Option ResolvedUnit))}
    (h : Worked (UnitDone reg) units cache outcome cache₁) :
    outcome = (units.mapM fun unit =>
      (Except.mapError .type (resolveUnit reg unit)).map some) ∧ cache₁ = cache := by
  induction h with
  | nil cache => exact ⟨rfl, rfl⟩
  | cons head tail ih =>
    obtain ⟨hhead, rfl⟩ := head
    obtain ⟨rfl, rfl⟩ := ih
    rw [List.mapM_cons, hhead]
    exact ⟨rfl, rfl⟩
  | stop head =>
    obtain ⟨hhead, rfl⟩ := head
    rw [List.mapM_cons, hhead]
    exact ⟨rfl, rfl⟩
  | goOn head tail ih =>
    obtain ⟨hhead, rfl⟩ := head
    obtain ⟨-, rfl⟩ := ih
    rw [List.mapM_cons, hhead]
    exact ⟨rfl, rfl⟩

theorem does_resolveAll (units : List SourceUnit) (cache : Cache SourceUnit) :
    Does settings (SessionM.forEach units (resolveFile (.ofUnits units))) cache
      ((resolveAll settings units).map (List.map some)) cache := by
  rw [resolveAll]
  by_cases hrefuses : settings.refuses units.length
  · rw [if_pos hrefuses]
    exact does_forEach_refused hrefuses cache
  · rw [if_neg hrefuses]
    obtain ⟨outcome, cache₁, hworked, hdoes⟩ :=
      does_forEach (does_resolveFile (.ofUnits units)) hrefuses cache
    obtain ⟨rfl, rfl⟩ := hworked.eq_mapM
    rw [← mapM_map]
    exact hdoes

/-- The scan of a project is a run of its tasks. -/
def ProjectDone (settings : Settings) (t : FileTree) (project : Project.Info × Option String)
    (cache : Cache SourceUnit) (outcome : Except ScanError Result) (cache₁ : Cache SourceUnit) :
    Prop :=
  ∃ schedule job, run (ProjectJob.step t) schedule
      (ProjectJob.start settings t project.1 project.2) cache = (job, cache₁) ∧
    job.outcome? settings = some outcome

theorem run_step (t : FileTree) (schedule : List Nat) (job : ProjectJob)
    (cache : Cache SourceUnit) :
    run (ProjectJob.step t) schedule job cache =
      ({ job with tasks := (run (stepAt (FileTask.step t)) schedule job.tasks cache).1 },
        (run (stepAt (FileTask.step t)) schedule job.tasks cache).2) := by
  induction schedule generalizing job cache with
  | nil => rfl
  | cons j schedule ih => exact ih _ _

/-- The work on the listed files of a project before anything is done. -/
def ProjectJob.ofFiles (info : Project.Info) (label : Option String) (files : List Path) :
    ProjectJob :=
  ⟨info, label, none, files.map fun path => ⟨info.root, path, .waiting⟩⟩

/-- The scan of listed files is a run of their tasks. -/
theorem does_scanFiles (info : Project.Info) (label : Option String) (files : List Path)
    (cache : Cache SourceUnit) :
    ∃ outcome cache₁ schedule job, run (ProjectJob.step t) schedule (.ofFiles info label files)
        cache = (job, cache₁) ∧ job.outcome? settings = some outcome ∧
      Does settings (scanFiles t info label files) cache outcome cache₁ := by
  by_cases hrefuses : settings.refuses files.length
  · refine ⟨.error .noWorkers, cache, [], _, rfl, ?_, ?_⟩
    -- no worker is allowed, so that no task begins
    · simp only [ProjectJob.ofFiles, ProjectJob.outcome?, List.length_map, hrefuses, if_true]
    · exact .bind (.report _) (.bind_error (does_forEach_refused hrefuses _))
  · obtain ⟨outcome, cache₁, hworked, hdoes⟩ :=
      does_forEach (exists_fileDone info.root) hrefuses cache
    obtain ⟨outcomes, schedule, tasks, rfl, hrun, houtcomes, hlength⟩ := hworked.exists_schedule
    refine ⟨Result.settle settings info label outcomes, cache₁, schedule,
      ⟨info, label, none, tasks⟩, ?_, ?_, .bind (.report _) (.bind hdoes ?_)⟩
    · rw [run_step, ProjectJob.ofFiles, hrun]
    · simp only [ProjectJob.outcome?, houtcomes, hlength, hrefuses]
      rfl
    · rw [filterMap_id_map_some, Result.settle]
      -- all names are known, and what follows does not use the store
      have hresolve := @does_resolveAll settings (outcomes.filterMap (·.unit)) cache₁
      cases hresolved : resolveAll settings (outcomes.filterMap (·.unit)) with
      | error e =>
        rw [hresolved] at hresolve
        exact .bind_error hresolve
      | ok resolved =>
        rw [hresolved] at hresolve
        refine .bind hresolve (.bind .poll ?_)
        simp only [Bool.false_and, Bool.false_eq_true, if_false]
        rw [filterMap_id_map_some]
        exact .bind (.report _) (.bind (.report _) (.ok _))

theorem does_scanInfo (project : Project.Info × Option String) (cache : Cache SourceUnit) :
    ∃ outcome cache₁, ProjectDone settings t project cache outcome cache₁ ∧
      Does settings (scanInfo t project.1 project.2) cache outcome cache₁ := by
  obtain ⟨info, label⟩ := project
  rw [scanInfo_eq_scanFiles]
  cases hfiles : Project.sourceFiles t settings.excludeDirs settings.includeTests info with
  | error e =>
    -- the files cannot be listed
    refine ⟨.error (.discovery e), cache, ⟨[], _, rfl, ?_⟩, .get fun s hsettings _ => ?_⟩
    · simp only [ProjectJob.start, hfiles]
      rfl
    · dsimp only
      rw [hsettings, hfiles]
      exact .bind_error (.throw _)
  | ok files =>
    obtain ⟨outcome, cache₁, schedule, job, hrun, houtcome, hdoes⟩ :=
      @does_scanFiles t settings info label files cache
    refine ⟨outcome, cache₁, ⟨schedule, job, ?_, houtcome⟩, .get fun s hsettings _ => ?_⟩
    · rw [ProjectJob.start, hfiles]
      exact hrun
    · dsimp only
      rw [hsettings, hfiles]
      exact .bind (.ok files) hdoes

end Projects

/-! ## Requests -/

section Requests

variable {t : FileTree} {settings : Settings}

theorem run_stepJobs_head (t : FileTree) (js : List Nat) (job : ProjectJob) (jobs : List ProjectJob)
    (cache : Cache SourceUnit) :
    run (stepJobs t) (js.map (0, ·)) (job :: jobs) cache =
      ((run (ProjectJob.step t) js job cache).1 :: jobs,
        (run (ProjectJob.step t) js job cache).2) := by
  induction js generalizing job cache with
  | nil => rfl
  | cons j js ih => exact ih _ _

theorem run_stepJobs_succ (t : FileTree) (places : List (Nat × Nat)) (job : ProjectJob)
    (jobs : List ProjectJob) (cache : Cache SourceUnit) :
    run (stepJobs t) (places.map fun place => (place.1 + 1, place.2)) (job :: jobs) cache =
      (job :: (run (stepJobs t) places jobs cache).1, (run (stepJobs t) places jobs cache).2) := by
  induction places generalizing jobs cache with
  | nil => rfl
  | cons place places ih => exact ih _ _

/-- The scan of a project within a scan of all projects below a root. -/
def MemberDone (settings : Settings) (t : FileTree) (root : Path) (info : Project.Info)
    (cache : Cache SourceUnit) (outcome : Except ScanError (Option Result))
    (cache₁ : Cache SourceUnit) : Prop :=
  ∃ result, outcome = result.map some ∧
    ProjectDone settings t (info, some (root.label info.root)) cache result cache₁

/-- Projects that are scanned one after the other, maybe not all of them, are a run of their
tasks. -/
theorem Worked.exists_places {root : Path} {infos : List Project.Info}
    {cache cache₁ : Cache SourceUnit} {outcome : Except ScanError (List (Option Result))}
    (h : Worked (MemberDone settings t root) infos cache outcome cache₁) :
    ∃ results places jobs, outcome = results.map (List.map some) ∧
      run (stepJobs t) places (infos.map fun info =>
        ProjectJob.start settings t info (some (root.label info.root))) cache = (jobs, cache₁) ∧
      gather? settings jobs = some results := by
  induction h with
  | nil cache => exact ⟨.ok [], [], [], rfl, rfl, rfl⟩
  | @cons info infos cache b cache₁ outcome cache₂ head tail ih =>
    obtain ⟨result, hresult, js, job, hjob, houtcome⟩ := head
    obtain ⟨results, places, jobs, rfl, hjobs, hgather⟩ := ih
    cases result with
    | error e => cases hresult
    | ok r =>
      cases hresult
      -- the steps of this project come first, then those of the others
      refine ⟨results.map (r :: ·), js.map (0, ·) ++ places.map fun place => (place.1 + 1, place.2),
        job :: jobs, ?_, ?_, ?_⟩
      · cases results <;> rfl
      · rw [List.map_cons, run_append, run_stepJobs_head, hjob, run_stepJobs_succ, hjobs]
      · rw [gather?, houtcome, hgather]
        rfl
  | @stop info infos cache e cache₁ head =>
    obtain ⟨result, hresult, js, job, hjob, houtcome⟩ := head
    cases result with
    | ok r => cases hresult
    | error e' =>
      cases hresult
      -- the others do not begin
      refine ⟨.error e, js.map (0, ·), job :: infos.map fun info =>
        ProjectJob.start settings t info (some (root.label info.root)), rfl, ?_, ?_⟩
      · rw [List.map_cons, run_stepJobs_head, hjob]
      · rw [gather?, houtcome]
  | @goOn info infos cache e cache₁ outcome cache₂ head tail ih =>
    obtain ⟨result, hresult, js, job, hjob, houtcome⟩ := head
    obtain ⟨results, places, jobs, rfl, hjobs, hgather⟩ := ih
    cases result with
    | ok r => cases hresult
    | error e' =>
      cases hresult
      refine ⟨.error e, js.map (0, ·) ++ places.map fun place => (place.1 + 1, place.2), job :: jobs,
        rfl, ?_, ?_⟩
      · rw [List.map_cons, run_append, run_stepJobs_head, hjob, run_stepJobs_succ, hjobs]
      · rw [gather?, houtcome]

/-- A scan of all projects works on them as it works on a single one. -/
theorem does_member (root : Path) (info : Project.Info) (cache : Cache SourceUnit) :
    ∃ outcome cache₁, MemberDone settings t root info cache outcome cache₁ ∧
      Does settings (scanMember t root info) cache outcome cache₁ := by
  obtain ⟨result, cache₁, hdone, hdoes⟩ :=
    @does_scanInfo t settings (info, some (root.label info.root)) cache
  refine ⟨result.map some, cache₁, ⟨result, rfl, hdone⟩, .bind .poll ?_⟩
  rw [if_neg Bool.false_ne_true]
  exact hdoes.map some

/-- The results of all projects are combined once they are all there. -/
theorem does_combineScanned (root : Path) (infos : List Project.Info) (results : List Result)
    (cache : Cache SourceUnit) :
    Does settings (combineScanned t root infos (results.map some)) cache
      (combineAll t root (infos.map (·.root)) results) cache := by
  refine .bind .poll ?_
  -- no request to stop has come, so that no project is missing
  rw [if_neg Bool.false_ne_true, filterMap_id_map_some]
  exact .ofExcept _

namespace Request

/-- The scan, if nothing interrupts it, is a run of its tasks in some order. -/
def IsRun (settings : Settings) (t : FileTree) (cache : Cache SourceUnit) (request : Request) :
    Prop :=
  ∃ outcome cache₁ places jobs, Does settings (request.scan t) cache outcome cache₁ ∧
    run (stepJobs t) places (request.start settings t) cache = (jobs, cache₁) ∧
    request.outcome? settings t jobs = some outcome

/-- Where nothing can be scanned, nothing has to be done. -/
theorem IsRun.of_error {request : Request} {cache : Cache SourceUnit} {e : ScanError}
    (hplan : request.plan settings t = .error e)
    (hdoes : Does settings (request.scan t) cache (.error e) cache) :
    request.IsRun settings t cache := by
  refine ⟨.error e, cache, [], _, hdoes, rfl, ?_⟩
  rw [outcome?, hplan]

theorem isRun_project (given : String) (cache : Cache SourceUnit) :
    (project given).IsRun settings t cache := by
  have hscan := exec_scanProject t settings given
  cases hplan : (project given).plan settings t with
  | error e =>
    rw [hplan] at hscan
    exact .of_error hplan (.bind_error (.congr (fun s hs => hscan s (congrArg _ hs)) (.throw e)))
  | ok plan =>
    rw [hplan] at hscan
    obtain ⟨info, hprojects, hexec⟩ := hscan
    obtain ⟨result, cache₁, ⟨js, job, hjob, houtcome⟩, hdoes⟩ :=
      @does_scanInfo t settings (info, none) cache
    refine ⟨result.map fun r => ⟨[r], none⟩, cache₁, js.map (0, ·), [job], ?_, ?_, ?_⟩
    · exact (Does.congr (fun s hs => hexec s (congrArg _ hs)) hdoes).map _
    · rw [start, hplan]
      simp only [hprojects, List.map_cons, List.map_nil]
      rw [run_stepJobs_head, hjob]
    · -- a single project is never refused
      rw [outcome?, hplan]
      simp only [hprojects, List.length_singleton]
      show (if settings.refuses 1 then _ else Option.map _ (gather? settings [job])) = _
      rw [gather?, houtcome]
      cases result <;> rfl

theorem isRun_all (given : String) (cache : Cache SourceUnit) :
    (all given).IsRun settings t cache := by
  have hscan := exec_scanAll t settings given
  cases hplan : (all given).plan settings t with
  | error e =>
    rw [hplan] at hscan
    exact .of_error hplan (.bind_error (.congr (fun s hs => hscan s (congrArg _ hs)) (.throw e)))
  | ok plan =>
    rw [hplan] at hscan
    obtain ⟨infos, entries, -, hprojects, hexec⟩ := hscan
    have hlength : plan.projects.length = infos.length := by rw [hprojects, List.length_map]
    have hwhole {outcome : Except ScanError Combined} {cache₁ : Cache SourceUnit}
        (hdoes : Does settings (SessionM.forEach infos (scanMember t plan.root) >>=
          combineScanned t plan.root infos) cache outcome cache₁) :
        Does settings (scanAll t given) cache outcome cache₁ :=
      .congr (fun s hs => hexec s (congrArg _ hs)) (.bind (.report entries) hdoes)
    by_cases hrefuses : settings.refuses infos.length
    · -- no task gets a step
      have hrefused := hwhole (.bind_error (does_forEach_refused hrefuses cache))
      refine ⟨.error .noWorkers, cache, [], _, .bind_error hrefused, rfl, ?_⟩
      rw [outcome?, hplan]
      simp only [hlength, hrefuses, if_true]
    · obtain ⟨attempts, cache₁, hworked, hdoes⟩ :=
        does_forEach (does_member plan.root) hrefuses cache
      obtain ⟨results, places, jobs, rfl, hrun, hgather⟩ := hworked.exists_places
      refine ⟨do (all given).conclude t plan (← results), cache₁, places, jobs, ?_, ?_, ?_⟩
      · cases results with
        | error e => exact .bind_error (hwhole (.bind_error hdoes))
        | ok rs =>
          have hcombined := hwhole (.bind hdoes (does_combineScanned plan.root infos rs cache₁))
          simp only [conclude, hprojects, List.map_map]
          exact hcombined.map _
      · rw [start, hplan]
        simp only [hprojects, List.map_map]
        exact hrun
      · rw [outcome?, hplan]
        simp only [hlength, hrefuses]
        rw [hgather]
        rfl

/-- A scan that nothing interrupts is a run of its tasks in a suitable order. -/
theorem isRun (request : Request) (cache : Cache SourceUnit) :
    request.IsRun settings t cache := by
  cases request with
  | project given => exact isRun_project given cache
  | all given => exact isRun_all given cache

end Request

end Requests

end AbiIndex.Scan
