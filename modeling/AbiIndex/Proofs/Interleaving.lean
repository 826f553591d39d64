import AbiIndex.Proofs.CacheSoundness
import AbiIndex.Scan.Run

/-!
# Tasks that share the store of parsed files

The files of a scan are worked on side by side. Each task uses the store at most twice: it looks its
file up, and it keeps what it read if the look-up was in vain. Between two uses of the store nothing
can be seen of a task, so that a run is given by the order in which the tasks make these steps. Any
order is allowed, whatever the number of workers, and also across the projects of one scan.

## Key results

- `FileTask.step_fits`: a task keeps what is known of the store, and its file contributes what follows
  from it
- `run_fits`, `run_spec`: so do all tasks of a scan in any order
- `Request.outcome?_run`: a scan gives the same outcome whatever the order and the store, and it
  gives one as soon as every task has made two steps
-/

namespace AbiIndex.Scan

open AbiIndex.Abi AbiIndex.Source

/-! ## Steps and runs -/

section Steps

variable {ι τ σ : Type}

/-- One of several tasks, which is given by its place, makes a step on what they share. -/
def stepAt (step : τ → σ → τ × σ) : Nat → List τ → σ → List τ × σ
  | _, [], s => ([], s)
  | 0, x :: xs, s => ((step x s).1 :: xs, (step x s).2)
  | i + 1, x :: xs, s => (x :: (stepAt step i xs s).1, (stepAt step i xs s).2)

/-- Steps in the given order. -/
def run (step : ι → τ → σ → τ × σ) : List ι → τ → σ → τ × σ
  | [], x, s => (x, s)
  | i :: is, x, s => run step is (step i x s).1 (step i x s).2

theorem run_append (step : ι → τ → σ → τ × σ) (is js : List ι) (x : τ) (s : σ) :
    run step (is ++ js) x s = run step js (run step is x s).1 (run step is x s).2 := by
  induction is generalizing x s with
  | nil => rfl
  | cons i is ih => exact ih _ _

/-- What every step preserves, a run preserves. -/
theorem run_induction {step : ι → τ → σ → τ × σ} {P : τ → σ → Prop}
    (hstep : ∀ i x s, P x s → P (step i x s).1 (step i x s).2) (is : List ι) {x : τ} {s : σ}
    (h : P x s) : P (run step is x s).1 (run step is x s).2 := by
  induction is generalizing x s with
  | nil => exact h
  | cons i is ih => exact ih (hstep i x s h)

/-- A fact about what is shared and one about every task stay true if they do so in each step of a
task. -/
theorem stepAt_induction {step : τ → σ → τ × σ} {P : σ → Prop} {Q : τ → Prop}
    (hstep : ∀ x s, P s → Q x → P (step x s).2 ∧ Q (step x s).1) (i : Nat) {xs : List τ} {s : σ}
    (hs : P s) (hxs : ∀ x ∈ xs, Q x) :
    P (stepAt step i xs s).2 ∧ ∀ x ∈ (stepAt step i xs s).1, Q x := by
  induction xs generalizing i with
  | nil => cases i <;> exact ⟨hs, hxs⟩
  | cons x xs ih =>
    rw [List.forall_mem_cons] at hxs
    cases i with
    | zero =>
      obtain ⟨hs', hx⟩ := hstep x s hs hxs.1
      exact ⟨hs', List.forall_mem_cons.2 ⟨hx, hxs.2⟩⟩
    | succ i =>
      obtain ⟨hs', hxs'⟩ := ih i hxs.2
      exact ⟨hs', List.forall_mem_cons.2 ⟨hxs.1, hxs'⟩⟩

/-- What no step of a task changes is the same for all tasks afterwards. -/
theorem map_stepAt {β : Type} {step : τ → σ → τ × σ} {f : τ → β}
    (hstep : ∀ x s, f (step x s).1 = f x) (i : Nat) (xs : List τ) (s : σ) :
    (stepAt step i xs s).1.map f = xs.map f := by
  induction xs generalizing i with
  | nil => cases i <;> rfl
  | cons x xs ih =>
    cases i with
    | zero => rw [stepAt, List.map_cons, List.map_cons, hstep]
    | succ i => rw [stepAt, List.map_cons, List.map_cons, ih]

/-- The task at a place has made a step if it was its turn. -/
theorem getElem?_stepAt (step : τ → σ → τ × σ) (i k : Nat) (xs : List τ) (s : σ) :
    (stepAt step i xs s).1[k]? = if k = i then xs[k]?.map fun x => (step x s).1 else xs[k]? := by
  induction xs generalizing i k with
  | nil => cases i <;> simp [stepAt]
  | cons x xs ih =>
    -- a step behind the first task is a step of the others
    cases i with
    | zero => cases k <;> simp [stepAt]
    | succ i =>
      cases k with
      | zero => simp [stepAt]
      | succ k => simp [stepAt, ih]

end Steps

/-! ## The work on a file -/

/-- What a file of the project at `root` contributes if its declarations are always read. -/
def FileOutcome.direct (t : FileTree) (root path : Path) : FileOutcome :=
  match LoadedFile.load t root path with
  | .error e => .unreadable (root.label path) e
  | .ok file => .ofUnit file file.extract

/-- A property of stores that the work on the files of a tree keeps, and by which each file contributes
what `Gives` says of it. -/
structure Keeps (t : FileTree) (Holds : Cache SourceUnit → Prop)
    (Gives : Path → Path → FileOutcome → Prop) : Prop where
  lookUp {cache : Cache SourceUnit} (file : LoadedFile) (h : Holds cache) :
    Holds (file.lookUp cache).2
  remember {cache : Cache SourceUnit} {root path : Path} {file : LoadedFile}
    (h : Holds cache) (hfile : LoadedFile.load t root path = .ok file) :
    Holds (file.remember cache file.extract)
  read (root path : Path) : Gives root path (.direct t root path)
  found {cache : Cache SourceUnit} {root path : Path} {file : LoadedFile} {unit : SourceUnit}
    (h : Holds cache) (hfile : LoadedFile.load t root path = .ok file)
    (hfound : (file.lookUp cache).1 = some unit) : Gives root path (.ofUnit file (.ok unit))

/-- With a store that can be trusted, each file contributes what its declarations give. -/
theorem Trusted.keeps {t : FileTree} {Holds : Cache SourceUnit → Prop} (h : Trusted t Holds) :
    Keeps t Holds fun root path outcome => outcome = .direct t root path where
  lookUp := h.lookUp
  remember := h.remember
  read _ _ := rfl
  found hcache hload hfound := by simp only [FileOutcome.direct, hload, h.found hcache hload hfound]

/-- How far the work on a file has come. -/
inductive Stage where
  | waiting
  /-- The file was looked up in vain. -/
  | missed (file : LoadedFile)
  | done (outcome : FileOutcome)

/-- The work on a file of the project at `root`. -/
structure FileTask where
  root : Path
  path : Path
  stage : Stage

namespace FileTask

/-- Goes on with the work up to and including the next use of the store. -/
def step (t : FileTree) (task : FileTask) (cache : Cache SourceUnit) :
    FileTask × Cache SourceUnit :=
  match task.stage with
  | .waiting =>
    match LoadedFile.load t task.root task.path with
    | .error e => ({ task with stage := .done (.unreadable (task.root.label task.path) e) }, cache)
    | .ok file =>
      match file.lookUp cache with
      | (some unit, cache) => ({ task with stage := .done (.ofUnit file (.ok unit)) }, cache)
      | (none, cache) => ({ task with stage := .missed file }, cache)
  | .missed file =>
    ({ task with stage := .done (.ofUnit file file.extract) }, file.remember cache file.extract)
  | .done _ => (task, cache)

/-- The outcome of the file, once the work is done. -/
def outcome? (task : FileTask) : Option FileOutcome :=
  match task.stage with
  | .done outcome => some outcome
  | _ => none

/-- What the file contributes if its declarations are always read. -/
def direct (t : FileTree) (task : FileTask) : FileOutcome := .direct t task.root task.path

/-- How many steps are left at most. -/
def remaining (task : FileTask) : Nat :=
  match task.stage with
  | .waiting => 2
  | .missed _ => 1
  | .done _ => 0

/-- What is known of the work so far is true of the file in the tree, and what the file contributed
is what `Gives` says of it. -/
def Fits (t : FileTree) (Gives : Path → Path → FileOutcome → Prop) (task : FileTask) : Prop :=
  match task.stage with
  | .waiting => True
  | .missed file => LoadedFile.load t task.root task.path = .ok file
  | .done outcome => Gives task.root task.path outcome

/-- What is known of the work so far is true of the file in the tree. -/
def Right (t : FileTree) (task : FileTask) : Prop :=
  task.Fits t fun root path outcome => outcome = .direct t root path

variable {t : FileTree} {Holds : Cache SourceUnit → Prop}
  {Gives : Path → Path → FileOutcome → Prop} {task : FileTask} {cache : Cache SourceUnit}
  {texts : Set (List Char)}

/-- A task stays with its file. -/
theorem direct_step (t : FileTree) (task : FileTask) (cache : Cache SourceUnit) :
    (task.step t cache).1.direct t = task.direct t := by
  rw [step]
  split
  · split
    · rfl
    · split <;> rfl
  · rfl
  · rfl

/-- A step is one of those that are left. -/
theorem remaining_step (t : FileTree) (task : FileTask) (cache : Cache SourceUnit) :
    (task.step t cache).1.remaining ≤ task.remaining - 1 := by
  obtain ⟨root, path, stage⟩ := task
  cases stage with
  | waiting =>
    simp only [step]
    split
    · exact Nat.zero_le _
    · split
      · exact Nat.zero_le _
      · exact Nat.le_refl _
  | missed file => exact Nat.le_refl _
  | done outcome => exact Nat.le_refl _

theorem remaining_le (task : FileTask) : task.remaining ≤ 2 := by
  rw [remaining]
  split <;> omega

/-- A step keeps what is known of the store and of the work. -/
theorem step_fits (hkeeps : Keeps t Holds Gives) (hcache : Holds cache)
    (htask : task.Fits t Gives) :
    Holds (task.step t cache).2 ∧ (task.step t cache).1.Fits t Gives := by
  obtain ⟨root, path, stage⟩ := task
  have hread := hkeeps.read root path
  rw [FileOutcome.direct] at hread
  cases stage with
  | waiting =>
    simp only [step]
    split
    · rename_i e hload
      rw [hload] at hread
      exact ⟨hcache, hread⟩
    · rename_i file hload
      have hkept := hkeeps.lookUp file hcache
      split
      · rename_i unit cache' hlookUp
        rw [hlookUp] at hkept
        exact ⟨hkept, hkeeps.found hcache hload (congrArg Prod.fst hlookUp)⟩
      · rename_i cache' hlookUp
        rw [hlookUp] at hkept
        exact ⟨hkept, hload⟩
  | missed file =>
    -- other tasks may have changed the store since the look-up, but not the file
    have hload : LoadedFile.load t root path = .ok file := htask
    rw [hload] at hread
    exact ⟨hkeeps.remember hcache hload, hread⟩
  | done outcome => exact ⟨hcache, htask⟩

theorem Right.eq_direct (h : task.Right t) {outcome : FileOutcome}
    (hdone : task.outcome? = some outcome) : outcome = task.direct t := by
  obtain ⟨root, path, stage⟩ := task
  cases stage with
  | waiting => cases hdone
  | missed file => cases hdone
  | done outcome' =>
    cases hdone
    exact h

theorem outcome?_of_remaining (h : task.Right t) (hdone : task.remaining = 0) :
    task.outcome? = some (task.direct t) := by
  obtain ⟨root, path, stage⟩ := task
  cases stage with
  | waiting => cases hdone
  | missed file => cases hdone
  | done outcome => exact congrArg some h

end FileTask

/-! ## The work on a project -/

/-- Whether the settings allow no workers for so many items. -/
def Settings.refuses (settings : Settings) (count : Nat) : Bool :=
  2 ≤ count && settings.maxWorkers.any (· ≤ 0)

/-- The resolution of all files of a project against each other. -/
def resolveAll (settings : Settings) (units : List SourceUnit) :
    Except ScanError (List ResolvedUnit) :=
  if settings.refuses units.length then .error .noWorkers
  else units.mapM fun unit => Except.mapError .type (resolveUnit (Registry.ofUnits units) unit)

/-- The result of a project, given what all its files contributed. -/
def Result.settle (settings : Settings) (info : Project.Info) (label : Option String)
    (outcomes : List FileOutcome) : Except ScanError Result :=
  (resolveAll settings (outcomes.filterMap (·.unit))).map (.ofFiles info label false outcomes)

/-- The work on a project. -/
structure ProjectJob where
  info : Project.Info
  label : Option String
  /-- Why its files cannot be listed. -/
  fault : Option ScanError
  tasks : List FileTask

namespace ProjectJob

/-- The work on a project before anything is done. -/
def start (settings : Settings) (t : FileTree) (info : Project.Info) (label : Option String) :
    ProjectJob :=
  match Project.sourceFiles t settings.excludeDirs settings.includeTests info with
  | .error e => ⟨info, label, some (.discovery e), []⟩
  | .ok files => ⟨info, label, none, files.map fun path => ⟨info.root, path, .waiting⟩⟩

/-- The task at the given place goes on. -/
def step (t : FileTree) (j : Nat) (job : ProjectJob) (cache : Cache SourceUnit) :
    ProjectJob × Cache SourceUnit :=
  ({ job with tasks := (stepAt (FileTask.step t) j job.tasks cache).1 },
    (stepAt (FileTask.step t) j job.tasks cache).2)

/-- What the project gives, once this is known. -/
def outcome? (settings : Settings) (job : ProjectJob) : Option (Except ScanError Result) :=
  match job.fault with
  | some e => some (.error e)
  | none =>
    if settings.refuses job.tasks.length then some (.error .noWorkers)
    else (job.tasks.mapM FileTask.outcome?).map (Result.settle settings job.info job.label)

/-- What the project gives if the declarations of its files are always read. -/
def direct (settings : Settings) (t : FileTree) (job : ProjectJob) : Except ScanError Result :=
  match job.fault with
  | some e => .error e
  | none =>
    if settings.refuses job.tasks.length then .error .noWorkers
    else Result.settle settings job.info job.label (job.tasks.map (FileTask.direct t))

/-- What is known of the work so far fits each file. -/
def Fits (t : FileTree) (Gives : Path → Path → FileOutcome → Prop) (job : ProjectJob) : Prop :=
  ∀ task ∈ job.tasks, task.Fits t Gives

/-- What is known of the work so far is true of the files in the tree. -/
def Right (t : FileTree) (job : ProjectJob) : Prop := ∀ task ∈ job.tasks, task.Right t

variable {settings : Settings} {t : FileTree} {Holds : Cache SourceUnit → Prop}
  {Gives : Path → Path → FileOutcome → Prop} {job : ProjectJob} {cache : Cache SourceUnit}
  {texts : Set (List Char)}

theorem start_fits (settings : Settings) (t : FileTree) (Gives : Path → Path → FileOutcome → Prop)
    (info : Project.Info) (label : Option String) :
    (start settings t info label).Fits t Gives := by
  intro task htask
  rw [start] at htask
  split at htask
  · cases htask
  · obtain ⟨path, -, rfl⟩ := List.mem_map.1 htask
    trivial

theorem start_right (settings : Settings) (t : FileTree) (info : Project.Info)
    (label : Option String) : (start settings t info label).Right t :=
  start_fits settings t _ info label

theorem step_fits (hkeeps : Keeps t Holds Gives) (j : Nat) (hcache : Holds cache)
    (hjob : job.Fits t Gives) :
    Holds (job.step t j cache).2 ∧ (job.step t j cache).1.Fits t Gives :=
  stepAt_induction (fun _ _ => FileTask.step_fits hkeeps) j hcache hjob

/-- A project stays with its files. -/
theorem direct_step (settings : Settings) (t : FileTree) (j : Nat) (job : ProjectJob)
    (cache : Cache SourceUnit) :
    (job.step t j cache).1.direct settings t = job.direct settings t := by
  have htasks := map_stepAt (FileTask.direct_step t) j job.tasks cache
  have hlength := congrArg List.length htasks
  rw [List.length_map, List.length_map] at hlength
  simp only [direct, step, htasks, hlength]

/-- The outcomes of the files that are known are those of the files in the tree. -/
theorem eq_map_direct {tasks : List FileTask} (h : ∀ task ∈ tasks, task.Right t)
    {outcomes : List FileOutcome} (houtcomes : tasks.mapM FileTask.outcome? = some outcomes) :
    outcomes = tasks.map (FileTask.direct t) := by
  induction tasks generalizing outcomes with
  | nil =>
    cases houtcomes
    rfl
  | cons task tasks ih =>
    rw [List.forall_mem_cons] at h
    rw [List.mapM_cons] at houtcomes
    obtain ⟨outcome, houtcome, houtcomes⟩ := Option.bind_eq_some_iff.1 houtcomes
    obtain ⟨rest, hrest, houtcomes⟩ := Option.bind_eq_some_iff.1 houtcomes
    cases houtcomes
    rw [List.map_cons, h.1.eq_direct houtcome, ih h.2 hrest]

/-- Once no step is left, all outcomes are known. -/
theorem mapM_outcome?_of_remaining {tasks : List FileTask} (h : ∀ task ∈ tasks, task.Right t)
    (hdone : ∀ task ∈ tasks, task.remaining = 0) :
    tasks.mapM FileTask.outcome? = some (tasks.map (FileTask.direct t)) := by
  induction tasks with
  | nil => rfl
  | cons task tasks ih =>
    rw [List.forall_mem_cons] at h hdone
    rw [List.mapM_cons, FileTask.outcome?_of_remaining h.1 hdone.1, ih h.2 hdone.2]
    rfl

/-- What a project gives, if this is known, does not depend on how its files came about. -/
theorem outcome?_eq (h : job.Right t) {outcome : Except ScanError Result}
    (houtcome : job.outcome? settings = some outcome) : outcome = job.direct settings t := by
  rw [outcome?] at houtcome
  rw [direct]
  split at houtcome
  · exact (Option.some.inj houtcome).symm
  · split at houtcome
    · rename_i hrefuses
      rw [if_pos hrefuses]
      exact (Option.some.inj houtcome).symm
    · rename_i hrefuses
      obtain ⟨outcomes, houtcomes, heq⟩ := Option.map_eq_some_iff.1 houtcome
      rw [if_neg hrefuses, ← eq_map_direct h houtcomes]
      exact heq.symm

theorem outcome?_of_remaining (h : job.Right t) (hdone : ∀ task ∈ job.tasks, task.remaining = 0) :
    job.outcome? settings = some (job.direct settings t) := by
  rw [outcome?, mapM_outcome?_of_remaining h hdone, direct]
  split
  · rfl
  · split <;> rfl

end ProjectJob

/-! ## The work of a scan -/

/-- The file task at a place of a project goes on. The place is given by the project and by the file
in the project. -/
def stepJobs (t : FileTree) (place : Nat × Nat) :
    List ProjectJob → Cache SourceUnit → List ProjectJob × Cache SourceUnit :=
  stepAt (ProjectJob.step t place.2) place.1

/-- The results of projects in order, once they are known. The first failure counts. -/
def gather? (settings : Settings) : List ProjectJob → Option (Except ScanError (List Result))
  | [] => some (.ok [])
  | job :: jobs =>
    match job.outcome? settings with
    | none => none
    | some (.error e) => some (.error e)
    | some (.ok r) => (gather? settings jobs).map (Except.map (r :: ·))

/-- How many steps are left at a place at most. -/
def remainingAt (jobs : List ProjectJob) (place : Nat × Nat) : Nat :=
  ((jobs[place.1]?.bind (·.tasks[place.2]?)).map FileTask.remaining).getD 0

/-- Every task gets the two steps that it may need. -/
def Serves (schedule : List (Nat × Nat)) (jobs : List ProjectJob) : Prop :=
  ∀ i job, jobs[i]? = some job → ∀ j < job.tasks.length, 2 ≤ schedule.count (i, j)

section Jobs

variable {settings : Settings} {t : FileTree} {jobs : List ProjectJob} {cache : Cache SourceUnit}
  {texts : Set (List Char)}

/-- A run keeps what is known of the store and of all projects. -/
theorem run_fits {Holds : Cache SourceUnit → Prop} {Gives : Path → Path → FileOutcome → Prop}
    (hkeeps : Keeps t Holds Gives) (schedule : List (Nat × Nat)) (hcache : Holds cache)
    (hjobs : ∀ job ∈ jobs, job.Fits t Gives) :
    Holds (run (stepJobs t) schedule jobs cache).2 ∧
      ∀ job ∈ (run (stepJobs t) schedule jobs cache).1, job.Fits t Gives := by
  refine run_induction (P := fun (jobs : List ProjectJob) (cache : Cache SourceUnit) =>
    Holds cache ∧ ∀ job ∈ jobs, job.Fits t Gives) ?_ schedule ⟨hcache, hjobs⟩
  intro place jobs cache h
  exact stepAt_induction (fun _ _ => ProjectJob.step_fits hkeeps place.2) place.1 h.1 h.2

/-- With a store that can be trusted, what is known of all projects stays true of the files. -/
theorem run_spec {Holds : Cache SourceUnit → Prop} (htrusted : Trusted t Holds)
    (schedule : List (Nat × Nat)) (hcache : Holds cache) (hjobs : ∀ job ∈ jobs, job.Right t) :
    Holds (run (stepJobs t) schedule jobs cache).2 ∧
      ∀ job ∈ (run (stepJobs t) schedule jobs cache).1, job.Right t :=
  run_fits htrusted.keeps schedule hcache hjobs

/-- The projects of a run stay with their files. -/
theorem map_direct_run (settings : Settings) (t : FileTree) (schedule : List (Nat × Nat))
    (jobs : List ProjectJob) (cache : Cache SourceUnit) :
    (run (stepJobs t) schedule jobs cache).1.map (ProjectJob.direct settings t) =
      jobs.map (ProjectJob.direct settings t) := by
  refine run_induction (P := fun (jobs' : List ProjectJob) (_ : Cache SourceUnit) =>
    jobs'.map (ProjectJob.direct settings t) = jobs.map (ProjectJob.direct settings t))
    ?_ schedule rfl
  intro place jobs' cache' h
  rw [← h]
  exact map_stepAt (ProjectJob.direct_step settings t place.2) place.1 jobs' cache'

/-- The results that are known are those of the files in the tree. -/
theorem gather?_eq (hjobs : ∀ job ∈ jobs, job.Right t) {results : Except ScanError (List Result)}
    (h : gather? settings jobs = some results) :
    results = jobs.mapM (ProjectJob.direct settings t) := by
  induction jobs generalizing results with
  | nil => exact (Option.some.inj h).symm
  | cons job jobs ih =>
    rw [List.forall_mem_cons] at hjobs
    rw [gather?] at h
    rw [List.mapM_cons]
    cases houtcome : job.outcome? settings with
    | none =>
      rw [houtcome] at h
      cases h
    | some outcome =>
      rw [← ProjectJob.outcome?_eq hjobs.1 houtcome]
      rw [houtcome] at h
      cases outcome with
      -- a failure hides all results behind it
      | error e => exact (Option.some.inj h).symm
      | ok r =>
        obtain ⟨rest, hrest, heq⟩ := Option.map_eq_some_iff.1 h
        rw [← ih hjobs.2 hrest, ← heq]
        cases rest <;> rfl

/-- Once no step is left, all results are known. -/
theorem gather?_of_remaining (hjobs : ∀ job ∈ jobs, job.Right t)
    (hdone : ∀ job ∈ jobs, ∀ task ∈ job.tasks, task.remaining = 0) :
    gather? settings jobs = some (jobs.mapM (ProjectJob.direct settings t)) := by
  induction jobs with
  | nil => rfl
  | cons job jobs ih =>
    rw [List.forall_mem_cons] at hjobs hdone
    rw [gather?, ProjectJob.outcome?_of_remaining hjobs.1 hdone.1, List.mapM_cons]
    cases job.direct settings t with
    | error e => rfl
    | ok r =>
      rw [ih hjobs.2 hdone.2]
      cases jobs.mapM (ProjectJob.direct settings t) <;> rfl

/-- A step leaves fewer steps at its own place, and no more elsewhere. -/
theorem remainingAt_step (t : FileTree) (place other : Nat × Nat) (jobs : List ProjectJob)
    (cache : Cache SourceUnit) :
    remainingAt (stepJobs t place jobs cache).1 other ≤
      remainingAt jobs other - if place = other then 1 else 0 := by
  obtain ⟨i, j⟩ := place
  obtain ⟨k, l⟩ := other
  simp only [remainingAt, stepJobs, getElem?_stepAt]
  cases hjob : jobs[k]? with
  | none => split <;> simp
  | some job =>
    by_cases hk : k = i
    · subst hk
      simp only [if_pos, Option.map_some, Option.bind_some, ProjectJob.step, getElem?_stepAt]
      cases htask : job.tasks[l]? with
      | none => split <;> simp
      | some task =>
        by_cases hl : l = j
        · subst hl
          -- the step was made at this very place
          simpa using FileTask.remaining_step t task cache
        · have hne : (k, j) ≠ (k, l) := by
            intro heq
            exact hl (congrArg Prod.snd heq).symm
          simp [hl, hne]
    · have hne : (i, j) ≠ (k, l) := by
        intro heq
        exact hk (congrArg Prod.fst heq).symm
      simp [hk, hne]

theorem remainingAt_run (t : FileTree) (schedule : List (Nat × Nat)) (place : Nat × Nat)
    (jobs : List ProjectJob) (cache : Cache SourceUnit) :
    remainingAt (run (stepJobs t) schedule jobs cache).1 place ≤
      remainingAt jobs place - schedule.count place := by
  induction schedule generalizing jobs cache with
  | nil => exact Nat.le_refl _
  | cons next schedule ih =>
    have hstep := remainingAt_step t next place jobs cache
    have hrest := ih (stepJobs t next jobs cache).1 (stepJobs t next jobs cache).2
    -- a turn of the task takes one of its steps, any other turn none
    rw [List.count_cons]
    simp only [beq_iff_eq]
    rw [run]
    omega

end Jobs

/-! ## Requests -/

/-- What a session can be asked for: a scan of the project at a directory, or of all projects in
it. -/
inductive Request where
  | project (given : String)
  | all (given : String)

/-- The results of a scan, with what they give together if all projects in a directory were
scanned. -/
structure Report where
  projects : List Result
  combined : Option Result

/-- What a scan has to do: the projects from a root on, with their labels. -/
structure Plan where
  root : Path
  projects : List (Project.Info × Option String)

/-- What the results of the projects with the given roots give together. -/
def combineAll (t : FileTree) (root : Path) (roots : List Path) (results : List Result) :
    Except ScanError Combined := do
  let info ← Except.mapError .discovery (Project.classifyDir t root)
  let combined := Result.combine { info with nested := roots.filter (· ≠ root) } results
  return {
    projects := results
    combined := { combined with
      isPartial := combined.isPartial || results.length < roots.length } }

namespace Request

/-- The scan. -/
def scan (t : FileTree) : Request → SessionM Report
  | project given => do return ⟨[← scanProject t given], none⟩
  | all given => do
    let r ← scanAll t given
    return ⟨r.projects, some r.combined⟩

/-- The projects that the request is about. -/
def plan (settings : Settings) (t : FileTree) : Request → Except ScanError Plan
  | project given => Except.mapError .discovery do
    let root ← Project.validateRoot t given
    let nested := (Project.markedDirs t settings.search root).filter (· ≠ root)
    return ⟨root, [({ ← Project.classifyDir t root with nested := nested }, none)]⟩
  | all given => Except.mapError .discovery do
    let root ← Project.validateRoot t given
    let projects ← Project.projectsOf t settings.search root
      (Project.markedDirs t settings.search root)
    return ⟨root, projects.map fun info => (info, some (root.label info.root))⟩

/-- The work on all projects before anything is done. -/
def start (settings : Settings) (t : FileTree) (request : Request) : List ProjectJob :=
  match request.plan settings t with
  | .error _ => []
  | .ok plan => plan.projects.map fun p => ProjectJob.start settings t p.1 p.2

/-- The report on the results of all projects. -/
def conclude (t : FileTree) (plan : Plan) (results : List Result) :
    Request → Except ScanError Report
  | project _ => .ok ⟨results, none⟩
  | all _ => (combineAll t plan.root (plan.projects.map (·.1.root)) results).map fun r =>
    ⟨r.projects, some r.combined⟩

/-- The report, once it is known. -/
def outcome? (settings : Settings) (t : FileTree) (request : Request) (jobs : List ProjectJob) :
    Option (Except ScanError Report) :=
  match request.plan settings t with
  | .error e => some (.error e)
  | .ok plan =>
    if settings.refuses plan.projects.length then some (.error .noWorkers)
    else (gather? settings jobs).map fun results => do request.conclude t plan (← results)

/-- The report if the declarations of all files are always read. -/
def direct (settings : Settings) (t : FileTree) (request : Request) : Except ScanError Report := do
  let plan ← request.plan settings t
  if settings.refuses plan.projects.length then throw .noWorkers
  let results ← (request.start settings t).mapM (ProjectJob.direct settings t)
  request.conclude t plan results

variable {settings : Settings} {t : FileTree} {cache : Cache SourceUnit} {texts : Set (List Char)}

theorem start_fits (settings : Settings) (t : FileTree) (Gives : Path → Path → FileOutcome → Prop)
    (request : Request) : ∀ job ∈ request.start settings t, job.Fits t Gives := by
  intro job hjob
  rw [start] at hjob
  split at hjob
  · cases hjob
  · obtain ⟨p, -, rfl⟩ := List.mem_map.1 hjob
    exact ProjectJob.start_fits settings t Gives p.1 p.2

theorem start_right (settings : Settings) (t : FileTree) (request : Request) :
    ∀ job ∈ request.start settings t, job.Right t :=
  start_fits settings t _ request

/-- The report is known once all results are. -/
theorem outcome?_of_gather? {request : Request} {jobs : List ProjectJob}
    (h : gather? settings jobs =
      some ((request.start settings t).mapM (ProjectJob.direct settings t))) :
    request.outcome? settings t jobs = some (request.direct settings t) := by
  rw [outcome?, direct, h]
  cases request.plan settings t with
  | error e => rfl
  | ok plan =>
    show (if settings.refuses plan.projects.length then _ else _) =
      some (if settings.refuses plan.projects.length then _ else _)
    split <;> rfl

/-- Without the results the report may be known only because no worker is allowed, or because
nothing can be scanned. -/
theorem outcome?_of_gather?_none {request : Request} {jobs : List ProjectJob}
    (h : gather? settings jobs = none) : request.outcome? settings t jobs = none ∨
      request.outcome? settings t jobs = some (request.direct settings t) := by
  rw [outcome?, direct, h]
  cases request.plan settings t with
  | error e => exact .inr rfl
  | ok plan =>
    show (if settings.refuses plan.projects.length then _ else _) = none ∨ (if _ then _ else _) =
      some (if settings.refuses plan.projects.length then _ else _)
    split
    · exact .inr rfl
    · exact .inl rfl

/-- After a run that serves every task nothing is left to do. -/
theorem remaining_of_serves {schedule : List (Nat × Nat)} {jobs : List ProjectJob}
    (h : Serves schedule jobs) :
    ∀ job ∈ (run (stepJobs t) schedule jobs cache).1, ∀ task ∈ job.tasks, task.remaining = 0 := by
  intro job hjob task htask
  obtain ⟨i, hi⟩ := List.mem_iff_getElem?.1 hjob
  obtain ⟨j, hj⟩ := List.mem_iff_getElem?.1 htask
  have hrun := remainingAt_run t schedule (i, j) jobs cache
  have hleft : remainingAt (run (stepJobs t) schedule jobs cache).1 (i, j) = task.remaining := by
    simp [remainingAt, hi, hj]
  have hbefore : remainingAt jobs (i, j) ≤ schedule.count (i, j) := by
    rw [remainingAt]
    cases hold : jobs[i]? with
    | none => simp
    | some old =>
      cases htask' : old.tasks[j]? with
      | none => simp [htask']
      | some task' =>
        have hcount := h i old hold j (List.getElem?_eq_some_iff.1 htask').1
        have hmost := task'.remaining_le
        simp only [Option.bind_some, htask', Option.map_some, Option.getD_some]
        omega
  omega

/-- In whatever order the tasks of a scan make their steps, and whatever a trusted store holds from
before, the report is the same. It is known once every task is served. -/
theorem outcome?_run_of_trusted {Holds : Cache SourceUnit → Prop} (htrusted : Trusted t Holds)
    (hcache : Holds cache) (request : Request) (schedule : List (Nat × Nat))
    {jobs : List ProjectJob}
    (hjobs : jobs = (run (stepJobs t) schedule (request.start settings t) cache).1) :
    (request.outcome? settings t jobs = none ∨
      request.outcome? settings t jobs = some (request.direct settings t)) ∧
    (Serves schedule (request.start settings t) →
      request.outcome? settings t jobs = some (request.direct settings t)) := by
  obtain ⟨-, hright⟩ := run_spec htrusted schedule hcache (request.start_right settings t)
  -- no step changes what a project gives if its files are read
  have hsame : jobs.mapM (ProjectJob.direct settings t) =
      (request.start settings t).mapM (ProjectJob.direct settings t) := by
    have hmap := map_direct_run settings t schedule (request.start settings t) cache
    rw [← hjobs] at hmap
    have := congrArg (List.mapM id) hmap
    simpa [List.mapM_map] using this
  rw [← hjobs] at hright
  constructor
  · cases hgather : gather? settings jobs with
    | none => exact outcome?_of_gather?_none hgather
    | some results =>
      right
      apply outcome?_of_gather?
      rw [hgather, gather?_eq hright hgather, hsame]
  · intro hserves
    apply outcome?_of_gather?
    rw [gather?_of_remaining hright (hjobs ▸ remaining_of_serves hserves), hsame]

/-- In particular the report is the same with any sound store. -/
theorem outcome?_run (hinj : Set.InjOn fingerprintOf texts) (ht : textsOf t ⊆ texts)
    (hcache : Sound texts cache) (request : Request) (schedule : List (Nat × Nat))
    {jobs : List ProjectJob}
    (hjobs : jobs = (run (stepJobs t) schedule (request.start settings t) cache).1) :
    (request.outcome? settings t jobs = none ∨
      request.outcome? settings t jobs = some (request.direct settings t)) ∧
    (Serves schedule (request.start settings t) →
      request.outcome? settings t jobs = some (request.direct settings t)) :=
  outcome?_run_of_trusted (Sound.trusted hinj ht) hcache request schedule hjobs

end Request

end AbiIndex.Scan
