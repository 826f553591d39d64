import AbiIndex.Proofs.PartialResult

/-!
# Scans side by side that may be stopped

The tasks of a scan share the store of parsed files and the request to stop, which may come between
any two of their steps. Every task asks once, before it begins, whether there is such a request. The
tasks of a project that read files come first; those that resolve them begin only when all of these
are over. A task that reads a file and was told to stop has thus been told so before anything is
resolved, and since a request is never taken back, so are all tasks that resolve files.

## Key results

- `Guarded.step_spec`: what a step of a task preserves
- `ProjectRun.step_spec`: what a step of a project preserves, with one case for each phase
- `run_ok`: so does any order of steps, with a request to stop at any moment
- `Request.run_answers`: the report is part of that of a scan that is not stopped
-/

namespace AbiIndex.Scan

open AbiIndex.Abi AbiIndex.Source

/-! ## Tasks that ask whether to stop -/

/-- What all tasks of a scan share. -/
structure Shared where
  cancelled : Bool
  cache : Cache SourceUnit

/-- A task that asks first whether to stop. -/
inductive Guarded (τ : Type) where
  | asking (task : τ)
  | left (task : τ)
  | begun (task : τ)

/-- The outcomes of tasks in order, once they are known. The first failure counts. -/
def collect? {τ β : Type} (ending? : τ → Option (Except ScanError β)) :
    List τ → Option (Except ScanError (List β))
  | [] => some (.ok [])
  | x :: xs =>
    match ending? x with
    | none => none
    | some (.error e) => some (.error e)
    | some (.ok b) => (collect? ending? xs).map (Except.map (b :: ·))

section Collect

variable {τ β : Type} {ending? : τ → Option (Except ScanError β)} {xs : List τ}

/-- All outcomes are known. -/
theorem collect?_ok {bs : List β} (h : collect? ending? xs = some (.ok bs)) :
    List.Forall₂ (fun x b => ending? x = some (.ok b)) xs bs := by
  induction xs generalizing bs with
  | nil =>
    cases h
    exact .nil
  | cons x xs ih =>
    rw [collect?] at h
    split at h
    · cases h
    · cases h
    · rename_i b hx
      obtain ⟨rest, hrest, hbs⟩ := Option.map_eq_some_iff.1 h
      cases rest with
      | error e => cases hbs
      | ok bs' =>
        cases hbs
        exact .cons hx (ih hrest)

/-- A failure is that of a task. -/
theorem collect?_error {e : ScanError} (h : collect? ending? xs = some (.error e)) :
    ∃ x ∈ xs, ending? x = some (.error e) := by
  induction xs with
  | nil => cases h
  | cons x xs ih =>
    rw [collect?] at h
    split at h
    · cases h
    · rename_i hx
      cases h
      exact ⟨x, List.mem_cons_self, hx⟩
    · obtain ⟨rest, hrest, hbs⟩ := Option.map_eq_some_iff.1 h
      cases rest with
      | ok bs => cases hbs
      | error e' =>
        cases hbs
        obtain ⟨x', hmem, hx'⟩ := ih hrest
        exact ⟨x', List.mem_cons_of_mem x hmem, hx'⟩

/-- Outcomes in order are attempts side by side. -/
theorem attempted_of_forall₂ {α γ : Type} {R : α → Option γ → Prop} {Good : α → γ → Prop}
    {marked : γ → Bool} {as : List α} {bs : List (Option γ)} (h : List.Forall₂ R as bs)
    (hgood : ∀ a ∈ as, ∀ b, R a (some b) → Good a b) :
    Attempted .sideBySide Good marked as bs := by
  induction h with
  | nil => exact .nil
  | @cons a b as bs head _ ih =>
    rw [List.forall_mem_cons] at hgood
    cases b with
    | none => exact .left (ih hgood.2) nofun
    | some b => exact .done (hgood.1 b head) (ih hgood.2) nofun

end Collect

namespace Guarded

variable {τ β : Type}

def task : Guarded τ → τ
  | asking task => task
  | left task => task
  | begun task => task

/-- The task asks, or goes on once it has begun. -/
def step (go : τ → Cache SourceUnit → τ × Cache SourceUnit) (g : Guarded τ) (s : Shared) :
    Guarded τ × Shared :=
  match g with
  | asking task => (if s.cancelled then left task else begun task, s)
  | left task => (left task, s)
  | begun task => (begun (go task s.cache).1, { s with cache := (go task s.cache).2 })

/-- How the task ends, once this is known: with nothing if it was told to stop. -/
def ending? (outcome? : τ → Option (Except ScanError β)) :
    Guarded τ → Option (Except ScanError (Option β))
  | asking _ => none
  | left _ => some (.ok none)
  | begun task => (outcome? task).map (Except.map some)

/-- A request to stop has come if the task was told to stop. Otherwise `P` is true of the task from
the moment on when it begins. -/
def Ok (cancelled : Bool) (P : τ → Prop) : Guarded τ → Prop
  | asking task => cancelled = false → P task
  | left _ => cancelled = true
  | begun task => P task

variable {P : τ → Prop} {cancelled : Bool} {g : Guarded τ}
  {outcome? : τ → Option (Except ScanError β)}

/-- A request to stop is no harm to a task. -/
theorem Ok.cancel (h : g.Ok cancelled P) : g.Ok true P := by
  cases g with
  | asking task => exact nofun
  | left task => rfl
  | begun task => exact h

/-- A step of a task leaves the request to stop as it is. -/
theorem cancelled_step (go : τ → Cache SourceUnit → τ × Cache SourceUnit) (g : Guarded τ)
    (s : Shared) : (g.step go s).2.cancelled = s.cancelled := by
  cases g <;> rfl

/-- A step keeps what is true of the store and of the task. -/
theorem step_spec {go : τ → Cache SourceUnit → τ × Cache SourceUnit}
    {Holds : Cache SourceUnit → Prop}
    (hgo : ∀ task cache, Holds cache → P task → Holds (go task cache).2 ∧ P (go task cache).1)
    {s : Shared} (hcache : Holds s.cache) (h : g.Ok s.cancelled P) :
    Holds (g.step go s).2.cache ∧ (g.step go s).1.Ok s.cancelled P := by
  cases g with
  | asking task =>
    refine ⟨hcache, ?_⟩
    simp only [step]
    split
    · rename_i hcancelled
      exact hcancelled
    · rename_i hcancelled
      exact h (Bool.eq_false_iff.2 hcancelled)
  | left task => exact ⟨hcache, h⟩
  | begun task => exact hgo task s.cache hcache h

/-- So does a step of one of several tasks. -/
theorem stepAt_spec {go : τ → Cache SourceUnit → τ × Cache SourceUnit}
    {Holds : Cache SourceUnit → Prop}
    (hgo : ∀ task cache, Holds cache → P task → Holds (go task cache).2 ∧ P (go task cache).1)
    (j : Nat) {tasks : List (Guarded τ)} {s : Shared} (hcache : Holds s.cache)
    (h : ∀ g ∈ tasks, g.Ok s.cancelled P) :
    (Holds (stepAt (step go) j tasks s).2.cache ∧
      (stepAt (step go) j tasks s).2.cancelled = s.cancelled) ∧
      ∀ g ∈ (stepAt (step go) j tasks s).1, g.Ok s.cancelled P := by
  refine stepAt_induction
    (P := fun (s' : Shared) => Holds s'.cache ∧ s'.cancelled = s.cancelled) ?_ j ⟨hcache, rfl⟩ h
  intro g s' hs' hg
  obtain ⟨hcache', hcancelled⟩ := hs'
  rw [← hcancelled] at hg ⊢
  obtain ⟨hkept, hok⟩ := step_spec hgo hcache' hg
  exact ⟨⟨hkept, cancelled_step go g s'⟩, hok⟩

/-- A step leaves the task what it is about. -/
theorem map_stepAt_task {α : Type} {go : τ → Cache SourceUnit → τ × Cache SourceUnit} {f : τ → α}
    (hgo : ∀ task cache, f (go task cache).1 = f task) (j : Nat) (tasks : List (Guarded τ))
    (s : Shared) :
    (stepAt (step go) j tasks s).1.map (fun g => f g.task) = tasks.map fun g => f g.task := by
  refine map_stepAt ?_ j tasks s
  intro g s
  cases g with
  | asking task =>
    simp only [step]
    split <;> rfl
  | left task => rfl
  | begun task => exact hgo task s.cache

/-- Only a task that was told to stop ends with nothing. -/
theorem Ok.cancelled_of_none (h : g.Ok cancelled P) (hending : g.ending? outcome? = some (.ok none)) :
    cancelled = true := by
  cases g with
  | asking task => cases hending
  | left task => exact h
  | begun task =>
    obtain ⟨outcome, -, houtcome⟩ := Option.map_eq_some_iff.1 hending
    cases outcome <;> cases houtcome

/-- A task that ends with something has begun. -/
theorem Ok.of_some (h : g.Ok cancelled P) {b : β} (hending : g.ending? outcome? = some (.ok (some b))) :
    P g.task ∧ outcome? g.task = some (.ok b) := by
  cases g with
  | asking task => cases hending
  | left task => cases hending
  | begun task =>
    obtain ⟨outcome, houtcome, hmap⟩ := Option.map_eq_some_iff.1 hending
    cases outcome with
    | error e => cases hmap
    | ok b' =>
      cases hmap
      exact ⟨h, houtcome⟩

/-- So has a task that fails. -/
theorem Ok.of_error (h : g.Ok cancelled P) {e : ScanError}
    (hending : g.ending? outcome? = some (.error e)) :
    P g.task ∧ outcome? g.task = some (.error e) := by
  cases g with
  | asking task => cases hending
  | left task => cases hending
  | begun task =>
    obtain ⟨outcome, houtcome, hmap⟩ := Option.map_eq_some_iff.1 hending
    cases outcome with
    | ok b => cases hmap
    | error e' =>
      cases hmap
      exact ⟨h, houtcome⟩

end Guarded

/-! ## Projects -/

/-- The files whose declarations were read. -/
def unitsOf (outcomes : List (Option FileOutcome)) : List SourceUnit :=
  (outcomes.filterMap id).filterMap (·.unit)

/-- How far the work on a project has come. -/
inductive Phase where
  | waiting
  /-- The project was left out. -/
  | left
  | reading (tasks : List (Guarded FileTask))
  | resolving (outcomes : List (Option FileOutcome)) (tasks : List (Guarded SourceUnit))
  | ended (outcome : Except ScanError Result)

/-- The work on a project that may be stopped. -/
structure ProjectRun where
  job : ProjectJob
  /-- Whether it is asked before the project whether to stop. -/
  asks : Bool
  phase : Phase

/-- The outcome of a file, once its work is done. -/
def FileTask.ending? (task : FileTask) : Option (Except ScanError FileOutcome) :=
  task.outcome?.map .ok

/-- The outcome of a resolution against the names of the given files. -/
def resolution? (units : List SourceUnit) (unit : SourceUnit) :
    Option (Except ScanError ResolvedUnit) :=
  some (Except.mapError .type (resolveUnit (.ofUnits units) unit))

namespace ProjectJob

/-- The work on a project that is not left out: all files are to be read, unless this cannot be
done. -/
def beginReading (settings : Settings) (job : ProjectJob) : Phase :=
  match job.fault with
  | some e => .ended (.error e)
  | none =>
    if settings.refuses job.tasks.length then .ended (.error .noWorkers)
    else .reading (job.tasks.map .asking)

/-- The work on a project after all files that are not left out were read. -/
def beginResolving (settings : Settings) (outcomes : List (Option FileOutcome)) : Phase :=
  if settings.refuses (unitsOf outcomes).length then .ended (.error .noWorkers)
  else .resolving outcomes ((unitsOf outcomes).map .asking)

/-- The result of a project after all files that are not left out were resolved. -/
def resultOf (job : ProjectJob) (cancelled : Bool) (outcomes : List (Option FileOutcome))
    (attempts : List (Option ResolvedUnit)) : Result :=
  .ofFiles job.info job.label
    (cancelled && ((outcomes.filterMap id).length < job.tasks.length ||
      (attempts.filterMap id).length < (unitsOf outcomes).length))
    (outcomes.filterMap id) (attempts.filterMap id)

end ProjectJob

namespace ProjectRun

/-- Goes on with the task at the given place, or without one with the project as a whole: it begins,
or the next phase begins if all tasks of a phase have ended. -/
def step (settings : Settings) (t : FileTree) (turn : Option Nat) (run : ProjectRun) (s : Shared) :
    ProjectRun × Shared :=
  match run.phase, turn with
  | .waiting, none =>
    if run.asks && s.cancelled then ({ run with phase := .left }, s)
    else ({ run with phase := run.job.beginReading settings }, s)
  | .reading tasks, none =>
    match collect? (Guarded.ending? FileTask.ending?) tasks with
    | none => (run, s)
    | some (.error e) => ({ run with phase := .ended (.error e) }, s)
    | some (.ok outcomes) =>
      ({ run with phase := ProjectJob.beginResolving settings outcomes }, s)
  | .reading tasks, some j =>
    ({ run with phase := .reading (stepAt (Guarded.step (FileTask.step t)) j tasks s).1 },
      (stepAt (Guarded.step (FileTask.step t)) j tasks s).2)
  | .resolving outcomes tasks, none =>
    match collect? (Guarded.ending? (resolution? (unitsOf outcomes))) tasks with
    | none => (run, s)
    -- the request to stop counts at this moment
    | some attempts =>
      ({ run with phase := .ended (attempts.map (run.job.resultOf s.cancelled outcomes)) }, s)
  | .resolving outcomes tasks, some j =>
    ({ run with phase := .resolving outcomes (stepAt (Guarded.step Prod.mk) j tasks s).1 },
      (stepAt (Guarded.step Prod.mk) j tasks s).2)
  | .waiting, some _ | .left, _ | .ended _, _ => (run, s)

/-- What the project gives, once this is known: nothing if it was left out. -/
def ending? (run : ProjectRun) : Option (Except ScanError (Option Result)) :=
  match run.phase with
  | .left => some (.ok none)
  | .ended outcome => some (outcome.map some)
  | _ => none

/-- What is known of the work so far. No task that resolves a file begins if a file was not read. -/
def Ok (settings : Settings) (t : FileTree) (cancelled : Bool) (run : ProjectRun) : Prop :=
  match run.phase with
  | .waiting => run.job.Right t
  | .left => run.asks = true
  | .reading tasks =>
    tasks.map (fun g => g.task.direct t) = run.job.contributions t ∧
      ∀ g ∈ tasks, g.Ok cancelled (FileTask.Right t)
  | .resolving outcomes tasks =>
    Attempted .sideBySide (fun o₀ o => o = o₀) (fun _ => false) (run.job.contributions t) outcomes ∧
      (none ∈ outcomes → cancelled = true) ∧ tasks.map Guarded.task = unitsOf outcomes ∧
      ∀ g ∈ tasks, g.Ok cancelled fun _ => none ∉ outcomes
  | .ended (.ok r) => run.job.Gives .sideBySide t r
  | .ended (.error _) => ∀ r, run.job.direct settings t ≠ .ok r

variable {settings : Settings} {t : FileTree} {run : ProjectRun} {cancelled : Bool} {s : Shared}

/-- A step of a project leaves it the project that it is. -/
theorem job_step (settings : Settings) (t : FileTree) (turn : Option Nat) (run : ProjectRun)
    (s : Shared) :
    ((run.step settings t turn s).1.job, (run.step settings t turn s).1.asks) =
      (run.job, run.asks) := by
  obtain ⟨job, asks, phase⟩ := run
  cases turn with
  | some j => cases phase <;> rfl
  | none =>
    cases phase with
    | waiting =>
      simp only [step]
      split <;> rfl
    | left => rfl
    | reading tasks =>
      simp only [step]
      split <;> rfl
    | resolving outcomes tasks =>
      simp only [step]
      split <;> rfl
    | ended outcome => rfl

/-- A request to stop does no harm to what is known. -/
theorem Ok.cancel (h : run.Ok settings t cancelled) : run.Ok settings t true := by
  obtain ⟨job, asks, phase⟩ := run
  cases phase with
  | waiting => exact h
  | left => exact h
  | reading tasks => exact ⟨h.1, fun g hg => (h.2 g hg).cancel⟩
  | resolving outcomes tasks =>
    obtain ⟨houtcomes, -, htasks, hok⟩ := h
    exact ⟨houtcomes, fun _ => rfl, htasks, fun g hg => (hok g hg).cancel⟩
  | ended outcome => cases outcome <;> exact h

/-- What is known of a project that has ended. -/
theorem Ok.of_ending (h : run.Ok settings t cancelled)
    {outcome : Except ScanError (Option Result)} (hending : run.ending? = some outcome) :
    match outcome with
    | .ok none => run.asks = true
    | .ok (some r) => run.job.Gives .sideBySide t r
    | .error _ => ∀ r, run.job.direct settings t ≠ .ok r := by
  obtain ⟨job, asks, phase⟩ := run
  cases phase with
  | left =>
    cases hending
    exact h
  | ended outcome =>
    cases outcome <;> cases hending <;> exact h
  | waiting => cases hending
  | reading tasks => cases hending
  | resolving outcomes tasks => cases hending

/-- All files of the project are to be read. -/
theorem beginReading_ok {job : ProjectJob} {asks : Bool} (h : job.Right t) :
    Ok settings t cancelled ⟨job, asks, job.beginReading settings⟩ := by
  rw [ProjectJob.beginReading]
  cases hfault : job.fault with
  | some e =>
    intro r hr
    rw [ProjectJob.direct, hfault] at hr
    cases hr
  | none =>
    dsimp only
    split
    · rename_i hrefuses
      exact ProjectJob.direct_ne_ok_of_refused hrefuses
    · refine ⟨?_, ?_⟩
      · rw [List.map_map]
        rfl
      · intro g hg
        obtain ⟨task, htask, rfl⟩ := List.mem_map.1 hg
        exact fun _ => h task htask

/-- The outcomes of the tasks are those of the files that were not left out. -/
theorem attempted_of_reading {job : ProjectJob} {asks : Bool} {tasks : List (Guarded FileTask)}
    {outcomes : List (Option FileOutcome)} (h : Ok settings t cancelled ⟨job, asks, .reading tasks⟩)
    (houtcomes : collect? (Guarded.ending? FileTask.ending?) tasks = some (.ok outcomes)) :
    Attempted .sideBySide (fun o₀ o => o = o₀) (fun _ => false) (job.contributions t) outcomes ∧
      (none ∈ outcomes → cancelled = true) := by
  obtain ⟨hcontributions, hok⟩ := h
  have hall := collect?_ok houtcomes
  constructor
  · rw [← hcontributions]
    refine Attempted.map (attempted_of_forall₂ hall ?_)
    intro g hg o hending
    obtain ⟨hright, houtcome⟩ := (hok g hg).of_some hending
    obtain ⟨o', ho', heq⟩ := Option.map_eq_some_iff.1 houtcome
    cases heq
    exact hright.eq_direct ho'
  · intro hnone
    obtain ⟨g, hg, hending⟩ := exists_left_of_forall₂ hall hnone
    exact (hok g hg).cancelled_of_none hending

/-- All files that were read are to be resolved. -/
theorem beginResolving_ok {job : ProjectJob} {asks : Bool} {tasks : List (Guarded FileTask)}
    {outcomes : List (Option FileOutcome)} (h : Ok settings t cancelled ⟨job, asks, .reading tasks⟩)
    (houtcomes : collect? (Guarded.ending? FileTask.ending?) tasks = some (.ok outcomes)) :
    Ok settings t cancelled ⟨job, asks, ProjectJob.beginResolving settings outcomes⟩ := by
  obtain ⟨hattempted, hnone⟩ := attempted_of_reading h houtcomes
  rw [ProjectJob.beginResolving]
  split
  · -- there are at least as many files as there are to resolve
    rename_i hrefuses
    refine ProjectJob.direct_ne_ok_of_refused (Settings.refuses_mono ?_ hrefuses)
    have hunits := List.length_filterMap_le (·.unit) (outcomes.filterMap id)
    have hread := List.length_filterMap_le id outcomes
    rw [hattempted.length_eq, ProjectJob.contributions, List.length_map] at hread
    exact hunits.trans hread
  · refine ⟨hattempted, hnone, ?_, ?_⟩
    · rw [List.map_map]
      exact List.map_id _
    · intro g hg
      obtain ⟨unit, -, rfl⟩ := List.mem_map.1 hg
      intro hrunning hmem
      rw [hnone hmem] at hrunning
      cases hrunning

/-- The project ends with a result, or with the failure of a file. -/
theorem ended_ok {job : ProjectJob} {asks : Bool} {tasks : List (Guarded SourceUnit)}
    {outcomes : List (Option FileOutcome)} {attempts : Except ScanError (List (Option ResolvedUnit))}
    (h : Ok settings t cancelled ⟨job, asks, .resolving outcomes tasks⟩)
    (hattempts : collect? (Guarded.ending? (resolution? (unitsOf outcomes))) tasks = some attempts) :
    Ok settings t cancelled ⟨job, asks, .ended (attempts.map (job.resultOf cancelled outcomes))⟩ := by
  obtain ⟨houtcomes, hcancelled, htasks, hok⟩ := h
  cases attempts with
  | error e =>
    obtain ⟨g, hg, hending⟩ := collect?_error hattempts
    obtain ⟨hnone, herror⟩ := (hok g hg).of_error hending
    -- the file was resolved against all names
    have hall : outcomes.filterMap id = job.contributions t := by
      have := houtcomes.filterMap_eq_map hnone (fun _ _ => rfl) fun h _ => h
      rwa [List.map_id'] at this
    have hmem : g.task ∈ unitsOf outcomes := htasks ▸ List.mem_map_of_mem hg
    rw [unitsOf, hall] at hmem
    obtain ⟨e', hresolve, -⟩ := mapError_eq_error_iff.1 (Option.some.inj herror)
    rw [unitsOf, hall] at hresolve
    exact ProjectJob.direct_ne_ok_of_resolve hmem hresolve
  | ok attempts =>
    have hall := collect?_ok hattempts
    have hresolved : Attempted .sideBySide
        (fun unit r => resolveUnit (.ofUnits (unitsOf outcomes)) unit = .ok r) (fun _ => false)
        (tasks.map Guarded.task) attempts := by
      refine Attempted.map (attempted_of_forall₂ hall ?_)
      intro g hg r hending
      obtain ⟨-, hr⟩ := (hok g hg).of_some hending
      exact mapError_eq_ok_iff.1 (Option.some.inj hr)
    rw [htasks] at hresolved
    have hempty : none ∈ outcomes → attempts.filterMap id = [] := by
      intro hnone
      refine List.filterMap_eq_nil_iff.2 ?_
      intro attempt hattempt
      cases attempt with
      | none => rfl
      | some r =>
        -- a file that was resolved had begun when all names were known
        obtain ⟨g, hg, hending⟩ := exists_left_of_forall₂ hall hattempt
        exact absurd hnone ((hok g hg).of_some hending).1
    have hleft : none ∈ attempts → cancelled = true := by
      intro hnone
      obtain ⟨g, hg, hending⟩ := exists_left_of_forall₂ hall hnone
      exact (hok g hg).cancelled_of_none hending
    have hgives := ProjectJob.gives_of_attempted (List.map_id' _).symm houtcomes rfl hresolved
      (fun hnone => ⟨hcancelled hnone, hempty hnone⟩) hleft
    rw [ProjectJob.contributions, List.length_map] at hgives
    exact hgives

/-- A step of a task keeps what can be trusted of the store and what is known of the project. -/
theorem step_some_spec {Holds : Cache SourceUnit → Prop} (htrusted : Trusted t Holds) (j : Nat)
    (hcache : Holds s.cache) (h : run.Ok settings t s.cancelled) :
    Holds (run.step settings t (some j) s).2.cache ∧
      (run.step settings t (some j) s).2.cancelled = s.cancelled ∧
      (run.step settings t (some j) s).1.Ok settings t s.cancelled := by
  obtain ⟨job, asks, phase⟩ := run
  cases phase with
  | waiting => exact ⟨hcache, rfl, h⟩
  | left => exact ⟨hcache, rfl, h⟩
  | reading tasks =>
    obtain ⟨⟨hkept, hcancelled⟩, hok⟩ := Guarded.stepAt_spec
      (fun _ _ => FileTask.step_fits htrusted.keeps) j hcache h.2
    refine ⟨hkept, hcancelled, ?_, hok⟩
    rw [Guarded.map_stepAt_task (FileTask.direct_step t)]
    exact h.1
  | resolving outcomes tasks =>
    obtain ⟨houtcomes, hnone, htasks, hok⟩ := h
    have hgo : ∀ (unit : SourceUnit) (cache : Cache SourceUnit), Holds cache → none ∉ outcomes →
        Holds (Prod.mk unit cache).2 ∧ none ∉ outcomes := fun _ _ hcache hall => ⟨hcache, hall⟩
    obtain ⟨⟨hkept, hcancelled⟩, hok⟩ := Guarded.stepAt_spec hgo j hcache hok
    refine ⟨hkept, hcancelled, houtcomes, hnone, ?_, hok⟩
    rw [← htasks]
    exact Guarded.map_stepAt_task (f := id) (fun _ _ => rfl) j tasks s
  | ended outcome => exact ⟨hcache, rfl, h⟩

/-- So does a step of the project as a whole, which does not touch what is shared. -/
theorem step_none_spec (h : run.Ok settings t s.cancelled) :
    (run.step settings t none s).2 = s ∧
      (run.step settings t none s).1.Ok settings t s.cancelled := by
  obtain ⟨job, asks, phase⟩ := run
  cases phase with
  | waiting =>
    simp only [step]
    split
    · rename_i hleft
      exact ⟨rfl, (Bool.and_eq_true_iff.1 hleft).1⟩
    · exact ⟨rfl, beginReading_ok h⟩
  | left => exact ⟨rfl, h⟩
  | reading tasks =>
    simp only [step]
    split
    · exact ⟨rfl, h⟩
    · -- no file fails as a whole
      rename_i e herror
      obtain ⟨g, hg, hending⟩ := collect?_error herror
      obtain ⟨-, houtcome⟩ := (h.2 g hg).of_error hending
      obtain ⟨o, -, ho⟩ := Option.map_eq_some_iff.1 houtcome
      cases ho
    · rename_i outcomes houtcomes
      exact ⟨rfl, beginResolving_ok h houtcomes⟩
  | resolving outcomes tasks =>
    simp only [step]
    split
    · exact ⟨rfl, h⟩
    · rename_i attempts hattempts
      exact ⟨rfl, ended_ok h hattempts⟩
  | ended outcome => exact ⟨rfl, h⟩

/-- A step of a project keeps what can be trusted of the store and what is known of the work. -/
theorem step_spec {Holds : Cache SourceUnit → Prop} (htrusted : Trusted t Holds) (turn : Option Nat)
    (hcache : Holds s.cache) (h : run.Ok settings t s.cancelled) :
    Holds (run.step settings t turn s).2.cache ∧
      (run.step settings t turn s).2.cancelled = s.cancelled ∧
      (run.step settings t turn s).1.Ok settings t s.cancelled := by
  cases turn with
  | some j => exact step_some_spec htrusted j hcache h
  | none =>
    obtain ⟨hsame, hok⟩ := step_none_spec h
    exact ⟨hsame.symm ▸ hcache, congrArg _ hsame, hok⟩

end ProjectRun

/-! ## Scans -/

/-- What may happen next: a request to stop comes, or the work at a place goes on. -/
inductive Act (ι : Type) where
  | cancel
  | step (place : ι)

/-- What happens to some work and to what it shares. -/
def Act.apply {ι τ : Type} (step : ι → τ → Shared → τ × Shared) :
    Act ι → τ → Shared → τ × Shared
  | cancel, x, s => (x, { s with cancelled := true })
  | .step place, x, s => step place x s

/-- The work at a place of a scan goes on. The place is given by the project and by the file in the
project, if the work is that on a file. -/
def stepRuns (settings : Settings) (t : FileTree) (place : Nat × Option Nat) :
    List ProjectRun → Shared → List ProjectRun × Shared :=
  stepAt (ProjectRun.step settings t place.2) place.1

section Runs

variable {settings : Settings} {t : FileTree} {runs : List ProjectRun} {s : Shared}

/-- Whatever happens, what can be trusted of the store and what is known of the work stays true. -/
theorem apply_stepRuns_ok {Holds : Cache SourceUnit → Prop} (htrusted : Trusted t Holds)
    (act : Act (Nat × Option Nat)) (hcache : Holds s.cache)
    (h : ∀ run ∈ runs, run.Ok settings t s.cancelled) :
    Holds (act.apply (stepRuns settings t) runs s).2.cache ∧
      ∀ run ∈ (act.apply (stepRuns settings t) runs s).1,
        run.Ok settings t (act.apply (stepRuns settings t) runs s).2.cancelled := by
  cases act with
  | cancel => exact ⟨hcache, fun run hrun => (h run hrun).cancel⟩
  | step place =>
    have hstep : ∀ (run : ProjectRun) (s' : Shared),
        (Holds s'.cache ∧ s'.cancelled = s.cancelled) → run.Ok settings t s.cancelled →
        (Holds (run.step settings t place.2 s').2.cache ∧
          (run.step settings t place.2 s').2.cancelled = s.cancelled) ∧
          (run.step settings t place.2 s').1.Ok settings t s.cancelled := by
      intro run s' hs' hrun
      obtain ⟨hcache', hcancelled⟩ := hs'
      rw [← hcancelled] at hrun ⊢
      obtain ⟨hkept, hsame, hok⟩ := ProjectRun.step_spec htrusted place.2 hcache' hrun
      exact ⟨⟨hkept, hsame⟩, hok⟩
    have hall := stepAt_induction
      (P := fun (s' : Shared) => Holds s'.cache ∧ s'.cancelled = s.cancelled)
      hstep place.1 ⟨hcache, rfl⟩ h
    obtain ⟨⟨hkept, hcancelled⟩, hok⟩ := hall
    refine ⟨hkept, ?_⟩
    rw [Act.apply, stepRuns, hcancelled]
    exact hok

theorem run_ok {Holds : Cache SourceUnit → Prop} (htrusted : Trusted t Holds)
    (acts : List (Act (Nat × Option Nat))) (hcache : Holds s.cache)
    (h : ∀ run ∈ runs, run.Ok settings t s.cancelled) :
    ∀ r ∈ (run (Act.apply (stepRuns settings t)) acts runs s).1,
      r.Ok settings t (run (Act.apply (stepRuns settings t)) acts runs s).2.cancelled := by
  refine (run_induction (P := fun (runs : List ProjectRun) (s : Shared) =>
    Holds s.cache ∧ ∀ run ∈ runs, run.Ok settings t s.cancelled) ?_ acts ⟨hcache, h⟩).2
  intro act runs s h
  exact apply_stepRuns_ok htrusted act h.1 h.2

theorem map_job_run (settings : Settings) (t : FileTree) (acts : List (Act (Nat × Option Nat)))
    (runs : List ProjectRun) (s : Shared) :
    (run (Act.apply (stepRuns settings t)) acts runs s).1.map (fun run => (run.job, run.asks)) =
      runs.map fun run => (run.job, run.asks) := by
  refine run_induction (P := fun (runs' : List ProjectRun) (_ : Shared) =>
    runs'.map (fun run => (run.job, run.asks)) = runs.map fun run => (run.job, run.asks)) ?_ acts rfl
  intro act runs' s' h
  rw [← h]
  cases act with
  | cancel => rfl
  | step place => exact map_stepAt (ProjectRun.job_step settings t place.2) place.1 runs' s'

end Runs

namespace Request

/-- Whether it is asked before each project whether to stop. -/
def asks : Request → Bool
  | project _ => false
  | all _ => true

/-- The work on all projects before anything has happened. -/
def startRuns (settings : Settings) (t : FileTree) (request : Request) : List ProjectRun :=
  (request.start settings t).map fun job => ⟨job, request.asks, .waiting⟩

/-- The report, once it is known, if a request to stop is no reason to fail. -/
def report? (settings : Settings) (t : FileTree) (request : Request) (runs : List ProjectRun) :
    Option (Except ScanError Report) :=
  match request.plan settings t with
  | .error e => some (.error e)
  | .ok plan =>
    if settings.refuses plan.projects.length then some (.error .noWorkers)
    else (collect? ProjectRun.ending? runs).map fun attempts => do
      request.conclude t plan ((← attempts).filterMap id)

variable {settings : Settings} {t : FileTree} {request : Request} {s : Shared}

theorem startRuns_ok (settings : Settings) (t : FileTree) (request : Request) (cancelled : Bool) :
    ∀ run ∈ request.startRuns settings t, run.Ok settings t cancelled := by
  intro run hrun
  obtain ⟨job, hjob, rfl⟩ := List.mem_map.1 hrun
  exact request.start_right settings t job hjob

/-- What is known of all projects is enough for the report. -/
theorem report?_answers {runs : List ProjectRun} {cancelled : Bool}
    {outcome : Except ScanError Report} (hok : ∀ run ∈ runs, run.Ok settings t cancelled)
    (hsame : runs.map (fun run => (run.job, run.asks)) =
      (request.start settings t).map fun job => (job, request.asks))
    (h : request.report? settings t runs = some outcome) :
    request.Answers .sideBySide settings t outcome := by
  have hjobs : runs.map (·.job) = request.start settings t := by
    have := congrArg (List.map Prod.fst) hsame
    rwa [List.map_map, List.map_map, show Prod.fst ∘ (fun job => (job, request.asks)) = id from rfl,
      List.map_id] at this
  have hasks : ∀ run ∈ runs, run.asks = request.asks := by
    intro run hrun
    have hmem : (run.job, run.asks) ∈ (request.start settings t).map fun job =>
        (job, request.asks) := hsame ▸ List.mem_map_of_mem hrun
    obtain ⟨job, -, hpair⟩ := List.mem_map.1 hmem
    exact (congrArg Prod.snd hpair).symm
  rw [report?] at h
  cases hplan : request.plan settings t with
  | error e =>
    rw [hplan] at h
    cases h
    exact answers_error_of_plan hplan
  | ok plan =>
    rw [hplan] at h
    dsimp only at h
    split at h
    · rename_i hrefuses
      cases h
      exact answers_error_of_refused hplan hrefuses
    obtain ⟨attempts, hattempts, rfl⟩ := Option.map_eq_some_iff.1 h
    cases attempts with
    | error e =>
      -- a project that failed fails in any case
      obtain ⟨run, hrun, hending⟩ := collect?_error hattempts
      refine answers_error_of_job ?_ ((hok run hrun).of_ending hending)
      rw [← hjobs]
      exact List.mem_map_of_mem hrun
    | ok attempts =>
      have hall := collect?_ok hattempts
      have hgives : GivesAll .sideBySide t (request.start settings t) attempts := by
        rw [← hjobs]
        exact Attempted.map (attempted_of_forall₂ hall fun run hrun r => (hok run hrun).of_ending)
      refine answers_conclude hplan hgives ?_
      -- a project that is scanned alone is never left out
      rintro given rfl hnone
      obtain ⟨run, hrun, hending⟩ := exists_left_of_forall₂ hall hnone
      have hasked := (hok run hrun).of_ending hending
      rw [hasks run hrun] at hasked
      cases hasked

/-- In whatever order the tasks of a scan make their steps and whenever a request to stop comes, the
report is part of that of a scan that is not stopped. -/
theorem run_answers {Holds : Cache SourceUnit → Prop} (htrusted : Trusted t Holds)
    (hcache : Holds s.cache) (acts : List (Act (Nat × Option Nat)))
    {outcome : Except ScanError Report}
    (h : request.report? settings t
      (run (Act.apply (stepRuns settings t)) acts (request.startRuns settings t) s).1 =
        some outcome) :
    request.Answers .sideBySide settings t outcome := by
  refine report?_answers (run_ok htrusted acts hcache
    (request.startRuns_ok settings t s.cancelled)) ?_ h
  rw [map_job_run, startRuns, List.map_map]
  rfl

end Request

end AbiIndex.Scan
