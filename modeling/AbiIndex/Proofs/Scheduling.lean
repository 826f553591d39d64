import AbiIndex.Proofs.StoppedInterleaving
import AbiIndex.Proofs.StoppedScan

/-!
# The scan as a run of its tasks

A scan that works on its files one after the other makes the steps of its tasks in one particular
order, with requests to stop in between. What a session makes of its store and of the request to
stop is what this order of steps makes of them.

## Key results

- `Leads.lift`: steps of a part are steps of the whole
- `Follows.forEach`: the work on a list of items, with one worker or with several
- `Request.exists_report?_scan`: the outcome of a scan is the report of a run
- `Request.stopped_report_within`: whenever and in whatever order, what is reported is part of the
  full report
-/

namespace AbiIndex.Scan

open AbiIndex.Abi AbiIndex.Source

/-! ## What steps lead to -/

/-- In some order of steps, with requests to stop in between, the work gets to the other state. -/
def Leads {ι τ : Type} (step : ι → τ → Shared → τ × Shared) (x : τ) (s : Shared) (x' : τ)
    (s' : Shared) : Prop :=
  ∃ acts, run (Act.apply step) acts x s = (x', s')

namespace Leads

variable {ι κ τ υ : Type} {step : ι → τ → Shared → τ × Shared} {x x₁ x₂ : τ} {s s₁ s₂ : Shared}

theorem refl (step : ι → τ → Shared → τ × Shared) (x : τ) (s : Shared) : Leads step x s x s :=
  ⟨[], rfl⟩

theorem trans (h : Leads step x s x₁ s₁) (h' : Leads step x₁ s₁ x₂ s₂) : Leads step x s x₂ s₂ := by
  obtain ⟨acts, hacts⟩ := h
  obtain ⟨acts', hacts'⟩ := h'
  refine ⟨acts ++ acts', ?_⟩
  rw [run_append, hacts]
  exact hacts'

theorem single (step : ι → τ → Shared → τ × Shared) (place : ι) (x : τ) (s : Shared) :
    Leads step x s (step place x s).1 (step place x s).2 :=
  ⟨[.step place], rfl⟩

theorem cancel (step : ι → τ → Shared → τ × Shared) (x : τ) (s : Shared) :
    Leads step x s x { s with cancelled := true } :=
  ⟨[.cancel], rfl⟩

/-- Steps of a part are steps of the whole. -/
theorem lift {step' : κ → υ → Shared → υ × Shared} (place : ι → κ) (wrap : τ → υ)
    (hwrap : ∀ i x s, step' (place i) (wrap x) s = (wrap (step i x s).1, (step i x s).2))
    (h : Leads step x s x₁ s₁) : Leads step' (wrap x) s (wrap x₁) s₁ := by
  obtain ⟨acts, hacts⟩ := h
  induction acts generalizing x s with
  | nil =>
    cases hacts
    exact .refl step' _ _
  | cons act acts ih =>
    cases act with
    | cancel => exact (cancel step' (wrap x) s).trans (ih hacts)
    | step i =>
      have hfirst := single step' (place i) (wrap x) s
      rw [hwrap] at hfirst
      exact hfirst.trans (ih hacts)

end Leads

/-- What a session shares with its tasks. -/
def Session.shared (s : Session) : Shared := ⟨s.cancelled, s.cache⟩

/-- A request to stop may come after any piece of work. -/
theorem leads_advance {ι τ : Type} (step : ι → τ → Shared → τ × Shared) (x : τ) (s : Session)
    (f : Progress → Progress) : Leads step x s.shared x (s.advance f).shared := by
  cases hinterrupt : s.interrupt (f s.progress) with
  | true =>
    have hshared : (s.advance f).shared = { s.shared with cancelled := true } := by
      simp only [Session.shared, Session.advance, hinterrupt, Bool.or_true]
    rw [hshared]
    exact .cancel step x s.shared
  | false =>
    have hshared : (s.advance f).shared = s.shared := by
      simp only [Session.shared, Session.advance, hinterrupt, Bool.or_false]
    rw [hshared]
    exact .refl step x s.shared

/-! ## Work as a run -/

section Work

variable {ι τ α β γ : Type} {step : ι → τ → Shared → τ × Shared}
  {ending? : τ → Option (Except ScanError β)} {x x₁ : τ} {s s₁ : Session}

/-- Some work of a session, given by its outcome and the session that it leaves, is a run from `x`
that ends with the same outcome. -/
def Follows (step : ι → τ → Shared → τ × Shared) (ending? : τ → Option (Except ScanError β)) (x : τ)
    (s : Session) (ending : Except ScanError β × Session) : Prop :=
  ending.2.settings = s.settings ∧
    ∃ x', Leads step x s.shared x' ending.2.shared ∧ ending? x' = some ending.1

namespace Follows

theorem pure {b : β} (h : ending? x = some (.ok b)) :
    Follows step ending? x s ((Pure.pure b : SessionM β).exec s) :=
  ⟨rfl, x, .refl step x _, h⟩

theorem throw {e : ScanError} (h : ending? x = some (.error e)) :
    Follows step ending? x s ((MonadExcept.throw e : SessionM β).exec s) :=
  ⟨rfl, x, .refl step x _, h⟩

/-- Steps that the session does not show. -/
theorem of_leads {ending : Except ScanError β × Session} (hleads : Leads step x s.shared x₁ s.shared)
    (h : Follows step ending? x₁ s ending) : Follows step ending? x s ending := by
  obtain ⟨hsettings, x', hleads', hending⟩ := h
  exact ⟨hsettings, x', hleads.trans hleads', hending⟩

/-- Work that is in order, and what follows it. -/
theorem after {work : SessionM γ} {next : γ → SessionM β} {c : γ}
    (hwork : work.exec s = (.ok c, s₁)) (hsettings : s₁.settings = s.settings)
    (hleads : Leads step x s.shared x₁ s₁.shared)
    (hnext : Follows step ending? x₁ s₁ ((next c).exec s₁)) :
    Follows step ending? x s ((work >>= next).exec s) := by
  rw [exec_bind_ok hwork]
  obtain ⟨hsettings', x', hleads', hending⟩ := hnext
  exact ⟨hsettings'.trans hsettings, x', hleads.trans hleads', hending⟩

theorem afterReport {next : Unit → SessionM β} (entries : List Log.Entry)
    (hnext : Follows step ending? x { s with log := s.log ++ entries }
      ((next ()).exec { s with log := s.log ++ entries })) :
    Follows step ending? x s ((SessionM.report entries >>= next).exec s) :=
  after rfl rfl (.refl step x _) hnext

/-- Work that is a run of a part, and what follows it. -/
theorem bind {κ υ : Type} {step' : κ → υ → Shared → υ × Shared}
    {ending'? : υ → Option (Except ScanError γ)} {y : υ} {work : SessionM γ} {next : γ → SessionM β}
    (hwork : Follows step' ending'? y s (work.exec s))
    (herror : ∀ y' s' e, Leads step' y s.shared y' s' → ending'? y' = some (.error e) →
      ∃ x', Leads step x s.shared x' s' ∧ ending? x' = some (.error e))
    (hnext : ∀ y' s₁ c, s₁.settings = s.settings → Leads step' y s.shared y' s₁.shared →
      ending'? y' = some (.ok c) → ∃ x₁, Leads step x s.shared x₁ s₁.shared ∧
        Follows step ending? x₁ s₁ ((next c).exec s₁)) :
    Follows step ending? x s ((work >>= next).exec s) := by
  obtain ⟨hsettings, y', hleads, hending⟩ := hwork
  cases hexec : work.exec s with
  | mk outcome s₁ =>
    rw [hexec] at hsettings hleads hending
    cases outcome with
    | error e =>
      rw [exec_bind_error hexec]
      exact ⟨hsettings, herror y' _ e hleads hending⟩
    | ok c =>
      obtain ⟨x₁, hleads₁, hrest⟩ := hnext y' s₁ c hsettings hleads hending
      exact after hexec hsettings hleads₁ hrest

/-- Work whose outcome is only put into another form. -/
theorem map {ending'? : τ → Option (Except ScanError γ)} {work : SessionM β} {f : β → γ}
    (h : Follows step ending? x s (work.exec s))
    (hending : ∀ x outcome, ending? x = some outcome → ending'? x = some (outcome.map f)) :
    Follows step ending'? x s ((work >>= fun b => Pure.pure (f b)).exec s) := by
  obtain ⟨hsettings, x', hleads, hend⟩ := h
  have hend' := hending x' _ hend
  cases hexec : work.exec s with
  | mk outcome s' =>
    rw [hexec] at hsettings hleads hend'
    cases outcome with
    | error e =>
      rw [exec_bind_error hexec]
      exact ⟨hsettings, x', hleads, hend'⟩
    | ok b =>
      rw [exec_bind_ok hexec]
      exact ⟨hsettings, x', hleads, hend'⟩

end Follows

end Work

/-! ## Tasks -/

section Tasks

variable {τ β : Type} {t : FileTree} {s : Session}

/-- A task is told to stop, or it begins. -/
theorem Follows.unless_stopped {go : τ → Cache SourceUnit → τ × Cache SourceUnit} {task : τ}
    {outcome? : τ → Option (Except ScanError β)} {work : SessionM (Option β)}
    (hwork : Follows (fun _ : Unit => Guarded.step go) (Guarded.ending? outcome?) (.begun task)
      s.polled (work.exec s.polled)) :
    Follows (fun _ : Unit => Guarded.step go) (Guarded.ending? outcome?) (.asking task) s
      ((SessionM.poll >>= fun b => if b = true then Pure.pure none else work).exec s) := by
  have hasked := (leads_advance (fun _ : Unit => Guarded.step go) (.asking task) s _).trans
    (.single _ () _ s.polled.shared)
  rw [exec_unless_stopped]
  simp only [Guarded.step] at hasked
  split
  · rename_i hcancelled
    have hshared : s.polled.shared.cancelled = true := hcancelled
    rw [if_pos hshared] at hasked
    exact ⟨rfl, .left task, hasked, rfl⟩
  · rename_i hcancelled
    have hshared : ¬ s.polled.shared.cancelled = true := hcancelled
    rw [if_neg hshared] at hasked
    obtain ⟨hsettings, x', hleads, hending⟩ := hwork
    exact ⟨hsettings, x', hasked.trans hleads, hending⟩

/-- A task that has begun goes on. -/
theorem Leads.begun {go : τ → Cache SourceUnit → τ × Cache SourceUnit} {task task' : τ} {s : Shared}
    {cache : Cache SourceUnit} (h : go task s.cache = (task', cache)) :
    Leads (fun _ : Unit => Guarded.step go) (.begun task) s (.begun task')
      { s with cache := cache } := by
  have hsingle := Leads.single (fun _ : Unit => Guarded.step go) () (.begun task) s
  simp only [Guarded.step] at hsingle
  rw [h] at hsingle
  exact hsingle

/-- The work on a file is the run of its task. -/
theorem extractFile_follows (root path : Path) :
    Follows (fun _ : Unit => Guarded.step (FileTask.step t)) (Guarded.ending? FileTask.ending?)
      (.asking ⟨root, path, .waiting⟩) s ((extractFile t root path).exec s) := by
  refine .unless_stopped ?_
  generalize s.polled = s
  cases hload : LoadedFile.load t root path with
  | error e =>
    have hstep : FileTask.step t ⟨root, path, .waiting⟩ s.shared.cache =
        (⟨root, path, .done (.unreadable (root.label path) e)⟩, s.shared.cache) := by
      simp only [FileTask.step, hload]
    exact .of_leads (.begun hstep) (.afterReport _ (.pure rfl))
  | ok file =>
    refine .afterReport _ ?_
    rw [exec_get_bind]
    have hkeep : ∀ (s₁ : Session) (cache : Cache SourceUnit),
        (modify fun s : Session => { s with cache := cache } : SessionM Unit).exec s₁ =
          (.ok (), { s₁ with cache := cache }) := fun _ _ => rfl
    cases hlookUp : file.lookUp s.cache with
    | mk found cache =>
      cases found with
      | some unit =>
        have hstep : FileTask.step t ⟨root, path, .waiting⟩ s.shared.cache =
            (⟨root, path, .done (.ofUnit file (.ok unit))⟩, cache) := by
          simp only [FileTask.step, hload, Session.shared, hlookUp]
        exact .after (hkeep _ _) rfl (.begun hstep) (.pure rfl)
      | none =>
        have hstep : FileTask.step t ⟨root, path, .waiting⟩ s.shared.cache =
            (⟨root, path, .missed file⟩, cache) := by
          simp only [FileTask.step, hload, Session.shared, hlookUp]
        refine .after (hkeep _ _) rfl (.begun hstep) ?_
        have hcount : ∀ s₁ : Session, SessionM.countExtraction.exec s₁ = (.ok (), s₁.advance fun p =>
            { p with extractions := p.extractions + 1 }) := fun _ => rfl
        refine .after (hcount _) rfl (leads_advance _ _ _ _) ?_
        -- the task keeps what it has read, whether or not there is something to report
        have hend : ∀ s₂ : Session, Follows (fun _ : Unit => Guarded.step (FileTask.step t))
            (Guarded.ending? FileTask.ending?) (.begun ⟨root, path, .missed file⟩) s₂ ((do
              modify fun s : Session => { s with cache := file.remember s.cache file.extract }
              return some (FileOutcome.ofUnit file file.extract) : SessionM _).exec s₂) := by
          intro s₂
          exact .after rfl rfl (.single _ () _ s₂.shared) (.pure rfl)
        dsimp only
        split
        · exact .afterReport _ (hend _)
        · exact hend _

/-- The resolution of a file is the run of its task. -/
theorem resolveFile_follows (units : List SourceUnit) (unit : SourceUnit) :
    Follows (fun _ : Unit => Guarded.step Prod.mk) (Guarded.ending? (resolution? units))
      (.asking unit) s ((resolveFile (.ofUnits units) unit).exec s) := by
  refine .unless_stopped ?_
  have hcount : SessionM.countResolution.exec s.polled = (.ok (), s.polled.advance fun p =>
      { p with resolutions := p.resolutions + 1 }) := rfl
  refine .after hcount rfl (leads_advance _ _ _ _) ?_
  have hending : Guarded.ending? (resolution? units) (.begun unit) =
      some ((Except.mapError .type (resolveUnit (.ofUnits units) unit)).map some) := rfl
  cases hresolve : resolveUnit (.ofUnits units) unit with
  | error e =>
    rw [hresolve] at hending
    exact .throw hending
  | ok r =>
    rw [hresolve] at hending
    exact .afterReport _ (.pure hending)

end Tasks

/-! ## Tasks in turn -/

section Items

variable {ι τ α β : Type} {step : ι → τ → Shared → τ × Shared}
  {ending? : τ → Option (Except ScanError β)} {x : α → τ} {task : α → SessionM β} {items : List α}
  {settings : Settings} {s : Session}

/-- The work at a place of a list goes on. -/
def stepIn (step : ι → τ → Shared → τ × Shared) (place : Nat × ι) :
    List τ → Shared → List τ × Shared :=
  stepAt (step place.2) place.1

theorem Leads.head {y y' : τ} {s s' : Shared} (h : Leads step y s y' s') (ys : List τ) :
    Leads (stepIn step) (y :: ys) s (y' :: ys) s' :=
  h.lift (fun i => (0, i)) (· :: ys) fun _ _ _ => rfl

theorem Leads.tail {ys ys' : List τ} {s s' : Shared} (h : Leads (stepIn step) ys s ys' s') (y : τ) :
    Leads (stepIn step) (y :: ys) s (y :: ys') s' :=
  h.lift (fun place => (place.1 + 1, place.2)) (y :: ·) fun _ _ _ => rfl

namespace Follows

/-- The first of several tasks, and then the others. -/
theorem cons {a : α} {outcome : Except ScanError β} {rest : Except ScanError (List β)}
    {s₁ s₂ : Session} (head : Follows step ending? (x a) s (outcome, s₁))
    (tail : Follows (stepIn step) (collect? ending?) (items.map x) s₁ (rest, s₂)) :
    Follows (stepIn step) (collect? ending?) ((a :: items).map x) s
      (do let b ← outcome; let bs ← rest; return b :: bs, s₂) := by
  obtain ⟨hsettings, y, hleads, hending⟩ := head
  obtain ⟨hsettings', ys, hleads', hending'⟩ := tail
  refine ⟨hsettings'.trans hsettings, y :: ys,
    (hleads.head (items.map x)).trans (hleads'.tail y), ?_⟩
  rw [collect?, hending]
  cases outcome with
  | error e => rfl
  | ok b =>
    simp only [hending']
    cases rest <;> rfl

/-- Items that are worked on in order. The tasks behind a failure stay as they are, unless the work
goes on. -/
theorem workAll {goesOn : Bool} (htask : ∀ a ∈ items, ∀ s : Session, s.settings = settings →
      Follows step ending? (x a) s ((task a).exec s)) (hs : s.settings = settings) :
    Follows (stepIn step) (collect? ending?) (items.map x) s (workAll goesOn task items s) := by
  induction items generalizing s with
  | nil => exact ⟨rfl, [], .refl _ _ _, rfl⟩
  | cons a items ih =>
    have hhead := htask a List.mem_cons_self s hs
    have htail := ih (fun a' ha' => htask a' (List.mem_cons_of_mem _ ha')) (hhead.1.trans hs)
    rw [Scan.workAll]
    cases hexec : (task a).exec s with
    | mk outcome s₁ =>
      rw [hexec] at hhead htail
      have hboth := cons hhead htail
      cases outcome with
      | ok b =>
        dsimp only at hboth ⊢
        cases hall : Scan.workAll goesOn task items s₁ with
        | mk rest s₂ =>
          rw [hall] at hboth
          cases rest <;> exact hboth
      | error e =>
        cases goesOn with
        | true => exact hboth
        | false =>
          obtain ⟨hsettings, y, hleads, hending⟩ := hhead
          refine ⟨hsettings, y :: items.map x, hleads.head _, ?_⟩
          rw [collect?, hending]

theorem forEach (htask : ∀ a ∈ items, ∀ s : Session, s.settings = settings →
      Follows step ending? (x a) s ((task a).exec s)) (hs : s.settings = settings)
    (hallowed : settings.refuses items.length = false) :
    Follows (stepIn step) (collect? ending?) (items.map x) s
      ((SessionM.forEach items task).exec s) := by
  rw [exec_forEach, hs, if_neg (Bool.eq_false_iff.1 hallowed)]
  exact .workAll htask hs

end Follows

end Items

/-! ## Projects -/

section Projects

variable {t : FileTree} {settings : Settings} {s : Session}

/-- The result of a project, once the work on it has ended. -/
def ProjectRun.result? (run : ProjectRun) : Option (Except ScanError Result) :=
  match run.phase with
  | .ended outcome => some outcome
  | _ => none

theorem ProjectRun.ending?_of_result? {run : ProjectRun} {outcome : Except ScanError Result}
    (h : run.result? = some outcome) : run.ending? = some (outcome.map some) := by
  obtain ⟨job, asks, phase⟩ := run
  cases phase with
  | ended outcome' =>
    cases h
    rfl
  | waiting => cases h
  | left => cases h
  | reading tasks => cases h
  | resolving outcomes tasks => cases h

/-- One of several projects is left out. -/
theorem leads_left {job : ProjectJob} {sh : Shared} (h : sh.cancelled = true) :
    Leads (ProjectRun.step settings t) ⟨job, true, .waiting⟩ sh ⟨job, true, .left⟩ sh := by
  have hsingle := Leads.single (ProjectRun.step settings t) none ⟨job, true, .waiting⟩ sh
  simp only [ProjectRun.step, h, Bool.and_self, if_true] at hsingle
  exact hsingle

/-- A project that is not left out begins. -/
theorem leads_beginReading {job : ProjectJob} {asks : Bool} {sh : Shared}
    (h : (asks && sh.cancelled) = false) : Leads (ProjectRun.step settings t)
      ⟨job, asks, .waiting⟩ sh ⟨job, asks, job.beginReading settings⟩ sh := by
  have hsingle := Leads.single (ProjectRun.step settings t) none ⟨job, asks, .waiting⟩ sh
  simp only [ProjectRun.step, h] at hsingle
  exact hsingle

/-- Once all files are read, those that were not left out are resolved. -/
theorem leads_beginResolving {job : ProjectJob} {asks : Bool} {tasks : List (Guarded FileTask)}
    {outcomes : List (Option FileOutcome)} {sh : Shared}
    (h : collect? (Guarded.ending? FileTask.ending?) tasks = some (.ok outcomes)) :
    Leads (ProjectRun.step settings t) ⟨job, asks, .reading tasks⟩ sh
      ⟨job, asks, ProjectJob.beginResolving settings outcomes⟩ sh := by
  have hsingle := Leads.single (ProjectRun.step settings t) none ⟨job, asks, .reading tasks⟩ sh
  simp only [ProjectRun.step, h] at hsingle
  exact hsingle

/-- A file that fails as a whole would end the project. -/
theorem leads_failed {job : ProjectJob} {asks : Bool} {tasks : List (Guarded FileTask)}
    {e : ScanError} {sh : Shared}
    (h : collect? (Guarded.ending? FileTask.ending?) tasks = some (.error e)) :
    Leads (ProjectRun.step settings t) ⟨job, asks, .reading tasks⟩ sh
      ⟨job, asks, .ended (.error e)⟩ sh := by
  have hsingle := Leads.single (ProjectRun.step settings t) none ⟨job, asks, .reading tasks⟩ sh
  simp only [ProjectRun.step, h] at hsingle
  exact hsingle

/-- Once all files are resolved, the project ends. -/
theorem leads_ended {job : ProjectJob} {asks : Bool} {outcomes : List (Option FileOutcome)}
    {tasks : List (Guarded SourceUnit)} {attempts : Except ScanError (List (Option ResolvedUnit))}
    {sh : Shared}
    (h : collect? (Guarded.ending? (resolution? (unitsOf outcomes))) tasks = some attempts) :
    Leads (ProjectRun.step settings t) ⟨job, asks, .resolving outcomes tasks⟩ sh
      ⟨job, asks, .ended (attempts.map (job.resultOf sh.cancelled outcomes))⟩ sh := by
  have hsingle := Leads.single (ProjectRun.step settings t) none
    ⟨job, asks, .resolving outcomes tasks⟩ sh
  simp only [ProjectRun.step, h] at hsingle
  exact hsingle

/-- Steps of the tasks of a phase are steps of the project. -/
theorem Leads.reading {tasks tasks' : List (Guarded FileTask)} {sh sh' : Shared}
    (h : Leads (stepIn fun _ : Unit => Guarded.step (FileTask.step t)) tasks sh tasks' sh')
    (job : ProjectJob) (asks : Bool) : Leads (ProjectRun.step settings t)
      ⟨job, asks, .reading tasks⟩ sh ⟨job, asks, .reading tasks'⟩ sh' :=
  h.lift (fun place : Nat × Unit => some place.1)
    (fun tasks => (⟨job, asks, .reading tasks⟩ : ProjectRun)) fun _ _ _ => rfl

theorem Leads.resolving {tasks tasks' : List (Guarded SourceUnit)} {sh sh' : Shared}
    (h : Leads (stepIn fun _ : Unit => Guarded.step Prod.mk) tasks sh tasks' sh')
    (job : ProjectJob) (asks : Bool) (outcomes : List (Option FileOutcome)) :
    Leads (ProjectRun.step settings t) ⟨job, asks, .resolving outcomes tasks⟩ sh
      ⟨job, asks, .resolving outcomes tasks'⟩ sh' :=
  h.lift (fun place : Nat × Unit => some place.1)
    (fun tasks => (⟨job, asks, .resolving outcomes tasks⟩ : ProjectRun)) fun _ _ _ => rfl

/-- The resolution of what was read. -/
theorem resolveRead_follows {job : ProjectJob} (asks : Bool) (outcomes : List (Option FileOutcome))
    (hs : s.settings = settings) :
    Follows (ProjectRun.step settings t) ProjectRun.result?
      ⟨job, asks, ProjectJob.beginResolving settings outcomes⟩ s
      ((resolveRead job.info job.label job.tasks.length outcomes).exec s) := by
  have hwork : resolveRead job.info job.label job.tasks.length outcomes =
      SessionM.forEach (unitsOf outcomes) (resolveFile (.ofUnits (unitsOf outcomes))) >>=
        fun attempts => SessionM.poll >>= fun cancelled =>
          pure (job.resultOf cancelled outcomes attempts) := rfl
  rw [hwork, ProjectJob.beginResolving]
  split
  · rename_i hrefuses
    rw [exec_bind_error (exec_forEach_refused (hs ▸ hrefuses))]
    exact ⟨rfl, _, .refl _ _ _, rfl⟩
  rename_i hallowed
  refine .bind (Follows.forEach (fun unit _ s _ => resolveFile_follows (unitsOf outcomes) unit) hs
    (Bool.eq_false_iff.2 hallowed)) ?_ ?_
  · intro tasks s' e hleads hending
    exact ⟨_, (hleads.resolving job asks outcomes).trans (leads_ended hending), rfl⟩
  · intro tasks s₁ attempts hsettings hleads hending
    refine ⟨_, hleads.resolving job asks outcomes, ?_⟩
    -- the request to stop is looked at once more at the end
    have hpolled := leads_advance (ProjectRun.step settings t)
      ⟨job, asks, .resolving outcomes tasks⟩ s₁ fun p => { p with polls := p.polls + 1 }
    exact ⟨rfl, _, hpolled.trans (leads_ended hending), rfl⟩

/-- The scan of a project up to its result. -/
theorem readProject_follows (info : Project.Info) (label : Option String) (asks : Bool)
    (hs : s.settings = settings) :
    Follows (ProjectRun.step settings t) ProjectRun.result?
      ⟨ProjectJob.start settings t info label, asks,
        (ProjectJob.start settings t info label).beginReading settings⟩ s
      ((readProject t info label).exec s) := by
  rw [readProject, exec_get_bind, hs, ProjectJob.start]
  dsimp only
  cases hfiles : Project.sourceFiles t settings.excludeDirs settings.includeTests info with
  | error e => exact ⟨rfl, _, .refl _ _ _, rfl⟩
  | ok files =>
    refine .after rfl rfl (.refl _ _ _) (.afterReport _ ?_)
    dsimp only [ProjectJob.beginReading]
    rw [List.length_map]
    split
    · rename_i hrefuses
      rw [exec_bind_error (exec_forEach_refused (hs ▸ hrefuses))]
      exact ⟨rfl, _, .refl _ _ _, rfl⟩
    rename_i hallowed
    rw [List.map_map]
    have htasks : ∀ s₁ : Session, s₁.settings = settings → Follows
        (stepIn fun _ : Unit => Guarded.step (FileTask.step t))
        (collect? (Guarded.ending? FileTask.ending?))
        (files.map (Guarded.asking ∘ fun path => ⟨info.root, path, .waiting⟩)) s₁
        ((SessionM.forEach files (extractFile t info.root)).exec s₁) := by
      intro s₁ hs₁
      exact .forEach (fun path _ s _ => extractFile_follows info.root path) hs₁
        (Bool.eq_false_iff.2 hallowed)
    refine .bind (htasks _ hs) ?_ ?_
    · intro tasks s' e hleads hending
      exact ⟨_, (hleads.reading _ asks).trans (leads_failed hending), rfl⟩
    · intro tasks s₁ outcomes hsettings hleads hending
      refine ⟨_, (hleads.reading _ asks).trans (leads_beginResolving hending), ?_⟩
      have hrest := @resolveRead_follows t settings s₁ ⟨info, label, none,
        files.map fun path => ⟨info.root, path, .waiting⟩⟩ asks outcomes (hsettings.trans hs)
      rw [List.length_map] at hrest
      exact hrest

/-- The scan of a project with what becomes of its result. -/
theorem scanInfo_follows (info : Project.Info) (label : Option String) (asks : Bool)
    (hraise : settings.raiseOnCancel = false) (hs : s.settings = settings) :
    Follows (ProjectRun.step settings t) ProjectRun.result?
      ⟨ProjectJob.start settings t info label, asks,
        (ProjectJob.start settings t info label).beginReading settings⟩ s
      ((scanInfo t info label).exec s) := by
  rw [scanInfo_eq]
  refine .bind (readProject_follows info label asks hs) ?_ ?_
  · intro run s' e hleads hresult
    exact ⟨run, hleads, hresult⟩
  · intro run s₁ r hsettings hleads hresult
    refine ⟨run, hleads, ?_⟩
    obtain ⟨entries, hexec⟩ := @exec_announce s₁ info r (by rw [hsettings, hs, hraise])
    rw [hexec]
    exact ⟨rfl, run, .refl _ _ _, hresult⟩

/-- One of several projects is left out, or it is scanned. -/
theorem scanMember_follows (root : Path) (info : Project.Info)
    (hraise : settings.raiseOnCancel = false) (hs : s.settings = settings) :
    Follows (ProjectRun.step settings t) ProjectRun.ending?
      ⟨ProjectJob.start settings t info (some (root.label info.root)), true, .waiting⟩ s
      ((scanMember t root info).exec s) := by
  generalize hjob : ProjectJob.start settings t info (some (root.label info.root)) = job
  have hasked := leads_advance (ProjectRun.step settings t) ⟨job, true, .waiting⟩ s
    fun p => { p with polls := p.polls + 1 }
  rw [scanMember_eq, exec_unless_stopped]
  split
  · rename_i hcancelled
    exact ⟨rfl, _, hasked.trans (leads_left hcancelled), rfl⟩
  · rename_i hcancelled
    have hbegun := @leads_beginReading t settings job true s.polled.shared
      (Bool.eq_false_iff.2 hcancelled)
    have hscan := @scanInfo_follows t settings s.polled info (some (root.label info.root)) true
      hraise hs
    rw [hjob] at hscan
    obtain ⟨hsettings, run, hleads, hending⟩ := hscan.map fun _ _ => ProjectRun.ending?_of_result?
    exact ⟨hsettings, run, (hasked.trans hbegun).trans hleads, hending⟩

end Projects

/-! ## Work that can be ended -/

section Ends

variable {ι τ β : Type} {step : ι → τ → Shared → τ × Shared}
  {ending? : τ → Option (Except ScanError β)} {x : τ}

/-- Whatever is shared, some steps lead to an end. -/
def CanEnd (step : ι → τ → Shared → τ × Shared) (ending? : τ → Option (Except ScanError β)) (x : τ) :
    Prop :=
  ∀ s, ∃ x' s', Leads step x s x' s' ∧ (ending? x').isSome = true

theorem CanEnd.of_ended (h : (ending? x).isSome = true) : CanEnd step ending? x :=
  fun s => ⟨x, s, .refl step x s, h⟩

/-- It is enough if this is so after a step. -/
theorem CanEnd.of_step (place : ι) (h : ∀ s, CanEnd step ending? (step place x s).1) :
    CanEnd step ending? x := by
  intro s
  obtain ⟨x', s', hleads, hended⟩ := h s (step place x s).2
  exact ⟨x', s', (Leads.single step place x s).trans hleads, hended⟩

/-- Several tasks end if each does, one after the other. -/
theorem CanEnd.all {xs : List τ} (h : ∀ x ∈ xs, CanEnd step ending? x) :
    CanEnd (stepIn step) (collect? ending?) xs := by
  induction xs with
  | nil => exact .of_ended rfl
  | cons x xs ih =>
    rw [List.forall_mem_cons] at h
    intro s
    obtain ⟨x', s', hleads, hended⟩ := h.1 s
    obtain ⟨xs', s'', hleads', hended'⟩ := ih h.2 s'
    refine ⟨x' :: xs', s'', (hleads.head xs).trans (hleads'.tail x'), ?_⟩
    obtain ⟨outcome, houtcome⟩ := Option.isSome_iff_exists.1 hended
    rw [collect?, houtcome]
    cases outcome with
    | error e => rfl
    | ok b =>
      dsimp only
      rw [Option.isSome_map]
      exact hended'

/-- A task that asks first can be ended if it can be ended from where it begins. -/
theorem Guarded.canEnd {go : τ → Cache SourceUnit → τ × Cache SourceUnit}
    {outcome? : τ → Option (Except ScanError β)}
    (h : ∀ task, CanEnd (fun _ : Unit => Guarded.step go) (Guarded.ending? outcome?) (.begun task))
    (g : Guarded τ) : CanEnd (fun _ : Unit => Guarded.step go) (Guarded.ending? outcome?) g := by
  cases g with
  | left task => exact .of_ended rfl
  | begun task => exact h task
  | asking task =>
    refine .of_step () fun s => ?_
    simp only [Guarded.step]
    split
    · exact .of_ended rfl
    · exact h task

end Ends

section Phases

variable {settings : Settings} {t : FileTree}

/-- The work on a file ends after at most two uses of the store. -/
theorem FileTask.canEnd (g : Guarded FileTask) : CanEnd (fun _ : Unit => Guarded.step (step t))
    (Guarded.ending? ending?) g := by
  refine Guarded.canEnd (fun task => ?_) g
  obtain ⟨root, path, stage⟩ := task
  have hdone : ∀ outcome, CanEnd (fun _ : Unit => Guarded.step (step t)) (Guarded.ending? ending?)
      (.begun ⟨root, path, .done outcome⟩) := fun _ => .of_ended rfl
  have hmissed : ∀ file, CanEnd (fun _ : Unit => Guarded.step (step t)) (Guarded.ending? ending?)
      (.begun ⟨root, path, .missed file⟩) := fun _ => .of_step () fun _ => hdone _
  cases stage with
  | done outcome => exact hdone outcome
  | missed file => exact hmissed file
  | waiting =>
    refine .of_step () fun s => ?_
    simp only [Guarded.step, step]
    split
    · exact hdone _
    · split
      · exact hdone _
      · exact hmissed _

theorem resolution_canEnd (units : List SourceUnit) (g : Guarded SourceUnit) :
    CanEnd (fun _ : Unit => Guarded.step Prod.mk) (Guarded.ending? (resolution? units)) g :=
  Guarded.canEnd (fun _ => .of_ended rfl) g

/-- The work on a project can be ended from every phase. -/
theorem ProjectRun.canEnd (run : ProjectRun) : CanEnd (step settings t) ending? run := by
  obtain ⟨job, asks, phase⟩ := run
  have hresolving : ∀ outcomes tasks, CanEnd (step settings t) ending?
      ⟨job, asks, .resolving outcomes tasks⟩ := by
    intro outcomes tasks s
    obtain ⟨tasks', s', hleads, hended⟩ := CanEnd.all
      (fun g (_ : g ∈ tasks) => resolution_canEnd (unitsOf outcomes) g) s
    obtain ⟨attempts, hattempts⟩ := Option.isSome_iff_exists.1 hended
    exact ⟨_, s', (hleads.resolving job asks outcomes).trans (leads_ended hattempts), rfl⟩
  have hbegun : ∀ outcomes, CanEnd (step settings t) ending?
      ⟨job, asks, ProjectJob.beginResolving settings outcomes⟩ := by
    intro outcomes
    rw [ProjectJob.beginResolving]
    split
    · exact .of_ended rfl
    · exact hresolving _ _
  have hreading : ∀ tasks, CanEnd (step settings t) ending? ⟨job, asks, .reading tasks⟩ := by
    intro tasks s
    obtain ⟨tasks', s', hleads, hended⟩ := CanEnd.all
      (fun g (_ : g ∈ tasks) => FileTask.canEnd (t := t) g) s
    obtain ⟨outcomes, houtcomes⟩ := Option.isSome_iff_exists.1 hended
    have hread := @Leads.reading t settings _ _ _ _ hleads job asks
    cases outcomes with
    | error e => exact ⟨_, s', hread.trans (leads_failed houtcomes), rfl⟩
    | ok outcomes =>
      obtain ⟨run', s'', hleads', hended'⟩ := hbegun outcomes s'
      exact ⟨run', s'', (hread.trans (leads_beginResolving houtcomes)).trans hleads', hended'⟩
  cases phase with
  | ended outcome => exact .of_ended rfl
  | left => exact .of_ended rfl
  | resolving outcomes tasks => exact hresolving outcomes tasks
  | reading tasks => exact hreading tasks
  | waiting =>
    refine .of_step none fun s => ?_
    simp only [step]
    split
    · exact .of_ended rfl
    · rw [ProjectJob.beginReading]
      split
      · exact .of_ended rfl
      · split
        · exact .of_ended rfl
        · exact hreading _

end Phases

/-! ## Requests -/

namespace Request

variable {settings : Settings} {t : FileTree} {request : Request} {plan : Plan} {s : Session}

/-- However far the work has come, it can be ended with a report. -/
theorem exists_report?_run (settings : Settings) (t : FileTree) (request : Request)
    (runs : List ProjectRun) (sh : Shared) : ∃ acts outcome, request.report? settings t
      (run (Act.apply (stepRuns settings t)) acts runs sh).1 = some outcome := by
  obtain ⟨runs', sh', ⟨acts, hacts⟩, hended⟩ := CanEnd.all
    (fun run (_ : run ∈ runs) => @ProjectRun.canEnd settings t run) sh
  refine ⟨acts, Option.isSome_iff_exists.1 ?_⟩
  have hruns : (run (Act.apply (stepRuns settings t)) acts runs sh).1 = runs' :=
    congrArg Prod.fst hacts
  rw [hruns, report?]
  split
  · rfl
  · split
    · rfl
    · rw [Option.isSome_map]
      exact hended

/-- Steps to the ends of all projects are steps to the report. -/
theorem exists_report?_of_leads {runs : List ProjectRun} {sh sh' : Shared}
    {attempts : Except ScanError (List (Option Result))}
    (hplan : request.plan settings t = .ok plan)
    (hallowed : settings.refuses plan.projects.length = false)
    (hleads : Leads (stepIn (ProjectRun.step settings t)) (request.startRuns settings t) sh runs sh')
    (hattempts : collect? ProjectRun.ending? runs = some attempts) :
    ∃ acts, request.report? settings t
      (run (Act.apply (stepRuns settings t)) acts (request.startRuns settings t) sh).1 =
        some (do request.conclude t plan ((← attempts).filterMap id)) := by
  obtain ⟨acts, hacts⟩ := hleads
  refine ⟨acts, ?_⟩
  have hruns : (run (Act.apply (stepRuns settings t)) acts (request.startRuns settings t) sh).1 =
      runs := congrArg Prod.fst hacts
  simp only [hruns, report?, hplan, hallowed, hattempts]
  rfl

theorem exists_report?_of_plan {e : ScanError} (hplan : request.plan settings t = .error e)
    (sh : Shared) : ∃ acts, request.report? settings t
      (run (Act.apply (stepRuns settings t)) acts (request.startRuns settings t) sh).1 =
        some (.error e) := by
  refine ⟨[], ?_⟩
  rw [report?, hplan]

theorem exists_report?_of_refused (hplan : request.plan settings t = .ok plan)
    (hrefuses : settings.refuses plan.projects.length = true) (sh : Shared) :
    ∃ acts, request.report? settings t
      (run (Act.apply (stepRuns settings t)) acts (request.startRuns settings t) sh).1 =
        some (.error .noWorkers) := by
  refine ⟨[], ?_⟩
  rw [report?, hplan]
  exact if_pos hrefuses

/-- The scan of a single project is a run of its tasks. -/
theorem exists_report?_scan_project (hraise : settings.raiseOnCancel = false)
    (hs : s.settings = settings) (given : String) :
    ∃ acts, (project given).report? settings t (run (Act.apply (stepRuns settings t)) acts
      ((project given).startRuns settings t) s.shared).1 =
        some (((project given).scan t).exec s).1 := by
  have hscan := exec_scanProject t settings given
  cases hplan : (project given).plan settings t with
  | error e =>
    rw [hplan] at hscan
    rw [scan, exec_bind_error (hscan s (congrArg _ hs))]
    exact exists_report?_of_plan hplan s.shared
  | ok plan =>
    rw [hplan] at hscan
    obtain ⟨info, hprojects, hexec⟩ := hscan
    have hscan := hexec s (congrArg _ hs)
    have hstart : (project given).startRuns settings t =
        [⟨ProjectJob.start settings t info none, false, .waiting⟩] := by
      rw [startRuns, start, hplan]
      simp only [hprojects, List.map_cons, List.map_nil]
      rfl
    have hallowed : settings.refuses plan.projects.length = false := by
      rw [hprojects]
      rfl
    obtain ⟨-, run, hleads, hresult⟩ := scanInfo_follows (t := t) info none false hraise hs
    have hbegun := (leads_beginReading (Bool.false_and _)).trans hleads
    have hall : collect? ProjectRun.ending? [run] =
        some (((scanInfo t info none).exec s).1.map fun r => [some r]) := by
      rw [collect?, ProjectRun.ending?_of_result? hresult]
      cases ((scanInfo t info none).exec s).1 <;> rfl
    obtain ⟨acts, hreport⟩ := @exists_report?_of_leads settings t (project given) plan _ _ _ _ hplan
      hallowed (hstart ▸ hbegun.head []) hall
    refine ⟨acts, ?_⟩
    rw [hreport, scan, exec_map, hscan]
    cases ((scanInfo t info none).exec s).1 <;> rfl

/-- So is the scan of all projects in a directory. -/
theorem exists_report?_scan_all (hraise : settings.raiseOnCancel = false)
    (hs : s.settings = settings) (given : String) :
    ∃ acts, (all given).report? settings t (run (Act.apply (stepRuns settings t)) acts
      ((all given).startRuns settings t) s.shared).1 = some (((all given).scan t).exec s).1 := by
  have hscan := exec_scanAll t settings given
  cases hplan : (all given).plan settings t with
  | error e =>
    rw [hplan] at hscan
    rw [scan, exec_bind_error (hscan s (congrArg _ hs))]
    exact exists_report?_of_plan hplan s.shared
  | ok plan =>
    rw [hplan] at hscan
    obtain ⟨infos, entries, -, hprojects, hexec⟩ := hscan
    have hscan := hexec s (congrArg _ hs)
    rw [exec_report_bind] at hscan
    generalize hlogged : { s with log := s.log ++ entries } = s₀ at hscan
    have hs₀ : s₀.settings = settings := hlogged ▸ hs
    have hlength : plan.projects.length = infos.length := by rw [hprojects, List.length_map]
    cases hrefuses : settings.refuses plan.projects.length with
    | true =>
      have hrefused := @exec_forEach_refused _ _ (scanMember t plan.root) infos s₀
        (by rwa [hs₀, ← hlength])
      rw [scan, exec_map, hscan, exec_bind_error hrefused]
      exact exists_report?_of_refused hplan hrefuses s.shared
    | false =>
      have hstart : (all given).startRuns settings t = infos.map fun info =>
          ⟨ProjectJob.start settings t info (some (plan.root.label info.root)), true, .waiting⟩ := by
        rw [startRuns, start, hplan]
        simp only [hprojects, List.map_map]
        rfl
      have hworks := Follows.forEach
        (fun info _ s₁ hs₁ => @scanMember_follows t settings s₁ plan.root info hraise hs₁) hs₀
        (hlength ▸ hrefuses)
      obtain ⟨hsettings, runs, hleads, hattempts⟩ := hworks
      obtain ⟨acts, hreport⟩ := @exists_report?_of_leads settings t (all given) plan _ _ _ _ hplan
        hrefuses (hstart ▸ hleads) hattempts
      refine ⟨acts, ?_⟩
      have hshared : s₀.shared = s.shared := hlogged ▸ rfl
      rw [hshared] at hreport
      rw [hreport, scan, exec_map, hscan]
      cases hexec : (SessionM.forEach infos (scanMember t plan.root)).exec s₀ with
      | mk outcome s₁ =>
        cases outcome with
        | error e =>
          rw [exec_bind_error hexec]
          rfl
        | ok attempts =>
          rw [hexec] at hsettings
          have hraise₁ : s₁.settings.raiseOnCancel = false := by rw [hsettings, hs₀, hraise]
          rw [exec_bind_ok hexec, exec_combineScanned hraise₁]
          show some (Except.map _ (combineAll _ _ _ _)) = _
          rw [hprojects, List.map_map]
          rfl

/-- What a session reports, some run of the tasks reports, with requests to stop where the session
gets them. -/
theorem exists_report?_scan (hraise : settings.raiseOnCancel = false) (hs : s.settings = settings)
    (request : Request) :
    ∃ acts, request.report? settings t (run (Act.apply (stepRuns settings t)) acts
      (request.startRuns settings t) s.shared).1 = some ((request.scan t).exec s).1 := by
  cases request with
  | project given => exact exists_report?_scan_project hraise hs given
  | all given => exact exists_report?_scan_all hraise hs given

/-- Where a new session that is not stopped reports something, a session that may be stopped at any
moment reports a part of it: a prefix if it works on one file after the other, else a part in the
same order. So do its tasks in whatever order they make their steps, and they always get to a
report. If a report is not marked as partial, nothing is missing from it. -/
theorem stopped_report_within (ht : t.top.Plain) (hraise : settings.raiseOnCancel = false)
    {limit : Int} {full : Report} (hfull : fresh settings limit t request = .ok full)
    (hs : s.settings = settings) (hcache : Faithful t s.cache) :
    (∃ report, ((request.scan t).exec s).1 = .ok report ∧ report.Within .inTurn full) ∧
    (∃ acts, request.report? settings t (run (Act.apply (stepRuns settings t)) acts
      (request.startRuns settings t) s.shared).1 = some ((request.scan t).exec s).1) ∧
    ∀ acts, (∃ more outcome, request.report? settings t (run (Act.apply (stepRuns settings t))
      (acts ++ more) (request.startRuns settings t) s.shared).1 = some outcome) ∧
      ∀ outcome, request.report? settings t (run (Act.apply (stepRuns settings t)) acts
        (request.startRuns settings t) s.shared).1 = some outcome →
          ∃ report, outcome = .ok report ∧ report.Within .sideBySide full := by
  rw [fresh_eq_direct_of_plain ht] at hfull
  refine ⟨?_, exists_report?_scan hraise hs request, fun acts => ⟨?_, fun outcome houtcome => ?_⟩⟩
  · exact (scan_answers ht hraise hs hcache request).exists_within hfull
  · simp only [run_append]
    exact exists_report?_run settings t request _ _
  · exact (run_answers (Faithful.trusted ht) hcache acts houtcome).exists_within hfull

/-- The session is told to stop once it has read the only file. -/
theorem stopped_report_within_singleFile : ∃ full report,
    fresh .default 1 (singleFile "contract B \x7b\x7d") (project "/") = .ok full ∧
    (((project "/").scan (singleFile "contract B \x7b\x7d")).exec
      (.start .default (.new 1) fun p => 1 ≤ p.extractions)).1 = .ok report ∧
    report.Within .inTurn full := by
  have hplain : (singleFile "contract B \x7b\x7d").top.Plain :=
    .dir (by decide) fun e he => by
      cases List.mem_singleton.1 he
      exact .file _
  have hfull : ∃ full, fresh .default 1 (singleFile "contract B \x7b\x7d") (project "/") =
      .ok full := by
    rw [fresh_eq_direct_of_plain hplain, direct]
    cases hplan : (project "/").plan .default (singleFile "contract B \x7b\x7d") with
    | error e =>
      have hstart := start_singleFile "contract B \x7b\x7d"
      rw [start, hplan] at hstart
      cases hstart
    | ok plan =>
      obtain ⟨info, hprojects⟩ := projects_of_plan hplan
      have hallowed : ¬Settings.default.refuses plan.projects.length = true := by
        rw [hprojects]
        exact Bool.false_ne_true
      have hdirect : ((ProjectJob.mk singleProject none none
          [⟨⟨.root, []⟩, ⟨.root, ["A.sol"]⟩, .waiting⟩]).direct .default
            (singleFile "contract B \x7b\x7d")).toOption.isSome = true := by
        decide +kernel
      obtain ⟨r, hr⟩ := Option.isSome_iff_exists.1 hdirect
      have hr := eq_ok_of_toOption hr
      refine ⟨⟨[r], none⟩, ?_⟩
      simp only [bind, Except.bind, hallowed, start_singleFile, List.mapM_cons, hr]
      rfl
  obtain ⟨full, hfull⟩ := hfull
  obtain ⟨report, hreport, hwithin⟩ := (stopped_report_within hplain rfl hfull rfl
    (.new 1) (s := .start .default (.new 1) fun p => 1 ≤ p.extractions)).1
  exact ⟨full, report, hfull, hreport, hwithin⟩

end Request

end AbiIndex.Scan
