import AbiIndex.Proofs.FaithfulStore
import Mathlib.Data.List.Flatten

/-!
# Results of scans that were stopped

A scan that was stopped leaves out files or whole projects. What it has resolved, it has resolved
against the names of all files of the project: as long as some of these are not known, nothing is
resolved. A report on the results is therefore part of the report of a scan that was not stopped.

## Key results

- `Attempted`: what the work on several items gives if it may be stopped
- `ProjectJob.Gives`: the results that the scan of a project may give if it is stopped
- `ProjectJob.Gives.eq_whole`: a result that is not marked as partial lacks nothing
- `Request.within_whole`: a report on such results is part of the report on everything
-/

namespace AbiIndex.Scan

open AbiIndex.Abi AbiIndex.Source

/-! ## Parts of a list -/

/-- How the items of a scan are worked on. -/
inductive Workflow where
  | inTurn
  | sideBySide

/-- What may be left of a list if the work on its items is stopped. -/
def Workflow.Part {α : Type} : Workflow → List α → List α → Prop
  | inTurn, xs, ys => xs <+: ys
  | sideBySide, xs, ys => xs.Sublist ys

namespace Workflow.Part

variable {α β : Type} {w : Workflow} {xs ys : List α}

theorem nil (w : Workflow) (ys : List α) : w.Part [] ys := by
  cases w with
  | inTurn => exact List.nil_prefix
  | sideBySide => exact List.nil_sublist ys

theorem refl (w : Workflow) (xs : List α) : w.Part xs xs := by
  cases w with
  | inTurn => exact List.prefix_refl xs
  | sideBySide => exact List.Sublist.refl xs

theorem flatMap (h : w.Part xs ys) (f : α → List β) : w.Part (xs.flatMap f) (ys.flatMap f) := by
  cases w with
  | inTurn =>
    obtain ⟨rest, rfl⟩ := h
    rw [List.flatMap_append]
    exact List.prefix_append _ _
  | sideBySide => exact List.Sublist.flatMap h f

end Workflow.Part

/-! ## Attempts -/

section Attempts

variable {α β γ : Type}

/-- What the work on several items gives if it may be stopped: nothing for an item that was left
out. In turn, no item is worked on any more once one was left out or what it gave is marked. -/
inductive Attempted (w : Workflow) (Good : α → β → Prop) (marked : β → Bool) :
    List α → List (Option β) → Prop
  | nil : Attempted w Good marked [] []
  | done {a : α} {as : List α} {b : β} {bs : List (Option β)} (head : Good a b)
      (tail : Attempted w Good marked as bs)
      (last : w = .inTurn → marked b = true → bs.filterMap id = []) :
      Attempted w Good marked (a :: as) (some b :: bs)
  | left {a : α} {as : List α} {bs : List (Option β)} (tail : Attempted w Good marked as bs)
      (last : w = .inTurn → bs.filterMap id = []) : Attempted w Good marked (a :: as) (none :: bs)

theorem filterMap_id_some (b : β) (bs : List (Option β)) :
    (some b :: bs).filterMap id = b :: bs.filterMap id := rfl

theorem filterMap_id_none (bs : List (Option β)) :
    (none :: bs).filterMap id = bs.filterMap id := rfl

namespace Attempted

variable {w : Workflow} {Good : α → β → Prop} {marked : β → Bool} {as : List α}
  {bs : List (Option β)}

/-- What is part of the outcome of each item is so for all of them together. -/
theorem part_flatMap {f : β → List γ} {g : α → List γ} (h : Attempted w Good marked as bs)
    (hpart : ∀ {a b}, Good a b → w.Part (f b) (g a))
    (hall : ∀ {a b}, Good a b → marked b = false → f b = g a) :
    w.Part ((bs.filterMap id).flatMap f) (as.flatMap g) := by
  induction h with
  | nil => exact .nil w _
  | @done a as b bs head tail last ih =>
    rw [filterMap_id_some, List.flatMap_cons, List.flatMap_cons]
    have hhead := hpart head
    cases w with
    | sideBySide => exact List.Sublist.append hhead ih
    | inTurn =>
      cases hmarked : marked b with
      | false =>
        rw [hall head hmarked]
        exact (List.prefix_append_right_inj _).2 ih
      | true =>
        -- nothing follows
        rw [last rfl hmarked, List.flatMap_nil, List.append_nil]
        exact List.IsPrefix.trans hhead (List.prefix_append _ _)
  | @left a as bs tail last ih =>
    rw [filterMap_id_none, List.flatMap_cons]
    cases w with
    | sideBySide => exact List.Sublist.trans ih (List.sublist_append_right _ _)
    | inTurn =>
      rw [last rfl]
      exact List.nil_prefix

/-- What was worked on is part of what can be had. -/
theorem part_filterMap {f : α → Option β} (h : Attempted w Good (fun _ => false) as bs)
    (hf : ∀ {a b}, Good a b → f a = some b) : w.Part (bs.filterMap id) (as.filterMap f) := by
  have hpart := @part_flatMap α β β w Good _ as bs (fun b => [b]) (fun a => (f a).toList) h
    (by
      intro a b hab
      rw [hf hab]
      exact .refl w _)
    (by
      intro a b hab _
      rw [hf hab]
      rfl)
  rwa [List.flatMap_singleton', ← List.filterMap_eq_flatMap_toList] at hpart

theorem map {f : γ → α} {cs : List γ} (h : Attempted w (fun c b => Good (f c) b) marked cs bs) :
    Attempted w Good marked (cs.map f) bs := by
  induction h with
  | nil => exact .nil
  | done head tail last ih => exact .done head ih last
  | left tail last ih => exact .left ih last

theorem length_eq (h : Attempted w Good marked as bs) : bs.length = as.length := by
  induction h with
  | nil => rfl
  | done head tail last ih => exact congrArg (· + 1) ih
  | left tail last ih => exact congrArg (· + 1) ih

/-- An item is left out exactly if there are fewer outcomes than items. -/
theorem none_mem_iff (h : Attempted w Good marked as bs) :
    none ∈ bs ↔ (bs.filterMap id).length < as.length := by
  induction h with
  | nil => simp
  | @done a as b bs head tail last ih => simpa using ih
  | @left a as bs tail last ih =>
    have hle := List.length_filterMap_le id bs
    rw [tail.length_eq] at hle
    simpa using Nat.lt_succ_of_le hle

/-- If no item is left out and nothing is marked, nothing is lacking. -/
theorem filterMap_eq {f : α → Option β} (h : Attempted w Good marked as bs) (hnone : none ∉ bs)
    (hmarked : ∀ b ∈ bs.filterMap id, marked b = false)
    (hf : ∀ {a b}, Good a b → marked b = false → f a = some b) :
    bs.filterMap id = as.filterMap f := by
  induction h with
  | nil => rfl
  | @done a as b bs head tail last ih =>
    rw [filterMap_id_some, List.forall_mem_cons] at hmarked
    rw [filterMap_id_some, List.filterMap_cons_some (hf head hmarked.1),
      ih (fun hmem => hnone (List.mem_cons_of_mem _ hmem)) hmarked.2]
  | left tail last ih => exact absurd List.mem_cons_self hnone

theorem filterMap_eq_map {f : α → β} (h : Attempted w Good marked as bs) (hnone : none ∉ bs)
    (hmarked : ∀ b ∈ bs.filterMap id, marked b = false)
    (hf : ∀ {a b}, Good a b → marked b = false → b = f a) : bs.filterMap id = as.map f := by
  rw [← List.filterMap_eq_map]
  exact h.filterMap_eq hnone hmarked fun hgood hb => congrArg some (hf hgood hb).symm

end Attempted

end Attempts

/-! ## One project -/

/-- Fewer items need no more workers. -/
theorem Settings.refuses_mono {settings : Settings} {m n : Nat} (h : m ≤ n)
    (hm : settings.refuses m = true) : settings.refuses n = true := by
  rw [refuses, Bool.and_eq_true, decide_eq_true_eq] at hm ⊢
  exact ⟨hm.1.trans h, hm.2⟩

/-- The files of a project that can be resolved against the names of all of them. -/
def resolvable (units : List SourceUnit) : List ResolvedUnit :=
  units.filterMap fun unit => (resolveUnit (.ofUnits units) unit).toOption

/-- If all files can be resolved, none is left out. -/
theorem eq_resolvable {settings : Settings} {units : List SourceUnit} {resolved : List ResolvedUnit}
    (h : resolveAll settings units = .ok resolved) : resolved = resolvable units := by
  rw [resolveAll] at h
  split at h
  · cases h
  rw [mapM_eq_ok_iff] at h
  rw [resolvable]
  -- the registry is the same for all files, also for those that were resolved before
  generalize Registry.ofUnits units = reg at h ⊢
  clear * - h
  induction h with
  | nil => rfl
  | @cons unit r units rs head _ ih =>
    rw [List.filterMap_cons, mapError_eq_ok_iff.1 head, ih]
    rfl

namespace ProjectJob

/-- What the files of the project contribute if their declarations are always read. -/
def contributions (t : FileTree) (job : ProjectJob) : List FileOutcome :=
  job.tasks.map (FileTask.direct t)

/-- The result on all files that can be resolved. -/
def whole (t : FileTree) (job : ProjectJob) : Result :=
  .ofFiles job.info job.label false (job.contributions t)
    (resolvable ((job.contributions t).filterMap (·.unit)))

/-- What a scan of the project may give if it is stopped at some time, or not at all. -/
inductive Gives (w : Workflow) (t : FileTree) (job : ProjectJob) : Result → Prop
  /-- The declarations of some files were not read, and nothing was resolved. -/
  | unread (outcomes : List FileOutcome) : Gives w t job (.ofFiles job.info job.label true outcomes [])
  /-- All names were known before anything was resolved. -/
  | read {isPartial : Bool} {resolved : List ResolvedUnit}
      (part : w.Part resolved (resolvable ((job.contributions t).filterMap (·.unit))))
      (complete : isPartial = false →
        resolved = resolvable ((job.contributions t).filterMap (·.unit))) :
      Gives w t job (.ofFiles job.info job.label isPartial (job.contributions t) resolved)

variable {w : Workflow} {t : FileTree} {job : ProjectJob} {settings : Settings} {r : Result}

/-- A scan that fails nowhere gives the result on all files. -/
theorem eq_whole_of_direct (h : job.direct settings t = .ok r) : r = job.whole t := by
  rw [direct] at h
  split at h
  · cases h
  split at h
  · cases h
  rw [Result.settle] at h
  cases hresolved : resolveAll settings ((job.tasks.map (FileTask.direct t)).filterMap (·.unit)) with
  | error e =>
    rw [hresolved] at h
    cases h
  | ok resolved =>
    rw [hresolved] at h
    cases h
    rw [eq_resolvable hresolved]
    rfl

/-- A project with several files and no workers has no result. -/
theorem direct_ne_ok_of_refused (h : settings.refuses job.tasks.length = true) :
    ∀ r, job.direct settings t ≠ .ok r := by
  intro r hr
  rw [direct] at hr
  split at hr
  · cases hr
  · rw [if_pos h] at hr
    cases hr

/-- Nor has a project with a file that cannot be resolved. -/
theorem direct_ne_ok_of_resolve {unit : SourceUnit} {e : TypeError}
    (hmem : unit ∈ (job.contributions t).filterMap (·.unit))
    (herror : resolveUnit (.ofUnits ((job.contributions t).filterMap (·.unit))) unit = .error e) :
    ∀ r, job.direct settings t ≠ .ok r := by
  intro r hr
  rw [direct] at hr
  split at hr
  · cases hr
  split at hr
  · cases hr
  rw [Result.settle] at hr
  cases hall : resolveAll settings ((job.contributions t).filterMap (·.unit)) with
  | error e' =>
    rw [← contributions, hall] at hr
    cases hr
  | ok resolved =>
    rw [resolveAll] at hall
    split at hall
    · cases hall
    obtain ⟨r', -, hr'⟩ := exists_of_mem_of_mapM hall hmem
    rw [herror] at hr'
    cases hr'

theorem eq_map_whole_of_direct {jobs : List ProjectJob} {fulls : List Result}
    (h : jobs.mapM (ProjectJob.direct settings t) = .ok fulls) :
    fulls = jobs.map (ProjectJob.whole t) := by
  rw [mapM_eq_ok_iff] at h
  induction h with
  | nil => rfl
  | cons head _ ih => rw [List.map_cons, eq_whole_of_direct head, ih]

namespace Gives

theorem contracts (h : job.Gives w t r) : w.Part r.contracts (job.whole t).contracts := by
  cases h with
  | unread outcomes => exact .nil w _
  | read part _ => exact part.flatMap _

theorem freeRecords (h : job.Gives w t r) : w.Part r.freeRecords (job.whole t).freeRecords := by
  cases h with
  | unread outcomes => exact .nil w _
  | read part _ => exact part.flatMap _

/-- A result that is not marked as partial lacks nothing. -/
theorem eq_whole (h : job.Gives w t r) (hr : r.isPartial = false) : r = job.whole t := by
  cases h with
  | unread outcomes => cases hr
  | @read isPartial resolved part complete =>
    have hpartial : isPartial = false := hr
    rw [complete hpartial, hpartial]
    rfl

end Gives

/-- The result of a project is one that a stopped scan may give, as long as nothing is resolved if a
file was not read and no file is left out without a request to stop. -/
theorem gives_of_attempted {α : Type} {items : List α} {direct : α → FileOutcome}
    {outcomes : List (Option FileOutcome)} {units : List SourceUnit}
    {attempts : List (Option ResolvedUnit)} {cancelled : Bool}
    (hitems : job.contributions t = items.map direct)
    (houtcomes : Attempted w (fun a o => o = direct a) (fun _ => false) items outcomes)
    (hunits : units = (outcomes.filterMap id).filterMap (·.unit))
    (hattempts : Attempted w (fun unit r => resolveUnit (.ofUnits units) unit = .ok r)
      (fun _ => false) units attempts)
    (hunread : none ∈ outcomes → cancelled = true ∧ attempts.filterMap id = [])
    (hleft : none ∈ attempts → cancelled = true) :
    job.Gives w t (.ofFiles job.info job.label
      (cancelled && ((outcomes.filterMap id).length < items.length ||
        (attempts.filterMap id).length < units.length))
      (outcomes.filterMap id) (attempts.filterMap id)) := by
  by_cases hnone : none ∈ outcomes
  · obtain ⟨hcancelled, hempty⟩ := hunread hnone
    rw [hempty, hcancelled, decide_eq_true (houtcomes.none_mem_iff.1 hnone)]
    exact .unread _
  · have hall : outcomes.filterMap id = job.contributions t := by
      rw [hitems]
      exact houtcomes.filterMap_eq_map hnone (fun _ _ => rfl) fun h _ => h
    have hgood : ∀ {unit r}, resolveUnit (.ofUnits units) unit = .ok r →
        (resolveUnit (.ofUnits units) unit).toOption = some r := by
      intro unit r hr
      rw [hr]
      rfl
    have hpart : w.Part (attempts.filterMap id) (resolvable units) := hattempts.part_filterMap hgood
    -- without a mark no file was left out
    have hcomplete : (cancelled && ((job.contributions t).length < items.length ||
        (attempts.filterMap id).length < units.length)) = false →
        attempts.filterMap id = resolvable units := by
      intro hmark
      refine hattempts.filterMap_eq ?_ (fun _ _ => rfl) fun hr _ => hgood hr
      intro hmem
      rw [hleft hmem, decide_eq_true (hattempts.none_mem_iff.1 hmem), Bool.or_true] at hmark
      cases hmark
    rw [hall] at hunits ⊢
    subst hunits
    exact .read hpart hcomplete

end ProjectJob

/-! ## Reports -/

/-- What the scans of several projects may give. -/
def GivesAll (w : Workflow) (t : FileTree) : List ProjectJob → List (Option Result) → Prop :=
  Attempted w (ProjectJob.Gives w t) Result.isPartial

/-- The result that was asked for: that of the project, or that of all projects together. -/
def Report.main (report : Report) : Option Result := report.combined.or report.projects.head?

/-- The contracts and the records outside contracts are part of those of the other report, and
unless the report is marked as partial, there is no difference. -/
def Report.Within (w : Workflow) (report full : Report) : Prop :=
  ∃ r r', report.main = some r ∧ full.main = some r' ∧ w.Part r.contracts r'.contracts ∧
    w.Part r.freeRecords r'.freeRecords ∧ (r.isPartial = false → report = full)

namespace Request

variable {w : Workflow} {settings : Settings} {t : FileTree} {request : Request} {plan : Plan}

/-- The report on all files that can be resolved. -/
def whole (settings : Settings) (t : FileTree) (request : Request) : Except ScanError Report := do
  let plan ← request.plan settings t
  request.conclude t plan ((request.start settings t).map (ProjectJob.whole t))

/-- What a scan that fails nowhere consists of. -/
theorem direct_eq_ok {full : Report} (h : request.direct settings t = .ok full) :
    ∃ plan, request.plan settings t = .ok plan ∧ ∃ fulls,
      settings.refuses plan.projects.length = false ∧
      (request.start settings t).mapM (ProjectJob.direct settings t) = .ok fulls ∧
      request.conclude t plan fulls = .ok full := by
  obtain ⟨plan, hplan, h⟩ := bind_eq_ok_iff.1 h
  dsimp only at h
  split at h
  · cases h
  rename_i hrefuses
  obtain ⟨fulls, hfulls, h⟩ := bind_eq_ok_iff.1 h
  exact ⟨plan, hplan, fulls, Bool.eq_false_iff.2 hrefuses, hfulls, h⟩

/-- A scan that fails nowhere gives the report on all files. -/
theorem whole_of_direct {full : Report} (h : request.direct settings t = .ok full) :
    request.whole settings t = .ok full := by
  obtain ⟨plan, hplan, fulls, -, hfulls, h⟩ := direct_eq_ok h
  rw [whole, hplan, ← ProjectJob.eq_map_whole_of_direct hfulls]
  exact h

/-- A scan of a single project is about this project only. -/
theorem projects_of_plan {given : String} (h : (project given).plan settings t = .ok plan) :
    ∃ info, plan.projects = [(info, none)] := by
  have hscan := exec_scanProject t settings given
  rw [h] at hscan
  obtain ⟨info, hprojects, -⟩ := hscan
  exact ⟨info, hprojects⟩

/-- Whether a report can be given does not depend on the results. -/
theorem exists_conclude {results fulls : List Result} {full : Report}
    (h : request.conclude t plan fulls = .ok full) :
    ∃ report, request.conclude t plan results = .ok report := by
  cases request with
  | project given => exact ⟨_, rfl⟩
  | all given =>
    cases hclassify : Project.classifyDir t plan.root with
    | error e =>
      simp only [conclude, combineAll, hclassify] at h
      cases h
    | ok info =>
      simp only [conclude, combineAll, hclassify]
      exact ⟨_, rfl⟩

/-- The report on a single project that was not left out. -/
theorem within_project {job : ProjectJob} {r : Result} (h : job.Gives w t r) :
    Report.Within w ⟨[r], none⟩ ⟨[job.whole t], none⟩ := by
  refine ⟨r, job.whole t, rfl, rfl, h.contracts, h.freeRecords, ?_⟩
  intro hpartial
  rw [h.eq_whole hpartial]

/-- The report on all projects of a directory. -/
theorem within_all {jobs : List ProjectJob} {attempts : List (Option Result)} {root : Path}
    {roots : List Path} {found : Combined} (h : GivesAll w t jobs attempts)
    (hroots : roots.length = jobs.length)
    (hfound : combineAll t root roots (attempts.filterMap id) = .ok found) :
    ∃ full, combineAll t root roots (jobs.map (ProjectJob.whole t)) = .ok full ∧
      Report.Within w ⟨found.projects, some found.combined⟩ ⟨full.projects, some full.combined⟩ := by
  rw [combineAll] at hfound ⊢
  obtain ⟨info, hinfo, hfound⟩ := bind_eq_ok_iff.1 hfound
  cases hfound
  refine ⟨_, bind_eq_ok_iff.2 ⟨info, hinfo, rfl⟩, _, _, rfl, rfl, ?_, ?_, ?_⟩
  · show w.Part (List.flatMap _ _) (List.flatMap _ (jobs.map _))
    rw [List.flatMap_map]
    exact h.part_flatMap (fun hgives => hgives.contracts) fun hgives hr => by rw [hgives.eq_whole hr]
  · show w.Part (List.flatMap _ _) (List.flatMap _ (jobs.map _))
    rw [List.flatMap_map]
    exact h.part_flatMap (fun hgives => hgives.freeRecords) fun hgives hr => by rw [hgives.eq_whole hr]
  intro hpartial
  -- nothing is marked as partial, and no project is missing
  have hmarks := Bool.or_eq_false_iff.1 hpartial
  have hnone : ∀ r ∈ attempts.filterMap id, r.isPartial = false := by
    intro r hr
    have hany : (attempts.filterMap id).any (·.isPartial) = false := hmarks.1
    exact Bool.eq_false_iff.2 (List.any_eq_false.1 hany r hr)
  have hall : none ∉ attempts := by
    have hmany := of_decide_eq_false hmarks.2
    rw [h.none_mem_iff]
    omega
  rw [h.filterMap_eq_map hall hnone ProjectJob.Gives.eq_whole]

/-- A report on what scans of its projects may give is part of the report on everything. -/
theorem within_whole {attempts : List (Option Result)} {report : Report}
    (hplan : request.plan settings t = .ok plan)
    (h : GivesAll w t (request.start settings t) attempts)
    (hproject : ∀ given, request = project given → none ∉ attempts)
    (hreport : request.conclude t plan (attempts.filterMap id) = .ok report) :
    ∃ full, request.whole settings t = .ok full ∧ report.Within w full := by
  have hwhole : request.whole settings t =
      request.conclude t plan ((request.start settings t).map (ProjectJob.whole t)) := by
    rw [whole, hplan]
    rfl
  have hstart : request.start settings t =
      plan.projects.map fun p => ProjectJob.start settings t p.1 p.2 := by
    rw [start, hplan]
  rw [hwhole]
  cases request with
  | project given =>
    obtain ⟨info, hprojects⟩ := projects_of_plan hplan
    rw [hstart, hprojects] at h ⊢
    have hnone := hproject given rfl
    -- the only project was not left out
    cases h with
    | left tail last => exact absurd List.mem_cons_self hnone
    | done head tail last =>
      cases tail
      cases hreport
      exact ⟨_, rfl, within_project head⟩
  | all given =>
    have hroots : (plan.projects.map (·.1.root)).length = ((all given).start settings t).length := by
      rw [hstart, List.length_map, List.length_map]
    cases hfound : combineAll t plan.root (plan.projects.map (·.1.root)) (attempts.filterMap id) with
    | error e =>
      rw [conclude, hfound] at hreport
      cases hreport
    | ok found =>
      rw [conclude, hfound] at hreport
      cases hreport
      obtain ⟨full, hfull, hwithin⟩ := within_all h hroots hfound
      rw [conclude, hfull]
      exact ⟨_, rfl, hwithin⟩

/-- What may come out of a scan that may be stopped. It fails only if it would fail anyway. -/
def Answers (w : Workflow) (settings : Settings) (t : FileTree) (request : Request) :
    Except ScanError Report → Prop
  | .ok report => ∃ full, request.whole settings t = .ok full ∧ report.Within w full
  | .error _ => ∀ full, request.direct settings t ≠ .ok full

/-- The report on whatever the scans of the projects gave. -/
theorem answers_conclude {attempts : List (Option Result)} (hplan : request.plan settings t = .ok plan)
    (h : GivesAll w t (request.start settings t) attempts)
    (hproject : ∀ given, request = project given → none ∉ attempts) :
    request.Answers w settings t (request.conclude t plan (attempts.filterMap id)) := by
  cases hreport : request.conclude t plan (attempts.filterMap id) with
  | ok report => exact within_whole hplan h hproject hreport
  | error e =>
    intro full hfull
    obtain ⟨plan', hplan', fulls, -, -, hconclude⟩ := direct_eq_ok hfull
    rw [hplan, Except.ok.injEq] at hplan'
    subst hplan'
    obtain ⟨report, hok⟩ := @exists_conclude t request plan (attempts.filterMap id) _ _ hconclude
    rw [hreport] at hok
    cases hok

/-- A failure of the search for projects, a project that has no result, or a lack of workers is a
reason to fail. -/
theorem answers_error_of_plan {e e' : ScanError} (hplan : request.plan settings t = .error e) :
    request.Answers w settings t (.error e') := by
  intro full hfull
  obtain ⟨plan, hok, -⟩ := direct_eq_ok hfull
  rw [hplan] at hok
  cases hok

theorem answers_error_of_job {job : ProjectJob} {e : ScanError}
    (hmem : job ∈ request.start settings t) (hjob : ∀ r, job.direct settings t ≠ .ok r) :
    request.Answers w settings t (.error e) := by
  intro full hfull
  obtain ⟨plan, -, fulls, -, hfulls, -⟩ := direct_eq_ok hfull
  obtain ⟨r, -, hr⟩ := exists_of_mem_of_mapM hfulls hmem
  exact hjob r hr

theorem answers_error_of_refused {e : ScanError} (hplan : request.plan settings t = .ok plan)
    (hrefuses : settings.refuses plan.projects.length = true) :
    request.Answers w settings t (.error e) := by
  intro full hfull
  obtain ⟨plan', hplan', fulls, hallows, -⟩ := direct_eq_ok hfull
  rw [hplan, Except.ok.injEq] at hplan'
  subst hplan'
  rw [hrefuses] at hallows
  cases hallows

/-- Where nothing fails, there is a report within the full one. -/
theorem Answers.exists_within {outcome : Except ScanError Report} {full : Report}
    (h : request.Answers w settings t outcome) (hfull : request.direct settings t = .ok full) :
    ∃ report, outcome = .ok report ∧ report.Within w full := by
  cases outcome with
  | error e => exact absurd hfull (h full)
  | ok report =>
    obtain ⟨full', hwhole, hwithin⟩ := h
    rw [whole_of_direct hfull, Except.ok.injEq] at hwhole
    exact ⟨report, rfl, hwhole ▸ hwithin⟩

end Request

end AbiIndex.Scan
