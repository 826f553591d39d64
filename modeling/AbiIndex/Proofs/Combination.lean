import AbiIndex.Proofs.ProjectLabels
import AbiIndex.Proofs.Scheduling
import AbiIndex.Proofs.SelectorCollisions
import AbiIndex.Proofs.StopModes

/-!
# Combined results

A combined result has the contracts, the other records and the reports of its parts one after the
other. Its collisions are looked for anew, and the reports on those of the parts are left out, so
that it makes no difference whether some of the parts were combined before. Every project of a scan
has a label of its own, which stands at all its contracts and records. So what comes from a project
can be told from all the rest.

## Key results

- `Collision.nodup_map_diagnostic`: each collision is reported once
- `Result.combine_combine_cons`: combining is associative
- `Request.MayReport.exists_projects`: what the results in a report are
- `Result.combine_spec`: combining keeps projects apart
-/

namespace AbiIndex

open AbiIndex.Abi

/-! ## Reports of collisions -/

namespace Collision

/-- What a collision reports belongs to its selector and its kind. -/
theorem heading_eq_of_diagnostic_eq {c d : Collision} (h : c.diagnostic = d.diagnostic) :
    c.heading = d.heading := by
  have hselector : c.selector = d.selector := Option.some.inj (congrArg Diagnostic.construct h)
  -- the message starts with the name of the kind, and the second letters of these names differ
  have hsecond : ∀ c : Collision, c.diagnostic.message.toList[1]? = c.kind.name.toList[1]? := by
    intro c
    have hlength : 1 < c.kind.name.toList.length := by cases c.kind <;> decide
    simp only [diagnostic, String.toList_append, List.append_assoc]
    exact List.getElem?_append_left hlength
  have hletter : c.kind.name.toList[1]? = d.kind.name.toList[1]? := by
    rw [← hsecond, ← hsecond, h]
  have hkind : c.kind = d.kind := by
    revert hletter
    cases c.kind <;> cases d.kind <;> decide
  exact Prod.ext hselector hkind

/-- No collision is reported twice. -/
theorem nodup_map_diagnostic (records : List Record) :
    ((detect records).map diagnostic).Nodup := by
  have hheadings := List.pairwise_map.1 (nodup_heading records)
  exact List.pairwise_map.2 (hheadings.imp fun hne heq => hne (heading_eq_of_diagnostic_eq heq))

end Collision

namespace Scan.Result

/-! ## Combinations of combinations -/

section Combine

variable (p q : Project.Info) (xs ys : List Result)

/-- The reports of a combination on collisions are those on its own ones. -/
theorem filter_diagnostics_combine : (combine p xs).diagnostics.filter (·.kind = .selectorCollision) =
    (combine p xs).collisions.map Collision.diagnostic := by
  have hkept : (xs.flatMap fun r => r.diagnostics.filter (·.kind ≠ .selectorCollision)).filter
      (·.kind = .selectorCollision) = [] := by
    simp [List.filter_flatMap, List.filter_filter]
  have hown : ∀ cs : List Collision, (cs.map Collision.diagnostic).filter
      (·.kind = .selectorCollision) = cs.map Collision.diagnostic := by
    intro cs
    simp [Collision.diagnostic]
  rw [combine, withCollisions, List.filter_append, hkept, hown]
  rfl

/-- All other reports of a combination are those of its parts. -/
theorem filter_ne_diagnostics_combine :
    (combine p xs).diagnostics.filter (·.kind ≠ .selectorCollision) =
      xs.flatMap fun r => r.diagnostics.filter (·.kind ≠ .selectorCollision) := by
  have hown : ∀ cs : List Collision, (cs.map Collision.diagnostic).filter
      (·.kind ≠ .selectorCollision) = [] := by
    intro cs
    simp [Collision.diagnostic]
  rw [combine, withCollisions, List.filter_append, hown, List.append_nil, List.filter_flatMap]
  simp

/-- A combination among the parts can be replaced by its own parts. -/
theorem combine_combine_cons : combine p (combine q xs :: ys) = combine p (xs ++ ys) := by
  have hfiles : ((combine q xs).filesScanned : Int) + ys.foldr (·.filesScanned + ·) 0 =
      (xs ++ ys).foldr (·.filesScanned + ·) 0 := by
    have hinit : ∀ n : Int, xs.foldr (·.filesScanned + ·) 0 + n =
        xs.foldr (·.filesScanned + ·) n := by
      intro n
      induction xs with
      | nil => exact Int.zero_add n
      | cons x xs ih => simp only [List.foldr_cons, Int.add_assoc, ih]
    rw [List.foldr_append]
    exact hinit _
  have hdiagnostics := filter_ne_diagnostics_combine q xs
  rw [combine.eq_def p (combine q xs :: ys), combine.eq_def p (xs ++ ys)]
  simp only [List.flatMap_cons, List.flatMap_append, List.foldr_cons, List.any_cons, List.any_append,
    hfiles, hdiagnostics]
  rfl

/-- All records of the parts are in the combination. -/
theorem records_combine_perm : (combine p xs).records.Perm (xs.flatMap records) := by
  have hsplit : ∀ xs : List Result, ((xs.flatMap (·.contracts)).flatMap (·.records) ++
      xs.flatMap (·.freeRecords)).Perm (xs.flatMap records) := by
    intro xs
    induction xs with
    | nil => exact .refl _
    | cons x xs ih =>
      simp only [List.flatMap_cons, List.flatMap_append, records, List.append_assoc]
      refine List.Perm.append_left _ ?_
      refine (List.perm_append_comm_assoc _ _ _).trans ?_
      exact List.Perm.append_left _ ih
  exact hsplit xs

end Combine

end Scan.Result

namespace Scan

open AbiIndex.Source

/-! ## Results that belong to a project -/

/-- Whether a result was put together from files of a project. -/
def Result.IsOf (info : Project.Info) (label : Option String) (r : Result) : Prop :=
  ∃ isPartial outcomes resolved, r = .ofFiles info label isPartial outcomes resolved

namespace Result.IsOf

variable {info : Project.Info} {label : Option String} {r : Result}

theorem project_eq (h : r.IsOf info label) : r.project = info := by
  obtain ⟨isPartial, outcomes, resolved, rfl⟩ := h
  rfl

theorem label_of_contract (h : r.IsOf info label) : ∀ c ∈ r.contracts, c.project = label := by
  obtain ⟨isPartial, outcomes, resolved, rfl⟩ := h
  intro c hc
  obtain ⟨unit, -, hc⟩ := List.mem_flatMap.1 hc
  obtain ⟨decl, -, rfl⟩ := List.mem_map.1 hc
  rfl

theorem label_of_freeRecord {l : String} (h : r.IsOf info (some l)) :
    ∀ rec ∈ r.freeRecords, rec.project = some l := by
  obtain ⟨isPartial, outcomes, resolved, rfl⟩ := h
  intro rec hrec
  obtain ⟨unit, -, hrec⟩ := List.mem_flatMap.1 hrec
  obtain ⟨rec, -, rfl⟩ := List.mem_map.1 hrec
  rfl

end Result.IsOf

/-- Whether a project that ended with a result ended with one of its own. -/
def ProjectRun.EndsOwn (run : ProjectRun) : Prop :=
  ∀ r, run.phase = .ended (.ok r) → r.IsOf run.job.info run.job.label

section Runs

variable {settings : Settings} {t : FileTree}

/-- Whatever step a project makes, its result is its own. -/
theorem ProjectRun.EndsOwn.step {run : ProjectRun} (h : run.EndsOwn) (turn : Option Nat) (s : Shared) :
    (run.step settings t turn s).1.EndsOwn := by
  obtain ⟨job, asks, phase⟩ := run
  have hbegin : ∀ outcomes r, ProjectJob.beginResolving settings outcomes ≠ .ended (.ok r) := by
    intro outcomes r
    rw [ProjectJob.beginResolving]
    split <;> rintro ⟨⟩
  cases turn with
  | some j =>
    cases phase with
    | waiting => exact h
    | left => exact h
    | ended outcome => exact h
    | reading tasks =>
      intro r hr
      cases hr
    | resolving outcomes tasks =>
      intro r hr
      cases hr
  | none =>
    cases phase with
    | waiting =>
      simp only [ProjectRun.step, ProjectJob.beginReading]
      split
      · intro r hr
        cases hr
      · intro r hr
        dsimp only at hr
        split at hr
        · cases hr
        · split at hr <;> cases hr
    | left => exact h
    | reading tasks =>
      simp only [ProjectRun.step]
      split
      · exact h
      · intro r hr
        cases hr
      · exact fun r hr => absurd hr (hbegin _ r)
    | resolving outcomes tasks =>
      simp only [ProjectRun.step]
      split
      · exact h
      · rename_i attempts hattempts
        intro r hr
        cases attempts with
        | error e => cases hr
        | ok attempts =>
          cases hr
          exact ⟨_, _, _, rfl⟩
    | ended outcome => exact h

/-- So are the results of a whole scan. -/
theorem endsOwn_run {runs : List ProjectRun} (h : ∀ run ∈ runs, run.EndsOwn)
    (acts : List (Act (Nat × Option Nat))) (sh : Shared) :
    ∀ r ∈ (run (Act.apply (stepRuns settings t)) acts runs sh).1, r.EndsOwn := by
  refine run_induction (P := fun (runs : List ProjectRun) (_ : Shared) =>
    ∀ run ∈ runs, run.EndsOwn) ?_ acts h
  intro act runs s h
  cases act with
  | cancel => exact h
  | step place =>
    exact (stepAt_induction (P := fun _ : Shared => True)
      (fun run s _ hrun => ⟨trivial, hrun.step place.2 s⟩) place.1 trivial h).2

end Runs

/-! ## What a scan of several projects combines -/

/-- What a scan may report: in a session that works on one file after the other, or in whatever
order its tasks make their steps, and whenever a request to stop comes. -/
inductive Request.MayReport (t : FileTree) (request : Request) (report : Report) : Prop
  | session (s : Session) (h : ((request.scan t).exec s).1 = .ok report)
  | run (settings : Settings) (acts : List (Act (Nat × Option Nat))) (shared : Shared)
      (h : request.report? settings t (Scan.run (Act.apply (stepRuns settings t)) acts
        (request.startRuns settings t) shared).1 = some (.ok report))

/-- Everything that a scan of all projects in a directory may report, a run of its tasks reports. -/
theorem Request.MayReport.exists_run {t : FileTree} {given : String} {report : Report}
    (h : (all given).MayReport t report) : ∃ settings acts shared,
      (all given).report? settings t (Scan.run (Act.apply (stepRuns settings t)) acts
        ((all given).startRuns settings t) shared).1 = some (.ok report) := by
  cases h with
  | run settings acts shared h => exact ⟨settings, acts, shared, h⟩
  | session s h =>
    have hok : (((all given).scan t).exec (s.inMode false)).1 = .ok report := by
      rw [scan, exec_map] at h ⊢
      cases hscan : ((scanAll t given).exec s).1 with
      | error e =>
        rw [hscan] at h
        cases h
      | ok c =>
        rw [hscan] at h
        rw [(scanAll_failsWhen t given s).1.exec_of_ok hscan]
        exact h
    obtain ⟨acts, hacts⟩ := @exists_report?_scan (s.inMode false).settings t (s.inMode false) rfl rfl
      (all given)
    exact ⟨_, acts, _, hacts.trans (congrArg some hok)⟩

section Apart

variable {settings : Settings} {t : FileTree} {given : String} {report : Report}

theorem ProjectJob.info_start (settings : Settings) (t : FileTree) (info : Project.Info)
    (label : Option String) : (start settings t info label).info = info ∧
      (start settings t info label).label = label := by
  rw [start]
  split <;> exact ⟨rfl, rfl⟩

/-- A project that is not left out and does not fail has a result. -/
theorem ProjectRun.phase_of_ending? {run : ProjectRun} {r : Result}
    (h : run.ending? = some (.ok (some r))) : run.phase = .ended (.ok r) := by
  rw [ending?] at h
  split at h
  · cases h
  · rename_i outcome hphase
    cases outcome with
    | error e => cases h
    | ok r' =>
      cases h
      exact hphase
  · cases h

/-- What a scan of all projects in a directory is about. -/
theorem Request.plan_all_eq_ok {plan : Plan} (h : (all given).plan settings t = .ok plan) :
    ∃ root infos, Project.validateRoot t given = .ok root ∧
      Project.projectsOf t settings.search root (Project.markedDirs t settings.search root) =
        .ok infos ∧
      plan = ⟨root, infos.map fun info => (info, some (root.label info.root))⟩ := by
  rw [Request.plan] at h
  obtain ⟨root, hroot, h⟩ := bind_eq_ok_iff.1 (mapError_eq_ok_iff.1 h)
  obtain ⟨infos, hinfos, h⟩ := bind_eq_ok_iff.1 h
  cases h
  exact ⟨root, infos, hroot, hinfos, rfl⟩

/-- Runs that have come from the projects of a request end with results of these projects. -/
theorem forall₂_isOf (label : Path → String) {runs : List ProjectRun} {infos : List Project.Info}
    {attempts : List (Option Result)} (hown : ∀ run ∈ runs, run.EndsOwn)
    (hjobs : runs.map (·.job) = infos.map fun info =>
      ProjectJob.start settings t info (some (label info.root)))
    (hattempts : collect? ProjectRun.ending? runs = some (.ok attempts)) :
    List.Forall₂ (fun (info : Project.Info) o => ∀ r : Result, o = some r →
      r.IsOf info (some (label info.root))) infos attempts := by
  have hruns : List.Forall₂ (fun (job : ProjectJob) o => ∀ r : Result, o = some r →
      r.IsOf job.info job.label) (runs.map (·.job)) attempts := by
    rw [List.forall₂_map_left_iff]
    refine ((List.forall₂_and_left runs attempts).2 ⟨hown, collect?_ok hattempts⟩).imp ?_
    rintro run o ⟨hrun, hending⟩ r rfl
    exact hrun r (ProjectRun.phase_of_ending? hending)
  rw [hjobs, List.forall₂_map_left_iff] at hruns
  refine hruns.imp fun info o h r hr => ?_
  obtain ⟨hinfo, hlabel⟩ := ProjectJob.info_start settings t info (some (label info.root))
  have hown := h r hr
  rwa [hinfo, hlabel] at hown

/-- A report is put together from results of some of the projects, in their order. -/
theorem Request.MayReport.exists_projects (h : (all given).MayReport t report) :
    ∃ (settings : Settings) (root : Path) (infos infos' : List Project.Info),
      Project.validateRoot t given = .ok root ∧
      Project.projectsOf t settings.search root (Project.markedDirs t settings.search root) =
        .ok infos ∧
      infos'.Sublist infos ∧ List.Forall₂ (fun info (r : Result) =>
        r.IsOf info (some (root.label info.root))) infos' report.projects ∧
      ∃ info isPartial, report.combined =
        some { Result.combine info report.projects with isPartial := isPartial } := by
  obtain ⟨settings, acts, shared, h⟩ := h.exists_run
  have hjobs := map_job_run settings t acts ((all given).startRuns settings t) shared
  have hstart : ∀ run ∈ (all given).startRuns settings t, run.EndsOwn := by
    intro run hrun r hr
    obtain ⟨job, -, rfl⟩ := List.mem_map.1 hrun
    cases hr
  have hown := @endsOwn_run settings t _ hstart acts shared
  revert h hjobs hown
  generalize (Scan.run (Act.apply (stepRuns settings t)) acts ((all given).startRuns settings t)
    shared).1 = runs
  intro h hjobs hown
  cases hplan : (all given).plan settings t with
  | error e =>
    rw [report?, hplan] at h
    cases h
  | ok plan =>
    obtain ⟨root, infos, hroot, hinfos, rfl⟩ := plan_all_eq_ok hplan
    have hjobs : runs.map (·.job) = infos.map fun info =>
        ProjectJob.start settings t info (some (root.label info.root)) := by
      have := congrArg (List.map Prod.fst) hjobs
      simpa [startRuns, start, hplan, List.map_map, Function.comp_def] using this
    rw [report?, hplan] at h
    dsimp only at h
    split at h
    · cases h
    obtain ⟨outcome, hattempts, h⟩ := Option.map_eq_some_iff.1 h
    obtain ⟨attempts, rfl, h⟩ := bind_eq_ok_iff.1 h
    obtain ⟨c, hc, rfl⟩ := map_eq_ok_iff.1 h
    obtain ⟨info, -, hc⟩ := bind_eq_ok_iff.1 hc
    cases hc
    obtain ⟨infos', hsub, hall⟩ :=
      exists_sublist_of_filterMap_id (forall₂_isOf root.label hown hjobs hattempts)
    exact ⟨settings, root, infos, infos', hroot, hinfos, hsub, hall, _, _, rfl⟩

/-- Two results with the same contracts have the same interfaces. -/
theorem Result.fullInterface_congr {r r' : Result} {project project' : Option String}
    (h : r.contractsIn project = r'.contractsIn project') (name : String) :
    r.fullInterface name project = r'.fullInterface name project' := by
  rw [fullInterface, fullInterface, h]

end Apart

/-- A combination that is one of the parts of a combination can be replaced by its own parts. The
collisions are those among all records together, and each of them is reported exactly once. Whatever
a scan of all projects in a directory reports, what has the label of a project in the combined
result is what this project has, in the same order, so that the interfaces are the same as well. -/
theorem Result.combine_spec (p q : Project.Info) (xs ys : List Result) (t : FileTree)
    (given : String) :
    combine p (combine q xs :: ys) = combine p (xs ++ ys) ∧
    (combine p xs).records = (xs.flatMap (·.contracts)).flatMap (·.records) ++
      xs.flatMap (·.freeRecords) ∧
    (combine p xs).records.Perm (xs.flatMap records) ∧
    (combine p xs).collisions = Collision.detect (combine p xs).records ∧
    (combine p xs).diagnostics.filter (·.kind = .selectorCollision) =
      (combine p xs).collisions.map Collision.diagnostic ∧
    ((combine p xs).collisions.map Collision.diagnostic).Nodup ∧
    ∀ report, t.top.Proper → t.top.Plain → (Request.all given).MayReport t report →
      ∃ root combined, Project.validateRoot t given = .ok root ∧ report.combined = some combined ∧
        (∃ info isPartial,
          combined = { combine info report.projects with isPartial := isPartial }) ∧
        ∀ r ∈ report.projects,
          combined.contracts.filter (·.project = some (root.label r.project.root)) = r.contracts ∧
          combined.freeRecords.filter (·.project = some (root.label r.project.root)) =
            r.freeRecords ∧
          ∀ name, combined.fullInterface name (some (root.label r.project.root)) =
            r.fullInterface name none := by
  refine ⟨combine_combine_cons p q xs ys, rfl, records_combine_perm p xs, rfl,
    filter_diagnostics_combine p xs, Collision.nodup_map_diagnostic _, ?_⟩
  intro report ht hplain h
  obtain ⟨settings, root, infos, infos', hroot, hinfos, hsub, hall, info, isPartial, hcombined⟩ :=
    h.exists_projects
  refine ⟨root, _, hroot, hcombined, ⟨info, isPartial, rfl⟩, fun r hr => ?_⟩
  have hanchor := (Project.validateRoot_spec hroot).1
  have hprojects : infos' = report.projects.map (·.project) := by
    refine (List.forall₂_eq_eq_eq ▸ List.forall₂_map_right_iff.2 ?_ : infos' = _)
    exact hall.imp fun info r h => h.project_eq.symm
  have hisOf : ∀ r ∈ report.projects, r.IsOf r.project (some (root.label r.project.root)) := by
    intro r hr
    obtain ⟨info, -, h⟩ := exists_left_of_forall₂ hall hr
    rwa [h.project_eq]
  have hnodup : (report.projects.map fun r => some (root.label r.project.root)).Nodup := by
    have hlabels := (Project.nodup_labels ht hplain hanchor hinfos).sublist (hsub.map _)
    rw [hprojects, List.map_map] at hlabels
    have hsome := hlabels.map (Option.some_injective String)
    rwa [List.map_map] at hsome
  have hcontracts : (report.projects.flatMap (·.contracts)).filter
      (·.project = some (root.label r.project.root)) = r.contracts :=
    filter_flatMap_of_tag hr hnodup fun r hr => (hisOf r hr).label_of_contract
  refine ⟨hcontracts, ?_, fullInterface_congr ?_⟩
  · exact filter_flatMap_of_tag hr hnodup fun r hr => (hisOf r hr).label_of_freeRecord
  · simpa [contractsIn, combine, withCollisions] using hcontracts

/-! ## Contracts of the same name -/

/-- A project with a project in it, and with a contract of the same name. -/
def namesakes : FileTree where
  top := .dir [("A.sol", .file (Text.Utf8.encode "contract C is D \x7b\x7d")),
    ("inner", .dir [("A.sol", .file (Text.Utf8.encode "contract C \x7b\x7d")),
      ("truffle.js", .file [])]),
    ("truffle.js", .file [])]
  cwd := Path.mk .root []

def namesakeOuter : Project.Info :=
  ⟨.truffle, ⟨.root, []⟩, ⟨.root, []⟩, some "truffle.js", [⟨.root, ["inner"]⟩]⟩

def namesakeInner : Project.Info :=
  ⟨.truffle, ⟨.root, ["inner"]⟩, ⟨.root, ["inner"]⟩, some "truffle.js", []⟩

theorem proper_namesakes : namesakes.top.Proper := by
  have hfile := Node.Proper.file
  refine .dir (by decide) (by simp) ?_
  simp only [List.forall_mem_cons, List.not_mem_nil, false_implies, implies_true, and_true]
  exact ⟨hfile _, .dir (by decide) (by simp) (by simp [hfile]), hfile _⟩

theorem plain_namesakes : namesakes.top.Plain := by
  have hfile := Node.Plain.file
  refine .dir (by decide) ?_
  simp only [List.forall_mem_cons, List.not_mem_nil, false_implies, implies_true, and_true]
  exact ⟨hfile _, .dir (by decide) (by simp [hfile]), hfile _⟩

theorem validateRoot_namesakes : Project.validateRoot namesakes "/" = .ok ⟨.root, []⟩ :=
  eq_ok_of_toOption (by decide +kernel)

/-- Both directories are marked. -/
theorem markedDirs_namesakes : Project.markedDirs namesakes ⟨[], 8⟩ ⟨.root, []⟩ =
    [⟨.root, []⟩, ⟨.root, ["inner"]⟩] := by
  have hlocate : namesakes.locate ⟨.root, []⟩ = .ok namesakes.top := rfl
  rw [Project.markedDirs, Project.visited, hlocate, namesakes]
  simp (disch := decide +kernel) only [Node.walk_dir_of_pairwise, List.flatMap_cons,
    List.flatMap_nil]
  decide +kernel

theorem projectsOf_namesakes : Project.projectsOf namesakes ⟨[], 8⟩ ⟨.root, []⟩
    [⟨.root, []⟩, ⟨.root, ["inner"]⟩] = .ok [namesakeOuter, namesakeInner] :=
  eq_ok_of_toOption (by decide +kernel)

/-- Each project lists its own file. -/
theorem sourceFiles_namesakes :
    Project.sourceFiles namesakes [] true namesakeOuter = .ok [⟨.root, ["A.sol"]⟩] ∧
    Project.sourceFiles namesakes [] true namesakeInner = .ok [⟨.root, ["inner", "A.sol"]⟩] := by
  have hlisted : ((Text.sorted ["A.sol", "truffle.js"]).filter fun name =>
      Project.isSourceName name && (true || !name.endsWith ".t.sol")) = ["A.sol"] := by
    rw [Text.sorted, List.mergeSort_of_pairwise (by decide +kernel)]
    decide +kernel
  have hfiles : ∀ info : Project.Info, Project.ask (namesakes.isDir info.sourceRoot) = .ok true →
      Project.visited namesakes (fun path name => name ∉ Project.excludedDirs && name ∉ [] &&
        path.child name ∉ info.nested && (true || name ∉ ["test", "tests"])) info.sourceRoot =
          [⟨info.sourceRoot, ["A.sol", "truffle.js"]⟩] →
      Project.sourceFiles namesakes [] true info = .ok [info.sourceRoot.child "A.sol"] := by
    intro info hdir hvisited
    rw [Project.sourceFiles, hdir]
    simp only [hvisited, List.flatMap_cons, List.flatMap_nil, hlisted]
    rfl
  have houter : namesakes.locate ⟨.root, []⟩ = .ok namesakes.top := rfl
  constructor
  · refine hfiles namesakeOuter rfl ?_
    rw [Project.visited, namesakeOuter, houter, namesakes]
    simp (disch := decide +kernel) only [Node.walk_dir_of_pairwise, List.flatMap_cons,
      List.flatMap_nil]
    simp [Node.walk, Node.namesOf, Node.entries, Node.isDir, Path.child]
  · refine hfiles namesakeInner rfl ?_
    have hinner : namesakes.locate ⟨.root, ["inner"]⟩ =
        .ok (.dir [("A.sol", .file (Text.Utf8.encode "contract C \x7b\x7d")),
          ("truffle.js", .file [])]) := rfl
    rw [Project.visited, namesakeInner, hinner]
    simp (disch := decide +kernel) only [Node.walk_dir_of_pairwise, List.flatMap_cons,
      List.flatMap_nil]
    simp [Node.walk, Node.namesOf, Node.entries, Node.isDir]

/-- The work on the two projects. -/
theorem plan_namesakes : (Request.all "/").plan .default namesakes =
    .ok ⟨⟨.root, []⟩, [(namesakeOuter, some "."), (namesakeInner, some "inner")]⟩ := by
  have hmarked : Project.markedDirs namesakes Settings.default.search ⟨.root, []⟩ = _ :=
    markedDirs_namesakes
  have hprojects : Project.projectsOf namesakes Settings.default.search _ _ = _ :=
    projectsOf_namesakes
  simp only [Request.plan, validateRoot_namesakes, bind, Except.bind, hmarked, hprojects]
  rfl

theorem start_namesakes : (Request.all "/").start .default namesakes =
    [⟨namesakeOuter, some ".", none, [⟨⟨.root, []⟩, ⟨.root, ["A.sol"]⟩, .waiting⟩]⟩,
      ⟨namesakeInner, some "inner", none,
        [⟨⟨.root, ["inner"]⟩, ⟨.root, ["inner", "A.sol"]⟩, .waiting⟩]⟩] := by
  obtain ⟨houter, hinner⟩ := sourceFiles_namesakes
  have houter : Project.sourceFiles namesakes Settings.default.excludeDirs
      Settings.default.includeTests namesakeOuter = _ := houter
  have hinner : Project.sourceFiles namesakes Settings.default.excludeDirs
      Settings.default.includeTests namesakeInner = _ := hinner
  rw [Request.start, plan_namesakes]
  simp only [List.map_cons, List.map_nil, ProjectJob.start, houter, hinner]
  rfl

/-- A new session reports on both projects. -/
theorem exists_report_namesakes : ∃ report outer inner,
    fresh .default 1 namesakes (.all "/") = .ok report ∧ report.projects = [outer, inner] ∧
    outer.project = namesakeOuter ∧ inner.project = namesakeInner := by
  have houter : (((ProjectJob.mk namesakeOuter (some ".") none
      [⟨⟨.root, []⟩, ⟨.root, ["A.sol"]⟩, .waiting⟩]).direct .default namesakes).map
        (·.project)).toOption = some namesakeOuter := by
    decide +kernel
  have hinner : (((ProjectJob.mk namesakeInner (some "inner") none
      [⟨⟨.root, ["inner"]⟩, ⟨.root, ["inner", "A.sol"]⟩, .waiting⟩]).direct .default namesakes).map
        (·.project)).toOption = some namesakeInner := by
    decide +kernel
  obtain ⟨outer, houter, hproject⟩ := map_eq_ok_iff.1 (eq_ok_of_toOption houter)
  obtain ⟨inner, hinner, hproject'⟩ := map_eq_ok_iff.1 (eq_ok_of_toOption hinner)
  have hclassify : Project.classifyDir namesakes ⟨.root, []⟩ =
      .ok { namesakeOuter with nested := [] } :=
    eq_ok_of_toOption (by decide +kernel)
  obtain ⟨report, hconclude, hprojects⟩ : ∃ report, (Request.all "/").conclude namesakes
      ⟨⟨.root, []⟩, [(namesakeOuter, some "."), (namesakeInner, some "inner")]⟩ [outer, inner] =
        .ok report ∧ report.projects = [outer, inner] := by
    rw [Request.conclude, combineAll, hclassify]
    exact ⟨_, rfl, rfl⟩
  have hallowed : ¬Settings.default.refuses
      [(namesakeOuter, some "."), (namesakeInner, some "inner")].length = true := Bool.false_ne_true
  refine ⟨report, outer, inner, ?_, hprojects, hproject, hproject'⟩
  rw [fresh_eq_direct_of_plain plain_namesakes, Request.direct, plan_namesakes]
  simp only [bind, Except.bind, start_namesakes, List.mapM_cons, List.mapM_nil, houter, hinner]
  rw [if_neg hallowed]
  exact hconclude

/-- In the combined result, each of the two contracts is found in its project. -/
theorem Result.combine_spec_namesakes : ∃ report combined outer inner,
    (Request.all "/").MayReport namesakes report ∧ report.combined = some combined ∧
    report.projects = [outer, inner] ∧
    combined.contracts.filter (·.project = some ".") = outer.contracts ∧
    combined.contracts.filter (·.project = some "inner") = inner.contracts ∧
    combined.fullInterface "C" (some "inner") = inner.fullInterface "C" none := by
  obtain ⟨report, outer, inner, hreport, hprojects, houter, hinner⟩ := exists_report_namesakes
  have hmay : (Request.all "/").MayReport namesakes report := .session _ hreport
  obtain ⟨root, combined, hroot, hcombined, -, hapart⟩ := (combine_spec namesakeOuter namesakeOuter
    [] [] namesakes "/").2.2.2.2.2.2 report proper_namesakes plain_namesakes hmay
  rw [validateRoot_namesakes] at hroot
  cases hroot
  have hapart₁ := hapart outer (by simp [hprojects])
  have hapart₂ := hapart inner (by simp [hprojects])
  rw [houter] at hapart₁
  rw [hinner] at hapart₂
  exact ⟨report, combined, outer, inner, hmay, hcombined, hprojects, hapart₁.1, hapart₂.1,
    hapart₂.2.2 "C"⟩

end Scan

end AbiIndex
