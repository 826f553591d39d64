import AbiIndex.Proofs.CacheTransparency
import AbiIndex.Proofs.FaithfulStore
import AbiIndex.Proofs.ListFacts
import AbiIndex.Proofs.Containment
import Mathlib.Data.List.Perm.Basic

/-!
# How often a record stands in a result

A file keeps its records in one list, each with the name of its contract. A result lists them by
contract: each contract takes the records with its name. So no record is lost, and a record whose
contract has namesakes in the file stands in the result once for each of them.

## Key results

- `ResolvedUnit.attached_perm`: the records of all contracts of a file are the copies of its records
- `ResolvedUnit.holders_pos`: every record has a contract to stand with, or stands outside of
  contracts
- `countP_copies_eq_iff`: the copies are as many as the records if no record has several
- `keeps_stored`: what each file of a scan contributes, whatever the store holds
- `Request.records_of_scan`: the records and the totals of each project of a scan that nothing stops
-/

namespace AbiIndex

open AbiIndex.Abi AbiIndex.Source

/-! ## Copies -/

section Replicate

variable {α : Type} {n : α → Nat} {xs : List α}

theorem count_flatMap_replicate [DecidableEq α] (n : α → Nat) (xs : List α) (a : α) :
    (xs.flatMap fun x => List.replicate (n x) x).count a = n a * xs.count a := by
  induction xs with
  | nil => rfl
  | cons x xs ih =>
    rw [List.flatMap_cons, List.count_append, ih, List.count_replicate, List.count_cons]
    by_cases h : x = a
    · subst h
      simp [Nat.mul_add, Nat.add_comm]
    · simp [h]

/-- If nothing is left out, there are as many copies as elements only if no element has several. -/
theorem countP_flatMap_replicate (p : α → Bool) (hn : ∀ x ∈ xs, 0 < n x) :
    xs.countP p ≤ (xs.flatMap fun x => List.replicate (n x) x).countP p ∧
    ((xs.flatMap fun x => List.replicate (n x) x).countP p = xs.countP p ↔
      ∀ x ∈ xs, p x → n x = 1) := by
  induction xs with
  | nil => simp
  | cons x xs ih =>
    rw [List.forall_mem_cons] at hn
    obtain ⟨hle, heq⟩ := ih hn.2
    have hx := hn.1
    rw [List.flatMap_cons, List.countP_append, List.countP_replicate, List.countP_cons,
      List.forall_mem_cons, ← heq]
    cases p x with
    | true =>
      simp only [if_true, true_implies]
      omega
    | false =>
      simp only [Bool.false_eq_true, if_false, false_implies, true_and]
      omega

end Replicate

namespace Abi.ResolvedUnit

/-- How many contracts of the file the record stands with: those with the name of its contract. A
record that belongs to no contract stands alone. -/
def holders (u : ResolvedUnit) (x : Record) : Nat :=
  match x.contract with
  | none => 1
  | some name => u.unit.contracts.countP (·.name = name)

/-- The records of the file, each as often as it stands with a contract. -/
def copies (u : ResolvedUnit) : List Record :=
  u.records.flatMap fun x => List.replicate (u.holders x) x

variable {u : ResolvedUnit}

theorem count_recordsFor (u : ResolvedUnit) (contract : Option String) (x : Record) :
    (u.recordsFor contract).count x = if x.contract = contract then u.records.count x else 0 := by
  rw [recordsFor]
  split
  · rename_i h
    exact List.count_filter (by simpa using h)
  · rename_i h
    exact List.count_eq_zero_of_not_mem fun hmem => h (by simpa using (List.mem_filter.1 hmem).2)

theorem count_contracts (u : ResolvedUnit) (cs : List ContractDecl) (x : Record) :
    (cs.flatMap fun c => u.recordsFor (some c.name)).count x =
      cs.countP (fun c => x.contract = some c.name) * u.records.count x := by
  induction cs with
  | nil => simp
  | cons c cs ih =>
    rw [List.flatMap_cons, List.count_append, ih, count_recordsFor, List.countP_cons]
    split
    · rename_i h
      simp [h, Nat.add_mul, Nat.add_comm]
    · rename_i h
      simp [h]

/-- The records of all contracts, and those outside of contracts, are the copies. -/
theorem attached_perm (u : ResolvedUnit) :
    ((u.unit.contracts.flatMap fun c => u.recordsFor (some c.name)) ++ u.recordsFor none).Perm
      u.copies := by
  refine List.perm_iff_count.2 fun x => ?_
  rw [List.count_append, count_contracts, count_recordsFor, copies, count_flatMap_replicate,
    holders]
  cases x.contract with
  | none => simp
  | some name => simp [eq_comm]

/-- Without namesakes the copies are the records themselves. -/
theorem copies_eq (h : ∀ x ∈ u.records, u.holders x = 1) : u.copies = u.records := by
  rw [copies]
  refine (List.flatMap_congr fun x hx => ?_).trans (List.flatMap_singleton' _)
  rw [h x hx, List.replicate_one]

/-- The contract of a record is one of the file. -/
theorem holders_pos {reg : Registry} {unit : SourceUnit} (h : resolveUnit reg unit = .ok u) :
    ∀ x ∈ u.records, 0 < u.holders x := by
  obtain ⟨outcomes, houtcomes, rfl⟩ := resolveUnit_eq_ok_iff.1 h
  intro x hx
  obtain ⟨o, ho, hleft⟩ := List.mem_filterMap.1 hx
  obtain ⟨d, hd, houtcome⟩ := exists_left_of_forall₂ houtcomes ho
  have hcontract : x.contract = d.contract := by
    cases houtcome with
    | record => cases hleft; rfl
    | dropped => cases hleft
  rw [holders, hcontract]
  rcases List.mem_append.1 hd with hd | hd
  · rcases List.mem_append.1 hd with hd | hd
    · obtain ⟨c, hc, hd⟩ := List.mem_flatMap.1 hd
      have hname : d.contract = some c.name := by
        simp only [Declared.ofContract, List.mem_append, List.mem_map] at hd
        rcases hd with (⟨_, _, rfl⟩ | ⟨_, _, rfl⟩) | ⟨_, _, rfl⟩ <;> rfl
      rw [hname]
      exact List.countP_pos_iff.2 ⟨c, hc, by simp⟩
    · obtain ⟨_, _, rfl⟩ := List.mem_map.1 hd
      exact Nat.one_pos
  · obtain ⟨_, _, rfl⟩ := List.mem_map.1 hd
    exact Nat.one_pos

/-- In files whose records all stand somewhere, the copies that have a property are as many as the
records that have it only if none of these has several. -/
theorem countP_copies_eq_iff {us : List ResolvedUnit} (p : Record → Bool)
    (h : ∀ u ∈ us, ∀ x ∈ u.records, 0 < u.holders x) :
    (us.flatMap (·.copies)).countP p = (us.flatMap (·.records)).countP p ↔
      ∀ u ∈ us, ∀ x ∈ u.records, p x → u.holders x = 1 := by
  suffices hboth : (us.flatMap (·.records)).countP p ≤ (us.flatMap (·.copies)).countP p ∧
      ((us.flatMap (·.copies)).countP p = (us.flatMap (·.records)).countP p ↔
        ∀ u ∈ us, ∀ x ∈ u.records, p x → u.holders x = 1) from hboth.2
  induction us with
  | nil => simp
  | cons u us ih =>
    rw [List.forall_mem_cons] at h
    obtain ⟨hle, heq⟩ := ih h.2
    obtain ⟨hle', heq'⟩ := countP_flatMap_replicate p h.1
    rw [List.flatMap_cons, List.flatMap_cons, List.countP_append, List.countP_append,
      List.forall_mem_cons, ← heq, ← heq']
    show _ ≤ (u.records.flatMap _).countP p + _ ∧ ((u.records.flatMap _).countP p + _ = _ ↔ _)
    omega

end Abi.ResolvedUnit

namespace Scan

/-! ## The records of a result -/

section Results

variable {info : Project.Info} {label : Option String} {isPartial : Bool}
  {outcomes : List FileOutcome} {resolved : List ResolvedUnit}

/-- A label does not change the kind of a record. -/
theorem kind_tagged (label : Option String) (x : Record) : (tagged label x).kind = x.kind := by
  rw [tagged]
  split <;> rfl

/-- A result has the copies of the records of its files, with its label. -/
theorem Result.records_ofFiles_perm :
    (ofFiles info label isPartial outcomes resolved).records.Perm
      ((resolved.flatMap (·.copies)).map (tagged label)) := by
  have hrecords : (ofFiles info label isPartial outcomes resolved).records =
      resolved.flatMap (fun u =>
        (u.unit.contracts.flatMap fun c => u.recordsFor (some c.name)).map (tagged label)) ++
      resolved.flatMap fun u => (u.recordsFor none).map (tagged label) := by
    simp only [records, ofFiles, withCollisions, contractsOf, List.flatMap_assoc, List.flatMap_map,
      List.map_flatMap]
  rw [hrecords, List.map_flatMap]
  refine (List.flatMap_append_perm _ _ _).trans (List.Perm.flatMap_left _ fun u _ => ?_)
  rw [← List.map_append]
  exact u.attached_perm.map _

/-- The number of records of a kind. -/
def Totals.count (totals : Totals) : SignatureKind → Nat
  | .function => totals.functions
  | .event => totals.events
  | .error => totals.errors

theorem Result.count_totals (r : Result) (kind : SignatureKind) :
    r.totals.count kind = r.records.countP (·.kind = kind) := by
  cases kind <;> rfl

end Results

/-! ## What a file contributes -/

/-- The store has this entry from before a scan, or a file of the tree was read for it. -/
inductive Stored (t : FileTree) (before : Cache SourceUnit) : CacheEntry SourceUnit → Prop
  | earlier {e : CacheEntry SourceUnit} (mem : e ∈ before.entries) : Stored t before e
  | read {root path : Path} {file : LoadedFile} {unit : SourceUnit}
      (loaded : LoadedFile.load t root path = .ok file) (extracted : file.extract = .ok unit) :
      Stored t before ⟨file.key, file.fingerprint, unit⟩

/-- What a file of the project at `root` contributes to a scan, given the store before it: what reading
its declarations gives, or the declarations that the store has for it. -/
inductive FileOutcome.Contributes (t : FileTree) (before : Cache SourceUnit) (root path : Path) :
    FileOutcome → Prop
  | read : Contributes t before root path (.direct t root path)
  | held {file : LoadedFile} {e : CacheEntry SourceUnit}
      (loaded : LoadedFile.load t root path = .ok file) (stored : Stored t before e)
      (key : e.path = file.key) (fingerprint : e.fingerprint = file.fingerprint)
      (label : e.value.path = file.label) :
      Contributes t before root path (.ofUnit file (.ok e.value))

section Contributions

variable {t : FileTree} {before : Cache SourceUnit} {root path : Path}

/-- The work on the files of a tree keeps track of where the entries of the store come from. -/
theorem keeps_stored (t : FileTree) (before : Cache SourceUnit) :
    Keeps t (fun cache => ∀ e ∈ cache.entries, Stored t before e)
      (FileOutcome.Contributes t before) where
  lookUp _ h e he := h e (Cache.mem_of_mem_get he)
  remember h hfile e he := by
    rcases LoadedFile.mem_remember he with hold | ⟨unit, hextract, rfl⟩
    · exact h e hold
    · exact .read hfile hextract
  read _ _ := .read
  found h hfile hfound := by
    obtain ⟨hget, hlabel⟩ := Option.filter_eq_some_iff.1 hfound
    obtain ⟨e, he, hkey, hfingerprint, rfl⟩ := Cache.exists_of_get_eq_some hget
    exact .held hfile (h e he) hkey hfingerprint (of_decide_eq_true hlabel)

/-- With a store that fits the tree, a file contributes what its declarations give. -/
theorem FileOutcome.Contributes.eq_direct (ht : t.top.Plain) (hbefore : Faithful t before)
    {outcome : FileOutcome} (h : Contributes t before root path outcome) :
    outcome = .direct t root path := by
  cases h with
  | read => rfl
  | @held file e loaded stored key fingerprint label =>
    have hextract : file.extract = .ok e.value := by
      cases stored with
      | earlier mem => exact hbefore e mem root path file loaded key.symm fingerprint.symm label.symm
      | @read root' path' file' unit loaded' extracted =>
        have hlabel : file'.label = file.label := (path_of_extract extracted).symm.trans label
        rw [LoadedFile.extract, source_eq_of_key ht loaded loaded' key.symm, ← hlabel]
        exact extracted
    rw [direct, loaded]
    exact congrArg (ofUnit file) hextract.symm

end Contributions

/-! ## Scans that nothing stops -/

/-- All files that were read are resolved, each of them against the names of all. -/
def ResolvedTogether (units : List SourceUnit) (resolved : List ResolvedUnit) : Prop :=
  List.Forall₂ (fun unit u => resolveUnit (.ofUnits units) unit = .ok u) units resolved

/-- The result puts together what the source files of the project contributed, each of them once and
in their order. -/
def Result.IsWhole (settings : Settings) (t : FileTree) (before : Cache SourceUnit)
    (info : Project.Info) (label : Option String) (resolved : List ResolvedUnit) (r : Result) :
    Prop :=
  ∃ files outcomes,
    Project.sourceFiles t settings.excludeDirs settings.includeTests info = .ok files ∧
    List.Forall₂ (FileOutcome.Contributes t before info.root) files outcomes ∧
    ResolvedTogether (outcomes.filterMap (·.unit)) resolved ∧
    r = .ofFiles info label false outcomes resolved

/-- The result puts together what the declarations of the given files contribute. -/
def Result.IsFrom (t : FileTree) (info : Project.Info) (label : Option String) (files : List Path)
    (r : Result) : Prop :=
  ∃ resolved,
    ResolvedTogether ((files.map (FileOutcome.direct t info.root)).filterMap (·.unit)) resolved ∧
    r = .ofFiles info label false (files.map (FileOutcome.direct t info.root)) resolved

/-- With a store that fits the tree, a result puts together what the files declare. -/
theorem Result.IsWhole.exists_isFrom {settings : Settings} {t : FileTree}
    {before : Cache SourceUnit} {info : Project.Info} {label : Option String}
    {resolved : List ResolvedUnit} {r : Result} (ht : t.top.Plain) (hbefore : Faithful t before)
    (h : r.IsWhole settings t before info label resolved) : ∃ files,
      Project.sourceFiles t settings.excludeDirs settings.includeTests info = .ok files ∧
      r.IsFrom t info label files := by
  obtain ⟨files, outcomes, hfiles, houtcomes, htogether, hr⟩ := h
  have hdirect : List.Forall₂ (fun f o => o = FileOutcome.direct t info.root f) files outcomes :=
    houtcomes.imp fun _ _ h => h.eq_direct ht hbefore
  have heq : outcomes = files.map (FileOutcome.direct t info.root) := by
    rw [← List.forall₂_eq_eq_eq, List.forall₂_map_right_iff]
    exact hdirect.flip
  exact ⟨files, hfiles, resolved, heq ▸ htogether, heq ▸ hr⟩

/-- How a scan may end that nothing stops, given the store before it: in a session that works on one
file after the other, or in whatever order its tasks make their steps. -/
inductive Request.EndsUnstopped (settings : Settings) (t : FileTree) (before : Cache SourceUnit)
    (request : Request) (outcome : Except ScanError Report) : Prop
  | session (s : Session) (undisturbed : s.Undisturbed) (settings_eq : s.settings = settings)
      (cache_eq : s.cache = before) (ends : ((request.scan t).exec s).1 = outcome)
  | run (schedule : List (Nat × Nat))
      (ends : request.outcome? settings t
        (Scan.run (stepJobs t) schedule (request.start settings t) before).1 = some outcome)

section Scans

variable {settings : Settings} {t : FileTree} {before : Cache SourceUnit} {request : Request}

theorem Request.EndsUnstopped.exists_run {outcome : Except ScanError Report}
    (h : request.EndsUnstopped settings t before outcome) : ∃ schedule, request.outcome? settings t
      (Scan.run (stepJobs t) schedule (request.start settings t) before).1 = some outcome := by
  cases h with
  | run schedule ends => exact ⟨schedule, ends⟩
  | session s undisturbed settings_eq cache_eq ends =>
    have hisRun : request.IsRun settings t before := request.isRun before
    obtain ⟨outcome', cache₁, places, jobs, hdoes, hrun, houtcome⟩ := hisRun
    obtain rfl := (hdoes s undisturbed settings_eq cache_eq).1.symm.trans ends
    exact ⟨places, by rw [hrun, houtcome]⟩

namespace FileTask

/-- The file that a task is about. -/
def place (task : FileTask) : Path × Path := (task.root, task.path)

theorem place_step (t : FileTree) (task : FileTask) (cache : Cache SourceUnit) :
    (task.step t cache).1.place = task.place := by
  rw [step]
  split
  · split
    · rfl
    · split <;> rfl
  · rfl
  · rfl

/-- Once they are done, tasks that fit their files have contributed for them. -/
theorem forall₂_of_mapM {Gives : Path → Path → FileOutcome → Prop} {tasks : List FileTask}
    {outcomes : List FileOutcome} {root : Path} {files : List Path}
    (hplaces : tasks.map place = files.map (root, ·)) (hfits : ∀ task ∈ tasks, task.Fits t Gives)
    (h : tasks.mapM outcome? = some outcomes) : List.Forall₂ (Gives root) files outcomes := by
  induction tasks generalizing files outcomes with
  | nil =>
    cases h
    rw [List.map_nil, eq_comm, List.map_eq_nil_iff] at hplaces
    rw [hplaces]
    exact .nil
  | cons task tasks ih =>
    obtain ⟨file, files, rfl, hplace, hplaces⟩ := List.map_eq_cons_iff.1 hplaces.symm
    rw [List.forall_mem_cons] at hfits
    rw [List.mapM_cons] at h
    obtain ⟨o, ho, h⟩ := Option.bind_eq_some_iff.1 h
    obtain ⟨rest, hrest, h⟩ := Option.bind_eq_some_iff.1 h
    cases h
    refine .cons ?_ (ih hplaces.symm hfits.2 hrest)
    obtain ⟨root', path', stage⟩ := task
    cases hplace
    cases stage with
    | done outcome =>
      cases ho
      exact hfits.1
    | _ => cases ho

end FileTask

namespace ProjectJob

/-- The project and its files. -/
def shape (job : ProjectJob) :
    Project.Info × Option String × Option ScanError × List (Path × Path) :=
  (job.info, job.label, job.fault, job.tasks.map FileTask.place)

theorem shape_step (t : FileTree) (j : Nat) (job : ProjectJob) (cache : Cache SourceUnit) :
    (job.step t j cache).1.shape = job.shape := by
  rw [shape, shape, ← map_stepAt (FileTask.place_step t) j job.tasks cache]
  rfl

theorem map_shape_run (t : FileTree) (schedule : List (Nat × Nat)) (jobs : List ProjectJob)
    (cache : Cache SourceUnit) :
    (Scan.run (stepJobs t) schedule jobs cache).1.map shape = jobs.map shape := by
  refine run_induction (P := fun (jobs' : List ProjectJob) (_ : Cache SourceUnit) =>
    jobs'.map shape = jobs.map shape) ?_ schedule rfl
  intro place jobs' cache' h
  rw [← h]
  exact map_stepAt (shape_step t place.2) place.1 jobs' cache'

theorem shape_start_eq {info : Project.Info} {label : Option String}
    {job : ProjectJob} (h : job.shape = (start settings t info label).shape)
    (hfault : job.fault = none) : ∃ files,
      Project.sourceFiles t settings.excludeDirs settings.includeTests info = .ok files ∧
      job.tasks.map FileTask.place = files.map (info.root, ·) ∧ job.info = info ∧
      job.label = label := by
  rw [start] at h
  split at h
  · simp [shape, hfault] at h
  · rename_i files hfiles
    simp only [shape, Prod.mk.injEq, List.map_map] at h
    exact ⟨files, hfiles, h.2.2.2, h.1, h.2.1⟩

/-- A project that has ended with a result has put together what all its files contributed. -/
theorem isWhole_of_outcome? {info : Project.Info} {label : Option String} {job : ProjectJob}
    (hshape : job.shape = (start settings t info label).shape)
    (hfits : job.Fits t (FileOutcome.Contributes t before)) {r : Result}
    (h : job.outcome? settings = some (.ok r)) :
    ∃ resolved, r.IsWhole settings t before info label resolved := by
  rw [outcome?] at h
  split at h
  · cases h
  rename_i hfault
  split at h
  · cases h
  obtain ⟨outcomes, houtcomes, h⟩ := Option.map_eq_some_iff.1 h
  obtain ⟨files, hfiles, hplaces, rfl, rfl⟩ := shape_start_eq hshape hfault
  obtain ⟨resolved, hresolved, rfl⟩ := map_eq_ok_iff.1 h
  rw [resolveAll] at hresolved
  split at hresolved
  · cases hresolved
  refine ⟨resolved, files, outcomes, hfiles, FileTask.forall₂_of_mapM hplaces hfits houtcomes, ?_,
    rfl⟩
  exact (mapM_eq_ok_iff.1 hresolved).imp fun _ _ h => mapError_eq_ok_iff.1 h

end ProjectJob

/-- The results of all projects are known. -/
theorem forall₂_of_gather? {jobs : List ProjectJob} {results : List Result}
    (h : gather? settings jobs = some (.ok results)) :
    List.Forall₂ (fun job r => job.outcome? settings = some (.ok r)) jobs results := by
  induction jobs generalizing results with
  | nil =>
    cases h
    exact .nil
  | cons job jobs ih =>
    rw [gather?] at h
    split at h
    · cases h
    · cases h
    · rename_i r hr
      obtain ⟨rest, hrest, heq⟩ := Option.map_eq_some_iff.1 h
      cases rest with
      | error e => cases heq
      | ok rs =>
        cases heq
        exact .cons hr (ih hrest)

/-- The report has the results of the projects. -/
theorem Request.projects_of_conclude {plan : Plan} {results : List Result} {report : Report}
    (h : request.conclude t plan results = .ok report) : report.projects = results := by
  cases request with
  | project given =>
    cases h
    rfl
  | all given =>
    obtain ⟨c, hc, rfl⟩ := map_eq_ok_iff.1 h
    rw [combineAll] at hc
    obtain ⟨info, -, hc⟩ := bind_eq_ok_iff.1 hc
    cases hc
    rfl

/-- A scan that nothing stops has one result for each project, which is put together from all its
files. -/
theorem Request.EndsUnstopped.forall₂_isWhole {report : Report}
    (h : request.EndsUnstopped settings t before (.ok report)) :
    ∃ plan, request.plan settings t = .ok plan ∧
      List.Forall₂ (fun p r => ∃ resolved, Result.IsWhole settings t before p.1 p.2 resolved r)
        plan.projects report.projects := by
  obtain ⟨schedule, h⟩ := h.exists_run
  have hshape := ProjectJob.map_shape_run t schedule (request.start settings t) before
  have hfits := (run_fits (keeps_stored t before) schedule (fun _ he => .earlier he)
    (Request.start_fits settings t _ request)).2
  generalize (Scan.run (stepJobs t) schedule (request.start settings t) before).1 = jobs
    at h hshape hfits
  rw [outcome?] at h
  split at h
  · cases h
  rename_i plan hplan
  refine ⟨plan, hplan, ?_⟩
  split at h
  · cases h
  obtain ⟨gathered, hgathered, h⟩ := Option.map_eq_some_iff.1 h
  obtain ⟨results, rfl, hconclude⟩ := bind_eq_ok_iff.1 h
  rw [projects_of_conclude hconclude]
  -- what is said of a project depends on no more than its shape
  have hall : List.Forall₂ (fun shape r => ∀ info label,
      shape = (ProjectJob.start settings t info label).shape →
        ∃ resolved, Result.IsWhole settings t before info label resolved r)
      (jobs.map ProjectJob.shape) results := by
    rw [List.forall₂_map_left_iff]
    refine ((List.forall₂_and_left _ _).2 ⟨hfits, forall₂_of_gather? hgathered⟩).imp ?_
    rintro job r ⟨hjob, hr⟩ info label hshape
    exact ProjectJob.isWhole_of_outcome? hshape hjob hr
  rw [hshape, start, hplan, List.map_map, List.forall₂_map_left_iff] at hall
  exact hall.imp fun p r h => h p.1 p.2 rfl

end Scans

/-- In a scan that nothing stops, each project has a result with the records of all its files, which
are resolved together. A record stands there once for every contract of its file with the name of
its contract, and once if it belongs to no contract; none is lost. So the result has exactly the
records of its files if and only if no record of theirs has a contract with namesakes in the file,
and its totals of functions, events and errors are the numbers of these records if and only if no
function, event or error has. -/
theorem Request.records_of_scan {settings : Settings} {t : FileTree} {before : Cache SourceUnit}
    {request : Request} {report : Report}
    (h : request.EndsUnstopped settings t before (.ok report)) :
    ∃ plan, request.plan settings t = .ok plan ∧ List.Forall₂ (fun p r => ∃ resolved,
      Result.IsWhole settings t before p.1 p.2 resolved r ∧
      r.records.Perm ((resolved.flatMap (·.copies)).map (tagged p.2)) ∧
      (∀ u ∈ resolved, ∀ x ∈ u.records, 0 < u.holders x) ∧
      (r.records.Perm ((resolved.flatMap (·.records)).map (tagged p.2)) ↔
        ∀ u ∈ resolved, ∀ x ∈ u.records, u.holders x = 1) ∧
      ∀ kind, r.totals.count kind = (resolved.flatMap (·.copies)).countP (·.kind = kind) ∧
        (r.totals.count kind = (resolved.flatMap (·.records)).countP (·.kind = kind) ↔
          ∀ u ∈ resolved, ∀ x ∈ u.records, x.kind = kind → u.holders x = 1))
      plan.projects report.projects := by
  obtain ⟨plan, hplan, hall⟩ := h.forall₂_isWhole
  refine ⟨plan, hplan, hall.imp ?_⟩
  rintro ⟨info, label⟩ r ⟨resolved, hwhole⟩
  obtain ⟨files, outcomes, -, -, htogether, rfl⟩ := id hwhole
  have hperm := @Result.records_ofFiles_perm info label false outcomes resolved
  have hpos : ∀ u ∈ resolved, ∀ x ∈ u.records, 0 < u.holders x := by
    intro u hu
    obtain ⟨unit, -, hunit⟩ := exists_left_of_forall₂ htogether hu
    exact ResolvedUnit.holders_pos hunit
  have hcount : ∀ kind, ∀ xs : List Record,
      (xs.map (tagged label)).countP (·.kind = kind) = xs.countP (·.kind = kind) := by
    intro kind xs
    simp only [List.countP_map, Function.comp_def, kind_tagged]
  refine ⟨resolved, hwhole, hperm, hpos, ⟨fun hrecords => ?_, fun honce => ?_⟩, fun kind => ?_⟩
  · have hlength := (hperm.symm.trans hrecords).length_eq
    rw [List.length_map, List.length_map, ← List.countP_true] at hlength
    simpa using (ResolvedUnit.countP_copies_eq_iff (fun _ => true) hpos).1 hlength
  · rwa [List.flatMap_congr fun u hu => ResolvedUnit.copies_eq (honce u hu)] at hperm
  · have htotal : (Result.ofFiles info label false outcomes resolved).totals.count kind =
        (resolved.flatMap (·.copies)).countP (·.kind = kind) := by
      rw [Result.count_totals, hperm.countP_eq, hcount]
    refine ⟨htotal, ?_⟩
    rw [htotal, ResolvedUnit.countP_copies_eq_iff _ hpos]
    simp only [decide_eq_true_eq]

/-- Two contracts of one name in a file, with a function each. -/
def twins : FileTree := singleFile "contract A \x7b function f() public \x7b\x7d \x7d
contract A \x7b function g() public \x7b\x7d \x7d"

/-- The two functions stand with both contracts. The result is put together from the declarations of
the file. -/
theorem Request.records_of_scan_twins : ∃ r resolved,
    fresh .default 1 twins (.project "/") = .ok ⟨[r], none⟩ ∧
    Result.IsWhole .default twins (.new 1) singleProject none resolved r ∧
    r.IsFrom twins singleProject none [⟨.root, ["A.sol"]⟩] ∧
    r.records.Perm ((resolved.flatMap (·.copies)).map (tagged none)) ∧
    r.totals.functions = 4 := by
  have hplain : twins.top.Plain :=
    .dir (by decide) fun e he => by
      cases List.mem_singleton.1 he
      exact .file _
  have hdirect : (((ProjectJob.mk singleProject none none
      [⟨⟨.root, []⟩, ⟨.root, ["A.sol"]⟩, .waiting⟩]).direct .default twins).map
        (·.totals.functions)).toOption = some 4 := by
    decide +kernel
  obtain ⟨r, hr, hfunctions⟩ := map_eq_ok_iff.1 (eq_ok_of_toOption hdirect)
  have hplan : (project "/").plan .default twins = _ := plan_singleFile _
  have hstart : (project "/").start .default twins = _ := start_singleFile _
  have hfresh : fresh .default 1 twins (project "/") = .ok ⟨[r], none⟩ := by
    have hallowed : ¬Settings.default.refuses
        [(singleProject, (none : Option String))].length = true := Bool.false_ne_true
    rw [fresh_eq_direct_of_plain hplain, direct, hplan]
    simp only [bind, Except.bind, hstart, List.mapM_cons, hr]
    rw [if_neg hallowed]
    rfl
  obtain ⟨plan, hplan', hall⟩ := records_of_scan (.session _ ⟨rfl, fun _ => rfl⟩ rfl rfl hfresh)
  cases hplan.symm.trans hplan'
  obtain ⟨⟨resolved, hwhole, hperm, -⟩, -⟩ := List.forall₂_cons.1 hall
  obtain ⟨files, hfiles, hfrom⟩ := hwhole.exists_isFrom hplain (Faithful.new 1)
  cases (sourceFiles_singleFile _).symm.trans hfiles
  exact ⟨r, resolved, hfresh, hwhole, hfrom, hperm, hfunctions⟩

end Scan

end AbiIndex
