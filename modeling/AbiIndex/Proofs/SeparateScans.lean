import AbiIndex.Proofs.Combination
import AbiIndex.Proofs.DirectoryLookup

/-!
# Projects that are scanned together or alone

A scan of all projects in a directory gives for each of them what a scan of this project alone
gives, but for the label of the project, which stands at contracts and records and in front of the
locations of collisions. Both scans find the same nested projects, although one of them looks for
them from further above, and so they read the same files.

## Key results

- `Collision.detect_map_tagged`: labels change nothing but the locations of collisions
- `ProjectJob.direct_labelled`: a label changes nothing else of the result of a project
- `Project.Found.plan_project`: a project that a search finds is found when it is asked for alone
- `Request.scan_all_eq_each`: scanning all projects is scanning each of them
-/

namespace AbiIndex

open AbiIndex.Abi

/-! ## Labels -/

namespace Collision

/-- The collision with the label of a project at its locations. -/
def inProject (label : String) (c : Collision) : Collision :=
  { c with locations := c.locations.map (label ++ ":" ++ ·) }

/-- The collision without a label at its locations. -/
def withoutProject (label : String) (c : Collision) : Collision :=
  { c with locations := c.locations.map fun text =>
      String.ofList (text.toList.drop (label ++ ":").length) }

variable {label : String}

theorem withoutProject_inProject (label : String) (c : Collision) :
    (c.inProject label).withoutProject label = c := by
  have htext : ∀ text : String, String.ofList
      ((label ++ ":" ++ text).toList.drop (label ++ ":").length) = text := by
    intro text
    rw [String.toList_append, ← String.length_toList, List.drop_left, String.ofList_toList]
  simp only [withoutProject, inProject, List.map_map, Function.comp_def, htext, List.map_id']

/-- The label of a project stands in front of the location of a record. -/
theorem location_tagged (hlabel : label ≠ "") {rec : Record} (hrec : rec.project = none) :
    location (Scan.tagged (some label) rec) = label ++ ":" ++ location rec := by
  simp only [location, Scan.tagged, Option.isSome_some, if_true, if_neg hlabel, hrec]
  simp [String.append_assoc]

theorem ofGroup_map_tagged (hlabel : label ≠ "") {group : List Record}
    (hgroup : ∀ rec ∈ group, rec.project = none) (k : String × SignatureKind) :
    ofGroup k (group.map (Scan.tagged (some label))) = (ofGroup k group).map (inProject label) := by
  have hlocations : ∀ s : String, ((group.map (Scan.tagged (some label))).filter
      (·.signature = s)).map location =
        ((group.filter (·.signature = s)).map location).map (label ++ ":" ++ ·) := by
    intro s
    rw [List.filter_map, List.map_map, List.map_map]
    exact List.map_congr_left fun rec hrec =>
      location_tagged hlabel (hgroup rec (List.mem_filter.1 hrec).1)
  have hsignatures : (group.map (Scan.tagged (some label))).map (·.signature) =
      group.map (·.signature) := by
    rw [List.map_map]
    rfl
  simp only [ofGroup, hsignatures, hlocations]
  split
  · rfl
  · rw [Option.map_some, inProject, List.map_flatMap]

/-- With a label at all records, the same collisions are found. -/
theorem detect_map_tagged (hlabel : label ≠ "") {records : List Record}
    (hrecords : ∀ rec ∈ records, rec.project = none) :
    detect (records.map (Scan.tagged (some label))) = (detect records).map (inProject label) := by
  have heligible : (records.map (Scan.tagged (some label))).filter isEligible =
      (records.filter isEligible).map (Scan.tagged (some label)) := by
    rw [List.filter_map]
    rfl
  have hgroup : ∀ k, ofGroup k (((records.filter isEligible).map
      (Scan.tagged (some label))).filter (key · = k)) =
        (ofGroup k ((records.filter isEligible).filter (key · = k))).map (inProject label) := by
    intro k
    rw [List.filter_map]
    refine ofGroup_map_tagged hlabel (fun rec hrec => hrecords rec ?_) k
    exact (List.mem_filter.1 (List.mem_filter.1 hrec).1).1
  have hkeys : ((records.filter isEligible).map (Scan.tagged (some label))).map key =
      (records.filter isEligible).map key := by
    rw [List.map_map]
    rfl
  have hsort : ∀ found : List Collision, (found.map (inProject label)).mergeSort noLater =
      (found.mergeSort noLater).map (inProject label) := by
    intro found
    symm
    apply List.map_mergeSort
    exact fun _ _ _ _ => rfl
  simp only [detect, heligible, hkeys, hgroup, ← hsort, List.map_filterMap]

end Collision

namespace Scan

open AbiIndex.Source

/-- The contract with the label of its project. -/
def ContractRecords.inProject (label : String) (c : ContractRecords) : ContractRecords :=
  { c with records := c.records.map (tagged (some label)), project := some label }

/-- The record without the label of a project. -/
def untagged (rec : Record) : Record := { rec with project := none }

/-- The contract without the label of a project. -/
def ContractRecords.withoutProject (c : ContractRecords) : ContractRecords :=
  { c with records := c.records.map untagged, project := none }

namespace Result

/-- The result with the label of its project at contracts, records and locations of collisions. -/
def inProject (label : String) (r : Result) : Result :=
  { r with
    contracts := r.contracts.map (.inProject label)
    freeRecords := r.freeRecords.map (tagged (some label))
    collisions := r.collisions.map (.inProject label) }

/-- The result without the label of its project. -/
def withoutProject (label : String) (r : Result) : Result :=
  { r with
    contracts := r.contracts.map (·.withoutProject)
    freeRecords := r.freeRecords.map untagged
    collisions := r.collisions.map (.withoutProject label) }

/-- Nothing in the result has the label of a project. -/
structure Unlabelled (r : Result) : Prop where
  contracts : ∀ c ∈ r.contracts, c.project = none ∧ ∀ rec ∈ c.records, rec.project = none
  freeRecords : ∀ rec ∈ r.freeRecords, rec.project = none

theorem untagged_tagged {rec : Record} (label : String) (h : rec.project = none) :
    untagged (tagged (some label) rec) = rec := by
  obtain ⟨⟩ := rec
  cases h
  rfl

/-- A label can be taken off again. -/
theorem withoutProject_inProject {r : Result} (h : r.Unlabelled) (label : String) :
    (r.inProject label).withoutProject label = r := by
  have hrecords : ∀ records : List Record, (∀ rec ∈ records, rec.project = none) →
      (records.map (tagged (some label))).map untagged = records := by
    intro records hrecords
    rw [List.map_map]
    refine (List.map_congr_left fun rec hrec => ?_).trans (List.map_id records)
    exact untagged_tagged label (hrecords rec hrec)
  have hcontract : ∀ c ∈ r.contracts, (c.inProject label).withoutProject = c := by
    intro c hc
    obtain ⟨hproject, hall⟩ := h.contracts c hc
    simp only [ContractRecords.inProject, ContractRecords.withoutProject, hrecords _ hall]
    obtain ⟨⟩ := c
    cases hproject
    rfl
  have hcontracts : (r.contracts.map (ContractRecords.inProject label)).map
      ContractRecords.withoutProject = r.contracts := by
    rw [List.map_map]
    exact (List.map_congr_left hcontract).trans (List.map_id _)
  have hcollisions : (r.collisions.map (Collision.inProject label)).map
      (Collision.withoutProject label) = r.collisions := by
    rw [List.map_map]
    exact (List.map_congr_left fun c _ =>
      Collision.withoutProject_inProject label c).trans (List.map_id _)
  simp only [inProject, withoutProject, hcontracts, hcollisions, hrecords _ h.freeRecords]

/-- All records of a result with labels have the label. -/
theorem records_inProject (label : String) (r : Result) :
    (r.inProject label).records = r.records.map (tagged (some label)) := by
  rw [records, records, List.map_append, List.map_flatMap, inProject, List.flatMap_map]
  rfl

/-- A label does not change what the collisions of a result are. -/
theorem withCollisions_inProject {label : String} (hlabel : label ≠ "") {r : Result}
    (h : r.Unlabelled) :
    (r.inProject label).withCollisions = r.withCollisions.inProject label := by
  have hrecords : ∀ rec ∈ r.records, rec.project = none := by
    intro rec hrec
    rcases List.mem_append.1 hrec with hrec | hrec
    · obtain ⟨c, hc, hrec⟩ := List.mem_flatMap.1 hrec
      exact (h.contracts c hc).2 rec hrec
    · exact h.freeRecords rec hrec
  have hdetect := Collision.detect_map_tagged hlabel hrecords
  have hdiagnostics : ((Collision.detect r.records).map (Collision.inProject label)).map
      Collision.diagnostic = (Collision.detect r.records).map Collision.diagnostic := by
    rw [List.map_map]
    rfl
  simp only [withCollisions, records_inProject, hdetect, hdiagnostics]
  rfl

/-- What a project gives before its collisions are looked for. -/
def gathered (info : Project.Info) (label : Option String) (isPartial : Bool)
    (outcomes : List FileOutcome) (resolved : List ResolvedUnit) : Result :=
  { project := info
    contracts := resolved.flatMap (contractsOf label)
    freeRecords := resolved.flatMap fun r => (r.recordsFor none).map (tagged label)
    diagnostics := outcomes.flatMap (·.diagnostics) ++ resolved.flatMap (·.diagnostics)
    collisions := []
    filesScanned := outcomes.length
    isPartial := isPartial }

variable {info : Project.Info} {isPartial : Bool} {outcomes : List FileOutcome}
  {resolved : List ResolvedUnit}

theorem ofFiles_eq (info : Project.Info) (label : Option String) (isPartial : Bool)
    (outcomes : List FileOutcome) (resolved : List ResolvedUnit) :
    ofFiles info label isPartial outcomes resolved =
      (gathered info label isPartial outcomes resolved).withCollisions := rfl

theorem gathered_labelled (label : String) : gathered info (some label) isPartial outcomes resolved =
    (gathered info none isPartial outcomes resolved).inProject label := by
  have hcontracts : resolved.flatMap (contractsOf (some label)) =
      (resolved.flatMap (contractsOf none)).map (ContractRecords.inProject label) := by
    rw [List.map_flatMap]
    refine List.flatMap_congr fun r _ => ?_
    rw [contractsOf, contractsOf, List.map_map]
    refine List.map_congr_left fun c _ => ?_
    simp only [Function.comp_apply, ContractRecords.inProject, List.map_map]
    rfl
  have hfree : (resolved.flatMap fun r => (r.recordsFor none).map (tagged (some label))) =
      (resolved.flatMap fun r => (r.recordsFor none).map (tagged none)).map
        (tagged (some label)) := by
    rw [List.map_flatMap]
    refine List.flatMap_congr fun r _ => ?_
    rw [List.map_map]
    rfl
  simp only [gathered, inProject, hcontracts, hfree]
  rfl

theorem unlabelled_gathered (hresolved : ∀ r ∈ resolved, ∀ rec ∈ r.records, rec.project = none) :
    (gathered info none isPartial outcomes resolved).Unlabelled := by
  have hrecords : ∀ r ∈ resolved, ∀ contract, ∀ rec ∈ (r.recordsFor contract).map (tagged none),
      rec.project = none := by
    intro r hr contract rec hrec
    obtain ⟨own, hown, rfl⟩ := List.mem_map.1 hrec
    exact hresolved r hr own (List.mem_filter.1 hown).1
  constructor
  · intro c hc
    obtain ⟨r, hr, hc⟩ := List.mem_flatMap.1 hc
    obtain ⟨decl, -, rfl⟩ := List.mem_map.1 hc
    exact ⟨rfl, hrecords r hr _⟩
  · intro rec hrec
    obtain ⟨r, hr, hrec⟩ := List.mem_flatMap.1 hrec
    exact hrecords r hr none rec hrec

/-- Of files whose records have no label, a label given to the project is a label given to the
result. -/
theorem ofFiles_labelled {label : String} (hlabel : label ≠ "")
    (hresolved : ∀ r ∈ resolved, ∀ rec ∈ r.records, rec.project = none) :
    ofFiles info (some label) isPartial outcomes resolved =
      (ofFiles info none isPartial outcomes resolved).inProject label ∧
    (ofFiles info none isPartial outcomes resolved).Unlabelled := by
  have hbare := @unlabelled_gathered info isPartial outcomes resolved hresolved
  rw [ofFiles_eq, ofFiles_eq, gathered_labelled, withCollisions_inProject hlabel hbare]
  exact ⟨rfl, hbare.contracts, hbare.freeRecords⟩

end Result

/-! ## The results of projects -/

/-- The records of a file do not have a label when they are made. -/
theorem project_of_resolveUnit {reg : Registry} {unit : SourceUnit} {r : ResolvedUnit}
    (h : resolveUnit reg unit = .ok r) : ∀ rec ∈ r.records, rec.project = none := by
  obtain ⟨outcomes, houtcomes, h⟩ := bind_eq_ok_iff.1 h
  cases h
  intro rec hrec
  obtain ⟨outcome, houtcome, hleft⟩ := List.mem_filterMap.1 hrec
  obtain ⟨d, -, hresolve⟩ := exists_of_mem_mapM houtcomes houtcome
  rw [Declared.resolve] at hresolve
  split at hresolve
  · cases hresolve
    cases hleft
    rfl
  · split at hresolve
    · cases hresolve
      cases hleft
    · cases hresolve

/-- A project that gets a label gives the same, with the label. -/
theorem ProjectJob.direct_labelled {label : String} (hlabel : label ≠ "") (settings : Settings)
    (t : FileTree) (info : Project.Info) :
    (start settings t info (some label)).direct settings t =
      ((start settings t info none).direct settings t).map (Result.inProject label) ∧
    ∀ r, (start settings t info none).direct settings t = .ok r → r.Unlabelled := by
  have hsettle : ∀ outcomes,
      Result.settle settings info (some label) outcomes =
        (Result.settle settings info none outcomes).map (Result.inProject label) ∧
      ∀ r, Result.settle settings info none outcomes = .ok r → r.Unlabelled := by
    intro outcomes
    rw [Result.settle, Result.settle]
    cases hall : resolveAll settings (outcomes.filterMap (·.unit)) with
    | error e =>
      refine ⟨rfl, ?_⟩
      rintro r ⟨⟩
    | ok resolved =>
      have hresolved : ∀ r ∈ resolved, ∀ rec ∈ r.records, rec.project = none := by
        intro r hr
        rw [resolveAll] at hall
        split at hall
        · cases hall
        · obtain ⟨unit, -, hunit⟩ := exists_of_mem_mapM hall hr
          exact project_of_resolveUnit (mapError_eq_ok_iff.1 hunit)
      obtain ⟨heq, hbare⟩ := @Result.ofFiles_labelled info false outcomes resolved label hlabel
        hresolved
      refine ⟨congrArg Except.ok heq, ?_⟩
      rintro r ⟨⟩
      exact hbare
  rw [start, start]
  split
  · refine ⟨rfl, ?_⟩
    rintro r ⟨⟩
  · simp only [direct]
    split
    · refine ⟨rfl, ?_⟩
      rintro r ⟨⟩
    · exact hsettle _

end Scan

/-! ## Projects that are asked for alone -/

namespace Project

open AbiIndex.Scan

variable {t : FileTree} {settings : Settings} {given : String} {root : Path} {info : Info}

/-- A project that a search finds is found in the same form when it is asked for by its path. -/
theorem Found.plan_project (ht : t.top.Proper) (hplain : t.top.Plain) (hnull : t.top.NullFree)
    (hlimit : 0 ≤ settings.maxDepth) (hroot : validateRoot t given = .ok root)
    (hshallow : IsShallow t settings.search root) (h : Found t settings.search root info) :
    (Request.project info.root.render).plan settings t = .ok ⟨info.root, [(info, none)]⟩ := by
  obtain ⟨hanchor, hdots⟩ := validateRoot_spec hroot
  obtain ⟨hanchor', -, hdots'⟩ := h.root_spec ht hanchor hdots
  obtain ⟨n, m, names, honway, hlocate⟩ := h.exists_onWay ht hnull hlimit hroot
  have hvalid := validateRoot_render (FileTree.isPlain_of_locate hplain hlocate) hanchor' hdots'
    hlocate honway.isDir
  obtain ⟨plain, hclassify, hinfo⟩ := h.classified
  have hnested : (markedDirs t settings.search info.root).filter (· ≠ info.root) = info.nested := by
    rw [h.nested, nestedUnder_markedDirs ht hanchor hlimit hshallow honway hlocate]
  simp only [Request.plan, hvalid, bind, Except.bind, hclassify, hnested]
  rw [hinfo]
  rfl

end Project

namespace Scan

open AbiIndex.Project AbiIndex.Source

/-! ## Scans that nothing stops -/

section Scans

variable {t : FileTree} {settings : Settings} {given : String} {request : Request}

/-- How a scan may end that nothing stops, with a store that can be trusted: in a session that works
on one file after the other, or in whatever order its tasks make their steps. -/
inductive Request.EndsWith (settings : Settings) (t : FileTree) (request : Request)
    (outcome : Except ScanError Report) : Prop
  | session (s : Session) (undisturbed : s.Undisturbed) (settings_eq : s.settings = settings)
      (faithful : Faithful t s.cache) (ends : ((request.scan t).exec s).1 = outcome)
  | run (schedule : List (Nat × Nat)) (cache : Cache SourceUnit) (faithful : Faithful t cache)
      (ends : request.outcome? settings t
        (Scan.run (stepJobs t) schedule (request.start settings t) cache).1 = some outcome)

/-- There is only one way in which it ends. -/
theorem Request.EndsWith.eq_direct (ht : t.top.Plain) {outcome : Except ScanError Report}
    (h : request.EndsWith settings t outcome) : outcome = request.direct settings t := by
  cases h with
  | session s undisturbed settings_eq faithful ends =>
    obtain ⟨cache, hdoes⟩ := @exists_does_direct_of_trusted settings t s.cache (Faithful t)
      (Faithful.trusted ht) faithful request
    exact ends.symm.trans (hdoes s undisturbed settings_eq rfl).1
  | run schedule cache faithful ends =>
    rcases (request.outcome?_run_of_trusted (Faithful.trusted ht) faithful schedule rfl).1 with
      hnone | hdirect
    · rw [hnone] at ends
      cases ends
    · exact Option.some.inj (ends.symm.trans hdirect)

/-- What a scan of one project gives. -/
theorem Request.direct_project {root : Path} {info : Info}
    (hplan : (project given).plan settings t = .ok ⟨root, [(info, none)]⟩) :
    (project given).direct settings t =
      ((ProjectJob.start settings t info none).direct settings t).map fun r => ⟨[r], none⟩ := by
  have hallowed : ¬settings.refuses [(info, (none : Option String))].length = true :=
    Bool.false_ne_true
  simp only [direct, start, hplan, bind, Except.bind, List.map_cons, List.map_nil,
    List.mapM_cons, List.mapM_nil]
  rw [if_neg hallowed]
  cases (ProjectJob.start settings t info none).direct settings t <;> rfl

/-- What a scan of all projects gives. -/
theorem Request.direct_all {root : Path} {infos : List Info}
    (hroot : validateRoot t given = .ok root)
    (hinfos : projectsOf t settings.search root (markedDirs t settings.search root) = .ok infos) :
    ((all given).direct settings t).map (·.projects) =
      if settings.refuses infos.length then .error .noWorkers
      else infos.mapM fun info =>
        (ProjectJob.start settings t info (some (root.label info.root))).direct settings t := by
  have hplan : (all given).plan settings t =
      .ok ⟨root, infos.map fun info => (info, some (root.label info.root))⟩ := by
    simp only [plan, hroot, hinfos, bind, Except.bind]
    rfl
  -- the root was looked at before, so that the results can be combined
  obtain ⟨info, hclassify⟩ := exists_classifyDir_of_projectsOf hinfos
  have hconclude : ∀ results plan, plan.root = root →
      ((all given).conclude t plan results).map (·.projects) = .ok results := by
    rintro results plan rfl
    rw [conclude, combineAll, hclassify]
    rfl
  rw [direct, start, hplan]
  simp only [List.map_map, bind, Except.bind, List.length_map]
  split
  · rfl
  · simp only [List.mapM_map, Function.comp_def]
    split
    · rename_i e he
      rw [he]
      rfl
    · rename_i results hresults
      rw [hresults]
      exact hconclude results _ rfl

/-- A scan fails if the search for projects fails. -/
theorem Request.direct_all_of_error {e : DiscoveryError}
    (h : discover t settings.search given = .error e) :
    (all given).direct settings t = .error (.discovery e) := by
  have hplan : (all given).plan settings t = .error (.discovery e) := by
    rw [plan, mapError_eq_error_iff]
    refine ⟨e, ?_, rfl⟩
    rw [discover] at h
    rcases bind_eq_error_iff.1 h with hroot | ⟨root, hroot, hinfos⟩
    · exact bind_eq_error_iff.2 (.inl hroot)
    · exact bind_eq_error_iff.2 (.inr ⟨root, hroot, bind_eq_error_iff.2 (.inl hinfos)⟩)
  rw [direct, hplan]
  rfl

/-- However they end, an undisturbed scan of all projects in a directory does for every project that
the search for projects finds what an undisturbed scan of this project alone does, if no marked
directory lies deeper than the search goes. It gives the same results with labels, which can be
taken off again, or fails as the first of these scans that fails. It fails as a whole if the search
fails. -/
theorem Request.scan_all_eq_each (ht : t.top.Proper) (hplain : t.top.Plain) (hnull : t.top.NullFree)
    (hlimit : 0 ≤ settings.maxDepth)
    (hshallow : ∀ root, validateRoot t given = .ok root → IsShallow t settings.search root)
    {whole : Except ScanError Report} (hwhole : (all given).EndsWith settings t whole)
    {alone : Info → Except ScanError Report}
    (halone : ∀ info, (project info.root.render).EndsWith settings t (alone info)) :
    (∀ e, discover t settings.search given = .error e → whole = .error (.discovery e)) ∧
    ∀ infos, discover t settings.search given = .ok infos →
      ∃ (root : Path) (results : Info → Except ScanError Result),
        validateRoot t given = .ok root ∧
        (∀ info ∈ infos, alone info = (results info).map fun r => ⟨[r], none⟩) ∧
        (whole.map (·.projects) =
          if settings.refuses infos.length then .error .noWorkers
          else infos.mapM fun info =>
            (results info).map (Result.inProject (root.label info.root))) ∧
        ∀ report, whole = .ok report → List.Forall₂ (fun info (r : Result) =>
          results info = .ok (r.withoutProject (root.label info.root))) infos report.projects := by
  rw [hwhole.eq_direct hplain]
  refine ⟨fun e he => direct_all_of_error he, fun infos hinfos => ?_⟩
  obtain ⟨root, hroot, hinfos⟩ := bind_eq_ok_iff.1 hinfos
  have hanchor := (validateRoot_spec hroot).1
  have heach : ∀ info ∈ infos,
      alone info = ((ProjectJob.start settings t info none).direct settings t).map
        (fun r => ⟨[r], none⟩) ∧
      (ProjectJob.start settings t info (some (root.label info.root))).direct settings t =
        ((ProjectJob.start settings t info none).direct settings t).map
          (Result.inProject (root.label info.root)) ∧
      ∀ r, (ProjectJob.start settings t info none).direct settings t = .ok r → r.Unlabelled := by
    intro info hinfo
    have hfound := found_of_projectsOf hinfos info hinfo
    have hplan := hfound.plan_project ht hplain hnull hlimit hroot (hshallow root hroot)
    have hlabel := label_ne_empty ht hplain hanchor hfound.member
    rw [(halone info).eq_direct hplain, direct_project hplan]
    exact ⟨rfl, ProjectJob.direct_labelled hlabel settings t info⟩
  have hall : ((all given).direct settings t).map (·.projects) =
      if settings.refuses infos.length then .error .noWorkers
      else infos.mapM fun info => ((ProjectJob.start settings t info none).direct settings t).map
        (Result.inProject (root.label info.root)) := by
    rw [direct_all hroot hinfos]
    split
    · rfl
    · exact mapM_congr fun info hinfo => (heach info hinfo).2.1
  refine ⟨root, fun info => (ProjectJob.start settings t info none).direct settings t, hroot,
    fun info hinfo => (heach info hinfo).1, hall, fun report hreport => ?_⟩
  rw [hreport] at hall
  split at hall
  · cases hall
  · have hresults := mapM_eq_ok_iff.1 hall.symm
    refine ((List.forall₂_and_left infos report.projects).2 ⟨heach, hresults⟩).imp ?_
    rintro info r ⟨⟨-, -, hbare⟩, hr⟩
    obtain ⟨own, hown, rfl⟩ := map_eq_ok_iff.1 hr
    rw [Result.withoutProject_inProject (hbare own hown)]
    exact hown

end Scans

theorem nullFree_namesakes : namesakes.top.NullFree := by
  have hfile := Node.NullFree.file
  refine .dir (by decide) ?_
  simp only [List.forall_mem_cons, List.not_mem_nil, false_implies, implies_true, and_true]
  exact ⟨hfile _, .dir (by decide) (by simp [hfile]), hfile _⟩

/-- The marked directories lie at and right below the root. -/
theorem isShallow_namesakes : IsShallow namesakes ⟨[], 8⟩ ⟨.root, []⟩ := by
  have hlocate : namesakes.locate ⟨.root, []⟩ = .ok namesakes.top := rfl
  have hmarked : markedBelow namesakes ⟨[], 8⟩ ⟨.root, []⟩ = [⟨.root, []⟩, ⟨.root, ["inner"]⟩] := by
    rw [markedBelow, visited, hlocate, namesakes]
    simp (disch := decide +kernel) only [Node.walk_dir_of_pairwise, List.flatMap_cons,
      List.flatMap_nil]
    decide +kernel
  rw [IsShallow, hmarked]
  decide

/-- The two projects give the same whether they are scanned together or each of them alone. -/
theorem Request.scan_all_eq_each_namesakes : ∃ outer inner,
    fresh .default 1 namesakes (.project "/") = .ok ⟨[outer], none⟩ ∧
    fresh .default 1 namesakes (.project "/inner") = .ok ⟨[inner], none⟩ ∧
    (fresh .default 1 namesakes (.all "/")).map (·.projects) =
      .ok [outer.inProject ".", inner.inProject "inner"] := by
  have hends : ∀ request, EndsWith .default namesakes request (fresh .default 1 namesakes request) :=
    fun request => .session _ ⟨rfl, fun _ => rfl⟩ rfl (.new 1) rfl
  have hshallow : ∀ root, validateRoot namesakes "/" = .ok root →
      IsShallow namesakes Settings.default.search root := by
    intro root hroot
    rw [validateRoot_namesakes] at hroot
    cases hroot
    exact isShallow_namesakes
  have hinfos : discover namesakes Settings.default.search "/" =
      .ok [namesakeOuter, namesakeInner] := by
    rw [discover, validateRoot_namesakes]
    show projectsOf namesakes ⟨[], 8⟩ ⟨.root, []⟩ (markedDirs namesakes ⟨[], 8⟩ ⟨.root, []⟩) = _
    rw [markedDirs_namesakes]
    exact projectsOf_namesakes
  obtain ⟨root, results, hroot, halone, hwhole, hlabels⟩ := (scan_all_eq_each proper_namesakes
    plain_namesakes nullFree_namesakes (by decide) hshallow (hends (.all "/"))
    fun info => hends (.project info.root.render)).2 _ hinfos
  rw [validateRoot_namesakes] at hroot
  cases hroot
  obtain ⟨report, outer, inner, hreport, hprojects, -, -⟩ := exists_report_namesakes
  have heach := hlabels report hreport
  rw [hprojects, List.forall₂_cons, List.forall₂_cons] at heach
  obtain ⟨houter, hinner, -⟩ := heach
  have hallowed : ¬Settings.default.refuses [namesakeOuter, namesakeInner].length = true :=
    Bool.false_ne_true
  refine ⟨outer.withoutProject ".", inner.withoutProject "inner", ?_, ?_, ?_⟩
  · have houter := (halone namesakeOuter (by simp)).trans (congrArg _ houter)
    exact houter
  · have hinner := (halone namesakeInner (by simp)).trans (congrArg _ hinner)
    exact hinner
  · rw [hwhole, if_neg hallowed]
    simp only [List.mapM_cons, houter, hinner]
    rfl

end Scan

end AbiIndex
