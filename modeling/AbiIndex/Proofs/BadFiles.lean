import AbiIndex.Proofs.FaithfulStore

/-!
# Files that cannot be read

A file that cannot be read or cut into tokens contributes a report and nothing else. A scan of files
among which it stands gives what a scan of the other files gives, with its report put in at its
place and with one more file counted.

## Key results

- `Spoils`: the files without declarations, with what is reported on each
- `filesEnd_iff`: a scan of listed files that nothing stops ends in one way only
- `filesEnd_insert`: what such a file changes in a scan
-/

namespace AbiIndex.Scan

open AbiIndex.Abi AbiIndex.Source

/-! ## Files without declarations -/

/-- The file cannot be read or cut into tokens, and these are the reports on it: the last one says
so, and one on bytes that are not UTF-8 may stand in front of it. -/
inductive Spoils (t : FileTree) (root path : Path) : List Diagnostic → Prop
  | unreadable {e : TreeError} (hread : t.read path = .error e) :
      Spoils t root path
        [⟨.unparseableFile, s!"unreadable file: {e.message}", some (root.label path), none, none⟩]
  | unparseable {bytes : List UInt8} {e : Unterminated} (hread : t.read path = .ok bytes)
      (htokens : tokenize (SourceText.ofBytes bytes).text = .error e)
      {note : Option Diagnostic}
      (hnote : note = (SourceText.ofBytes bytes).badLine.map
        (encodingDiagnostic (root.label path))) :
      Spoils t root path (note.toList ++
        [⟨.unparseableFile, e.message, some (root.label path), some e.line, none⟩])

/-- The reports on files that are read without the store. -/
def reportsOn (t : FileTree) (root : Path) (files : List Path) : List Diagnostic :=
  (files.map (FileOutcome.direct t root)).flatMap (·.diagnostics)

/-- How a scan of listed files may end that nothing stops, with a store that can be trusted. -/
inductive FilesEnd (settings : Settings) (t : FileTree) (info : Project.Info)
    (label : Option String) (files : List Path) (outcome : Except ScanError Result) : Prop
  | session (s : Session) (undisturbed : s.Undisturbed) (settings_eq : s.settings = settings)
      (faithful : Faithful t s.cache)
      (ends : ((scanFiles t info label files).exec s).1 = outcome)
  | project (s : Session) (undisturbed : s.Undisturbed) (settings_eq : s.settings = settings)
      (faithful : Faithful t s.cache)
      (listed : Project.sourceFiles t settings.excludeDirs settings.includeTests info = .ok files)
      (ends : ((scanInfo t info label).exec s).1 = outcome)
  | run (schedule : List Nat) (cache : Cache SourceUnit) (faithful : Faithful t cache)
      (ends : (Scan.run (ProjectJob.step t) schedule (.ofFiles info label files) cache).1.outcome?
        settings = some outcome)

/-- The second outcome is the first one with the reports `own` between those on the files in front
and those on the files behind, and with one more file counted. If one scan fails, so does the
other. -/
inductive GainsReports (front own back : List Diagnostic) :
    Except ScanError Result → Except ScanError Result → Prop
  | failed (e : ScanError) : GainsReports front own back (.error e) (.error e)
  | gained (r : Result) (rest : List Diagnostic) (h : r.diagnostics = front ++ back ++ rest) :
      GainsReports front own back (.ok r) (.ok { r with
        filesScanned := r.filesScanned + 1
        diagnostics := front ++ own ++ back ++ rest })

/-! ## What such a file contributes -/

section Files

variable {t : FileTree} {root path : Path} {own : List Diagnostic}

/-- The file has no declarations to add to those of the project. -/
theorem Spoils.direct_eq (h : Spoils t root path own) :
    FileOutcome.direct t root path = ⟨none, own⟩ := by
  cases h with
  | unreadable hread =>
    simp only [FileOutcome.direct, LoadedFile.load, hread]
    rfl
  | @unparseable bytes e hread htokens note hnote =>
    have hextract : LoadedFile.extract ⟨path, root.label path, .ofBytes bytes⟩ = .error e := by
      simp only [LoadedFile.extract, SourceUnit.extract, SourceUnit.extractAs, htokens]
      rfl
    simp only [FileOutcome.direct, LoadedFile.load, hread, hextract, FileOutcome.ofUnit, hnote,
      SourceText.diagnostics]
    cases (SourceText.ofBytes bytes).badLine <;> rfl

/-- The last of the reports on the file says that it cannot be read, and at most one stands in front
of it, which is about its encoding. -/
theorem Spoils.eq_append (h : Spoils t root path own) :
    ∃ (note : Option Diagnostic) (d : Diagnostic), own = note.toList ++ [d] ∧
      (∀ n ∈ note, n.kind = .invalidEncoding) ∧ d.kind = .unparseableFile ∧
      ∀ d ∈ own, d.path = some (root.label path) := by
  cases h with
  | unreadable hread => exact ⟨none, _, rfl, by simp, rfl, by simp⟩
  | @unparseable bytes e hread htokens note hnote =>
    subst hnote
    refine ⟨_, _, rfl, ?_, rfl, ?_⟩
    · cases (SourceText.ofBytes bytes).badLine <;> simp [encodingDiagnostic]
    · cases (SourceText.ofBytes bytes).badLine <;> simp [encodingDiagnostic]

/-- Only what is read from a file counts for its outcome. -/
theorem direct_congr {t' : FileTree} (h : t'.read path = t.read path) :
    FileOutcome.direct t' root path = FileOutcome.direct t root path := by
  simp only [FileOutcome.direct, LoadedFile.load, h]

end Files

/-! ## Scans of listed files -/

section Scans

variable {settings : Settings} {t : FileTree} {info : Project.Info} {label : Option String}
  {files : List Path} {outcome : Except ScanError Result}

theorem ProjectJob.direct_ofFiles (settings : Settings) (t : FileTree) (info : Project.Info)
    (label : Option String) (files : List Path) :
    (ProjectJob.ofFiles info label files).direct settings t =
      if settings.refuses files.length then .error .noWorkers
      else Result.settle settings info label (files.map (FileOutcome.direct t info.root)) := by
  rw [direct, ofFiles]
  simp only [List.length_map, List.map_map]
  rfl

/-- In whatever order the tasks make their steps, what is known in the end is what reading all
declarations gives. -/
theorem ProjectJob.eq_direct_of_run (ht : t.top.Plain) {schedule : List Nat}
    {cache cache₁ : Cache SourceUnit} (hcache : Faithful t cache) {job job₁ : ProjectJob}
    (hjob : job.Right t) (hrun : run (step t) schedule job cache = (job₁, cache₁))
    (h : job₁.outcome? settings = some outcome) : outcome = job.direct settings t := by
  have hstep : ∀ i (j : ProjectJob) (c : Cache SourceUnit),
      Faithful t c ∧ j.Right t ∧ j.direct settings t = job.direct settings t →
        Faithful t (step t i j c).2 ∧ (step t i j c).1.Right t ∧
          (step t i j c).1.direct settings t = job.direct settings t := by
    rintro i j c ⟨hc, hright, hdirect⟩
    obtain ⟨hc', hright'⟩ := step_fits (Faithful.trusted ht).keeps i hc hright
    exact ⟨hc', hright', (direct_step settings t i j c).trans hdirect⟩
  have hinv := run_induction hstep schedule ⟨hcache, hjob, rfl⟩
  rw [hrun] at hinv
  rw [outcome?_eq hinv.2.1 h, hinv.2.2]

theorem ProjectJob.ofFiles_right (t : FileTree) (info : Project.Info) (label : Option String)
    (files : List Path) : (ofFiles info label files).Right t := by
  intro task htask
  obtain ⟨path, -, rfl⟩ := List.mem_map.1 htask
  trivial

/-- A scan of listed files ends, and in one way only: with what reading all declarations gives. -/
theorem filesEnd_iff (ht : t.top.Plain) : FilesEnd settings t info label files outcome ↔
    outcome = (ProjectJob.ofFiles info label files).direct settings t := by
  have hright := ProjectJob.ofFiles_right t info label files
  constructor
  · intro h
    cases h with
    | session s undisturbed settings_eq faithful ends =>
      obtain ⟨outcome', cache₁, schedule, job, hrun, houtcome, hdoes⟩ :=
        @does_scanFiles t settings info label files s.cache
      rw [← ends, (hdoes s undisturbed settings_eq rfl).1]
      exact ProjectJob.eq_direct_of_run ht faithful hright hrun houtcome
    | project s undisturbed settings_eq faithful listed ends =>
      obtain ⟨outcome', cache₁, ⟨schedule, job, hrun, houtcome⟩, hdoes⟩ :=
        @does_scanInfo t settings (info, label) s.cache
      have hstart : ProjectJob.start settings t info label = .ofFiles info label files := by
        rw [ProjectJob.start, listed]
        rfl
      rw [hstart] at hrun
      rw [← ends, (hdoes s undisturbed settings_eq rfl).1]
      exact ProjectJob.eq_direct_of_run ht faithful hright hrun houtcome
    | run schedule cache faithful ends =>
      exact ProjectJob.eq_direct_of_run ht faithful hright rfl ends
  · rintro rfl
    obtain ⟨outcome', cache₁, schedule, job, hrun, houtcome, hdoes⟩ :=
      @does_scanFiles t settings info label files (.new 1)
    have hends := (hdoes (.start settings (.new 1) fun _ => false) ⟨rfl, fun _ => rfl⟩ rfl rfl).1
    rw [ProjectJob.eq_direct_of_run ht (.new 1) hright hrun houtcome] at hends
    exact .session _ ⟨rfl, fun _ => rfl⟩ rfl (.new 1) hends

end Scans

/-! ## One more file -/

/-- A file without declarations adds its reports to a result, and nothing else. -/
theorem Result.ofFiles_insert (info : Project.Info) (label : Option String) (isPartial : Bool)
    (front back : List FileOutcome) (own : List Diagnostic) (resolved : List ResolvedUnit) :
    ∃ rest, (ofFiles info label isPartial (front ++ back) resolved).diagnostics =
        front.flatMap (·.diagnostics) ++ back.flatMap (·.diagnostics) ++ rest ∧
      ofFiles info label isPartial (front ++ ⟨none, own⟩ :: back) resolved =
        { ofFiles info label isPartial (front ++ back) resolved with
          filesScanned := (ofFiles info label isPartial (front ++ back) resolved).filesScanned + 1
          diagnostics := front.flatMap (·.diagnostics) ++ own ++ back.flatMap (·.diagnostics) ++
            rest } := by
  simp only [ofFiles, withCollisions, List.flatMap_append, List.flatMap_cons, List.append_assoc]
  refine ⟨_, rfl, ?_⟩
  -- the records, and with them the collisions, are those of the same resolved files
  simp only [records, Result.mk.injEq, true_and, and_true, List.length_append, List.length_cons]
  omega

/-- The names of a project are those of the other files. -/
theorem settle_insert (settings : Settings) (info : Project.Info) (label : Option String)
    (front back : List FileOutcome) (own : List Diagnostic) :
    GainsReports (front.flatMap (·.diagnostics)) own (back.flatMap (·.diagnostics))
      (Result.settle settings info label (front ++ back))
      (Result.settle settings info label (front ++ ⟨none, own⟩ :: back)) := by
  have hunits : (front ++ ⟨none, own⟩ :: back).filterMap (·.unit) =
      (front ++ back).filterMap (·.unit) := by
    simp only [List.filterMap_append, List.filterMap_cons]
  rw [Result.settle, Result.settle, hunits]
  cases resolveAll settings ((front ++ back).filterMap (·.unit)) with
  | error e => exact .failed e
  | ok resolved =>
    obtain ⟨rest, hrest, heq⟩ := Result.ofFiles_insert info label false front back own resolved
    rw [Except.map, Except.map, heq]
    exact .gained _ rest hrest

/-- Only where a second file is the first one for which workers are asked for, it matters that there
are none. -/
theorem refuses_succ {settings : Settings} {n : Nat}
    (h : settings.maxWorkers.any (· ≤ 0) = true → n ≠ 1) :
    settings.refuses (n + 1) = settings.refuses n := by
  rw [Settings.refuses, Settings.refuses]
  cases hnone : settings.maxWorkers.any (· ≤ 0) with
  | false => rw [Bool.and_false, Bool.and_false]
  | true =>
    have hn := h hnone
    rw [Bool.and_true, Bool.and_true, decide_eq_decide]
    omega

/-- A file that cannot be read or cut into tokens disturbs nothing else. However the two scans end
that nothing stops, the one of all files gives what the one of the other files gives, with the
reports on this file put in at its place and with one more file counted, or both fail for the same
reason. The exception is a scan of two files without any worker, which fails, while no worker is
asked for a single file. The other files may also be those of another tree from which the same is
read. -/
theorem filesEnd_insert {settings : Settings} {t t' : FileTree} (ht : t.top.Plain)
    (ht' : t'.top.Plain) {info : Project.Info} {label : Option String} {front back : List Path}
    {bad : Path} {own : List Diagnostic} (hbad : Spoils t info.root bad own)
    (hsame : ∀ path ∈ front ++ back, t'.read path = t.read path)
    (hworkers : settings.maxWorkers.any (· ≤ 0) = true → (front ++ back).length ≠ 1)
    {others whole : Except ScanError Result}
    (hothers : FilesEnd settings t' info label (front ++ back) others)
    (hwhole : FilesEnd settings t info label (front ++ bad :: back) whole) :
    GainsReports (reportsOn t info.root front) own (reportsOn t info.root back) others whole ∧
      ∃ (note : Option Diagnostic) (d : Diagnostic), own = note.toList ++ [d] ∧
        (∀ n ∈ note, n.kind = .invalidEncoding) ∧ d.kind = .unparseableFile ∧
        ∀ d ∈ own, d.path = some (info.root.label bad) := by
  refine ⟨?_, hbad.eq_append⟩
  rw [(filesEnd_iff ht').1 hothers, (filesEnd_iff ht).1 hwhole, ProjectJob.direct_ofFiles,
    ProjectJob.direct_ofFiles]
  have hlength : (front ++ bad :: back).length = (front ++ back).length + 1 := by
    simp only [List.length_append, List.length_cons]
    omega
  rw [hlength, refuses_succ hworkers]
  split
  · exact .failed _
  · have hdirect : (front ++ back).map (FileOutcome.direct t' info.root) =
        (front ++ back).map (FileOutcome.direct t info.root) :=
      List.map_congr_left fun path hpath => direct_congr (hsame path hpath)
    rw [hdirect, List.map_append, List.map_append, List.map_cons, hbad.direct_eq]
    exact settle_insert settings info label _ _ own

/-- A contract, and a file that ends in the midst of a comment. -/
def spoiltPair : FileTree :=
  ⟨.dir [("A.sol", .file (Text.Utf8.encode "contract A \x7b\x7d")),
    ("B.sol", .file (Text.Utf8.encode "contract B \x7b /*"))], Path.mk .root []⟩

theorem plain_spoiltPair : spoiltPair.top.Plain := by
  refine .dir (by decide) fun e he => ?_
  simp only [List.mem_cons, List.not_mem_nil, or_false] at he
  rcases he with rfl | rfl <;> exact .file _

/-- The report on the second file. -/
def spoiltReport : Diagnostic :=
  ⟨.unparseableFile, "Unterminated block comment (line 1)", some "B.sol", some 1, none⟩

theorem spoils_spoiltPair :
    Spoils spoiltPair singleProject.root ⟨.root, ["B.sol"]⟩ [spoiltReport] := by
  have htokens : tokenize (SourceText.ofBytes (Text.Utf8.encode "contract B \x7b /*")).text =
      .error ⟨.comment, 1⟩ := by decide +kernel
  have hnote : none = (SourceText.ofBytes (Text.Utf8.encode "contract B \x7b /*")).badLine.map
      (encodingDiagnostic (singleProject.root.label ⟨.root, ["B.sol"]⟩)) := by decide +kernel
  have hown : Option.toList none ++ [⟨.unparseableFile, Unterminated.message ⟨.comment, 1⟩,
      some (singleProject.root.label ⟨.root, ["B.sol"]⟩), some 1, none⟩] = [spoiltReport] := by
    decide +kernel
  rw [← hown]
  exact .unparseable rfl htokens hnote

/-- A scan of the contract alone gives a result, with as many workers as it takes or with none. -/
theorem exists_filesEnd_spoiltPair {workers : Option Int} (h : workers = none ∨ workers = some 0) :
    ∃ r, FilesEnd { Settings.default with maxWorkers := workers } spoiltPair singleProject none
      [⟨.root, ["A.sol"]⟩] (.ok r) := by
  have hsome : ((ProjectJob.ofFiles singleProject none [⟨.root, ["A.sol"]⟩]).direct
      { Settings.default with maxWorkers := workers } spoiltPair).toOption.isSome := by
    rcases h with rfl | rfl <;> decide +kernel
  obtain ⟨r, hr⟩ := Option.isSome_iff_exists.1 hsome
  exact ⟨r, (filesEnd_iff plain_spoiltPair).2 (eq_ok_of_toOption hr).symm⟩

/-- A scan of both files gives the result of the contract with the report. -/
theorem filesEnd_insert_spoiltPair : spoiltPair.top.Plain ∧
    Spoils spoiltPair singleProject.root ⟨.root, ["B.sol"]⟩ [spoiltReport] ∧
    ∃ r, FilesEnd .default spoiltPair singleProject none [⟨.root, ["A.sol"]⟩] (.ok r) ∧
      FilesEnd .default spoiltPair singleProject none [⟨.root, ["A.sol"]⟩, ⟨.root, ["B.sol"]⟩]
        (.ok { r with
          filesScanned := r.filesScanned + 1
          diagnostics := spoiltReport :: r.diagnostics }) := by
  obtain ⟨r, hr⟩ := exists_filesEnd_spoiltPair (.inl rfl)
  refine ⟨plain_spoiltPair, spoils_spoiltPair, r, hr, ?_⟩
  generalize hwhole : (ProjectJob.ofFiles singleProject none [⟨.root, ["A.sol"]⟩,
    ⟨.root, ["B.sol"]⟩]).direct .default spoiltPair = whole
  have hends : FilesEnd .default spoiltPair singleProject none
      ([⟨.root, ["A.sol"]⟩] ++ ⟨.root, ["B.sol"]⟩ :: []) whole :=
    (filesEnd_iff plain_spoiltPair).2 hwhole.symm
  have hgains := (filesEnd_insert plain_spoiltPair plain_spoiltPair spoils_spoiltPair
    (fun _ _ => rfl) (by decide) hr hends).1
  have hfront : reportsOn spoiltPair singleProject.root [⟨.root, ["A.sol"]⟩] = [] := by
    decide +kernel
  rw [hfront] at hgains
  cases hgains with
  | gained _ rest hrest =>
    rw [hrest]
    exact hends

/-- Without any worker both files are not scanned, while the contract alone is. -/
theorem not_gainsReports_without_workers :
    Spoils spoiltPair singleProject.root ⟨.root, ["B.sol"]⟩ [spoiltReport] ∧
    ∃ r, FilesEnd { Settings.default with maxWorkers := some 0 } spoiltPair singleProject none
        [⟨.root, ["A.sol"]⟩] (.ok r) ∧
      FilesEnd { Settings.default with maxWorkers := some 0 } spoiltPair singleProject none
        [⟨.root, ["A.sol"]⟩, ⟨.root, ["B.sol"]⟩] (.error .noWorkers) ∧
      ∀ front own back, ¬ GainsReports front own back (.ok r) (.error .noWorkers) := by
  obtain ⟨r, hr⟩ := exists_filesEnd_spoiltPair (.inr rfl)
  refine ⟨spoils_spoiltPair, r, hr, (filesEnd_iff plain_spoiltPair).2 rfl, ?_⟩
  intro front own back h
  cases h

end AbiIndex.Scan
