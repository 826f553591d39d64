import AbiIndex.Proofs.TreeWalk
import AbiIndex.Proofs.UndisturbedScan

/-!
# The store of parsed files cannot be seen

In a session files change between scans, and directories are scanned as projects of their own and as
parts of others, all with one store of parsed files. Every scan reports what a new session with an
empty store would report on the same tree.

## Key results

- `observe`: the scans of a session with changes in between, each with its own order of steps
- `sound_of_mem_observe`: every scan starts from a sound store
- `exists_does_direct_of_trusted`: a scan gives what reading all declarations gives, from any store
  that can be trusted
- `fresh_eq_direct`: what a new session reports, with any number of workers
- `outcome_eq_fresh`: every scan of a session reports what a new session does
-/

namespace AbiIndex.Scan

open AbiIndex.Source

/-! ## Sessions -/

/-- What happens in a session: files change in any way between two scans, or something is scanned.
The tasks of the scan make their steps in the given order. -/
inductive Event where
  | edit (change : FileTree → FileTree)
  | scan (request : Request) (places : List (Nat × Nat))

/-- A scan of a session: the tree and the store that it finds, and its outcome as far as this is known
at the end of its steps. -/
structure Observation where
  tree : FileTree
  before : Cache SourceUnit
  request : Request
  places : List (Nat × Nat)
  outcome? : Option (Except ScanError Report)

/-- The scans of a session that starts with the given tree and the given store. -/
def observe (settings : Settings) :
    FileTree → Cache SourceUnit → List Event → List Observation
  | _, _, [] => []
  | t, cache, .edit change :: events => observe settings (change t) cache events
  | t, cache, .scan request places :: events =>
    let finished := run (stepJobs t) places (request.start settings t) cache
    ⟨t, cache, request, places, request.outcome? settings t finished.1⟩
      :: observe settings t finished.2 events

/-- All texts in the trees that were scanned. -/
def textsSeen (scans : List Observation) : Set (List Char) :=
  {text | ∃ scan ∈ scans, text ∈ textsOf scan.tree}

/-- Every task of the scan got the steps that it may need. -/
def Observation.IsServed (settings : Settings) (scan : Observation) : Prop :=
  Serves scan.places (scan.request.start settings scan.tree)

/-- Every scan of a session is a run from a sound store. -/
theorem sound_of_mem_observe {settings : Settings} {texts : Set (List Char)}
    (hinj : Set.InjOn fingerprintOf texts) {events : List Event} {t : FileTree}
    {cache : Cache SourceUnit} (hcache : Sound texts cache)
    (hseen : textsSeen (observe settings t cache events) ⊆ texts) {scan : Observation}
    (hscan : scan ∈ observe settings t cache events) :
    Sound texts scan.before ∧ scan.outcome? = scan.request.outcome? settings scan.tree
      (run (stepJobs scan.tree) scan.places (scan.request.start settings scan.tree)
        scan.before).1 := by
  induction events generalizing t cache with
  | nil => cases hscan
  | cons event events ih =>
    cases event with
    | edit change => exact ih hcache hseen hscan
    | scan request places =>
      rw [observe] at hscan hseen
      have ht : textsOf t ⊆ texts := by
        intro text htext
        exact hseen ⟨_, List.mem_cons_self, htext⟩
      rcases List.mem_cons.1 hscan with rfl | hlater
      · exact ⟨hcache, rfl⟩
      · -- the scan leaves a sound store to the later ones
        have hsound :=
          (run_spec (Sound.trusted hinj ht) places hcache (request.start_right settings t)).1
        apply ih hsound _ hlater
        rintro text ⟨later, hmem, htext⟩
        exact hseen ⟨later, List.mem_cons_of_mem _ hmem, htext⟩

/-! ## New sessions -/

section Fresh

variable {settings : Settings} {workers : Option Int} {t : FileTree} {texts : Set (List Char)}
  {cache : Cache SourceUnit}

/-- A scan that nothing interrupts gives what reading all declarations gives, whatever is kept in a
store that can be trusted. -/
theorem exists_does_direct_of_trusted {Holds : Cache SourceUnit → Prop} (htrusted : Trusted t Holds)
    (hcache : Holds cache) (request : Request) :
    ∃ cache₁, Does settings (request.scan t) cache (request.direct settings t) cache₁ := by
  obtain ⟨outcome, cache₁, places, jobs, hdoes, hrun, houtcome⟩ :=
    @Request.isRun t settings request cache
  have hjobs := (congrArg Prod.fst hrun).symm
  rcases (request.outcome?_run_of_trusted htrusted hcache places hjobs).1 with hnone | hdirect
  · rw [hnone] at houtcome
    cases houtcome
  · rw [hdirect] at houtcome
    rw [Option.some.inj houtcome]
    exact ⟨cache₁, hdoes⟩

theorem exists_does_direct (hinj : Set.InjOn fingerprintOf texts) (ht : textsOf t ⊆ texts)
    (hcache : Sound texts cache) (request : Request) :
    ∃ cache₁, Does settings (request.scan t) cache (request.direct settings t) cache₁ :=
  exists_does_direct_of_trusted (Sound.trusted hinj ht) hcache request

/-- The number of workers matters only in that there may be none. -/
theorem refuses_withWorkers (h : workers.any (· ≤ 0) = settings.maxWorkers.any (· ≤ 0))
    (count : Nat) :
    { settings with maxWorkers := workers }.refuses count = settings.refuses count := by
  rw [Settings.refuses, Settings.refuses, h]

theorem direct_withWorkers (h : workers.any (· ≤ 0) = settings.maxWorkers.any (· ≤ 0))
    (request : Request) :
    request.direct { settings with maxWorkers := workers } t = request.direct settings t := by
  have hjob : ProjectJob.direct { settings with maxWorkers := workers } t =
      ProjectJob.direct settings t := by
    funext job
    simp only [ProjectJob.direct, Result.settle, resolveAll, refuses_withWorkers h]
  simp only [Request.direct, hjob, refuses_withWorkers h]
  -- the projects do not depend on the workers
  rfl

/-- What a new session with an empty store reports. Its tasks are worked on one after the other. -/
def fresh (settings : Settings) (limit : Int) (t : FileTree) (request : Request) :
    Except ScanError Report :=
  ((request.scan t).exec (.start settings (.new limit) fun _ => false)).1

/-- A new session reports what reading all declarations gives, whatever its number of workers. -/
theorem fresh_eq_direct (hinj : Set.InjOn fingerprintOf (textsOf t))
    (h : workers.any (· ≤ 0) = settings.maxWorkers.any (· ≤ 0)) (limit : Int) (request : Request) :
    fresh { settings with maxWorkers := workers } limit t request = request.direct settings t := by
  obtain ⟨cache₁, hdoes⟩ := @exists_does_direct { settings with maxWorkers := workers } t
    (textsOf t) (.new limit) hinj (Set.Subset.refl _) (Sound.new limit) request
  rw [direct_withWorkers h] at hdoes
  exact (hdoes _ ⟨rfl, fun _ => rfl⟩ rfl rfl).1

end Fresh

/-- Whatever happened in a session before, whatever its store can hold and in whatever order the
tasks of a scan use it, the scan reports what a new session reports on the same tree; so does the scan
that works on its files one after the other. The new session may have another number of workers, as
long as not only one of the two has none. It is assumed that fingerprints tell the texts apart that
the session comes across. -/
theorem outcome_eq_fresh (settings : Settings) (limit freshLimit : Int) (workers : Option Int)
    (hworkers : workers.any (· ≤ 0) = settings.maxWorkers.any (· ≤ 0)) (t : FileTree)
    (events : List Event)
    (hinj : Set.InjOn fingerprintOf (textsSeen (observe settings t (.new limit) events))) :
    ∀ scan ∈ observe settings t (.new limit) events,
      (scan.outcome? = none ∨ scan.outcome? =
        some (fresh { settings with maxWorkers := workers } freshLimit scan.tree scan.request)) ∧
      (scan.IsServed settings → scan.outcome? =
        some (fresh { settings with maxWorkers := workers } freshLimit scan.tree scan.request)) ∧
      ∀ s : Session, s.Undisturbed → s.settings = settings → s.cache = scan.before →
        ((scan.request.scan scan.tree).exec s).1 =
          fresh { settings with maxWorkers := workers } freshLimit scan.tree scan.request := by
  intro scan hscan
  have htexts : textsOf scan.tree ⊆ textsSeen (observe settings t (.new limit) events) :=
    fun text htext => ⟨scan, hscan, htext⟩
  obtain ⟨hbefore, houtcome⟩ :=
    sound_of_mem_observe hinj (Sound.new limit) (Set.Subset.refl _) hscan
  obtain ⟨hany, hserved⟩ :=
    Request.outcome?_run hinj htexts hbefore scan.request scan.places rfl
  obtain ⟨cache₁, hdoes⟩ :=
    @exists_does_direct settings scan.tree _ _ hinj htexts hbefore scan.request
  rw [fresh_eq_direct (hinj.mono htexts) hworkers, houtcome]
  exact ⟨hany, hserved, fun s hs hsettings hcache => (hdoes s hs hsettings hcache).1⟩

/-! ## A file that changes -/

/-- A directory with a single source file. -/
def singleFile (text : String) : FileTree :=
  ⟨.dir [("A.sol", .file (Text.Utf8.encode text))], Path.mk .root []⟩

/-- Nothing can be read but the file. -/
theorem textsOf_singleFile (text : String) : textsOf (singleFile text) ⊆
    {(SourceText.ofBytes (Text.Utf8.encode text)).text} := by
  rintro _ ⟨path, bytes, hread, rfl⟩
  have hat : (singleFile text).top.at? (Path.foldDots ((singleFile text).names path)) =
      some (.file bytes) := by
    rw [FileTree.read] at hread
    split at hread
    · cases hread
    · rename_i hlocate
      cases hread
      exact FileTree.at?_of_locate hlocate
    · cases hread
    · cases hread
  -- only the path of the file itself leads to a file
  cases hnames : Path.foldDots ((singleFile text).names path) with
  | nil =>
    rw [hnames] at hat
    cases hat
  | cons name names =>
    rw [hnames, Node.at?, Option.bind_eq_some_iff] at hat
    obtain ⟨child, hchild, hat⟩ := hat
    obtain ⟨es, hes, hmem⟩ := Node.entry?_eq_some hchild
    cases hes
    cases List.mem_singleton.1 hmem
    cases names with
    | nil =>
      cases hat
      rfl
    | cons next names => cases hat

theorem walk_singleFile (text : String) (descend : Path → String → Bool) (path : Path) :
    (singleFile text).top.walk descend path = [⟨path, ["A.sol"]⟩] := by
  rw [singleFile, Node.walk]
  simp [Node.walk, Node.namesOf, Node.entries, Node.isDir]

/-- The file is scanned, then its contents change, and it is scanned again. -/
def editedSession : List Event :=
  [.scan (.project "/") [(0, 0), (0, 0)],
   .edit fun _ => singleFile "contract B \x7b\x7d",
   .scan (.project "/") [(0, 0), (0, 0)]]

/-- The two contents of the file have different fingerprints. -/
theorem injOn_editedSession : Set.InjOn fingerprintOf (textsSeen
    (observe .default (singleFile "contract A \x7b\x7d") (.new 1) editedSession)) := by
  have hne : fingerprintOf (SourceText.ofBytes (Text.Utf8.encode "contract A \x7b\x7d")).text ≠
      fingerprintOf (SourceText.ofBytes (Text.Utf8.encode "contract B \x7b\x7d")).text := by
    decide +kernel
  have hseen : ∀ text ∈ textsSeen
      (observe .default (singleFile "contract A \x7b\x7d") (.new 1) editedSession),
      text = (SourceText.ofBytes (Text.Utf8.encode "contract A \x7b\x7d")).text ∨
      text = (SourceText.ofBytes (Text.Utf8.encode "contract B \x7b\x7d")).text := by
    rintro text ⟨scan, hscan, htext⟩
    simp only [observe, editedSession, List.mem_cons, List.not_mem_nil, or_false] at hscan
    rcases hscan with rfl | rfl
    · exact .inl (textsOf_singleFile _ htext)
    · exact .inr (textsOf_singleFile _ htext)
  intro x hx y hy heq
  rcases hseen x hx with rfl | rfl <;> rcases hseen y hy with rfl | rfl
  · rfl
  · exact absurd heq hne
  · exact absurd heq.symm hne
  · rfl

/-- The directory as a project. -/
def singleProject : Project.Info := ⟨.plain, ⟨.root, []⟩, ⟨.root, []⟩, none, []⟩

/-- A scan of the directory is about this project. -/
theorem plan_singleFile (text : String) : (Request.project "/").plan .default (singleFile text) =
    .ok ⟨⟨.root, []⟩, [(singleProject, none)]⟩ := by
  have hlocate : (singleFile text).locate ⟨.root, []⟩ = .ok (singleFile text).top := rfl
  have hroot : Project.validateRoot (singleFile text) "/" = .ok ⟨.root, []⟩ := rfl
  have hclassify : Project.classifyDir (singleFile text) ⟨.root, []⟩ = .ok singleProject := by
    have hsource : Project.isSourceName "A.sol" = true := by decide +kernel
    have hmarker : Project.findMarker ["A.sol"] = none := by decide +kernel
    have hfiles : (singleFile text).top.namesOf (·.isFile) = ["A.sol"] := rfl
    have hnone : Project.dirWithSources? (singleFile text) ⟨.root, []⟩ ["contracts", "src"] =
        .ok none := rfl
    simp only [Project.classifyDir, hlocate, hfiles, hmarker, hnone, bind, Except.bind, List.any_cons,
      hsource, Bool.true_or, if_true]
    rfl
  have hmarked : Project.markedDirs (singleFile text) Settings.default.search ⟨.root, []⟩ = [] := by
    rw [Project.markedDirs, Project.visited, hlocate]
    simp only [walk_singleFile]
    decide +kernel
  simp only [Request.plan, hroot, bind, Except.bind, hclassify, hmarked]
  rfl

/-- The one file is the source of the project. -/
theorem sourceFiles_singleFile (text : String) :
    Project.sourceFiles (singleFile text) Settings.default.excludeDirs
      Settings.default.includeTests singleProject = .ok [⟨.root, ["A.sol"]⟩] := by
  have hlocate : (singleFile text).locate ⟨.root, []⟩ = .ok (singleFile text).top := rfl
  have hdir : Project.ask ((singleFile text).isDir ⟨.root, []⟩) = .ok true := rfl
  simp only [Project.sourceFiles, singleProject, hdir, bind, Except.bind, Project.visited, hlocate,
    walk_singleFile, List.flatMap_cons, List.flatMap_nil, Text.sorted, List.mergeSort_singleton]
  exact eq_ok_of_toOption (by decide +kernel)

/-- The scan works on the one file. -/
theorem start_singleFile (text : String) : (Request.project "/").start .default (singleFile text) =
    [⟨singleProject, none, none, [⟨⟨.root, []⟩, ⟨.root, ["A.sol"]⟩, .waiting⟩]⟩] := by
  rw [Request.start, plan_singleFile]
  simp only [List.map_cons, List.map_nil, ProjectJob.start, sourceFiles_singleFile]
  rfl

/-- The second scan does not see what the store kept of the first one. -/
theorem outcome_eq_fresh_edited :
    ∃ scan ∈ observe .default (singleFile "contract A \x7b\x7d") (.new 1) editedSession,
      scan.tree = singleFile "contract B \x7b\x7d" ∧ scan.outcome? =
        some (fresh { Settings.default with maxWorkers := some 1 } 1 scan.tree scan.request) := by
  have hmem : _ ∈ observe .default (singleFile "contract A \x7b\x7d") (.new 1) editedSession :=
    List.mem_cons_of_mem _ List.mem_cons_self
  refine ⟨_, hmem, rfl, (outcome_eq_fresh .default 1 1 (some 1) (by decide) _ _
    injOn_editedSession _ hmem).2.1 ?_⟩
  show Serves _ ((Request.project "/").start .default (singleFile "contract B \x7b\x7d"))
  rw [start_singleFile "contract B \x7b\x7d"]
  intro i job hjob j hj
  cases i with
  | zero =>
    cases hjob
    have : j = 0 := Nat.lt_one_iff.1 hj
    subst this
    decide
  | succ i => cases hjob

end AbiIndex.Scan
