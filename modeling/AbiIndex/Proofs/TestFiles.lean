import AbiIndex.Proofs.BadFiles
import AbiIndex.Proofs.RecordCopies
import AbiIndex.Proofs.SeparateScans
import AbiIndex.Proofs.SourceListing

/-!
# Test files

There are two ways to tell a test. The category of a file goes by its path in the project: the name
`test` or `tests` may be spelled with capitals, may belong to the source directory or a directory
above it, and may stand in front of a backslash. A listing without tests goes by the exact names of
the directories below the source directory. Both leave out files that end in `.t.sol`. So whatever
such a listing leaves out is a test, but tests may remain.

## Key results

- `Category.ofPath_label_eq_tests_iff`: which files of a project are tests
- `Project.sourceFiles_without_tests`: what a listing without tests leaves out
- `Project.filter_isTest_eq_iff`: when that is all tests
- `Request.scan_without_tests`: what a scan without tests contains
-/

namespace AbiIndex

/-! ## Tests by their path -/

namespace Source.Category

open AbiIndex.Text

/-- Whether a directory called so holds tests. -/
def isTestDir (part : List Char) : Bool := String.ofList (lower part) ∈ ["test", "tests"]

/-- The parts of a name that a category tells apart. -/
def parts (name : String) : List (List Char) := name.toList.splitOn '\\'

/-- The way through directories called `dirs` to a file called `name` goes through one that holds
tests. -/
def LeadsThroughTests (dirs : List String) (name : String) : Prop :=
  (∃ dir ∈ dirs, ∃ part ∈ parts dir, isTestDir part) ∨
    ∃ part ∈ (parts name).dropLast, isTestDir part

instance (dirs : List String) (name : String) : Decidable (LeadsThroughTests dirs name) :=
  inferInstanceAs (Decidable (_ ∨ _))

/-- The text with slashes for backslashes. -/
def slashed (cs : List Char) : List Char := cs.map fun c => if c = '\\' then '/' else c

theorem splitOn_slashed {cs : List Char} (h : '/' ∉ cs) :
    (slashed cs).splitOn '/' = cs.splitOn '\\' := by
  induction cs with
  | nil => rfl
  | cons c cs ih =>
    rw [List.mem_cons, not_or] at h
    obtain ⟨hc, hcs⟩ := h
    have hcons : slashed (c :: cs) = (if c = '\\' then '/' else c) :: slashed cs := rfl
    rw [hcons, List.splitOn_cons_eq_if_modifyHead, List.splitOn_cons_eq_if_modifyHead, ih hcs]
    by_cases hback : c = '\\'
    · simp [hback]
    · simp [hback, Ne.symm hc]

/-- The parts of a path are those of its names. -/
theorem splitOn_slashed_furtherText {name : String} {rest : List String}
    (h : ∀ n ∈ name :: rest, '/' ∉ n.toList) :
    (slashed (name.toList ++ Path.furtherText rest)).splitOn '/' =
      (name :: rest).flatMap parts := by
  induction rest generalizing name with
  | nil =>
    rw [Path.furtherText, List.append_nil, splitOn_slashed (h name List.mem_cons_self),
      List.flatMap_cons, List.flatMap_nil, List.append_nil, parts]
  | cons next rest ih =>
    obtain ⟨hname, hrest⟩ := List.forall_mem_cons.1 h
    have hcut : slashed (name.toList ++ Path.furtherText (next :: rest)) =
        slashed name.toList ++ '/' :: slashed (next.toList ++ Path.furtherText rest) :=
      List.map_append
    rw [hcut, List.splitOn_append_cons_self, splitOn_slashed hname, ih hrest]
    rfl

/-- An ending without backslashes is one of the last part. -/
theorem suffix_getLast_splitOn_iff {ending : List Char} {c : Char} (hending : c ∉ ending)
    (cs : List Char) :
    ending <:+ (cs.splitOn c).getLast (List.splitOn_ne_nil c cs) ↔ ending <:+ cs := by
  induction cs with
  | nil => rfl
  | cons a cs ih =>
    -- no ending starts at or before a separator
    have hlonger : c ∈ a :: cs → (ending <:+ a :: cs ↔ ending <:+ cs) := by
      intro hmem
      rw [List.suffix_cons_iff]
      refine or_iff_right ?_
      rintro rfl
      exact hending hmem
    by_cases hmem : c ∈ cs
    · rw [hlonger (List.mem_cons_of_mem _ hmem), ← ih]
      obtain ⟨before, after, rfl⟩ := List.append_of_mem hmem
      have hafter := List.splitOn_ne_nil c after
      simp only [← List.cons_append, List.splitOn_append_cons_self,
        List.getLast_append_of_ne_nil _ hafter]
    · have hone := List.splitOn_eq_singleton hmem
      by_cases ha : a = c
      · rw [hlonger (ha ▸ List.mem_cons_self)]
        simp only [List.splitOn_cons_eq_if_modifyHead, ha, beq_self_eq_true, if_true, hone,
          List.getLast_cons_cons, List.getLast_singleton]
      · simp only [List.splitOn_cons_eq_if_modifyHead, beq_iff_eq, ha, if_false, hone,
          List.modifyHead_cons, List.getLast_singleton]

theorem endsWith_iff {name ending : String} :
    name.endsWith ending = true ↔ ending.toList <:+ name.toList := by
  rw [← String.endsWith_toSlice, String.Slice.endsWith_string_iff, String.copy_toSlice]

/-- The names that a category sees in a path with the given names. -/
theorem names_parse_slashed {names : List String} (hne : names ≠ [])
    (h : ∀ n ∈ names, '/' ∉ n.toList) :
    (Path.parse (String.ofList (slashed (Path.mk .relative names).render.toList))).names =
      ((names.flatMap parts).map String.ofList).filter fun name => name ≠ "" && name ≠ "." := by
  obtain ⟨name, rest, rfl⟩ := List.exists_cons_of_ne_nil hne
  have htext : (Path.mk .relative (name :: rest)).render.toList =
      name.toList ++ Path.furtherText rest := by
    rw [Path.toList_render]
    rfl
  simp only [Path.parse, String.toList_ofList, pieces_eq_splitOnP, ← List.splitOn_eq_splitOnP,
    htext, splitOn_slashed_furtherText h]

/-- A directory of tests has a name that can stand in a path. -/
theorem ne_of_isTestDir {part : List Char} (h : isTestDir part) :
    String.ofList part ≠ "" ∧ String.ofList part ≠ "." := by
  constructor
  · intro heq
    rw [String.ofList_eq_empty_iff.1 heq] at h
    revert h
    decide
  · intro heq
    have hpart : part = ['.'] := by simpa using congrArg String.toList heq
    rw [hpart] at h
    revert h
    decide

/-- The last part of the name of a source is a name, and has the same endings. -/
theorem exists_last_part {name : String} (hsol : name.endsWith ".sol" = true) :
    ∃ last : String, (parts name).map String.ofList =
        (parts name).dropLast.map String.ofList ++ [last] ∧ last ≠ "" ∧ last ≠ "." ∧
      ∀ ending : String, '\\' ∉ ending.toList → (last.endsWith ending ↔ name.endsWith ending) := by
  have hparts : parts name ≠ [] := List.splitOn_ne_nil _ _
  have hending : ∀ ending : String, '\\' ∉ ending.toList →
      ((String.ofList ((parts name).getLast hparts)).endsWith ending ↔ name.endsWith ending) := by
    intro ending hback
    rw [endsWith_iff, endsWith_iff, String.toList_ofList]
    exact suffix_getLast_splitOn_iff hback name.toList
  have hlast := (hending ".sol" (by decide)).2 hsol
  refine ⟨String.ofList ((parts name).getLast hparts), ?_, fun heq => ?_, fun heq => ?_, hending⟩
  · rw [← List.map_singleton, ← List.map_append, List.dropLast_concat_getLast]
  · rw [heq] at hlast
    revert hlast
    decide +kernel
  · rw [heq] at hlast
    revert hlast
    decide +kernel

theorem any_parts_iff (parts : List (List Char)) :
    ((((parts.map String.ofList).filter fun name => name ≠ "" && name ≠ ".").map
      fun part => String.ofList (lower part.toList)).any (· ∈ ["test", "tests"])) = true ↔
      ∃ part ∈ parts, isTestDir part := by
  simp only [List.any_map, List.any_filter, List.any_eq_true, Function.comp_apply,
    String.toList_ofList, Bool.and_eq_true]
  refine exists_congr fun part => and_congr_right fun _ => and_iff_right_of_imp fun h => ?_
  simpa using ne_of_isTestDir h

/-- A source file is a test if it has the ending of tests or lies in a directory of tests, which may
also be told from a part of a name. -/
theorem ofPath_label_eq_tests_iff (root : Path) {dirs : List String} {name : String}
    (h : ∀ n ∈ dirs ++ [name], isPlainName n) (hsol : name.endsWith ".sol" = true) :
    ofPath (root.label (root.below (dirs ++ [name]))) = .tests ↔
      name.endsWith ".t.sol" = true ∨ LeadsThroughTests dirs name := by
  have hslash : ∀ n ∈ dirs ++ [name], '/' ∉ n.toList := by
    intro n hn
    have hplain := h n hn
    simp only [isPlainName, Bool.and_eq_true, decide_eq_true_eq] at hplain
    exact hplain.2
  have hnames := names_parse_slashed (by simp) hslash
  obtain ⟨last, hlast, hempty, hdot, hending⟩ := exists_last_part hsol
  rw [Path.label_below]
  generalize hp : Path.parse (String.ofList
    (slashed (Path.mk .relative (dirs ++ [name])).render.toList)) = p at hnames
  -- the last part is the name of the file, and the others are directories
  have hall : p.names = (((dirs.flatMap parts ++ (parts name).dropLast).map String.ofList).filter
      fun name => name ≠ "" && name ≠ ".") ++ [last] := by
    rw [hnames, List.flatMap_append, List.flatMap_singleton, List.map_append, hlast,
      ← List.append_assoc, ← List.map_append, List.filter_append]
    simp [hempty, hdot]
  have hname : p.name = last := by rw [Path.name, hall, List.getLastD_concat]
  have hdirs : (p.names.dropLast.map fun part => String.ofList (lower part.toList)).any
      (· ∈ ["test", "tests"]) = true ↔ LeadsThroughTests dirs name := by
    rw [hall, List.dropLast_concat, any_parts_iff]
    simp only [List.mem_append, List.mem_flatMap, or_and_right, exists_or, LeadsThroughTests]
    refine or_congr ?_ Iff.rfl
    constructor
    · rintro ⟨part, ⟨dir, hdir, hpart⟩, htest⟩
      exact ⟨dir, hdir, part, hpart, htest⟩
    · rintro ⟨dir, hdir, part, hpart, htest⟩
      exact ⟨part, ⟨dir, hdir, hpart⟩, htest⟩
  have hcases : ofPath (Path.mk .relative (dirs ++ [name])).render =
      if p.name.endsWith ".t.sol" ||
          (p.names.dropLast.map fun part => String.ofList (lower part.toList)).any
            (· ∈ ["test", "tests"]) then tests
      else if (p.names.dropLast.map fun part => String.ofList (lower part.toList)).any
            (· ∈ ["lib", "libraries"]) then libs
      else contracts := by
    rw [← hp]
    rfl
  rw [hcases, hname, ← hending ".t.sol" (by decide), ← hdirs, ← Bool.or_eq_true]
  split
  · rename_i htest
    exact iff_of_true rfl htest
  · rename_i htest
    refine iff_of_false ?_ htest
    split <;> exact Category.noConfusion

end Source.Category

/-! ## Tests that a listing leaves out -/

namespace Project

open AbiIndex.Source

variable {t : FileTree} {excludeDirs : List String} {includeTests : Bool} {info : Info}
  {dir : List String} {name : String}

/-- Whether a listing without tests leaves out a file. -/
def isLeftOut (info : Info) (p : Path) : Bool :=
  p.name.endsWith ".t.sol" ||
    (p.parent.names.drop info.sourceRoot.names.length).any (· ∈ ["test", "tests"])

/-- Whether a file belongs to the category of tests. -/
def isTest (info : Info) (p : Path) : Bool := Category.ofPath (info.root.label p) = .tests

/-- Whether a listing without tests has a file although the way to it from the root of the project
goes through a directory of tests. -/
def isOverlooked (info : Info) (p : Path) : Bool :=
  !isLeftOut info p &&
    decide (Category.LeadsThroughTests (p.parent.names.drop info.root.names.length) p.name)

theorem isLeftOut_child_iff :
    isLeftOut info ((info.sourceRoot.below dir).child name) = true ↔
      name.endsWith ".t.sol" = true ∨ ∃ x ∈ dir, x = "test" ∨ x = "tests" := by
  have hbelow : (info.sourceRoot.below dir).names.drop info.sourceRoot.names.length = dir :=
    List.drop_left
  rw [isLeftOut, Path.name_child, Path.parent_child, hbelow]
  simp

/-- Without tests, the sources that are not left out remain. -/
theorem isSource_false_iff : IsSource t excludeDirs false info dir name ↔
    IsSource t excludeDirs true info dir name ∧
      ¬ isLeftOut info ((info.sourceRoot.below dir).child name) := by
  rw [isLeftOut_child_iff, not_or, not_exists]
  constructor
  · rintro ⟨hentry, ⟨hsol, htsol⟩, hkept, hapart⟩
    refine ⟨⟨hentry, ⟨hsol, nofun⟩, fun x hx => ?_, hapart⟩, by simp [htsol], ?_⟩
    · exact ⟨(hkept x hx).1, (hkept x hx).2.1, nofun⟩
    · rintro x ⟨hx, htest⟩
      exact htest.elim ((hkept x hx).2.2 rfl).1 ((hkept x hx).2.2 rfl).2
  · rintro ⟨⟨hentry, ⟨hsol, -⟩, hkept, hapart⟩, htsol, hdirs⟩
    refine ⟨hentry, ⟨hsol, fun _ => by simpa using htsol⟩, fun x hx => ?_, hapart⟩
    refine ⟨(hkept x hx).1, (hkept x hx).2.1, fun _ => ?_⟩
    exact ⟨fun htest => hdirs x ⟨hx, .inl htest⟩, fun htest => hdirs x ⟨hx, .inr htest⟩⟩

/-- A listing without tests is that of all files without those that it leaves out. -/
theorem sourceFiles_without_tests (ht : t.top.Proper) (excludeDirs : List String) (info : Info) :
    sourceFiles t excludeDirs false info =
      (sourceFiles t excludeDirs true info).map (·.filter (!isLeftOut info ·)) := by
  cases hdir : t.isDir info.sourceRoot with
  | error e => rw [sourceFiles_of_isDir_error hdir, sourceFiles_of_isDir_error hdir, Except.map]
  | ok b =>
    cases b with
    | false => rw [sourceFiles_of_isDir_false hdir, sourceFiles_of_isDir_false hdir, Except.map,
        List.filter_nil]
    | true =>
      obtain ⟨files, hfiles⟩ := exists_sourceFiles excludeDirs true hdir
      obtain ⟨rest, hrest⟩ := exists_sourceFiles excludeDirs false hdir
      rw [hfiles, hrest, Except.map, Except.ok.injEq]
      refine (pairwise_sourceFiles ht hrest hdir).eq_of_mem_iff
        ((pairwise_sourceFiles ht hfiles hdir).sublist List.filter_sublist) fun p => ?_
      rw [List.mem_filter, mem_sourceFiles_iff ht hrest hdir, mem_sourceFiles_iff ht hfiles hdir]
      constructor
      · rintro ⟨dir, name, rfl, hsource⟩
        obtain ⟨hall, hkept⟩ := isSource_false_iff.1 hsource
        exact ⟨⟨dir, name, rfl, hall⟩, by simpa using hkept⟩
      · rintro ⟨⟨dir, name, rfl, hall⟩, hkept⟩
        exact ⟨dir, name, rfl, isSource_false_iff.2 ⟨hall, by simpa using hkept⟩⟩

/-- The names on the way to a source are plain. -/
theorem IsSource.isPlain (hplain : t.top.Plain)
    (h : IsSource t excludeDirs includeTests info dir name) :
    ∀ n ∈ info.sourceRoot.names ++ (dir ++ [name]), isPlainName n := by
  obtain ⟨n, m, hlocate, hat, -⟩ := h.entry
  intro x hx
  rcases List.mem_append.1 hx with hx | hx
  · exact FileTree.isPlain_of_locate hplain hlocate x hx
  · have hway : t.top.at? (Path.foldDots (t.names info.sourceRoot) ++ (dir ++ [name])) =
        some m := by
      rw [Node.at?_append, FileTree.at?_of_locate hlocate]
      exact hat
    exact hplain.of_at? hway x (List.mem_append_right _ hx)

/-- An exact name of a directory of tests is one in any spelling. -/
theorem leadsThroughTests_of_mem {src : List String}
    (h : ∃ x ∈ dir, x = "test" ∨ x = "tests") :
    Category.LeadsThroughTests (src ++ dir) name := by
  obtain ⟨x, hx, htest⟩ := h
  refine .inl ⟨x, List.mem_append_right _ hx, x.toList, ?_, ?_⟩
  · rcases htest with rfl | rfl <;> decide
  · rcases htest with rfl | rfl <;> decide

/-- The tests among the files of a project are those that a listing without tests leaves out and
those that it overlooks. -/
theorem isTest_iff (ht : t.top.Proper) (hplain : t.top.Plain) {files : List Path}
    (h : sourceFiles t excludeDirs includeTests info = .ok files) {src : List String}
    (hsrc : info.sourceRoot = info.root.below src) {p : Path} (hp : p ∈ files) :
    isTest info p = true ↔ isLeftOut info p = true ∨ isOverlooked info p = true := by
  have hdir := isDir_of_mem_sourceFiles h hp
  obtain ⟨dir, name, rfl, hsource⟩ := (mem_sourceFiles_iff ht h hdir).1 hp
  have hnames := hsource.isPlain hplain
  rw [hsrc, Path.below, List.append_assoc] at hnames
  have hpath : (info.sourceRoot.below dir).child name =
      info.root.below ((src ++ dir) ++ [name]) := by
    simp only [hsrc, Path.below, Path.child, List.append_assoc]
  have htest : isTest info ((info.sourceRoot.below dir).child name) = true ↔
      name.endsWith ".t.sol" = true ∨ Category.LeadsThroughTests (src ++ dir) name := by
    rw [isTest, decide_eq_true_eq, hpath]
    refine Category.ofPath_label_eq_tests_iff _ (fun n hn => ?_) hsource.suffix.1
    exact hnames n (List.mem_append_right _ (by simpa using hn))
  have hoverlooked : isOverlooked info ((info.sourceRoot.below dir).child name) = true ↔
      ¬ isLeftOut info ((info.sourceRoot.below dir).child name) = true ∧
        Category.LeadsThroughTests (src ++ dir) name := by
    have hdrop : (info.sourceRoot.below dir).names.drop info.root.names.length = src ++ dir := by
      rw [hsrc, Path.below, Path.below, List.append_assoc, List.drop_left]
    rw [isOverlooked, Path.name_child, Path.parent_child, hdrop, Bool.and_eq_true,
      decide_eq_true_eq, Bool.not_eq_true', Bool.not_eq_true]
  rw [htest, hoverlooked, isLeftOut_child_iff]
  constructor
  · rintro (hending | hleads)
    · exact .inl (.inl hending)
    · by_cases hleft : name.endsWith ".t.sol" = true ∨ ∃ x ∈ dir, x = "test" ∨ x = "tests"
      · exact .inl hleft
      · exact .inr ⟨hleft, hleads⟩
  · rintro ((hending | hexact) | ⟨-, hleads⟩)
    · exact .inl hending
    · exact .inr (leadsThroughTests_of_mem hexact)
    · exact .inr hleads

/-- All tests are left out if none is overlooked. -/
theorem filter_isTest_eq_iff (ht : t.top.Proper) (hplain : t.top.Plain) {files : List Path}
    (h : sourceFiles t excludeDirs includeTests info = .ok files) {src : List String}
    (hsrc : info.sourceRoot = info.root.below src) :
    files.filter (!isLeftOut info ·) = files.filter (!isTest info ·) ↔
      ∀ p ∈ files, isOverlooked info p = false := by
  have htest := fun p hp => isTest_iff ht hplain h hsrc (p := p) hp
  have hkept : ∀ p, isOverlooked info p = true → isLeftOut info p = false := by
    intro p hp
    simpa using (Bool.and_eq_true_iff.1 hp).1
  constructor
  · intro heq p hp
    by_contra hoverlooked
    rw [Bool.not_eq_false] at hoverlooked
    have hmem : p ∈ files.filter (!isLeftOut info ·) :=
      List.mem_filter.2 ⟨hp, by simpa using hkept p hoverlooked⟩
    rw [heq, List.mem_filter, (htest p hp).2 (.inr hoverlooked)] at hmem
    exact Bool.false_ne_true hmem.2
  · intro hnone
    refine List.filter_congr fun p hp => ?_
    rw [Bool.eq_iff_iff (a := isLeftOut info p) (b := isTest info p) |>.2]
    simp [htest p hp, hnone p hp]

end Project

namespace Scan

open AbiIndex.Abi AbiIndex.Source AbiIndex.Project

/-! ## Scans without tests -/

section Files

variable {settings : Settings} {t : FileTree} {info : Info} {label : Option String} {r : Result}

/-- The declarations of a text are in the category of the name under which it was read. -/
theorem category_of_extract {text : List Char} {path : String} {unit : SourceUnit}
    (h : SourceUnit.extract text path = .ok unit) : unit.category = Category.ofPath path := by
  rw [SourceUnit.extract, SourceUnit.extractAs] at h
  obtain ⟨tokens, -, h⟩ := map_eq_ok_iff.1 h
  rw [← h, SourceUnit.ofTokens, SourceUnit.ofMembers]

/-- A contract of a result comes from one of the files, and has the path and the category of the
file. -/
theorem Result.IsFrom.exists_file {files : List Path} (h : r.IsFrom t info label files)
    {c : ContractRecords} (hc : c ∈ r.contracts) :
    ∃ f ∈ files, c.path = info.root.label f ∧ c.category = Category.ofPath c.path := by
  obtain ⟨resolved, htogether, hr⟩ := h
  have hcontracts : r.contracts = resolved.flatMap (contractsOf label) := by rw [hr]; rfl
  obtain ⟨u, hu, hc⟩ := List.mem_flatMap.1 (hcontracts ▸ hc)
  obtain ⟨decl, -, rfl⟩ := List.mem_map.1 hc
  obtain ⟨unit, hunit, hresolve⟩ := exists_left_of_forall₂ htogether hu
  obtain ⟨outcomes, -, hresolve⟩ := bind_eq_ok_iff.1 hresolve
  cases hresolve
  obtain ⟨outcome, houtcome, hunit⟩ := List.mem_filterMap.1 hunit
  obtain ⟨f, hf, rfl⟩ := List.mem_map.1 houtcome
  refine ⟨f, hf, ?_⟩
  rw [FileOutcome.direct] at hunit
  split at hunit
  · cases hunit
  · rename_i file hload
    obtain ⟨bytes, -, rfl⟩ := load_eq_ok hload
    cases hextract : LoadedFile.extract ⟨f, info.root.label f, .ofBytes bytes⟩ with
    | error e =>
      rw [hextract] at hunit
      cases hunit
    | ok unit' =>
      rw [hextract] at hunit
      cases hunit
      have hpath := path_of_extract hextract
      exact ⟨hpath, (category_of_extract hextract).trans (congrArg _ hpath.symm)⟩

/-- A project whose declarations are read gives a result of the files that it lists. -/
theorem ProjectJob.isFrom_of_direct (h : (start settings t info label).direct settings t = .ok r) :
    ∃ files, sourceFiles t settings.excludeDirs settings.includeTests info = .ok files ∧
      r.IsFrom t info label files := by
  cases hfiles : sourceFiles t settings.excludeDirs settings.includeTests info with
  | error e =>
    rw [start, hfiles] at h
    cases h
  | ok files =>
    have hstart : start settings t info label = .ofFiles info label files := by
      rw [start, hfiles]
      rfl
    rw [hstart, direct_ofFiles] at h
    split at h
    · cases h
    obtain ⟨resolved, hresolved, rfl⟩ := map_eq_ok_iff.1 h
    rw [resolveAll] at hresolved
    split at hresolved
    · cases hresolved
    refine ⟨files, rfl, resolved, ?_, rfl⟩
    exact (mapM_eq_ok_iff.1 hresolved).imp fun _ _ h => mapError_eq_ok_iff.1 h

end Files

variable {settings : Settings} {t : FileTree} {request : Request}

/-- The source directory of a project that is scanned lies at or below the project. -/
theorem Request.exists_sourceRoot {plan : Plan} (h : request.plan settings t = .ok plan)
    {p : Info × Option String} (hp : p ∈ plan.projects) :
    ∃ src, p.1.sourceRoot = p.1.root.below src := by
  cases request with
  | project given =>
    obtain ⟨root, -, h⟩ := bind_eq_ok_iff.1 (mapError_eq_ok_iff.1 h)
    obtain ⟨info, hinfo, h⟩ := bind_eq_ok_iff.1 h
    cases h
    cases List.mem_singleton.1 hp
    obtain ⟨hroot, src, hsrc⟩ := classifyDir_spec hinfo
    exact ⟨src, hroot ▸ hsrc⟩
  | all given =>
    obtain ⟨root, -, h⟩ := bind_eq_ok_iff.1 (mapError_eq_ok_iff.1 h)
    obtain ⟨infos, hinfos, h⟩ := bind_eq_ok_iff.1 h
    cases h
    obtain ⟨info, hinfo, rfl⟩ := List.mem_map.1 hp
    obtain ⟨plain, hplain, heq⟩ := (found_of_projectsOf hinfos info hinfo).classified
    obtain ⟨hroot, src, hsrc⟩ := classifyDir_spec hplain
    have hsource := congrArg Info.sourceRoot heq
    exact ⟨src, hsource.trans hsrc⟩

/-- The results together have the contracts of the projects. -/
theorem Request.contracts_of_conclude {plan : Plan} {results : List Result} {report : Report}
    (h : request.conclude t plan results = .ok report) {c : Result}
    (hc : report.combined = some c) : c.contracts = results.flatMap (·.contracts) := by
  cases request with
  | project given =>
    cases h
    cases hc
  | all given =>
    obtain ⟨combined, hcombined, rfl⟩ := map_eq_ok_iff.1 h
    cases hc
    rw [combineAll] at hcombined
    obtain ⟨info, -, hcombined⟩ := bind_eq_ok_iff.1 hcombined
    cases hcombined
    rw [Result.combine, Result.withCollisions]

/-- A scan that nothing stops puts together the files of each project: all of them or, without
tests, those that are not left out. Whatever is left out belongs to the category of tests, and the
other files of this category are overlooked: a directory of tests on the way to them lies at or
above the source directory, is spelled with capitals or is told from a part of a name. The contracts
of a result are in the categories of its files, so that without tests there are tests among them
only if a file is overlooked. Exactly the tests are left out if and only if none is overlooked. -/
theorem Request.scan_without_tests (ht : t.top.Proper) (hplain : t.top.Plain) {includeTests : Bool}
    {report : Report}
    (h : request.EndsWith { settings with includeTests := includeTests } t (.ok report)) :
    ∃ plan, request.plan settings t = .ok plan ∧
      List.Forall₂ (fun p r => ∃ files,
        sourceFiles t settings.excludeDirs true p.1 = .ok files ∧
        r.IsFrom t p.1 p.2 (files.filter fun f => includeTests || !isLeftOut p.1 f) ∧
        (∀ f ∈ files, isTest p.1 f = true ↔
          isLeftOut p.1 f = true ∨ isOverlooked p.1 f = true) ∧
        (∀ c ∈ r.contracts, ∃ f ∈ files, (includeTests = true ∨ isLeftOut p.1 f = false) ∧
          c.path = p.1.root.label f ∧ (c.category = .tests ↔ isTest p.1 f = true)) ∧
        (files.filter (!isLeftOut p.1 ·) = files.filter (!isTest p.1 ·) ↔
          ∀ f ∈ files, isOverlooked p.1 f = false)) plan.projects report.projects ∧
      ∀ c, report.combined = some c → c.contracts = report.projects.flatMap (·.contracts) := by
  have hdirect := (h.eq_direct hplain).symm
  rw [direct] at hdirect
  obtain ⟨plan, hplan, hdirect⟩ := bind_eq_ok_iff.1 hdirect
  refine ⟨plan, hplan, ?_⟩
  dsimp only at hdirect
  split at hdirect
  · cases hdirect
  obtain ⟨results, hresults, hconclude⟩ := bind_eq_ok_iff.1 hdirect
  rw [projects_of_conclude hconclude]
  refine ⟨?_, fun c => contracts_of_conclude hconclude⟩
  rw [start, hplan, mapM_eq_ok_iff, List.forall₂_map_left_iff] at hresults
  -- of each project it is known in addition where its sources are
  have hall := (List.forall₂_and_left _ _).2 ⟨fun p => exists_sourceRoot hplan (p := p), hresults⟩
  refine hall.imp ?_
  rintro ⟨info, label⟩ r ⟨⟨src, hsrc⟩, hr⟩
  obtain ⟨listed, hlisted, hfrom⟩ := ProjectJob.isFrom_of_direct hr
  obtain ⟨files, hfiles, hkept⟩ : ∃ files,
      sourceFiles t settings.excludeDirs true info = .ok files ∧
        listed = files.filter fun f => includeTests || !isLeftOut info f := by
    cases includeTests with
    | true => exact ⟨listed, hlisted, by simp⟩
    | false =>
      have hlisted : sourceFiles t settings.excludeDirs false info = .ok listed := hlisted
      rw [sourceFiles_without_tests ht] at hlisted
      obtain ⟨files, hfiles, heq⟩ := map_eq_ok_iff.1 hlisted
      exact ⟨files, hfiles, heq.symm⟩
  subst hkept
  have htest := fun f hf => isTest_iff ht hplain hfiles hsrc (p := f) hf
  refine ⟨files, hfiles, hfrom, htest, fun c hc => ?_, filter_isTest_eq_iff ht hplain hfiles hsrc⟩
  obtain ⟨f, hf, hpath, hcategory⟩ := hfrom.exists_file hc
  obtain ⟨hf, hopen⟩ := List.mem_filter.1 hf
  refine ⟨f, hf, by simpa using hopen, hpath, ?_⟩
  rw [hcategory, hpath, isTest, decide_eq_true_eq]

/-- A contract, and another one in a directory of tests that is spelled with a capital. -/
def capitalTests : FileTree where
  top := .dir [("A.sol", .file (Text.Utf8.encode "contract A \x7b\x7d")),
    ("Test", .dir [("T.sol", .file (Text.Utf8.encode "contract T \x7b\x7d"))])]
  cwd := Path.mk .root []

theorem proper_capitalTests : capitalTests.top.Proper := by
  have hfile := Node.Proper.file
  refine .dir (by decide) (by simp) ?_
  simp only [List.forall_mem_cons, List.not_mem_nil, false_implies, implies_true, and_true]
  exact ⟨hfile _, .dir (by decide) (by simp) (by simp [hfile])⟩

theorem plain_capitalTests : capitalTests.top.Plain := by
  have hfile := Node.Plain.file
  refine .dir (by decide) ?_
  simp only [List.forall_mem_cons, List.not_mem_nil, false_implies, implies_true, and_true]
  exact ⟨hfile _, .dir (by decide) (by simp [hfile])⟩

/-- The settings of a scan without tests. -/
def withoutTests : Settings := { Settings.default with includeTests := false }

theorem plan_capitalTests : (Request.project "/").plan withoutTests capitalTests =
    .ok ⟨⟨.root, []⟩, [(singleProject, none)]⟩ := by
  have hlocate : capitalTests.locate ⟨.root, []⟩ = .ok capitalTests.top := rfl
  have hroot : validateRoot capitalTests "/" = .ok ⟨.root, []⟩ :=
    eq_ok_of_toOption (by decide +kernel)
  have hclassify : classifyDir capitalTests ⟨.root, []⟩ = .ok singleProject :=
    eq_ok_of_toOption (by decide +kernel)
  have hmarked : markedDirs capitalTests withoutTests.search ⟨.root, []⟩ = [] := by
    rw [markedDirs, visited, hlocate, capitalTests]
    simp (disch := decide +kernel) only [Node.walk_dir_of_pairwise, List.flatMap_cons,
      List.flatMap_nil]
    decide +kernel
  simp only [Request.plan, hroot, bind, Except.bind, hclassify, hmarked]
  rfl

/-- The file in the directory of tests is listed. -/
theorem sourceFiles_capitalTests : sourceFiles capitalTests [] false singleProject =
    .ok [⟨.root, ["A.sol"]⟩, ⟨.root, ["Test", "T.sol"]⟩] := by
  have hlocate : capitalTests.locate ⟨.root, []⟩ = .ok capitalTests.top := rfl
  have hdir : ask (capitalTests.isDir ⟨.root, []⟩) = .ok true := rfl
  simp only [sourceFiles, singleProject, hdir, bind, Except.bind, visited, hlocate]
  rw [capitalTests]
  simp (disch := decide +kernel) only [Node.walk_dir_of_pairwise, List.flatMap_cons,
    List.flatMap_nil]
  exact eq_ok_of_toOption (by decide +kernel)

/-- A scan without tests has a contract of the tests, whose file is overlooked. -/
theorem Request.scan_without_tests_capitalTests : ∃ r,
    fresh withoutTests 1 capitalTests (.project "/") = .ok ⟨[r], none⟩ ∧ r.filesScanned = 2 ∧
    r.contracts.map (·.category) = [.contracts, .tests] ∧
    ∃ files, sourceFiles capitalTests [] true singleProject = .ok files ∧
      ∃ f ∈ files, isTest singleProject f = true ∧ isOverlooked singleProject f = true := by
  have hevaluated : (((ProjectJob.ofFiles singleProject none [⟨.root, ["A.sol"]⟩,
      ⟨.root, ["Test", "T.sol"]⟩]).direct withoutTests capitalTests).map
        fun r => (r.filesScanned, r.contracts.map (·.category))).toOption =
          some (2, [.contracts, .tests]) := by
    decide +kernel
  obtain ⟨r, hr, hvalues⟩ := map_eq_ok_iff.1 (eq_ok_of_toOption hevaluated)
  obtain ⟨hscanned, hcategories⟩ := Prod.mk.inj hvalues
  have hstart : ProjectJob.start withoutTests capitalTests singleProject none =
      .ofFiles singleProject none [⟨.root, ["A.sol"]⟩, ⟨.root, ["Test", "T.sol"]⟩] := by
    have hlisted : sourceFiles capitalTests withoutTests.excludeDirs withoutTests.includeTests
        singleProject = _ := sourceFiles_capitalTests
    rw [ProjectJob.start, hlisted]
    rfl
  have hfresh : fresh withoutTests 1 capitalTests (project "/") = .ok ⟨[r], none⟩ := by
    rw [fresh_eq_direct_of_plain plain_capitalTests, direct_project plan_capitalTests, hstart, hr]
    rfl
  refine ⟨r, hfresh, hscanned, hcategories, ?_⟩
  have hends : (project "/").EndsWith withoutTests capitalTests (.ok ⟨[r], none⟩) :=
    .session _ ⟨rfl, fun _ => rfl⟩ rfl (.new 1) hfresh
  obtain ⟨plan, hplan, hprojects, -⟩ :=
    @scan_without_tests .default _ _ proper_capitalTests plain_capitalTests _ _ hends
  cases plan_capitalTests.symm.trans hplan
  obtain ⟨⟨files, hfiles, -, htests, hcontracts, -⟩, -⟩ := List.forall₂_cons.1 hprojects
  refine ⟨files, hfiles, ?_⟩
  obtain ⟨c, hc, htest⟩ := List.mem_map.1
    (hcategories ▸ List.mem_cons_of_mem _ List.mem_cons_self : Category.tests ∈ _)
  obtain ⟨f, hf, hkept, -, hcategory⟩ := hcontracts c hc
  refine ⟨f, hf, hcategory.1 htest, ((htests f hf).1 (hcategory.1 htest)).resolve_left ?_⟩
  rw [hkept.resolve_left Bool.false_ne_true]
  exact Bool.false_ne_true

end Scan

end AbiIndex
