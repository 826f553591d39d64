import AbiIndex.Proofs.MarkerAgreement

/-!
# When a directory without a marker is a project

A search from a directory without a marker lists this directory as a project if there are files of
its own to scan, beside the projects that it finds. It looks for them in the source directory alone:
in `contracts` or `src`, whichever holds any sources, be it in nested projects, and only without both
in the whole directory. So own files elsewhere are overlooked; and files in a source directory that
is a project itself, or that the search was told to leave out, count as own ones.

## Key results

- `projectsOf_eq_ok_iff`: what a search from a directory without a marker gives
- `picksSource_of_classifyDir`: which directory is taken as the source directory
- `lists_root_iff`: when the directory is listed, and how this departs from holding own files
- `lists_root_departs`: a directory that is not listed although it holds a file of its own, and one
  that is listed without
-/

namespace AbiIndex.Project

variable {t : FileTree} {options : SearchOptions} {root dir : Path} {n m : Node}
  {excludeDirs : List String} {apart marked : List Path} {infos : List Info}

/-- A directory as a project that has its sources anywhere below it, but not in others. -/
def asProject (dir : Path) (others : List Path) : Info := ⟨.plain, dir, dir, none, others⟩

/-- There is a source file below the directory that lies in no directory which is left out by its
name and in none of the others. -/
def HoldsOwn (t : FileTree) (excludeDirs : List String) (others : List Path) (dir : Path) : Prop :=
  ∃ names name, IsSource t excludeDirs true (asProject dir others) names name

/-- The first of the directories of `root` with the given names that holds any sources, or else
`root` itself. -/
inductive PicksSource (t : FileTree) (root : Path) : List String → Path → Prop
  | root : PicksSource t root [] root
  | here {name : String} {rest : List String} (holds : HoldsOwn t [] [] (root.child name)) :
      PicksSource t root (name :: rest) (root.child name)
  | further {name : String} {rest : List String} {dir : Path}
      (empty : ¬ HoldsOwn t [] [] (root.child name)) (next : PicksSource t root rest dir) :
      PicksSource t root (name :: rest) dir

/-! ## The source directory -/

/-- A project is told by its source directory and its nested projects which files are its sources. -/
theorem IsSource.congr {info info' : Info} {includeTests : Bool}
    (hsource : info.sourceRoot = info'.sourceRoot) (hnested : info.nested = info'.nested)
    {names : List String} {name : String}
    (h : IsSource t excludeDirs includeTests info names name) :
    IsSource t excludeDirs includeTests info' names name := by
  obtain ⟨hentry, hsuffix, hkept, hapart⟩ := h
  rw [hsource] at hentry hapart
  rw [hnested] at hapart
  exact ⟨hentry, hsuffix, hkept, hapart⟩

/-- With fewer names that are left out there are more sources. -/
theorem IsSource.mono {includeTests : Bool} {info : Info} {excludeDirs' : List String}
    (hsub : excludeDirs' ⊆ excludeDirs) {names : List String} {name : String}
    (h : IsSource t excludeDirs includeTests info names name) :
    IsSource t excludeDirs' includeTests info names name := by
  obtain ⟨hentry, hsuffix, hkept, hapart⟩ := h
  refine ⟨hentry, hsuffix, fun x hx => ?_, hapart⟩
  obtain ⟨hexcluded, hleft, htests⟩ := hkept x hx
  exact ⟨hexcluded, fun hmem => hleft (hsub hmem), htests⟩

/-- A directory holds own sources exactly if it lists some as a project. -/
theorem holdsOwn_iff (ht : t.top.Proper) {files : List Path}
    (h : sourceFiles t excludeDirs true (asProject dir apart) = .ok files)
    (hdir : t.isDir dir = .ok true) : HoldsOwn t excludeDirs apart dir ↔ ∃ p, p ∈ files := by
  simp only [mem_sourceFiles_iff ht h hdir]
  constructor
  · rintro ⟨names, name, hsource⟩
    exact ⟨_, names, name, rfl, hsource⟩
  · rintro ⟨-, names, name, -, hsource⟩
    exact ⟨names, name, hsource⟩

/-- The search for any sources in a directory finds out whether it holds some. -/
theorem containsSources_iff (ht : t.top.Proper) (hdir : t.isDir dir = .ok true) :
    containsSources t dir = true ↔ HoldsOwn t [] [] dir := by
  obtain ⟨n, hlocate, hn⟩ := isDir_eq_ok_true.1 hdir
  have hfiles := @sourceFiles_eq_of_isDir t [] true (asProject dir []) n hlocate hn
  have hdescend : descends [] true (asProject dir []) =
      fun _ name => decide (name ∉ excludedDirs) := by
    funext path name
    simp [descends, isOpenName, asProject]
  rw [holdsOwn_iff ht hfiles hdir, hdescend, containsSources, visited, hlocate]
  simp only [List.any_eq_true, List.mem_flatMap, List.mem_map, List.mem_filter, Text.mem_sorted]
  constructor
  · rintro ⟨stop, hstop, name, hname, hsource⟩
    exact ⟨_, stop, hstop, name, ⟨hname, by simpa [isListed] using hsource⟩, rfl⟩
  · rintro ⟨-, stop, hstop, name, ⟨hname, hlisted⟩, -⟩
    exact ⟨stop, hstop, name, hname, by simpa [isListed] using hlisted⟩

/-- What holds sources is a directory. -/
theorem HoldsOwn.isDir (h : HoldsOwn t excludeDirs apart dir) : t.isDir dir = .ok true := by
  obtain ⟨names, name, hsource⟩ := h
  exact hsource.isDir_sourceRoot

/-- The first of some directories that holds sources is picked, if there is one. -/
theorem picksSource_of_dirWithSources? (ht : t.top.Proper) {names : List String}
    {found : Option Path} (h : dirWithSources? t root names = .ok found) :
    PicksSource t root names (found.getD root) := by
  induction names with
  | nil =>
    cases h
    exact .root
  | cons name names ih =>
    rw [dirWithSources?] at h
    obtain ⟨b, hb, h⟩ := bind_eq_ok_iff.1 h
    have hdir := ask_eq_ok_iff.1 hb
    split at h
    · rename_i hholds
      cases h
      rw [Bool.and_eq_true] at hholds
      obtain ⟨rfl, hcontains⟩ := hholds
      exact .here ((containsSources_iff ht hdir).1 hcontains)
    · rename_i hempty
      refine .further (fun hholds => hempty ?_) (ih h)
      rw [hholds.isDir, Except.ok.injEq] at hdir
      rw [← hdir, Bool.true_and]
      exact (containsSources_iff ht hholds.isDir).2 hholds

/-- The source directory of a directory that is searched exists. -/
theorem PicksSource.isDir {names : List String} (hroot : t.isDir root = .ok true)
    (h : PicksSource t root names dir) : t.isDir dir = .ok true := by
  induction h with
  | root => exact hroot
  | here holds => exact holds.isDir
  | further empty next ih => exact ih

/-- It is the directory itself, or an entry of it. -/
theorem PicksSource.eq_or_child {names : List String} (h : PicksSource t root names dir) :
    dir = root ∨ ∃ name ∈ names, dir = root.child name := by
  induction h with
  | root => exact .inl rfl
  | here holds => exact .inr ⟨_, List.mem_cons_self, rfl⟩
  | further empty next ih =>
    exact ih.imp_right fun ⟨name, hname, heq⟩ => ⟨name, List.mem_cons_of_mem _ hname, heq⟩

/-- With fewer projects apart there are more own sources. -/
theorem HoldsOwn.mono_apart {apart' : List Path} (hsub : apart' ⊆ apart)
    (h : HoldsOwn t excludeDirs apart dir) : HoldsOwn t excludeDirs apart' dir := by
  obtain ⟨names, name, hentry, hsuffix, hkept, hapart⟩ := h
  exact ⟨names, name, hentry, hsuffix, hkept, fun xs hxs hne hmem => hapart xs hxs hne (hsub hmem)⟩

/-! ## Sources of a directory and of one of its entries -/

/-- A source below an entry of a directory is one below the directory, unless the entry is left
out. -/
theorem isSource_cons_iff (hroot : root.anchor = .root) {child : String} (hchild : child ≠ "..")
    (hn : t.locate root = .ok n) (hm : t.locate (root.child child) = .ok m) {names : List String}
    {name : String} :
    IsSource t excludeDirs true (asProject root apart) (child :: names) name ↔
      (child ∉ excludedDirs ∧ child ∉ excludeDirs) ∧ root.child child ∉ apart ∧
        IsSource t excludeDirs true (asProject (root.child child) apart) names name := by
  have hentry := entry?_of_locate_child hroot hchild hn hm
  have hstep : ∀ names, n.at? (child :: names) = m.at? names := by
    intro names
    rw [Node.at?, hentry, Option.bind_some]
  have hpath : ∀ xs, (asProject root apart).sourceRoot.below (child :: xs) =
      (root.child child).below xs := fun xs => Path.below_cons root child xs
  constructor
  · rintro ⟨⟨n', k, hn', hat, hk⟩, hsuffix, hkept, hapart⟩
    cases hn.symm.trans hn'
    rw [List.forall_mem_cons] at hkept
    have hself : root.child child ∉ apart := by
      have := hapart [child] (by simp) (by simp)
      rwa [hpath, Path.below_nil] at this
    refine ⟨⟨hkept.1.1, hkept.1.2.1⟩, hself, ⟨m, k, hm, (hstep _).symm.trans hat, hk⟩, hsuffix,
      hkept.2, fun xs hxs hne => ?_⟩
    have := hapart (child :: xs) (List.cons_prefix_cons.2 ⟨rfl, hxs⟩) (by simp)
    rwa [hpath] at this
  · rintro ⟨⟨hexcluded, hleft⟩, hself, ⟨m', k, hm', hat, hk⟩, hsuffix, hkept, hapart⟩
    cases hm.symm.trans hm'
    refine ⟨⟨n, k, hn, (hstep _).trans hat, hk⟩, hsuffix,
      List.forall_mem_cons.2 ⟨⟨hexcluded, hleft, by simp⟩, hkept⟩, fun xs hxs hne => ?_⟩
    obtain ⟨rest, rfl, hrest⟩ := (List.prefix_cons_iff.1 hxs).resolve_left hne
    rw [hpath]
    by_cases hnil : rest = []
    · rw [hnil, Path.below_nil]
      exact hself
    · exact hapart rest hrest hnil

/-! ## The search -/

/-- What a search from a directory without a marker gives: the directory, if its source directory has
files of its own, and the marked directories, each of them classified. -/
theorem projectsOf_eq_ok_iff (hroot : root ∉ marked) (hnested : nestedUnder root marked ≠ []) :
    projectsOf t options root marked = .ok infos ↔
      ∃ plain files others, classifyDir t root = .ok plain ∧
        sourceFiles t options.excludeDirs true { plain with nested := nestedUnder root marked } =
          .ok files ∧
        List.Forall₂ (fun path info => ∃ plain, classifyDir t path = .ok plain ∧
          info = { plain with nested := nestedUnder path marked }) marked others ∧
        infos = (if files = [] then [] else
          [{ plain with nested := nestedUnder root marked }]) ++ others := by
  have hown : ∀ (files : List Path) (own : Info),
      (if (decide (nestedUnder root marked = []) || decide (files ≠ [])) = true then [own] else []) =
        if files = [] then [] else [own] := by
    intro files own
    rw [decide_eq_false hnested, Bool.false_or]
    by_cases hfiles : files = []
    · simp [hfiles]
    · simp [hfiles]
  rw [projectsOf]
  simp only [if_neg hroot, if_neg hnested, pure_bind, bind_eq_ok_iff, mapM_classifyDir_eq_ok_iff, hown]
  constructor
  · rintro ⟨plain, hplain, files, hfiles, others, hothers, h⟩
    cases h
    exact ⟨plain, files, others, hplain, hfiles, hothers, rfl⟩
  · rintro ⟨plain, files, others, hplain, hfiles, hothers, rfl⟩
    exact ⟨plain, hplain, files, hfiles, others, hothers, rfl⟩

/-! ## A root without a marker -/

/-- The root itself is among the projects. -/
def ListsRoot (infos : List Info) (root : Path) : Prop := ∃ info ∈ infos, info.root = root

section Unmarked

variable {given : String} (ht : t.top.Proper) (hroot : validateRoot t given = .ok root)
  (hunmarked : root ∉ markedDirs t options root)

include ht hroot hunmarked

/-- All marked directories lie below the root. -/
theorem nestedUnder_markedDirs_of_not_mem :
    nestedUnder root (markedDirs t options root) = markedDirs t options root := by
  obtain ⟨hanchor, -⟩ := validateRoot_spec hroot
  rw [nestedUnder, List.filter_eq_self]
  intro d hd
  obtain ⟨hd', hprefix, -⟩ := mem_markedDirs ht hanchor hd
  have hne : d ≠ root := by
    rintro rfl
    exact hunmarked hd
  simpa [hne] using Path.isSome_relativeTo?_iff.2 ⟨hd'.trans hanchor.symm, hprefix⟩

/-- No file of the root is a marker, because the search sees none there. -/
theorem findMarker_isFile_eq_none_of_not_mem (hlocate : t.locate root = .ok n)
    (hn : n.isDir = true) : findMarker (n.namesOf (·.isFile)) = none := by
  obtain ⟨hanchor, hdots⟩ := validateRoot_spec hroot
  have htop := at?_names_of_locate hanchor hdots hlocate
  have hsees := (isVisited_root htop hn options).mem_markedDirs_iff ht hanchor hdots hlocate
  rw [Path.below_nil] at hsees
  have hnone := Option.not_isSome_iff_eq_none.1 (mt hsees.2 hunmarked)
  have hsame := (findMarker_isFile_eq_iff (proper_of_locate ht hlocate)).2
  rw [hnone] at hsame
  exact hsame fun marker hmarker => nomatch hmarker

/-- The source directory of the root is picked among the usual ones, and it is there. -/
theorem picksSource_of_classifyDir {info : Info} (h : classifyDir t root = .ok info) :
    info.root = root ∧ PicksSource t root ["contracts", "src"] info.sourceRoot ∧
      t.isDir info.sourceRoot = .ok true := by
  obtain ⟨n, hlocate, hn⟩ := isDir_of_validateRoot hroot
  have hnone := findMarker_isFile_eq_none_of_not_mem ht hroot hunmarked hlocate hn
  obtain ⟨-, heq, -, found, hfound, hsource⟩ := classifyDir_of_findMarker_eq_none hlocate hnone h
  have hpicks := picksSource_of_dirWithSources? ht hfound
  rw [← hsource] at hpicks
  exact ⟨heq, hpicks, hpicks.isDir (isDir_eq_ok_true.2 ⟨n, hlocate, hn⟩)⟩

variable (hmarked : markedDirs t options root ≠ [])

include hmarked

/-- The search fails only if the root or a marked directory cannot be classified. -/
theorem exists_projectsOf_iff :
    (∃ infos, projectsOf t options root (markedDirs t options root) = .ok infos) ↔
      ∀ d, d = root ∨ d ∈ markedDirs t options root → ∃ info, classifyDir t d = .ok info := by
  have hnested : nestedUnder root (markedDirs t options root) ≠ [] := by
    rwa [nestedUnder_markedDirs_of_not_mem ht hroot hunmarked]
  constructor
  · rintro ⟨infos, h⟩ d hd
    obtain ⟨plain, -, others, hplain, -, hothers, -⟩ :=
      (projectsOf_eq_ok_iff hunmarked hnested).1 h
    rcases hd with rfl | hd
    · exact ⟨plain, hplain⟩
    · obtain ⟨-, -, info, hinfo, -⟩ := exists_right_of_forall₂ hothers hd
      exact ⟨info, hinfo⟩
  · intro h
    obtain ⟨plain, hplain⟩ := h root (.inl rfl)
    obtain ⟨-, -, hsource⟩ := picksSource_of_classifyDir ht hroot hunmarked hplain
    obtain ⟨files, hfiles⟩ := @exists_sourceFiles t
      { plain with nested := nestedUnder root (markedDirs t options root) } options.excludeDirs true
      hsource
    have hclassifies : ∀ d : Path, ∃ info, d ∈ markedDirs t options root →
        classifyDir t d = .ok info := by
      intro d
      by_cases hd : d ∈ markedDirs t options root
      · exact (h d (.inr hd)).imp fun info hinfo _ => hinfo
      · exact ⟨plain, fun hd' => absurd hd' hd⟩
    choose classified hclassified using hclassifies
    refine ⟨_, (projectsOf_eq_ok_iff hunmarked hnested).2 ⟨plain, files,
      (markedDirs t options root).map fun d =>
        { classified d with nested := nestedUnder d (markedDirs t options root) },
      hplain, hfiles, ?_, rfl⟩⟩
    rw [List.forall₂_map_right_iff, List.forall₂_same]
    exact fun d hd => ⟨classified d, hclassified d hd, rfl⟩

/-- The root is listed exactly if its source directory has files to list. -/
theorem listsRoot_iff_of_projectsOf
    (h : projectsOf t options root (markedDirs t options root) = .ok infos) :
    ∃ dir, PicksSource t root ["contracts", "src"] dir ∧
      (ListsRoot infos root ↔ HoldsOwn t options.excludeDirs (markedDirs t options root) dir) ∧
      ∀ info ∈ infos, info.root = root →
        info.sourceRoot = dir ∧ info.nested = markedDirs t options root := by
  have hnested := nestedUnder_markedDirs_of_not_mem ht hroot hunmarked
  obtain ⟨plain, files, others, hplain, hfiles, hothers, rfl⟩ :=
    (projectsOf_eq_ok_iff hunmarked (by rwa [hnested])).1 h
  obtain ⟨heq, hpicks, hsource⟩ := picksSource_of_classifyDir ht hroot hunmarked hplain
  -- the marked directories are not the root
  have hother : ∀ info ∈ others, info.root ≠ root := by
    intro info hinfo heq
    obtain ⟨d, hd, plain', hplain', rfl⟩ := exists_left_of_forall₂ hothers hinfo
    have hd' : d = root := (classifyDir_spec hplain').1.symm.trans heq
    exact hunmarked (hd' ▸ hd)
  have hholds : HoldsOwn t options.excludeDirs (markedDirs t options root) plain.sourceRoot ↔
      files ≠ [] := by
    rw [hnested] at hfiles
    rw [holdsOwn_iff ht hfiles hsource, ← List.length_pos_iff_exists_mem, List.length_pos_iff]
  refine ⟨plain.sourceRoot, hpicks, ?_, ?_⟩
  · rw [hholds]
    by_cases hempty : files = []
    · rw [if_pos hempty, List.nil_append]
      refine iff_of_false ?_ (not_not.2 hempty)
      rintro ⟨info, hinfo, heq⟩
      exact hother info hinfo heq
    · rw [if_neg hempty]
      exact iff_of_true ⟨_, List.mem_cons_self, heq⟩ hempty
  · intro info hinfo heq
    rcases List.mem_append.1 hinfo with hinfo | hinfo
    · split at hinfo
      · cases hinfo
      · cases List.mem_singleton.1 hinfo
        exact ⟨rfl, hnested⟩
    · exact absurd heq (hother info hinfo)

end Unmarked

theorem usual_source_name {name : String} (h : name ∈ ["contracts", "src"]) :
    name ≠ ".." ∧ name ∉ excludedDirs := by
  revert name
  decide

/-- Files of its own that a source directory holds are some of the root, unless the source directory
is a project itself or is left out by its name. -/
theorem HoldsOwn.of_source (hanchor : root.anchor = .root) (hlocate : t.locate root = .ok n)
    (hpicks : PicksSource t root ["contracts", "src"] dir) (h : HoldsOwn t excludeDirs apart dir)
    (hapart : dir ∉ apart) (hleft : dir = root ∨ dir.name ∉ excludeDirs) :
    HoldsOwn t excludeDirs apart root := by
  obtain ⟨m, hm, -⟩ := isDir_eq_ok_true.1 h.isDir
  rcases hpicks.eq_or_child with rfl | ⟨child, hchild, rfl⟩
  · exact h
  by_cases hself : root.child child = root
  · rwa [hself] at h
  obtain ⟨names, name, hsource⟩ := h
  obtain ⟨hdots, hexcluded⟩ := usual_source_name hchild
  have hkept := hleft.resolve_left hself
  rw [Path.name_child] at hkept
  exact ⟨child :: names, name,
    (isSource_cons_iff hanchor hdots hlocate hm).2 ⟨⟨hexcluded, hkept⟩, hapart, hsource⟩⟩

/-- A file of the root that lies in the source directory is one of the source directory. -/
theorem HoldsOwn.source_of_mem (hanchor : root.anchor = .root) (hlocate : t.locate root = .ok n)
    (hpicks : PicksSource t root ["contracts", "src"] dir) (hdir : t.isDir dir = .ok true)
    {names : List String} {name : String}
    (h : IsSource t excludeDirs true (asProject root apart) names name)
    (hmem : dir.names <+: (root.below names).names) : HoldsOwn t excludeDirs apart dir := by
  obtain ⟨m, hm, -⟩ := isDir_eq_ok_true.1 hdir
  rcases hpicks.eq_or_child with rfl | ⟨child, hchild, rfl⟩
  · exact ⟨names, name, h⟩
  have hdots := (usual_source_name hchild).1
  rw [Path.child, Path.below, List.prefix_append_right_inj] at hmem
  obtain ⟨rest, rfl⟩ := hmem
  exact ⟨rest, name, ((isSource_cons_iff hanchor hdots hlocate hm).1 h).2.2⟩

/-- For a root without a marker that has marked directories below it, a search fails exactly if one
of these directories cannot be classified, which has its reasons. It lists the root exactly if the
source directory of the root holds files that lie in no marked directory below this source directory
and that are not left out; the root then has files to list. The source directory is looked at
whatever it is. So the root is listed without a file of its own only if its source directory is
marked itself or left out by its name, and a root that has files of its own is not listed only if
none of them lies in the source directory. -/
theorem lists_root_iff (ht : t.top.Proper) {given : String}
    (hroot : validateRoot t given = .ok root) (hunmarked : root ∉ markedDirs t options root)
    (hmarked : markedDirs t options root ≠ []) :
    ((∃ infos, discover t options given = .ok infos) ↔
      ∀ d, d = root ∨ d ∈ markedDirs t options root → ∃ info, classifyDir t d = .ok info) ∧
    (∀ d e, classifyDir t d = .error e → Unclassified t d e) ∧
    ∀ infos, discover t options given = .ok infos → ∃ dir,
      PicksSource t root ["contracts", "src"] dir ∧
      (ListsRoot infos root ↔ HoldsOwn t options.excludeDirs (markedDirs t options root) dir) ∧
      (∀ info ∈ infos, info.root = root → info.sourceRoot = dir ∧
        ∀ excludeDirs ⊆ options.excludeDirs, ∃ files,
          sourceFiles t excludeDirs true info = .ok files ∧ files ≠ []) ∧
      (ListsRoot infos root →
        HoldsOwn t options.excludeDirs (markedDirs t options root) root ∨
          dir ∈ markedDirs t options root ∨ dir ≠ root ∧ dir.name ∈ options.excludeDirs) ∧
      (¬ ListsRoot infos root → ∀ names name,
        IsSource t options.excludeDirs true (asProject root (markedDirs t options root)) names name →
          ¬ dir.names <+: (root.below names).names) := by
  obtain ⟨hanchor, -⟩ := validateRoot_spec hroot
  obtain ⟨n, hlocate, hn⟩ := isDir_of_validateRoot hroot
  have hdiscover : discover t options given =
      projectsOf t options root (markedDirs t options root) := by
    rw [discover, hroot]
    rfl
  rw [hdiscover]
  refine ⟨exists_projectsOf_iff ht hroot hunmarked hmarked,
    fun d e => unclassified_of_classifyDir, fun infos h => ?_⟩
  obtain ⟨dir, hpicks, hlists, hinfo⟩ := listsRoot_iff_of_projectsOf ht hroot hunmarked hmarked h
  refine ⟨dir, hpicks, hlists, ?_, ?_, ?_⟩
  · intro info hmem heq
    obtain ⟨hsource, hnested⟩ := hinfo info hmem heq
    refine ⟨hsource, fun excludeDirs hsub => ?_⟩
    obtain ⟨names, name, hown⟩ := hlists.1 ⟨info, hmem, heq⟩
    have hown : IsSource t excludeDirs true info names name :=
      (hown.congr hsource.symm hnested.symm).mono hsub
    obtain ⟨files, hfiles⟩ := exists_sourceFiles excludeDirs true hown.isDir_sourceRoot
    have hmem := (mem_sourceFiles_iff ht hfiles hown.isDir_sourceRoot).2 ⟨names, name, rfl, hown⟩
    exact ⟨files, hfiles, List.ne_nil_of_mem hmem⟩
  · intro h
    by_contra hnot
    rw [not_or, not_or, not_and_or, not_not] at hnot
    exact hnot.1 (.of_source hanchor hlocate hpicks (hlists.1 h) hnot.2.1 hnot.2.2)
  · intro h names name hsource hmem
    exact h (hlists.2 (.source_of_mem hanchor hlocate hpicks
      (hpicks.isDir (isDir_eq_ok_true.2 ⟨n, hlocate, hn⟩)) hsource hmem))

/-- A directory without a marker that has sources in `contracts`. -/
theorem classifyDir_of_holdsOwn (ht : t.top.Proper) (hlocate : t.locate root = .ok n)
    (hnone : findMarker (n.namesOf (·.isFile)) = none)
    (h : HoldsOwn t [] [] (root.child "contracts")) :
    classifyDir t root = .ok ⟨.plain, root, root.child "contracts", none, []⟩ := by
  have hcontains := (containsSources_iff ht h.isDir).2 h
  rw [classifyDir, hlocate]
  dsimp only
  rw [hnone, dirWithSources?, h.isDir, hcontains]
  rfl

/-- Only one directory can be taken if the first holds sources. -/
theorem PicksSource.eq_of_holdsOwn {name : String} {names : List String}
    (h : PicksSource t root (name :: names) dir) (hholds : HoldsOwn t [] [] (root.child name)) :
    dir = root.child name := by
  cases h with
  | here => rfl
  | further empty => exact absurd hholds empty

/-- A directory that holds one project and nothing else holds no files of its own. -/
theorem not_holdsOwn_of_single {name : String} (hlocate : t.locate dir = .ok (.dir [(name, m)]))
    (hm : m.isDir = true) (hmem : dir.child name ∈ apart) : ¬ HoldsOwn t excludeDirs apart dir := by
  rintro ⟨names, file, ⟨n', k, hn', hat, hk⟩, -, -, hapart⟩
  cases hlocate.symm.trans hn'
  obtain ⟨first, rest, hnames⟩ : ∃ first rest, names ++ [file] = first :: rest :=
    List.exists_cons_of_ne_nil (by simp)
  rw [hnames, Node.at?, Option.bind_eq_some_iff] at hat
  obtain ⟨child, hentry, hat⟩ := hat
  obtain ⟨es, hes, hfirst⟩ := Node.entry?_eq_some hentry
  cases hes
  cases List.mem_singleton.1 hfirst
  cases names with
  | nil =>
    -- the project itself is no file
    cases hnames
    cases hat
    rw [hm] at hk
    cases hk
  | cons x names =>
    cases (List.cons.inj hnames).1
    exact hapart [name] (by simp) (by simp) hmem

/-! ## Two roots without a marker -/

/-- In `a` there is a file beside the source directory, in which there is only a project; in `b` the
source directory is a project itself. -/
def twoRoots : FileTree where
  top := .dir [
    ("a", .dir [("Root.sol", .file []), ("contracts", .dir [("nested", .dir [("Inner.sol", .file []),
      ("hardhat.config.js", .file [])])])]),
    ("b", .dir [("contracts", .dir [("A.sol", .file []), ("hardhat.config.js", .file [])])])]
  cwd := Path.mk .root []

theorem proper_twoRoots : twoRoots.top.Proper := by
  have hproject : ∀ name, name ≠ "hardhat.config.js" → name ≠ ".." →
      (Node.dir [(name, .file []), ("hardhat.config.js", .file [])]).Proper := by
    intro name hname hdots
    exact .dir (by simpa using hname) (by simpa using hdots) (by simp [Node.Proper.file])
  have hone : ∀ name n, name ≠ ".." → n.Proper → (Node.dir [(name, n)]).Proper := by
    intro name n hdots hn
    exact .dir (by simp) (by simpa using hdots) (by simpa using hn)
  have ha : (Node.dir [("Root.sol", .file []), ("contracts", .dir [("nested",
      .dir [("Inner.sol", .file []), ("hardhat.config.js", .file [])])])]).Proper := by
    refine .dir (by decide) (by simp) ?_
    simp only [List.forall_mem_cons, List.not_mem_nil, false_implies, implies_true, and_true]
    exact ⟨.file [], hone _ _ (by decide) (hproject _ (by decide) (by decide))⟩
  refine .dir (by decide) (by simp) ?_
  simp only [List.forall_mem_cons, List.not_mem_nil, false_implies, implies_true, and_true]
  exact ⟨ha, hone _ _ (by decide) (hproject _ (by decide) (by decide))⟩

theorem markedDirs_twoRoots :
    markedDirs twoRoots ⟨[], 8⟩ ⟨.root, ["a"]⟩ = [⟨.root, ["a", "contracts", "nested"]⟩] ∧
      markedDirs twoRoots ⟨[], 8⟩ ⟨.root, ["b"]⟩ = [⟨.root, ["b", "contracts"]⟩] := by
  have ha : twoRoots.locate ⟨.root, ["a"]⟩ = .ok _ := rfl
  have hb : twoRoots.locate ⟨.root, ["b"]⟩ = .ok _ := rfl
  rw [markedDirs, visited, ha, markedDirs, visited, hb]
  -- the entries are listed by name, so that nothing has to be sorted
  simp (disch := decide +kernel) only [Node.walk_dir_of_pairwise, List.flatMap_cons,
    List.flatMap_nil]
  decide +kernel

/-- In both roots the source directory is `contracts`. -/
theorem holdsOwn_twoRoots : HoldsOwn twoRoots [] [] ⟨.root, ["a", "contracts"]⟩ ∧
    HoldsOwn twoRoots [] [⟨.root, ["b", "contracts"]⟩] ⟨.root, ["b", "contracts"]⟩ := by
  constructor
  · exact ⟨["nested"], "Inner.sol", ⟨_, _, rfl, rfl, rfl⟩, by decide +kernel, by decide,
      by simp [asProject]⟩
  · refine ⟨[], "A.sol", ⟨_, _, rfl, rfl, rfl⟩, by decide +kernel, by simp, fun xs hxs hne => ?_⟩
    exact absurd (List.prefix_nil.1 hxs) hne

/-- In `a` the root holds a file of its own and is not listed; in `b` it is listed without one. -/
theorem lists_root_departs :
    (∃ infos, discover twoRoots ⟨[], 8⟩ "/a" = .ok infos ∧ ¬ ListsRoot infos ⟨.root, ["a"]⟩ ∧
      HoldsOwn twoRoots [] [⟨.root, ["a", "contracts", "nested"]⟩] ⟨.root, ["a"]⟩) ∧
    ∃ infos, discover twoRoots ⟨[], 8⟩ "/b" = .ok infos ∧ ListsRoot infos ⟨.root, ["b"]⟩ ∧
      ¬ HoldsOwn twoRoots [] [⟨.root, ["b", "contracts"]⟩] ⟨.root, ["b"]⟩ := by
  obtain ⟨ha, hb⟩ := markedDirs_twoRoots
  obtain ⟨hholdsA, hholdsB⟩ := holdsOwn_twoRoots
  constructor
  · have hroot : validateRoot twoRoots "/a" = .ok ⟨.root, ["a"]⟩ :=
      eq_ok_of_toOption (by decide +kernel)
    have h := @lists_root_iff twoRoots ⟨[], 8⟩ _ proper_twoRoots _ hroot
    rw [ha] at h
    obtain ⟨hok, -, hlists⟩ := h (by decide) (by decide)
    obtain ⟨infos, hinfos⟩ := hok.2 (by
      rintro d (rfl | hd)
      · exact ⟨_, classifyDir_of_holdsOwn proper_twoRoots rfl (by decide +kernel) hholdsA⟩
      · cases List.mem_singleton.1 hd
        exact ⟨_, rfl⟩)
    obtain ⟨dir, hpicks, hiff, -⟩ := hlists infos hinfos
    cases hpicks.eq_of_holdsOwn hholdsA
    refine ⟨infos, hinfos, fun hlisted => ?_, [], "Root.sol", ⟨_, _, rfl, rfl, rfl⟩,
      by decide +kernel, by simp, fun xs hxs hne => absurd (List.prefix_nil.1 hxs) hne⟩
    exact not_holdsOwn_of_single rfl rfl (by decide) (hiff.1 hlisted)
  · have hroot : validateRoot twoRoots "/b" = .ok ⟨.root, ["b"]⟩ :=
      eq_ok_of_toOption (by decide +kernel)
    have h := @lists_root_iff twoRoots ⟨[], 8⟩ _ proper_twoRoots _ hroot
    rw [hb] at h
    obtain ⟨hok, -, hlists⟩ := h (by decide) (by decide)
    have hany := hholdsB.mono_apart (List.nil_subset _)
    obtain ⟨infos, hinfos⟩ := hok.2 (by
      rintro d (rfl | hd)
      · exact ⟨_, classifyDir_of_holdsOwn proper_twoRoots rfl (by decide +kernel) hany⟩
      · cases List.mem_singleton.1 hd
        exact ⟨_, rfl⟩)
    obtain ⟨dir, hpicks, hiff, -⟩ := hlists infos hinfos
    cases hpicks.eq_of_holdsOwn hany
    exact ⟨infos, hinfos, hiff.2 hholdsB, not_holdsOwn_of_single rfl rfl (by decide)⟩

end AbiIndex.Project
