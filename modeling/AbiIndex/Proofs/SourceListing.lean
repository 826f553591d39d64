import AbiIndex.Proofs.MarkedDirectories

/-!
# Which files a project lists

A project lists the source files below its source directory that lie in no directory which is left
out: by its name, or as a nested project. The source directory itself may have any name and may be
a nested project. The files of a directory come by name, and before those of the directories in it.

Nested projects are told by their paths, written as the search writes them. In absolute paths without
double dots this means that nothing is listed in a nested project that lies below the source
directory.

## Key results

- `mem_sourceFiles_iff`: which files are listed
- `pairwise_sourceFiles`: in which order
- `sourceFiles_exact`: both, for every project and every tree, and that the order in which directories
  list their entries changes nothing
-/

namespace AbiIndex

namespace Path

/-- The file `p` is listed before the file `q`: its directory comes first, or it has the lesser name
in the same directory. -/
def ListedBefore (p q : Path) : Prop :=
  p.parent.Precedes q.parent ∨ p.parent = q.parent ∧ p.name < q.name

theorem ListedBefore.irrefl (p : Path) : ¬ p.ListedBefore p := by
  rintro (h | ⟨-, h⟩)
  · exact Precedes.irrefl _ h
  · exact String.lt_irrefl _ h

theorem ListedBefore.asymm {p q : Path} (h : p.ListedBefore q) : ¬ q.ListedBefore p := by
  rcases h with hdir | ⟨hdir, hname⟩
  · rintro (hdir' | ⟨hdir', -⟩)
    · exact List.lt_irrefl _ (List.lt_trans hdir hdir')
    · rw [hdir'] at hdir
      exact Precedes.irrefl _ hdir
  · rintro (hdir' | ⟨-, hname'⟩)
    · rw [hdir] at hdir'
      exact Precedes.irrefl _ hdir'
    · exact String.lt_asymm hname hname'

instance : Std.Irrefl ListedBefore := ⟨ListedBefore.irrefl⟩

instance : Std.Antisymm ListedBefore := ⟨fun _ _ h h' => absurd h' h.asymm⟩

end Path

namespace Project

variable {t t' : FileTree} {excludeDirs : List String} {includeTests : Bool} {info : Info} {n : Node}

/-- The file `name` of the directory at the names `dir` below the source directory is a source of the
project. -/
structure IsSource (t : FileTree) (excludeDirs : List String) (includeTests : Bool) (info : Info)
    (dir : List String) (name : String) : Prop where
  entry : ∃ n m, t.locate info.sourceRoot = .ok n ∧ n.at? (dir ++ [name]) = some m ∧
    m.isDir = false
  suffix : name.endsWith ".sol" = true ∧ (includeTests = false → name.endsWith ".t.sol" = false)
  /-- No directory between the source directory and the file is left out by its name. -/
  kept : ∀ x ∈ dir, x ∉ excludedDirs ∧ x ∉ excludeDirs ∧
    (includeTests = false → x ≠ "test" ∧ x ≠ "tests")
  /-- None of them is a nested project. -/
  apart : ∀ xs, xs <+: dir → xs ≠ [] → info.sourceRoot.below xs ∉ info.nested

theorem isListed_iff {name : String} : isListed includeTests name = true ↔
    name.endsWith ".sol" = true ∧ (includeTests = false → name.endsWith ".t.sol" = false) := by
  cases includeTests <;> simp [isListed, isSourceName]

theorem isOpenName_iff {name : String} : isOpenName excludeDirs includeTests name = true ↔
    name ∉ excludedDirs ∧ name ∉ excludeDirs ∧
      (includeTests = false → name ≠ "test" ∧ name ≠ "tests") := by
  cases includeTests <;> simp [isOpenName, and_assoc]

theorem IsSource.of_relists (h : t.Relists t') {dir : List String} {name : String}
    (hsource : IsSource t excludeDirs includeTests info dir name) :
    IsSource t' excludeDirs includeTests info dir name := by
  obtain ⟨⟨n, m, hlocate, hat, hm⟩, hsuffix, hkept, hapart⟩ := hsource
  obtain ⟨n', hlocate', hn⟩ := h.locate_ok hlocate
  obtain ⟨m', hat', hm'⟩ := hn.at? hat
  exact ⟨⟨n', m', hlocate', hat', hm'.isDir_eq ▸ hm⟩, hsuffix, hkept, hapart⟩

theorem proper_of_locate (ht : t.top.Proper) {p : Path} (h : t.locate p = .ok n) : n.Proper :=
  (ht.of_at? (FileTree.at?_of_locate h)).2

/-- A project lists its sources. -/
theorem mem_sourceFiles_iff (ht : t.top.Proper) {files : List Path}
    (h : sourceFiles t excludeDirs includeTests info = .ok files)
    (hdir : t.isDir info.sourceRoot = .ok true) {p : Path} : p ∈ files ↔
      ∃ dir name, p = (info.sourceRoot.below dir).child name ∧
        IsSource t excludeDirs includeTests info dir name := by
  obtain ⟨n, hlocate, hn⟩ := isDir_eq_ok_true.1 hdir
  have hproper := proper_of_locate ht hlocate
  rw [sourceFiles_eq_of_isDir hlocate hn] at h
  cases h
  simp only [List.mem_flatMap, List.mem_map, List.mem_filter, Text.mem_sorted,
    Node.mem_walk_iff hproper, goesAlong_descends_iff, isListed_iff, isOpenName_iff]
  constructor
  · rintro ⟨stop, ⟨dir, m, hat, -, ⟨hkept, hapart⟩, rfl⟩, name, ⟨hname, hsuffix⟩, rfl⟩
    have hname : name ∈ m.namesOf (!·.isDir) := hname
    obtain ⟨k, hentry, hk⟩ := (Node.mem_namesOf_iff (hproper.of_at? hat).2).1 hname
    refine ⟨dir, name, rfl, ⟨n, k, hlocate, ?_, by simpa using hk⟩, hsuffix, hkept, hapart⟩
    simp [Node.at?_append, hat, Node.at?, hentry]
  · rintro ⟨dir, name, rfl, ⟨n', k, hlocate', hat, hk⟩, hsuffix, hkept, hapart⟩
    rw [hlocate] at hlocate'
    cases hlocate'
    rw [Node.at?_append, Option.bind_eq_some_iff] at hat
    obtain ⟨m, hat, hentry⟩ := hat
    have hm := Node.isDir_of_at?_cons hentry
    have hentry : m.entry? name = some k := by simpa [Node.at?] using hentry
    have hname : name ∈ m.namesOf (!·.isDir) :=
      (Node.mem_namesOf_iff (hproper.of_at? hat).2).2 ⟨k, hentry, by simp [hk]⟩
    exact ⟨_, ⟨dir, m, hat, hm, ⟨hkept, hapart⟩, rfl⟩, name, ⟨hname, hsuffix⟩, rfl⟩

/-- The files of a directory are listed by name, and before those of the directories in it. -/
theorem pairwise_sourceFiles (ht : t.top.Proper) {files : List Path}
    (h : sourceFiles t excludeDirs includeTests info = .ok files)
    (hdir : t.isDir info.sourceRoot = .ok true) : files.Pairwise Path.ListedBefore := by
  obtain ⟨n, hlocate, hn⟩ := isDir_eq_ok_true.1 hdir
  have hproper := proper_of_locate ht hlocate
  rw [sourceFiles_eq_of_isDir hlocate hn] at h
  cases h
  rw [List.pairwise_flatMap]
  constructor
  · -- in one directory the names decide
    intro stop hstop
    obtain ⟨names, m, hat, -, -, rfl⟩ := (Node.mem_walk_iff hproper _ _ _).1 hstop
    have hnames := Text.pairwise_lt_sorted (Node.nodup_namesOf (hproper.of_at? hat).2 (!·.isDir))
    refine List.pairwise_map.2 ((hnames.sublist List.filter_sublist).imp ?_)
    intro name name' hlt
    exact .inr ⟨by simp, by simpa using hlt⟩
  · -- else the directories do
    refine (List.pairwise_map.1 (Node.pairwise_walk hproper _ _)).imp ?_
    intro stop stop' hprecedes p hp p' hp'
    obtain ⟨name, -, rfl⟩ := List.mem_map.1 hp
    obtain ⟨name', -, rfl⟩ := List.mem_map.1 hp'
    refine .inl ?_
    rwa [Path.parent_child, Path.parent_child]

/-- A project with sources has a source directory. -/
theorem IsSource.isDir_sourceRoot {dir : List String} {name : String}
    (h : IsSource t excludeDirs includeTests info dir name) : t.isDir info.sourceRoot = .ok true := by
  obtain ⟨n, m, hlocate, hat, -⟩ := h.entry
  have hn : n.isDir := by
    cases dir with
    | nil => exact Node.isDir_of_at?_cons hat
    | cons first rest => exact Node.isDir_of_at?_cons hat
  exact isDir_eq_ok_true.2 ⟨n, hlocate, hn⟩

theorem exists_sourceFiles (excludeDirs : List String) (includeTests : Bool)
    (h : t.isDir info.sourceRoot = .ok true) :
    ∃ files, sourceFiles t excludeDirs includeTests info = .ok files := by
  obtain ⟨n, hlocate, hn⟩ := isDir_eq_ok_true.1 h
  exact ⟨_, sourceFiles_eq_of_isDir hlocate hn⟩

/-- The order in which directories list their entries does not matter. -/
theorem sourceFiles_of_relists (ht : t.top.Proper) (ht' : t'.top.Proper) (h : t.Relists t') :
    sourceFiles t' excludeDirs includeTests info = sourceFiles t excludeDirs includeTests info := by
  have hsame := h.isDir_eq info.sourceRoot
  cases hdir : t.isDir info.sourceRoot with
  | error e =>
    rw [sourceFiles_of_isDir_error hdir, sourceFiles_of_isDir_error (hsame.symm.trans hdir)]
  | ok b =>
    cases b with
    | false =>
      rw [sourceFiles_of_isDir_false hdir, sourceFiles_of_isDir_false (hsame.symm.trans hdir)]
    | true =>
      have hdir' := hsame.symm.trans hdir
      obtain ⟨files, hfiles⟩ := exists_sourceFiles excludeDirs includeTests hdir
      obtain ⟨files', hfiles'⟩ := exists_sourceFiles excludeDirs includeTests hdir'
      rw [hfiles, hfiles', Except.ok.injEq]
      -- both lists have the same files in the same order
      refine (pairwise_sourceFiles ht' hfiles' hdir').eq_of_mem_iff
        (pairwise_sourceFiles ht hfiles hdir) fun p => ?_
      rw [mem_sourceFiles_iff ht hfiles hdir, mem_sourceFiles_iff ht' hfiles' hdir']
      constructor
      · rintro ⟨dir, name, hp, hsource⟩
        exact ⟨dir, name, hp, hsource.of_relists h.symm⟩
      · rintro ⟨dir, name, hp, hsource⟩
        exact ⟨dir, name, hp, hsource.of_relists h⟩

/-- Where paths have no double dots, no source lies in a nested project that lies below the source
directory. -/
theorem IsSource.not_nested (hinfo : info.Absolute) {dir : List String} {name : String}
    (h : IsSource t excludeDirs includeTests info dir name) {d : Path} (hd : d ∈ info.nested)
    (hbelow : info.sourceRoot.names <+: d.names) (hne : d.names ≠ info.sourceRoot.names) :
    ¬ d.names <+: (info.sourceRoot.below dir).names := by
  obtain ⟨xs, hxs⟩ := hbelow
  rw [← hxs, Path.below, List.prefix_append_right_inj]
  intro hprefix
  have hnil : xs ≠ [] := by
    rintro rfl
    exact hne (by rw [← hxs, List.append_nil])
  have hpath : info.sourceRoot.below xs = d := by
    rw [Path.below, hxs, hinfo.source, ← (hinfo.nested d hd).1]
  exact h.apart xs hprefix hnil (hpath ▸ hd)

/-- A project lists exactly its sources, each of them once, the files of a directory by name and
before those of the directories in it. Only where the path of the source directory is too long to ask
for, the listing fails; then there are no sources. The order in which directories list their entries
changes nothing about it. -/
theorem sourceFiles_exact (ht : t.top.Proper) (excludeDirs : List String) (includeTests : Bool)
    (info : Info) :
    ∃ files : List Path,
      (∀ p, p ∈ files ↔ ∃ dir name, p = (info.sourceRoot.below dir).child name ∧
        IsSource t excludeDirs includeTests info dir name) ∧
      files.Pairwise Path.ListedBefore ∧
      (info.Absolute → ∀ p ∈ files, ∀ d ∈ info.nested, info.sourceRoot.names <+: d.names →
        d.names ≠ info.sourceRoot.names → ¬ d.names <+: p.parent.names) ∧
      (sourceFiles t excludeDirs includeTests info = .ok files ∨
        files = [] ∧ t.IsTooLong info.sourceRoot ∧
          sourceFiles t excludeDirs includeTests info =
            .error (.inaccessible (.nameTooLong info.sourceRoot))) ∧
      ∀ t' : FileTree, t'.top.Proper → t.Relists t' →
        sourceFiles t' excludeDirs includeTests info =
          sourceFiles t excludeDirs includeTests info := by
  have hrelists : ∀ t' : FileTree, t'.top.Proper → t.Relists t' →
      sourceFiles t' excludeDirs includeTests info = sourceFiles t excludeDirs includeTests info :=
    fun t' ht' => sourceFiles_of_relists ht ht'
  have hnone : t.isDir info.sourceRoot ≠ .ok true → ∀ p, p ∈ ([] : List Path) ↔
      ∃ dir name, p = (info.sourceRoot.below dir).child name ∧
        IsSource t excludeDirs includeTests info dir name := by
    intro hdir p
    refine iff_of_false List.not_mem_nil ?_
    rintro ⟨dir, name, -, hsource⟩
    exact hdir hsource.isDir_sourceRoot
  cases hdir : t.isDir info.sourceRoot with
  | error e =>
    obtain ⟨rfl, hlong⟩ := FileTree.isDir_eq_error hdir
    exact ⟨[], hnone (by simp [hdir]), .nil, by simp,
      .inr ⟨rfl, hlong, sourceFiles_of_isDir_error hdir⟩, hrelists⟩
  | ok b =>
    cases b with
    | false =>
      exact ⟨[], hnone (by simp [hdir]), .nil, by simp, .inl (sourceFiles_of_isDir_false hdir),
        hrelists⟩
    | true =>
      obtain ⟨files, hfiles⟩ := exists_sourceFiles excludeDirs includeTests hdir
      have hmem := fun p => mem_sourceFiles_iff ht hfiles hdir (p := p)
      refine ⟨files, hmem, pairwise_sourceFiles ht hfiles hdir, ?_, .inl hfiles, hrelists⟩
      intro hinfo p hp d hd hbelow hne
      obtain ⟨dir, name, rfl, hsource⟩ := (hmem p).1 hp
      rw [Path.parent_child]
      exact hsource.not_nested hinfo hd hbelow hne

/-! ## A source directory with an excluded name -/

/-- A source directory that is called like a directory of dependencies. -/
def depot : FileTree where
  top := .dir [("lib", .dir [("z.sol", .file []), ("n", .dir [("N.sol", .file [])]),
    ("a", .dir [("test", .dir [("T.sol", .file [])]), ("B.sol", .dangling), ("A.t.sol", .file [])])])]
  cwd := Path.mk .root []

/-- The source directory is given as a nested project as well. -/
def depotInfo : Info :=
  ⟨.plain, ⟨.root, []⟩, ⟨.root, ["lib"]⟩, none, [⟨.root, ["lib"]⟩, ⟨.root, ["lib", "n"]⟩]⟩

theorem proper_depot : depot.top.Proper := by
  have hfile := Node.Proper.file
  have hn : (Node.dir [("N.sol", .file [])]).Proper := .dir (by decide) (by simp) (by simp [hfile])
  have htest : (Node.dir [("T.sol", .file [])]).Proper :=
    .dir (by decide) (by simp) (by simp [hfile])
  refine .dir (by decide) (by simp) ?_
  simp only [List.forall_mem_cons, List.not_mem_nil, false_implies, implies_true, and_true]
  refine .dir (by decide) (by simp) ?_
  simp only [List.forall_mem_cons, List.not_mem_nil, false_implies, implies_true, and_true]
  refine ⟨hfile _, hn, .dir (by decide) (by simp) ?_⟩
  simp [hfile, htest, Node.Proper.dangling]

/-- Without tests two files are listed, one of which cannot be opened, and none in the nested project
or among the tests. -/
theorem sourceFiles_depot : ∃ files, sourceFiles depot [] false depotInfo = .ok files ∧
    ⟨.root, ["lib", "z.sol"]⟩ ∈ files ∧ ⟨.root, ["lib", "a", "B.sol"]⟩ ∈ files ∧
    ⟨.root, ["lib", "a", "A.t.sol"]⟩ ∉ files ∧ ⟨.root, ["lib", "n", "N.sol"]⟩ ∉ files ∧
    ⟨.root, ["lib", "a", "test", "T.sol"]⟩ ∉ files := by
  obtain ⟨files, hmem, -, -, hfiles, -⟩ := sourceFiles_exact proper_depot [] false depotInfo
  have hok : sourceFiles depot [] false depotInfo = .ok files := by
    refine hfiles.resolve_right ?_
    rintro ⟨-, hlong, -⟩
    revert hlong
    decide +kernel
  -- what lies below the source directory is listed exactly if it is a source
  have hiff : ∀ dir name, ⟨.root, "lib" :: (dir ++ [name])⟩ ∈ files ↔
      IsSource depot [] false depotInfo dir name := by
    intro dir name
    rw [hmem]
    constructor
    · rintro ⟨dir', name', hp, hsource⟩
      have hnames : dir ++ [name] = dir' ++ [name'] := (List.cons.inj (congrArg Path.names hp)).2
      obtain ⟨rfl, hname⟩ := List.append_inj' hnames rfl
      cases hname
      exact hsource
    · exact fun hsource => ⟨dir, name, rfl, hsource⟩
  refine ⟨files, hok, (hiff [] "z.sol").2 ?_, (hiff ["a"] "B.sol").2 ?_,
    fun h => ?_, fun h => ?_, fun h => ?_⟩
  · refine ⟨⟨_, _, rfl, rfl, rfl⟩, by decide +kernel, by simp, fun xs hxs hne => ?_⟩
    exact absurd (List.prefix_nil.1 hxs) hne
  · refine ⟨⟨_, _, rfl, rfl, rfl⟩, by decide +kernel, by decide, fun xs hxs hne => ?_⟩
    obtain ⟨rest, rfl, hrest⟩ := (List.prefix_cons_iff.1 hxs).resolve_left hne
    rw [List.prefix_nil.1 hrest]
    decide
  · exact absurd (((hiff ["a"] "A.t.sol").1 h).suffix.2 rfl) (by decide +kernel)
  · exact ((hiff ["n"] "N.sol").1 h).apart ["n"] (List.prefix_refl _) (by simp) (by decide)
  · exact (((hiff ["a", "test"] "T.sol").1 h).kept "test" (by simp)).2.2 rfl |>.1 rfl

end Project

end AbiIndex
