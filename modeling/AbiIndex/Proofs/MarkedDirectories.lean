import AbiIndex.Proofs.DirectoryLookup
import AbiIndex.Proofs.ListingOrder
import Mathlib.Data.List.Sort

/-!
# Which directories a search finds

A search for projects finds the directories that hold an entry with the name of a marker, up to its
limit of depth and outside of the directories that it leaves out. It finds each of them once, from
the top down and those in one directory by name, whatever the order in which directories list their
entries.

## Key results

- `mem_markedDirs_iff`: which directories are found
- `findRoots_exact`: these, in their order, and that nothing else decides about them
-/

namespace AbiIndex

namespace Project

variable {t t' : FileTree} {options : SearchOptions} {root : Path} {n : Node}

/-- The directory holds an entry with the name of a marker which is no directory. -/
def HoldsMarker (n : Node) : Prop :=
  ∃ marker ∈ markers, ∃ m, n.entry? marker.2 = some m ∧ m.isDir = false

/-- The directory at the given names below `root` is one that a search from `root` looks for: it
holds a marker, it lies no deeper than allowed, and none of the names on the way to it is left
out. -/
structure IsSought (t : FileTree) (options : SearchOptions) (root : Path) (names : List String) :
    Prop where
  marked : ∃ n, t.top.at? (root.names ++ names) = some n ∧ HoldsMarker n
  depth : (names.length : Int) ≤ options.maxDepth
  entered : ∀ name ∈ names, name ∉ excludedDirs ∧ name ∉ options.excludeDirs

/-! ## Markers -/

theorem isSome_findMarker_iff {names : List String} :
    (findMarker names).isSome = true ↔ ∃ marker ∈ markers, marker.2 ∈ names := by
  simp [findMarker, List.find?_isSome]

theorem isSome_findMarker_namesOf_iff (hn : n.Proper) :
    (findMarker (n.namesOf (!·.isDir))).isSome = true ↔ HoldsMarker n := by
  simp only [isSome_findMarker_iff, Node.mem_namesOf_iff hn, HoldsMarker, Bool.not_eq_true']

theorem HoldsMarker.isDir (h : HoldsMarker n) : n.isDir = true := by
  obtain ⟨marker, -, m, hentry, -⟩ := h
  obtain ⟨es, rfl, -⟩ := Node.entry?_eq_some hentry
  rfl

theorem HoldsMarker.of_relists {n' : Node} (hn : n.Relists n') (h : HoldsMarker n) :
    HoldsMarker n' := by
  obtain ⟨marker, hmarker, m, hentry, hm⟩ := h
  obtain ⟨m', hentry', hrelists⟩ := hn.entry? hentry
  exact ⟨marker, hmarker, m', hentry', hrelists.isDir_eq ▸ hm⟩

theorem IsSought.of_relists (h : t.Relists t') {names : List String}
    (hsought : IsSought t options root names) : IsSought t' options root names := by
  obtain ⟨⟨n, hat, hmarker⟩, hdepth, hentered⟩ := hsought
  obtain ⟨n', hat', hn⟩ := h.top.at? hat
  exact ⟨⟨n', hat', hmarker.of_relists hn⟩, hdepth, hentered⟩

/-! ## The search -/

/-- A search that looks at names alone goes along those that it does not leave out. -/
theorem goesAlong_isEntered_iff (path : Path) (names : List String) :
    Node.goesAlong (fun _ name => isEntered options name) path names = true ↔
      ∀ name ∈ names, name ∉ excludedDirs ∧ name ∉ options.excludeDirs := by
  induction names generalizing path with
  | nil => simp [Node.goesAlong]
  | cons name names ih =>
    rw [Node.goesAlong, Bool.and_eq_true, ih, List.forall_mem_cons]
    simp [isEntered]

/-- The directories with a marker, however deep they lie. -/
theorem mem_markedBelow_iff (ht : t.top.Proper) (hroot : root.anchor = .root)
    (hdots : ".." ∉ root.names) (hlocate : t.locate root = .ok n) {d : Path} :
    d ∈ markedBelow t options root ↔ ∃ names, d = root.below names ∧
      (∃ m, t.top.at? (root.names ++ names) = some m ∧ HoldsMarker m) ∧
      ∀ name ∈ names, name ∉ excludedDirs ∧ name ∉ options.excludeDirs := by
  have htop := at?_names_of_locate hroot hdots hlocate
  have hn := (ht.of_at? htop).2
  have hbelow : ∀ names, t.top.at? (root.names ++ names) = n.at? names := by
    intro names
    rw [Node.at?_append, htop]
    rfl
  simp only [hbelow, markedBelow, visited, hlocate, List.mem_map, List.mem_filter,
    Node.mem_walk_iff hn, goesAlong_isEntered_iff]
  constructor
  · rintro ⟨stop, ⟨⟨names, m, hat, hm, hentered, rfl⟩, hmarker⟩, rfl⟩
    have hproper := (hn.of_at? hat).2
    exact ⟨names, rfl, ⟨m, hat, (isSome_findMarker_namesOf_iff hproper).1 hmarker⟩, hentered⟩
  · rintro ⟨names, rfl, ⟨m, hat, hmarker⟩, hentered⟩
    have hproper := (hn.of_at? hat).2
    exact ⟨_, ⟨⟨names, m, hat, hmarker.isDir, hentered, rfl⟩,
      (isSome_findMarker_namesOf_iff hproper).2 hmarker⟩, rfl⟩

/-- A search finds the directories that it looks for. -/
theorem mem_markedDirs_iff (ht : t.top.Proper) (hroot : root.anchor = .root)
    (hdots : ".." ∉ root.names) (hlocate : t.locate root = .ok n)
    (hlimit : 0 ≤ options.maxDepth) {d : Path} :
    d ∈ markedDirs t options root ↔ ∃ names, d = root.below names ∧
      IsSought t options root names := by
  have hdepth : ∀ names : List String, Node.depthFrom root.names.length (root.below names) =
      names.length := by
    intro names
    simp [Node.depthFrom, Path.below]
  rw [markedDirs_eq ht hroot hlimit, List.mem_filter, decide_eq_true_eq,
    mem_markedBelow_iff ht hroot hdots hlocate]
  constructor
  · rintro ⟨⟨names, rfl, hmarked, hentered⟩, hle⟩
    rw [hdepth] at hle
    exact ⟨names, rfl, hmarked, hle, hentered⟩
  · rintro ⟨names, rfl, hmarked, hle, hentered⟩
    rw [hdepth]
    exact ⟨⟨names, rfl, hmarked, hentered⟩, hle⟩

/-- A search finds exactly the directories that it looks for, each of them once, from the top down
and those in one directory by name. The order in which directories list their entries changes
nothing about it. -/
theorem findRoots_exact (ht : t.top.Proper) (hlimit : 0 ≤ options.maxDepth) {given : String}
    (hroot : validateRoot t given = .ok root) :
    ∃ found, findRoots t options given = .ok found ∧
      (∀ d, d ∈ found ↔ ∃ names, d = root.below names ∧ IsSought t options root names) ∧
      found.Pairwise Path.Precedes ∧
      ∀ t' : FileTree, t'.top.Proper → t.Relists t' → findRoots t' options given = .ok found := by
  obtain ⟨hanchor, hdots⟩ := validateRoot_spec hroot
  obtain ⟨n, hlocate, -⟩ := isDir_of_validateRoot hroot
  have hfound : ∀ t : FileTree, validateRoot t given = .ok root →
      findRoots t options given = .ok (markedDirs t options root) := by
    intro t hroot
    rw [findRoots, hroot]
    rfl
  have hmem : ∀ d, d ∈ markedDirs t options root ↔
      ∃ names, d = root.below names ∧ IsSought t options root names :=
    fun d => mem_markedDirs_iff ht hanchor hdots hlocate hlimit
  refine ⟨_, hfound t hroot, hmem, pairwise_markedDirs ht options hanchor, ?_⟩
  intro t' ht' hrelists
  obtain ⟨n', hlocate', -⟩ := hrelists.locate_ok hlocate
  rw [hfound t' ((validateRoot_of_relists hrelists given).symm.trans hroot)]
  refine congrArg Except.ok ?_
  -- both lists have the same directories in the same order
  refine (pairwise_markedDirs ht' options hanchor).eq_of_mem_iff
    (pairwise_markedDirs ht options hanchor) fun d => ?_
  rw [hmem, mem_markedDirs_iff ht' hanchor hdots hlocate' hlimit]
  constructor
  · rintro ⟨names, hd, hsought⟩
    exact ⟨names, hd, hsought.of_relists hrelists.symm⟩
  · rintro ⟨names, hd, hsought⟩
    exact ⟨names, hd, hsought.of_relists hrelists⟩

/-! ## A workspace listed in two orders -/

/-- What a workspace holds: projects at depths one, two and three, one in a directory of
dependencies, one in a directory that a search may be told to leave out, and a directory that is
called like a marker. -/
def workspaceEntries : List (String × Node) :=
  [("a", .dir [("hardhat.config.js", .dir []),
    ("x", .dir [("deep", .dir [("foundry.toml", .file [])]), ("foundry.toml", .file [])])]),
   ("b", .dir [("truffle.js", .dangling)]), ("lib", .dir [("foundry.toml", .file [])]),
   ("skip", .dir [("foundry.toml", .file [])])]

def workspace : FileTree := ⟨.dir workspaceEntries, Path.mk .root []⟩

/-- The same workspace, listed from the end. -/
def reversedWorkspace : FileTree := ⟨.dir workspaceEntries.reverse, Path.mk .root []⟩

theorem proper_workspace : workspace.top.Proper := by
  have hfile := Node.Proper.file
  have hproject : (Node.dir [("foundry.toml", .file [])]).Proper :=
    .dir (by decide) (by simp) (by simp [hfile])
  refine .dir (by decide) (by decide) ?_
  simp only [workspaceEntries, List.forall_mem_cons, List.not_mem_nil, false_implies, implies_true,
    and_true]
  refine ⟨.dir (by decide) (by decide) ?_, .dir (by decide) (by simp) ?_, hproject, hproject⟩
  · simp only [List.forall_mem_cons, List.not_mem_nil, false_implies, implies_true, and_true]
    refine ⟨.dir (by decide) (by simp) (by simp), .dir (by decide) (by simp) ?_⟩
    simp [hproject, hfile]
  · simp [Node.Proper.dangling]

/-- From the reversed listing the same two projects are found in the same order: one at the limit of
depth, and one whose marker leads nowhere. -/
theorem findRoots_workspace :
    findRoots reversedWorkspace ⟨["skip"], 2⟩ "/" =
      .ok [⟨.root, ["a", "x"]⟩, ⟨.root, ["b"]⟩] ∧
    IsSought workspace ⟨["skip"], 2⟩ ⟨.root, []⟩ ["a", "x"] ∧
    ¬ IsSought workspace ⟨["skip"], 2⟩ ⟨.root, []⟩ ["a", "x", "deep"] := by
  have hroot : validateRoot workspace "/" = .ok ⟨.root, []⟩ := eq_ok_of_toOption (by decide +kernel)
  have hmarked : markedDirs workspace ⟨["skip"], 2⟩ ⟨.root, []⟩ =
      [⟨.root, ["a", "x"]⟩, ⟨.root, ["b"]⟩] := by
    have hlocate : workspace.locate ⟨.root, []⟩ = .ok workspace.top := rfl
    rw [markedDirs, visited, hlocate, workspace, workspaceEntries]
    -- here the entries are listed by name, so that nothing has to be sorted
    simp (disch := decide +kernel) only [Node.walk_dir_of_pairwise, List.flatMap_cons,
      List.flatMap_nil]
    decide +kernel
  obtain ⟨found, hfound, hmem, -, hrelists⟩ :=
    @findRoots_exact workspace ⟨["skip"], 2⟩ _ proper_workspace (by decide) _ hroot
  have heq : found = [⟨.root, ["a", "x"]⟩, ⟨.root, ["b"]⟩] := by
    rw [findRoots, hroot] at hfound
    cases hfound
    exact hmarked
  have hperm : workspaceEntries.Perm workspaceEntries.reverse := (List.reverse_perm _).symm
  have htop : workspace.top.Relists reversedWorkspace.top := .of_perm proper_workspace hperm
  have hproper : reversedWorkspace.top.Proper := proper_workspace.of_perm hperm
  subst heq
  refine ⟨hrelists _ hproper ⟨htop, rfl⟩, ?_, ?_⟩
  · obtain ⟨names, heq, hsought⟩ := (hmem ⟨.root, ["a", "x"]⟩).1 (by simp)
    have hnames : ["a", "x"] = names := congrArg Path.names heq
    exact hnames ▸ hsought
  · intro hsought
    have hdeep := (hmem ⟨.root, ["a", "x", "deep"]⟩).2 ⟨_, rfl, hsought⟩
    revert hdeep
    decide

end Project

end AbiIndex
