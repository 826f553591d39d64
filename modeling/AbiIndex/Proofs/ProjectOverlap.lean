import AbiIndex.Project.Discovery
import AbiIndex.Proofs.Traversal
import AbiIndex.Proofs.TreeWalk

/-!
# Files that two projects share

The sources of a project are looked for from its source directory on, and the projects nested in it
are left out on the way. The source directory itself is not checked: it may be that of a nested
project or lie inside it, and a double dot in its path hides all nested projects from the search.

## Key results

- `yields_iff`: the files that a project lists
- `discover_spec`: what a search for projects gives
- `sharesFile_iff`: two projects of one search list a common file exactly if one of them enters the
  source directory of the other and leaves a file there to it; projects that stay at home never do
- `sharesFile_contracts`: a project whose source directory is marked itself shares its files
-/

namespace AbiIndex.Project

/-! ## The files of a project -/

section Files

variable (t : FileTree) (excludeDirs : List String) (includeTests : Bool) (info : Info)

/-- Whether a directory of the given name can hold sources. -/
def isOpenName (name : String) : Bool :=
  name ∉ excludedDirs && name ∉ excludeDirs && (includeTests || name ∉ ["test", "tests"])

/-- Where the search for the sources of a project goes. -/
def descends (path : Path) (name : String) : Bool :=
  isOpenName excludeDirs includeTests name && path.child name ∉ info.nested

/-- Whether a file of the given name is a source of a project. -/
def isListed (name : String) : Bool :=
  isSourceName name && (includeTests || !name.endsWith ".t.sol")

/-- The file at the path is among the sources of the project. -/
def Yields (p : Path) : Prop :=
  ∃ files, sourceFiles t excludeDirs includeTests info = .ok files ∧ p ∈ files

/-- The search for the sources of the project goes along the names, up to a directory. -/
def Goes (names : List String) : Prop :=
  (∃ n, t.locate info.sourceRoot = .ok n) ∧
  (∃ m, t.top.at? (info.sourceRoot.target ++ names) = some m ∧ m.isDir) ∧
  Node.goesAlong (descends excludeDirs includeTests info) info.sourceRoot names

/-- The search for the sources of the project comes through the directory. -/
def Visits (dir : List String) : Prop :=
  ∃ names, Goes t excludeDirs includeTests info names ∧ dir = info.sourceRoot.target ++ names

/-- The directory holds a source file of the given name. -/
def HoldsSource (dir : List String) (name : String) : Prop :=
  ∃ m, t.top.at? dir = some m ∧ name ∈ m.namesOf (!·.isDir) ∧ isListed includeTests name

/-- The two projects list a common file, maybe by different paths. -/
def SharesFile (other : Info) : Prop :=
  ∃ p q, Yields t excludeDirs includeTests info p ∧ Yields t excludeDirs includeTests other q ∧
    p.target = q.target

/-- The project leaves a directory on the way between two others to a project nested in it. A double
dot in its source directory hides the nested projects. -/
def Info.LeavesOut (start dir : List String) : Prop :=
  ".." ∉ info.sourceRoot.names ∧
    ∃ d ∈ info.nested, start <+: d.names ∧ d.names ≠ start ∧ d.names <+: dir

/-- The search of the project comes through the source directory of the other one, which lists a
file that the project leaves to no nested project. -/
def Intrudes (other : Info) : Prop :=
  Visits t excludeDirs includeTests info other.sourceRoot.target ∧
    ∃ q, Yields t excludeDirs includeTests other q ∧
      ¬ info.LeavesOut other.sourceRoot.target q.parent.target

/-- The source directory is not inside a project nested in the project, and its path has no double
dot. -/
def Info.AtHome : Prop :=
  ".." ∉ info.sourceRoot.names ∧ ∀ d ∈ info.nested, ¬ d.names <+: info.sourceRoot.names

instance : Decidable info.AtHome := inferInstanceAs (Decidable (_ ∧ _))

end Files

section Listing

variable {t : FileTree} {excludeDirs : List String} {includeTests : Bool} {info : Info}

theorem at?_target_of_locate {p : Path} {n : Node} (hp : p.anchor ≠ .relative)
    (h : t.locate p = .ok n) : t.top.at? p.target = some n := by
  have hnames : t.names p = p.names := by rw [FileTree.names, Path.join, if_neg hp]
  have hat := FileTree.at?_of_locate h
  rw [hnames] at hat
  exact hat

/-- A path without double dots leads along its names. -/
theorem at?_names_of_locate {p : Path} {n : Node} (hp : p.anchor = .root) (hdots : ".." ∉ p.names)
    (h : t.locate p = .ok n) : t.top.at? p.names = some n := by
  have hat := at?_target_of_locate (by rw [hp]; decide) h
  rwa [Path.target, Path.foldDots_of_not_mem hdots] at hat

theorem isDir_eq_ok_true {p : Path} : t.isDir p = .ok true ↔ ∃ n, t.locate p = .ok n ∧ n.isDir := by
  rw [FileTree.isDir, FileTree.find?]
  cases t.locate p with
  | ok n => simp [Except.map]
  | error e => cases e <;> simp [Except.map]

/-- The source files are those that the visited directories list. -/
theorem sourceFiles_eq_of_isDir {n : Node} (hn : t.locate info.sourceRoot = .ok n)
    (hdir : n.isDir) : sourceFiles t excludeDirs includeTests info =
      .ok ((n.walk (descends excludeDirs includeTests info) info.sourceRoot).flatMap fun stop =>
        ((Text.sorted stop.files).filter (isListed includeTests)).map stop.path.child) := by
  have hask : ask (t.isDir info.sourceRoot) = .ok true := by
    rw [isDir_eq_ok_true.2 ⟨n, hn, hdir⟩]
    rfl
  have hdescend : descends excludeDirs includeTests info = fun (path : Path) name =>
      name ∉ excludedDirs && name ∉ excludeDirs && path.child name ∉ info.nested
        && (includeTests || name ∉ ["test", "tests"]) := by
    funext path name
    simp only [descends, isOpenName]
    ac_rfl
  rw [sourceFiles, hask, hdescend]
  show Except.ok _ = Except.ok _
  rw [visited, hn]
  rfl

theorem sourceFiles_of_isDir_error {e : TreeError} (h : t.isDir info.sourceRoot = .error e) :
    sourceFiles t excludeDirs includeTests info = .error (.inaccessible e) := by
  rw [sourceFiles, h]
  rfl

theorem sourceFiles_of_isDir_false (h : t.isDir info.sourceRoot = .ok false) :
    sourceFiles t excludeDirs includeTests info = .ok [] := by
  rw [sourceFiles, h]
  rfl

/-- Files are listed only in a directory. -/
theorem isDir_of_mem_sourceFiles {files : List Path} {p : Path}
    (h : sourceFiles t excludeDirs includeTests info = .ok files) (hp : p ∈ files) :
    t.isDir info.sourceRoot = .ok true := by
  cases hdir : t.isDir info.sourceRoot with
  | error e =>
    rw [sourceFiles_of_isDir_error hdir] at h
    cases h
  | ok b =>
    cases b with
    | true => rfl
    | false =>
      rw [sourceFiles_of_isDir_false hdir] at h
      cases h
      cases hp

/-- A project lists the source files of the directories that its search visits. -/
theorem yields_iff (ht : t.top.Proper) (hroot : info.sourceRoot.anchor ≠ .relative) {p : Path} :
    Yields t excludeDirs includeTests info p ↔
      ∃ names file, Goes t excludeDirs includeTests info names ∧
        HoldsSource t includeTests (info.sourceRoot.target ++ names) file ∧
        p = (info.sourceRoot.below names).child file := by
  constructor
  · rintro ⟨files, hfiles, hp⟩
    obtain ⟨n, hn, hnDir⟩ := isDir_eq_ok_true.1 (isDir_of_mem_sourceFiles hfiles hp)
    have htop := at?_target_of_locate hroot hn
    rw [sourceFiles_eq_of_isDir hn hnDir] at hfiles
    cases hfiles
    obtain ⟨stop, hstop, hp⟩ := List.mem_flatMap.1 hp
    obtain ⟨file, hfile, rfl⟩ := List.mem_map.1 hp
    obtain ⟨names, m, hat, hm, hgoes, rfl⟩ :=
      (Node.mem_walk_iff (ht.of_at? htop).2 _ _ _).1 hstop
    have hatTop : t.top.at? (info.sourceRoot.target ++ names) = some m := by
      rw [Node.at?_append, htop]
      exact hat
    rw [List.mem_filter, Text.sorted, List.mem_mergeSort] at hfile
    exact ⟨names, file, ⟨⟨n, hn⟩, ⟨m, hatTop, hm⟩, hgoes⟩, ⟨m, hatTop, hfile⟩, rfl⟩
  · rintro ⟨names, file, ⟨⟨n, hn⟩, ⟨m, hatTop, hm⟩, hgoes⟩, ⟨m', hatTop', hfile⟩, rfl⟩
    have htop := at?_target_of_locate hroot hn
    rw [hatTop] at hatTop'
    cases hatTop'
    have hat : n.at? names = some m := by
      rw [Node.at?_append, htop] at hatTop
      exact hatTop
    have hnDir : n.isDir := by
      cases names with
      | nil =>
        cases hat
        exact hm
      | cons name names => exact Node.isDir_of_at?_cons hat
    refine ⟨_, sourceFiles_eq_of_isDir hn hnDir, List.mem_flatMap.2 ?_⟩
    refine ⟨_, (Node.mem_walk_iff (ht.of_at? htop).2 _ _ _).2
      ⟨names, m, hat, hm, hgoes, rfl⟩, List.mem_map_of_mem ?_⟩
    rw [List.mem_filter, Text.sorted, List.mem_mergeSort]
    exact hfile

/-- The names in a proper tree lead on from a path, which may have double dots itself. -/
theorem target_below (ht : t.top.Proper) {p : Path} {names : List String} {m : Node}
    (hat : t.top.at? (p.target ++ names) = some m) : (p.below names).target = p.target ++ names := by
  have hdots := (ht.of_at? hat).1
  rw [List.mem_append, not_or] at hdots
  exact Path.foldDots_append hdots.2 p.names

theorem ne_dots_of_holdsSource (ht : t.top.Proper) {dir : List String} {file : String}
    (h : HoldsSource t includeTests dir file) : file ≠ ".." := by
  obtain ⟨m, hat, hfile, -⟩ := h
  have hm := (ht.of_at? hat).2
  rw [Node.namesOf, List.mem_map] at hfile
  obtain ⟨e, he, rfl⟩ := hfile
  rw [List.mem_filter] at he
  cases hm with
  | file bytes => cases he.1
  | dangling => cases he.1
  | dir nodup dots below => exact dots e he.1

theorem target_child (ht : t.top.Proper) {p : Path} {names : List String} {m : Node}
    {file : String} (hat : t.top.at? (p.target ++ names) = some m) (hfile : file ≠ "..") :
    ((p.below names).child file).target = p.target ++ names ++ [file] := by
  have hdots := (ht.of_at? hat).1
  rw [List.mem_append, not_or] at hdots
  show Path.foldDots (p.names ++ names ++ [file]) = _
  rw [List.append_assoc, Path.foldDots_append, List.append_assoc]
  · rfl
  · rw [List.mem_append, List.mem_singleton, not_or]
    exact ⟨hdots.2, Ne.symm hfile⟩

/-- A search goes along open names, and into no nested project. -/
theorem goesAlong_descends_iff (path : Path) (names : List String) :
    Node.goesAlong (descends excludeDirs includeTests info) path names ↔
      (∀ name ∈ names, isOpenName excludeDirs includeTests name) ∧
      ∀ xs, xs <+: names → xs ≠ [] → path.below xs ∉ info.nested := by
  induction names generalizing path with
  | nil =>
    refine ⟨fun _ => ⟨by simp, fun xs hxs hne => ?_⟩, fun _ => rfl⟩
    exact absurd (List.prefix_nil.1 hxs) hne
  | cons name names ih =>
    rw [Node.goesAlong, Bool.and_eq_true, ih, descends, Bool.and_eq_true, decide_eq_true_eq]
    constructor
    · rintro ⟨⟨hname, hchild⟩, hnames, hnested⟩
      refine ⟨List.forall_mem_cons.2 ⟨hname, hnames⟩, fun xs hxs hne => ?_⟩
      cases xs with
      | nil => exact absurd rfl hne
      | cons x xs =>
        rw [List.cons_prefix_cons] at hxs
        obtain ⟨rfl, hxs⟩ := hxs
        rw [Path.below_cons]
        -- the first directory on the way, or one behind it
        by_cases hnil : xs = []
        · rw [hnil, Path.below_nil]
          exact hchild
        · exact hnested xs hxs hnil
    · rintro ⟨hnames, hnested⟩
      rw [List.forall_mem_cons] at hnames
      refine ⟨⟨hnames.1, ?_⟩, hnames.2, fun xs hxs hne => ?_⟩
      · have := hnested [name] (by simp) (by simp)
        rwa [Path.below_cons, Path.below_nil] at this
      · have := hnested (name :: xs) (List.cons_prefix_cons.2 ⟨rfl, hxs⟩) (by simp)
        rwa [Path.below_cons] at this

/-- A search that goes along some names visits every directory on the way. -/
theorem Goes.of_append {xs ys : List String}
    (h : Goes t excludeDirs includeTests info (xs ++ ys)) :
    Goes t excludeDirs includeTests info xs := by
  obtain ⟨hlocate, ⟨m, hat, hm⟩, hgoes⟩ := h
  rw [Node.goesAlong_append, Bool.and_eq_true] at hgoes
  refine ⟨hlocate, ?_, hgoes.1⟩
  cases ys with
  | nil =>
    rw [List.append_nil] at hat
    exact ⟨m, hat, hm⟩
  | cons y ys =>
    rw [← List.append_assoc, Node.at?_append, Option.bind_eq_some_iff] at hat
    obtain ⟨n, hn, hat⟩ := hat
    exact ⟨n, hn, Node.isDir_of_at?_cons hat⟩

end Listing

/-! ## Two projects -/

section Pair

variable {t : FileTree} {excludeDirs : List String} {includeTests : Bool} {P Q : Info}

/-- The paths of the project start at the top, and those of its nested projects have no double
dot. -/
structure Info.Absolute (info : Info) : Prop where
  source : info.sourceRoot.anchor = .root
  nested : ∀ d ∈ info.nested, d.anchor = .root ∧ ".." ∉ d.names

theorem Info.Absolute.ne_relative {info : Info} (h : info.Absolute) :
    info.sourceRoot.anchor ≠ .relative := by
  rw [h.source]
  decide

/-- A search that comes through a directory goes on from there along open names, unless it leaves
out what they lead through. -/
theorem Goes.append (hP : P.Absolute) {xs ys : List String} {m : Node}
    (hx : Goes t excludeDirs includeTests P xs)
    (hat : t.top.at? (P.sourceRoot.target ++ xs ++ ys) = some m) (hm : m.isDir)
    (hopen : ∀ name ∈ ys, isOpenName excludeDirs includeTests name)
    (hleaves : ¬ P.LeavesOut (P.sourceRoot.target ++ xs) (P.sourceRoot.target ++ xs ++ ys)) :
    Goes t excludeDirs includeTests P (xs ++ ys) := by
  obtain ⟨hlocate, -, hgoes⟩ := hx
  refine ⟨hlocate, ⟨m, by rwa [← List.append_assoc], hm⟩, ?_⟩
  rw [goesAlong_descends_iff] at hgoes ⊢
  obtain ⟨hnames, hnested⟩ := hgoes
  refine ⟨fun name hname => (List.mem_append.1 hname).elim (hnames name) (hopen name), ?_⟩
  intro zs hzs hne hmem
  rcases List.prefix_or_prefix_of_prefix hzs (List.prefix_append xs ys) with hzx | ⟨ws, rfl⟩
  -- nothing is nested on the way to the directory
  · exact hnested zs hzx hne hmem
  · cases ws with
    | nil =>
      rw [List.append_nil] at hne hmem
      exact hnested xs (List.prefix_refl _) hne hmem
    | cons w ws =>
      -- the project would have to be left out, which only a path without double dots allows
      have hdots := (hP.nested _ hmem).2
      rw [Path.below, List.mem_append, not_or] at hdots
      have htarget : P.sourceRoot.target = P.sourceRoot.names := Path.foldDots_of_not_mem hdots.1
      rw [List.prefix_append_right_inj] at hzs
      apply hleaves
      refine ⟨hdots.1, _, hmem, ?_, ?_, ?_⟩
      · rw [htarget]
        exact ⟨w :: ws, List.append_assoc _ _ _⟩
      · rw [htarget, Path.below, ← List.append_assoc, ne_eq, List.append_right_eq_self]
        simp
      · rw [htarget, Path.below, ← List.append_assoc, List.prefix_append_right_inj]
        exact hzs

/-- A project whose source directory lies at or below that of another one, and which shares a file
with it, is entered by it. -/
theorem Intrudes.of_goes (ht : t.top.Proper) (hP : P.Absolute) (hQ : Q.Absolute)
    {xs ys : List String} {file : String}
    (hsource : Q.sourceRoot.target = P.sourceRoot.target ++ xs)
    (hgoesP : Goes t excludeDirs includeTests P (xs ++ ys))
    (hgoesQ : Goes t excludeDirs includeTests Q ys)
    (hfile : HoldsSource t includeTests (Q.sourceRoot.target ++ ys) file) :
    Intrudes t excludeDirs includeTests P Q := by
  obtain ⟨-, ⟨m, hat, -⟩, -⟩ := id hgoesQ
  refine ⟨⟨xs, hgoesP.of_append, hsource⟩, _,
    (yields_iff ht hQ.ne_relative).2 ⟨ys, file, hgoesQ, hfile, rfl⟩, ?_⟩
  -- what the search leaves out is not on its way
  rintro ⟨hdots, d, hd, ⟨zs, hzs⟩, hne, hprefix⟩
  have htarget : P.sourceRoot.target = P.sourceRoot.names := Path.foldDots_of_not_mem hdots
  rw [Path.parent_child, target_below ht hat, ← hzs, List.prefix_append_right_inj] at hprefix
  -- the nested project that is left out lies on the way that the search went
  have hbelow : P.sourceRoot.below (xs ++ zs) = d := by
    have hnames : P.sourceRoot.names ++ (xs ++ zs) = d.names := by
      rw [← hzs, hsource, htarget, List.append_assoc]
    have hanchor := (hP.nested d hd).1
    rw [← hP.source] at hanchor
    rw [Path.below, hnames, ← hanchor]
  have hnested := ((goesAlong_descends_iff _ _).1 hgoesP.2.2).2 (xs ++ zs)
    ((List.prefix_append_right_inj xs).2 hprefix)
  rw [hbelow] at hnested
  apply hnested _ hd
  intro hnil
  obtain ⟨rfl, rfl⟩ := List.append_eq_nil_iff.1 hnil
  rw [List.append_nil] at hzs
  exact hne hzs.symm

/-- An intruding project lists a file of the other one. -/
theorem Intrudes.sharesFile (ht : t.top.Proper) (hP : P.Absolute) (hQ : Q.Absolute)
    (h : Intrudes t excludeDirs includeTests P Q) : SharesFile t excludeDirs includeTests P Q := by
  obtain ⟨⟨xs, hgoesP, hsource⟩, q, hq, hleaves⟩ := h
  obtain ⟨ys, file, hgoesQ, hfile, rfl⟩ := (yields_iff ht hQ.ne_relative).1 hq
  obtain ⟨-, ⟨m, hat, hm⟩, hopen⟩ := id hgoesQ
  have hdots := ne_dots_of_holdsSource ht hfile
  rw [Path.parent_child, target_below ht hat, hsource] at hleaves
  have hat' := hat
  rw [hsource] at hat'
  -- the search goes on behind the other source directory along the same names
  have hgoes := hgoesP.append hP hat' hm ((goesAlong_descends_iff _ _).1 hopen).1 hleaves
  have hfile' : HoldsSource t includeTests (P.sourceRoot.target ++ (xs ++ ys)) file := by
    rwa [← List.append_assoc, ← hsource]
  refine ⟨_, _, (yields_iff ht hP.ne_relative).2 ⟨xs ++ ys, file, hgoes, hfile', rfl⟩, hq, ?_⟩
  obtain ⟨-, ⟨m', hat'', -⟩, -⟩ := hgoes
  rw [target_child ht hat'' hdots, target_child ht hat hdots, hsource, List.append_assoc,
    List.append_assoc, List.append_assoc, List.append_assoc]

theorem SharesFile.symm (h : SharesFile t excludeDirs includeTests P Q) :
    SharesFile t excludeDirs includeTests Q P := by
  obtain ⟨p, q, hp, hq, heq⟩ := h
  exact ⟨q, p, hq, hp, heq.symm⟩

/-- Two projects list a common file exactly if one of them intrudes on the other. -/
theorem sharesFile_iff_intrudes (ht : t.top.Proper) (hP : P.Absolute) (hQ : Q.Absolute) :
    SharesFile t excludeDirs includeTests P Q ↔
      Intrudes t excludeDirs includeTests P Q ∨ Intrudes t excludeDirs includeTests Q P := by
  constructor
  · rintro ⟨p, q, hp, hq, heq⟩
    obtain ⟨ps, file, hgoesP, hfileP, rfl⟩ := (yields_iff ht hP.ne_relative).1 hp
    obtain ⟨qs, file', hgoesQ, hfileQ, rfl⟩ := (yields_iff ht hQ.ne_relative).1 hq
    obtain ⟨-, ⟨m, hatP, -⟩, -⟩ := id hgoesP
    obtain ⟨-, ⟨m', hatQ, -⟩, -⟩ := id hgoesQ
    rw [target_child ht hatP (ne_dots_of_holdsSource ht hfileP),
      target_child ht hatQ (ne_dots_of_holdsSource ht hfileQ)] at heq
    obtain ⟨hdir, hfile⟩ := List.append_inj' heq rfl
    cases hfile
    -- both source directories lie above the file, so one lies above the other
    rcases List.prefix_or_prefix_of_prefix (List.prefix_append P.sourceRoot.target ps)
      (hdir ▸ List.prefix_append Q.sourceRoot.target qs) with ⟨xs, hxs⟩ | ⟨xs, hxs⟩
    · rw [← hxs, List.append_assoc, List.append_cancel_left_eq] at hdir
      subst hdir
      exact .inl (Intrudes.of_goes ht hP hQ hxs.symm hgoesP hgoesQ hfileQ)
    · rw [← hxs, List.append_assoc, List.append_cancel_left_eq] at hdir
      subst hdir
      exact .inr (Intrudes.of_goes ht hQ hP hxs.symm hgoesQ hgoesP hfileP)
  · rintro (h | h)
    · exact h.sharesFile ht hP hQ
    · exact (h.sharesFile ht hQ hP).symm

end Pair

/-! ## Source directories -/

section Classification

variable {t : FileTree}

/-- Cutting off an end keeps the first element of what is left. -/
theorem exists_of_dropEndWhile {p : Char → Bool} {cs rest : List Char} {c : Char}
    (h : Text.dropEndWhile p cs = c :: rest) : ∃ more, cs = c :: more := by
  cases cs with
  | nil => cases h
  | cons d ds =>
    rw [Text.dropEndWhile] at h
    split at h
    · split at h
      · cases h
      · cases h
        exact ⟨ds, rfl⟩
    · cases h
      exact ⟨ds, rfl⟩

/-- The name of a source directory is taken from the directory of its project. -/
theorem anchor_of_foundrySource {file : Path} {source : String}
    (h : foundrySource t file = .ok source) : (Path.parse source).anchor = .relative := by
  have husual : (Path.parse usualSource).anchor = .relative := by decide
  -- what is left of a configured name has no slash in front
  have hconfigured : ∀ config, (Path.parse (sourceName config)).anchor = .relative := by
    intro config
    rw [sourceName]
    split
    · rename_i c cs heq
      obtain ⟨s, -, htrim⟩ := Option.map_eq_some_iff.1 heq
      obtain ⟨more, hmore⟩ := exists_of_dropEndWhile htrim
      have hslash : c ≠ '/' := by
        have := List.head?_dropWhile_not (· = '/') s.toList
        rw [hmore] at this
        simpa using this
      rw [Path.parse, String.toList_ofList]
      show Path.anchorOf (c :: cs) = .relative
      unfold Path.anchorOf
      split <;> simp_all
    · exact husual
  rw [foundrySource] at h
  split at h
  · cases h
    exact husual
  · split at h
    · cases h
    · split at h
      · cases h
        exact hconfigured _
      · cases h
        exact husual
      · cases h

theorem join_of_relative {p q : Path} (h : q.anchor = .relative) : p.join q = p.below q.names := by
  rw [Path.join, if_pos h, Path.below]

theorem firstDir_below {root dir : Path} {names : List String}
    (hnames : ∀ name ∈ names, (Path.parse name).anchor = .relative)
    (h : firstDir t root names = .ok dir) : ∃ below, dir = root.below below := by
  induction names with
  | nil =>
    cases h
    exact ⟨[], by simp⟩
  | cons name names ih =>
    rw [List.forall_mem_cons] at hnames
    rw [firstDir] at h
    obtain ⟨b, -, hrest⟩ := bind_eq_ok_iff.1 h
    split at hrest
    · cases hrest
      exact ⟨_, join_of_relative hnames.1⟩
    · exact ih hnames.2 hrest

theorem dirWithSources?_below {root dir : Path} {names : List String}
    (h : dirWithSources? t root names = .ok (some dir)) : ∃ below, dir = root.below below := by
  induction names with
  | nil => cases h
  | cons name names ih =>
    rw [dirWithSources?] at h
    obtain ⟨b, -, hrest⟩ := bind_eq_ok_iff.1 h
    split at hrest
    · cases hrest
      exact ⟨[name], rfl⟩
    · exact ih hrest

/-- The source directory of a project is given by names from its root. -/
theorem classifyDir_spec {root : Path} {info : Info} (h : classifyDir t root = .ok info) :
    info.root = root ∧ ∃ names, info.sourceRoot = root.below names := by
  rw [classifyDir] at h
  split at h
  -- the configured directory, or the usual one
  · obtain ⟨source, hsource, h⟩ := bind_eq_ok_iff.1 h
    obtain ⟨dir, hdir, h⟩ := bind_eq_ok_iff.1 h
    cases h
    refine ⟨rfl, firstDir_below ?_ hdir⟩
    simp [anchor_of_foundrySource hsource]
    decide
  · obtain ⟨dir, hdir, h⟩ := bind_eq_ok_iff.1 h
    cases h
    refine ⟨rfl, firstDir_below ?_ hdir⟩
    decide
  · obtain ⟨dir?, hdir, h⟩ := bind_eq_ok_iff.1 h
    split at h
    · cases h
      exact ⟨rfl, dirWithSources?_below hdir⟩
    -- no directory has sources, so that the root is taken
    · cases h
      exact ⟨rfl, [], by simp⟩

end Classification

/-! ## What a search finds -/

section Discovery

variable {t : FileTree} {options : SearchOptions}

/-- The root of a search is an absolute path without double dots. -/
theorem validateRoot_spec {given : String} {root : Path} (h : validateRoot t given = .ok root) :
    root.anchor = .root ∧ ".." ∉ root.names := by
  rw [validateRoot] at h
  obtain ⟨p, -, h⟩ := bind_eq_ok_iff.1 h
  obtain ⟨resolved, hresolve, h⟩ := bind_eq_ok_iff.1 h
  have hroot : resolved = root := by
    obtain ⟨there, -, h⟩ := bind_eq_ok_iff.1 h
    dsimp only at h
    split at h
    · cases h
    · obtain ⟨dir, -, h⟩ := bind_eq_ok_iff.1 h
      split at h
      · cases h
      · cases h
        rfl
  subst hroot
  rw [FileTree.resolve] at hresolve
  split at hresolve
  · cases hresolve
  · cases hresolve
    exact ⟨rfl, Path.not_mem_foldDots _⟩

/-- What a walk from a directory comes to is found at some names from there on. -/
theorem exists_at?_of_mem_visited (ht : t.top.Proper) {root : Path} (hroot : root.anchor = .root)
    {descend : Path → String → Bool} {stop : Node.Stop} (hstop : stop ∈ visited t descend root) :
    ∃ n m names, t.locate root = .ok n ∧ t.top.at? root.target = some n ∧ n.at? names = some m ∧
      m.isDir = true ∧ Node.goesAlong descend root names = true ∧ stop.path = root.below names := by
  rw [visited] at hstop
  split at hstop
  · rename_i n hn
    have htop := at?_target_of_locate (by rw [hroot]; decide) hn
    obtain ⟨names, m, hat, hdir, hgoes, rfl⟩ := (Node.mem_walk_iff (ht.of_at? htop).2 _ _ _).1 hstop
    exact ⟨n, m, names, hn, htop, hat, hdir, hgoes, rfl⟩
  · cases hstop

/-- A marked directory is found at some names from the root of the search on. -/
theorem exists_at?_of_mem_markedDirs (ht : t.top.Proper) {root d : Path} (hroot : root.anchor = .root)
    (hd : d ∈ markedDirs t options root) :
    ∃ names m, t.top.at? (root.target ++ names) = some m ∧ d = root.below names := by
  obtain ⟨stop, hstop, rfl⟩ := List.mem_map.1 hd
  obtain ⟨hstop, -⟩ := List.mem_filter.1 hstop
  obtain ⟨n, m, names, -, htop, hat, -, -, hpath⟩ := exists_at?_of_mem_visited ht hroot hstop
  refine ⟨names, m, ?_, hpath⟩
  rw [Node.at?_append, htop]
  exact hat

/-- Marked directories lie at or below the root of the search. -/
theorem mem_markedDirs (ht : t.top.Proper) {root d : Path} (hroot : root.anchor = .root)
    (hd : d ∈ markedDirs t options root) :
    d.anchor = .root ∧ root.names <+: d.names ∧ (".." ∉ root.names → ".." ∉ d.names) := by
  obtain ⟨names, m, hat, rfl⟩ := exists_at?_of_mem_markedDirs ht hroot hd
  refine ⟨hroot, List.prefix_append _ _, fun hdots => ?_⟩
  rw [Path.below, List.mem_append, not_or]
  exact ⟨hdots, fun hmem => (ht.of_at? hat).1 (List.mem_append_right _ hmem)⟩

theorem mem_nestedUnder {parent d : Path} {paths : List Path} (hparent : parent.anchor = .root) :
    d ∈ nestedUnder parent paths ↔
      d ∈ paths ∧ d ≠ parent ∧ d.anchor = .root ∧ parent.names <+: d.names := by
  rw [nestedUnder, List.mem_filter, Bool.and_eq_true, decide_eq_true_eq, Path.relativeTo?,
    hparent, List.prefix_iff_eq_take]
  constructor
  · rintro ⟨hd, hne, hsome⟩
    split at hsome
    · rename_i hbase
      exact ⟨hd, hne, hbase.1, hbase.2.symm⟩
    · cases hsome
  · rintro ⟨hd, hne, hanchor, htake⟩
    refine ⟨hd, hne, ?_⟩
    rw [if_pos ⟨hanchor, htake.symm⟩]
    rfl

/-- What a search from a root says about a project: it is the root or a marked directory, and its
nested projects are the marked directories below it. -/
structure Found (t : FileTree) (options : SearchOptions) (root : Path) (info : Info) : Prop where
  member : info.root = root ∨ info.root ∈ markedDirs t options root
  nested : info.nested = nestedUnder info.root (markedDirs t options root)
  classified : ∃ plain, classifyDir t info.root = .ok plain ∧ info = { plain with nested := info.nested }

/-- Marked directories are classified one by one, each with those below it. -/
theorem mapM_classifyDir_eq_ok_iff {marked : List Path} {infos : List Info} :
    (marked.mapM fun path => do
      return { ← classifyDir t path with nested := nestedUnder path marked }) = .ok infos ↔
      List.Forall₂ (fun path info => ∃ plain, classifyDir t path = .ok plain ∧
        info = { plain with nested := nestedUnder path marked }) marked infos := by
  rw [mapM_eq_ok_iff]
  refine iff_of_eq (congrArg (List.Forall₂ · marked infos) ?_)
  funext path info
  rw [bind_eq_ok_iff, eq_iff_iff]
  refine exists_congr fun plain => and_congr_right fun _ => ?_
  exact ⟨fun h => (Except.ok.inj h).symm, fun h => congrArg Except.ok h.symm⟩

/-- The projects of a search: the marked directories, and in front of them the root if it is a
project without being marked. Each of them is classified, and the marked directories below it are
nested in it. -/
theorem projectsOf_spec {root : Path} {marked : List Path} {infos : List Info}
    (h : projectsOf t options root marked = .ok infos) :
    ∃ own others, infos = own ++ others ∧
      List.Forall₂ (fun path info => ∃ plain, classifyDir t path = .ok plain ∧
        info = { plain with nested := nestedUnder path marked }) marked others ∧
      (root ∈ marked ∧ own = [] ∨ root ∉ marked ∧ ∃ plain, classifyDir t root = .ok plain ∧
        (own = [] ∨ own = [{ plain with nested := nestedUnder root marked }])) := by
  -- the marked directories, one by one
  have hothers : ∀ own : List Info, (do
      let others ← marked.mapM fun path => do
        return { ← classifyDir t path with nested := nestedUnder path marked }
      return own ++ others) = Except.ok infos → ∃ others, infos = own ++ others ∧
        List.Forall₂ (fun path info => ∃ plain, classifyDir t path = .ok plain ∧
          info = { plain with nested := nestedUnder path marked }) marked others := by
    intro own h
    obtain ⟨others, hothers, h⟩ := bind_eq_ok_iff.1 h
    cases h
    exact ⟨others, rfl, mapM_classifyDir_eq_ok_iff.1 hothers⟩
  rw [projectsOf] at h
  split at h
  · rename_i hroot
    obtain ⟨others, heq, hall⟩ := hothers [] h
    exact ⟨[], others, heq, hall, .inl ⟨hroot, rfl⟩⟩
  -- the root is not marked, but may be a project
  · rename_i hroot
    obtain ⟨plain, hplain, h⟩ := bind_eq_ok_iff.1 h
    have hown : ∀ (c : Bool) (own : Info), (if c then [own] else []) = [] ∨
        (if c then [own] else []) = [own] := by
      intro c own
      cases c with
      | false => exact .inl rfl
      | true => exact .inr rfl
    dsimp only at h
    split at h
    · obtain ⟨files, -, h⟩ := bind_eq_ok_iff.1 h
      obtain ⟨others, heq, hall⟩ := hothers _ h
      exact ⟨_, others, heq, hall, .inr ⟨hroot, plain, hplain, hown _ _⟩⟩
    · obtain ⟨files, -, h⟩ := bind_eq_ok_iff.1 h
      obtain ⟨others, heq, hall⟩ := hothers _ h
      exact ⟨_, others, heq, hall, .inr ⟨hroot, plain, hplain, hown _ _⟩⟩

/-- The root of a search that found its projects can be classified. -/
theorem exists_classifyDir_of_projectsOf {root : Path} {marked : List Path} {infos : List Info}
    (h : projectsOf t options root marked = .ok infos) : ∃ info, classifyDir t root = .ok info := by
  obtain ⟨own, others, -, hothers, ⟨hroot, -⟩ | ⟨-, info, hclassify, -⟩⟩ := projectsOf_spec h
  · obtain ⟨_, -, info, hclassify, -⟩ := exists_right_of_forall₂ hothers hroot
    exact ⟨info, hclassify⟩
  · exact ⟨info, hclassify⟩

theorem found_of_projectsOf {root : Path} {infos : List Info}
    (h : projectsOf t options root (markedDirs t options root) = .ok infos) :
    ∀ info ∈ infos, Found t options root info := by
  have hfound : ∀ path plain, path = root ∨ path ∈ markedDirs t options root →
      classifyDir t path = .ok plain →
      Found t options root { plain with nested := nestedUnder path (markedDirs t options root) } := by
    intro path plain hpath hplain
    have hroot := (classifyDir_spec hplain).1
    subst hroot
    exact ⟨hpath, rfl, plain, hplain, rfl⟩
  obtain ⟨own, others, rfl, hothers, hown⟩ := projectsOf_spec h
  intro info hinfo
  rcases List.mem_append.1 hinfo with hinfo | hinfo
  · rcases hown with ⟨-, rfl⟩ | ⟨-, plain, hplain, rfl | rfl⟩
    · cases hinfo
    · cases hinfo
    · cases List.mem_singleton.1 hinfo
      exact hfound _ _ (.inl rfl) hplain
  · obtain ⟨path, hpath, plain, hplain, rfl⟩ := exists_left_of_forall₂ hothers hinfo
    exact hfound _ _ (.inr hpath) hplain

theorem discover_spec {given : String} {infos : List Info}
    (h : discover t options given = .ok infos) :
    ∃ root, root.anchor = .root ∧ ".." ∉ root.names ∧
      ∀ info ∈ infos, Found t options root info := by
  rw [discover] at h
  obtain ⟨root, hroot, h⟩ := bind_eq_ok_iff.1 h
  obtain ⟨hanchor, hdots⟩ := validateRoot_spec hroot
  exact ⟨root, hanchor, hdots, found_of_projectsOf h⟩

namespace Found

variable {root : Path} {P Q : Info}

theorem root_spec (ht : t.top.Proper) (hanchor : root.anchor = .root) (hdots : ".." ∉ root.names)
    (h : Found t options root P) :
    P.root.anchor = .root ∧ root.names <+: P.root.names ∧ ".." ∉ P.root.names := by
  rcases h.member with hroot | hmarked
  · rw [hroot]
    exact ⟨hanchor, List.prefix_refl _, hdots⟩
  · obtain ⟨ha, hp, hd⟩ := mem_markedDirs ht hanchor hmarked
    exact ⟨ha, hp, hd hdots⟩

theorem source_spec (h : Found t options root P) :
    P.sourceRoot.anchor = P.root.anchor ∧ P.root.names <+: P.sourceRoot.names := by
  obtain ⟨plain, hplain, heq⟩ := h.classified
  obtain ⟨-, names, hsource⟩ := classifyDir_spec hplain
  have hsource' : P.sourceRoot = P.root.below names := by
    rw [heq]
    rw [heq] at hsource
    exact hsource
  rw [hsource']
  exact ⟨rfl, List.prefix_append _ _⟩

theorem absolute (ht : t.top.Proper) (hanchor : root.anchor = .root) (hdots : ".." ∉ root.names)
    (h : Found t options root P) : P.Absolute where
  source := h.source_spec.1.trans (h.root_spec ht hanchor hdots).1
  nested d hd := by
    rw [h.nested, mem_nestedUnder (h.root_spec ht hanchor hdots).1] at hd
    exact ⟨hd.2.2.1, (mem_markedDirs ht hanchor hd.1).2.2 hdots⟩

/-- A directory says what project it is. -/
theorem eq_of_root_eq (hP : Found t options root P) (hQ : Found t options root Q)
    (h : P.root = Q.root) : P = Q := by
  obtain ⟨plainP, hplainP, heqP⟩ := hP.classified
  obtain ⟨plainQ, hplainQ, heqQ⟩ := hQ.classified
  rw [h, hplainQ] at hplainP
  cases hplainP
  rw [heqP, heqQ, hP.nested, hQ.nested, h]

/-- A project whose root lies below that of another one is nested in it. -/
theorem mem_nested (ht : t.top.Proper) (hanchor : root.anchor = .root) (hdots : ".." ∉ root.names)
    (hP : Found t options root P) (hQ : Found t options root Q) (hne : P ≠ Q)
    (h : P.root.names <+: Q.root.names) : Q.root ∈ P.nested := by
  obtain ⟨haP, hrootP, -⟩ := hP.root_spec ht hanchor hdots
  obtain ⟨haQ, -, -⟩ := hQ.root_spec ht hanchor hdots
  have hroots : Q.root ≠ P.root := fun heq => hne (hP.eq_of_root_eq hQ heq.symm)
  rw [hP.nested, mem_nestedUnder haP]
  refine ⟨?_, hroots, haQ, h⟩
  rcases hQ.member with hroot | hmarked
  · -- nothing but the root itself lies above the root
    rw [hroot] at h
    have hnames := List.IsPrefix.eq_of_length_le h hrootP.length_le
    have : Q.root = P.root := by
      rw [hroot]
      cases hPr : P.root
      cases root
      simp_all
    exact absurd this hroots
  · exact hmarked

/-- A project that stays at home does not come through the source directory of another one that
does. -/
theorem not_visits (ht : t.top.Proper) (hanchor : root.anchor = .root) (hdots : ".." ∉ root.names)
    (hP : Found t options root P) (hQ : Found t options root Q) (hne : P ≠ Q) (homeP : P.AtHome)
    (homeQ : Q.AtHome) (excludeDirs : List String) (includeTests : Bool) :
    ¬ Visits t excludeDirs includeTests P Q.sourceRoot.target := by
  rintro ⟨xs, hgoes, hsource⟩
  have htargetP : P.sourceRoot.target = P.sourceRoot.names := Path.foldDots_of_not_mem homeP.1
  have htargetQ : Q.sourceRoot.target = Q.sourceRoot.names := Path.foldDots_of_not_mem homeQ.1
  rw [htargetP, htargetQ] at hsource
  obtain ⟨haP, hpP⟩ := hP.source_spec
  obtain ⟨haQ, hpQ⟩ := hQ.source_spec
  have hPQ : P.root.names <+: Q.sourceRoot.names := by
    rw [hsource]
    exact hpP.trans (List.prefix_append _ _)
  rcases List.prefix_or_prefix_of_prefix hPQ hpQ with hroots | hroots
  · -- the search of `P` would have to go into the root of `Q`
    have hnested := hP.mem_nested ht hanchor hdots hQ hne hroots
    rw [hsource] at hpQ
    rcases List.prefix_or_prefix_of_prefix hpQ (List.prefix_append _ xs) with hin | ⟨ys, hys⟩
    · exact homeP.2 _ hnested hin
    · rw [← hys, List.prefix_append_right_inj] at hpQ
      have hbelow : P.sourceRoot.below ys = Q.root := by
        have hanchors := haP.trans ((hP.root_spec ht hanchor hdots).1.trans
          (hQ.root_spec ht hanchor hdots).1.symm)
        rw [Path.below, hys, hanchors]
      have hleft := ((goesAlong_descends_iff _ _).1 hgoes.2.2).2 ys hpQ
      rw [hbelow] at hleft
      apply hleft _ hnested
      rintro rfl
      rw [List.append_nil] at hys
      exact homeP.2 _ hnested (hys ▸ List.prefix_refl _)
  -- the source directory of `Q` would lie in `P`, which is nested in `Q`
  · have hnested := hQ.mem_nested ht hanchor hdots hP hne.symm hroots
    exact homeQ.2 _ hnested hPQ

end Found

/-- Two projects of one search list a common file exactly if one of them intrudes on the other, and
this does not happen as long as both stay at home. -/
theorem sharesFile_iff (ht : t.top.Proper) {given : String} {infos : List Info}
    (h : discover t options given = .ok infos) {P Q : Info} (hP : P ∈ infos) (hQ : Q ∈ infos)
    (hne : P ≠ Q) (excludeDirs : List String) (includeTests : Bool) :
    (SharesFile t excludeDirs includeTests P Q ↔
      Intrudes t excludeDirs includeTests P Q ∨ Intrudes t excludeDirs includeTests Q P) ∧
    (P.AtHome → Q.AtHome → ¬ SharesFile t excludeDirs includeTests P Q) := by
  obtain ⟨root, hanchor, hdots, hfound⟩ := discover_spec h
  have hfoundP := hfound P hP
  have hfoundQ := hfound Q hQ
  have hiff : SharesFile t excludeDirs includeTests P Q ↔
      Intrudes t excludeDirs includeTests P Q ∨ Intrudes t excludeDirs includeTests Q P :=
    sharesFile_iff_intrudes ht (hfoundP.absolute ht hanchor hdots)
      (hfoundQ.absolute ht hanchor hdots)
  refine ⟨hiff, fun homeP homeQ hshares => ?_⟩
  rcases hiff.1 hshares with hintrudes | hintrudes
  · exact hfoundP.not_visits ht hanchor hdots hfoundQ hne homeP homeQ _ _ hintrudes.1
  · exact hfoundQ.not_visits ht hanchor hdots hfoundP hne.symm homeQ homeP _ _ hintrudes.1

end Discovery

/-! ## A marked source directory -/

/-- A marked directory whose source directory is marked as well, and beside it a project that stays
at home. -/
def markedContracts : FileTree where
  top := .dir [("contracts", .dir [("A.sol", .file []), ("hardhat.config.js", .file [])]),
    ("hardhat.config.js", .file []),
    ("other", .dir [("foundry.toml", .file []), ("src", .dir [("B.sol", .file [])])])]
  cwd := Path.mk .root []

/-- The project around all others, whose sources are those of the nested project. -/
def outerProject : Info :=
  ⟨.hardhat, ⟨.root, []⟩, ⟨.root, ["contracts"]⟩, some "hardhat.config.js",
    [⟨.root, ["contracts"]⟩, ⟨.root, ["other"]⟩]⟩

def innerProject : Info :=
  ⟨.hardhat, ⟨.root, ["contracts"]⟩, ⟨.root, ["contracts"]⟩, some "hardhat.config.js", []⟩

def otherProject : Info :=
  ⟨.foundry, ⟨.root, ["other"]⟩, ⟨.root, ["other", "src"]⟩, some "foundry.toml", []⟩

theorem proper_markedContracts : markedContracts.top.Proper := by
  have hfile := Node.Proper.file
  refine .dir (by decide) (by simp) ?_
  simp only [List.forall_mem_cons, List.not_mem_nil, false_implies, implies_true, and_true]
  refine ⟨.dir (by decide) (by simp) ?_, hfile _, .dir (by decide) (by simp) ?_⟩
  · simp [hfile]
  · simp only [List.forall_mem_cons, List.not_mem_nil, false_implies, implies_true, and_true]
    exact ⟨hfile _, .dir (by decide) (by simp) (by simp [hfile])⟩

/-- All three directories with a marker are found. -/
theorem discover_markedContracts :
    discover markedContracts ⟨[], 8⟩ "/" = .ok [outerProject, innerProject, otherProject] := by
  have hroot : validateRoot markedContracts "/" = .ok ⟨.root, []⟩ :=
    eq_ok_of_toOption (by decide +kernel)
  have hmarked : markedDirs markedContracts ⟨[], 8⟩ ⟨.root, []⟩ =
      [⟨.root, []⟩, ⟨.root, ["contracts"]⟩, ⟨.root, ["other"]⟩] := by
    have hlocate : markedContracts.locate ⟨.root, []⟩ = .ok markedContracts.top := rfl
    rw [markedDirs, visited, hlocate, markedContracts]
    -- the entries are listed by name, so that nothing has to be sorted
    simp (disch := decide +kernel) only [Node.walk_dir_of_pairwise, List.flatMap_cons,
      List.flatMap_nil]
    decide +kernel
  rw [discover, hroot]
  show projectsOf markedContracts ⟨[], 8⟩ ⟨.root, []⟩ (markedDirs markedContracts ⟨[], 8⟩ ⟨.root, []⟩) = _
  rw [hmarked]
  exact eq_ok_of_toOption (by decide +kernel)

/-- The inner project lists the file in its directory. -/
theorem yields_innerProject :
    Yields markedContracts [] true innerProject ⟨.root, ["contracts", "A.sol"]⟩ := by
  rw [yields_iff proper_markedContracts (by decide)]
  exact ⟨[], "A.sol", ⟨⟨_, rfl⟩, ⟨_, rfl, rfl⟩, rfl⟩, ⟨_, rfl, by decide, by decide +kernel⟩, rfl⟩

/-- The outer project lists the file of the inner one. The two other projects share nothing. -/
theorem sharesFile_contracts : SharesFile markedContracts [] true outerProject innerProject ∧
    ¬ SharesFile markedContracts [] true innerProject otherProject := by
  constructor
  · apply (sharesFile_iff proper_markedContracts discover_markedContracts (by simp) (by simp)
      (by decide) [] true).1.2
    refine .inl ⟨⟨[], ⟨⟨_, rfl⟩, ⟨_, rfl, rfl⟩, rfl⟩, by decide⟩, _, yields_innerProject, ?_⟩
    rintro ⟨-, d, hd, hstart, hne, hdir⟩
    -- nothing nested lies strictly below the common source directory
    have hd' : d = ⟨.root, ["contracts"]⟩ ∨ d = ⟨.root, ["other"]⟩ := by
      simpa [outerProject] using hd
    rcases hd' with rfl | rfl
    · exact hne rfl
    · revert hstart
      decide
  · exact (sharesFile_iff proper_markedContracts discover_markedContracts (by simp) (by simp)
      (by decide) [] true).2 (by decide) (by decide)

end AbiIndex.Project
