import AbiIndex.Proofs.ProjectLabels
import AbiIndex.Proofs.SourceListing

/-!
# Whether a search and a classification see the same marker

A search for projects counts every entry with the name of a marker that is no directory. The
classification of a directory counts files alone, and passes over an entry that leads nowhere. So
the two agree about a directory exactly if the first marker that the search sees there is a file;
otherwise the directory is classified by another marker, or as one without a marker.

## Key results

- `findMarker_eq_iff`: when two listings have the same first marker
- `goesByFiles_of_classifyDir`: what a classification gives
- `unclassified_of_classifyDir`: why it fails
- `mem_markedDirs_iff_isVisited`: what a search finds among the directories that it visits
- `classify_of_isVisited`: how a directory is classified that a search visits
-/

namespace AbiIndex.Project

variable {t : FileTree} {options : SearchOptions} {root d : Path} {n m : Node} {info : Info}
  {e : DiscoveryError}

/-- A search from `root` visits the directory `m` at the given names below it: they lead no deeper
than allowed, and none of them is left out. The root itself is always visited. -/
structure IsVisited (t : FileTree) (options : SearchOptions) (root : Path) (names : List String)
    (m : Node) : Prop where
  at_end : t.top.at? (root.names ++ names) = some m
  isDir : m.isDir = true
  depth : (names.length : Int) ≤ max options.maxDepth 0
  entered : ∀ name ∈ names, name ∉ excludedDirs ∧ name ∉ options.excludeDirs

/-- A directory is classified by the first marker among its files, if there is one. -/
inductive GoesByFiles (n : Node) (info : Info) : Prop
  | marked (marker : Layout × String) (first : findMarker (n.namesOf (·.isFile)) = some marker)
      (marker_eq : info.marker = some marker.2) (layout_eq : info.layout = marker.1)
      (layout : marker.1 ∈ [.foundry, .hardhat, .truffle])
  | unmarked (absent : findMarker (n.namesOf (·.isFile)) = none) (marker_eq : info.marker = none)
      (layout : info.layout ∈ [.plain, .unknown])

/-- The paths of directories that a classification of `d` asks for: `d` itself, the usual source
directories, and the configured one. -/
inductive AsksFor (t : FileTree) (d : Path) : Path → Prop
  | self : AsksFor t d d
  | usual {name : String} (usual : name ∈ ["contracts", "src"]) : AsksFor t d (d.child name)
  | configured {source : String} (configured : foundrySource t (d.child foundryMarker) = .ok source) :
      AsksFor t d (d.join (Path.parse source))

/-- Why a directory cannot be classified: a path is too long, or its configuration file is no text or
states a number with too many digits. -/
inductive Unclassified (t : FileTree) (d : Path) : DiscoveryError → Prop
  | tooLong {q : Path} (asks : AsksFor t d q) (long : t.IsTooLong q) :
      Unclassified t d (.inaccessible (.nameTooLong q))
  | undecodable {bytes : List UInt8} (read : t.read (d.child foundryMarker) = .ok bytes)
      (decode : Text.Utf8.decode? bytes = none) :
      Unclassified t d (.undecodable (d.child foundryMarker))
  | oversized {bytes : List UInt8} {text : List Char} {x : Number.TooLong}
      (read : t.read (d.child foundryMarker) = .ok bytes)
      (decode : Text.Utf8.decode? bytes = some text)
      (parse : Toml.parse (Text.unifyNewlines text) = .error (.number x)) :
      Unclassified t d (.oversized x)

/-! ## The first marker -/

theorem mem_of_findMarker {names : List String} {marker : Layout × String}
    (h : findMarker names = some marker) : marker ∈ markers ∧ marker.2 ∈ names := by
  rw [findMarker] at h
  exact ⟨List.mem_of_find?_eq_some h, by simpa using List.find?_some h⟩

/-- A part of a listing has the same first marker if it has that of the whole listing. -/
theorem findMarker_eq_iff {seen files : List String} (hsub : files ⊆ seen) :
    findMarker files = findMarker seen ↔
      ∀ marker, findMarker seen = some marker → marker.2 ∈ files := by
  constructor
  · intro h marker hmarker
    exact (mem_of_findMarker (h.trans hmarker)).2
  · intro h
    cases hseen : findMarker seen with
    | none =>
      rw [findMarker, List.find?_eq_none] at hseen ⊢
      intro marker hmarker hmem
      exact hseen marker hmarker (decide_eq_true (hsub (of_decide_eq_true hmem)))
    | some marker =>
      have hmem := h marker hseen
      rw [findMarker, List.find?_eq_some_iff_append] at hseen ⊢
      obtain ⟨-, before, after, hsplit, hbefore⟩ := hseen
      refine ⟨decide_eq_true hmem, before, after, hsplit, fun other hother => ?_⟩
      have hnot := hbefore other hother
      simp only [Bool.not_eq_true', decide_eq_false_iff_not] at hnot ⊢
      exact fun hfile => hnot (hsub hfile)

/-- The name of a marker tells the marker. -/
theorem map_findMarker_eq_iff {names names' : List String} :
    (findMarker names).map (·.2) = (findMarker names').map (·.2) ↔
      findMarker names = findMarker names' := by
  have hname : ∀ a ∈ markers, ∀ b ∈ markers, a.2 = b.2 → a = b := by decide
  refine ⟨fun h => ?_, congrArg _⟩
  cases hleft : findMarker names with
  | none =>
    rw [hleft, Option.map_none, eq_comm, Option.map_eq_none_iff] at h
    exact h.symm
  | some a =>
    rw [hleft, Option.map_some, eq_comm, Option.map_eq_some_iff] at h
    obtain ⟨b, hright, heq⟩ := h
    rw [hright, hname a (mem_of_findMarker hleft).1 b (mem_of_findMarker hright).1 heq.symm]

/-- Files are entries that are no directories. -/
theorem namesOf_isFile_subset (n : Node) : n.namesOf (·.isFile) ⊆ n.namesOf (!·.isDir) := by
  refine List.map_subset _ fun e he => ?_
  obtain ⟨hmem, hfile⟩ := List.mem_filter.1 he
  refine List.mem_filter.2 ⟨hmem, ?_⟩
  obtain ⟨name, k⟩ := e
  cases k with
  | file bytes => rfl
  | dangling => cases hfile
  | dir es => cases hfile

/-- The files of a directory have the first marker of its entries if this marker is a file. -/
theorem findMarker_isFile_eq_iff (hn : n.Proper) :
    findMarker (n.namesOf (·.isFile)) = findMarker (n.namesOf (!·.isDir)) ↔
      ∀ marker, findMarker (n.namesOf (!·.isDir)) = some marker →
        ∃ bytes, n.entry? marker.2 = some (.file bytes) := by
  rw [findMarker_eq_iff (namesOf_isFile_subset n)]
  refine forall₂_congr fun marker _ => ?_
  rw [Node.mem_namesOf_iff hn]
  constructor
  · rintro ⟨k, hentry, hk⟩
    cases k with
    | file bytes => exact ⟨bytes, hentry⟩
    | dangling => cases hk
    | dir es => cases hk
  · rintro ⟨bytes, hentry⟩
    exact ⟨_, hentry, rfl⟩

/-! ## Classification -/

theorem GoesByFiles.marker_eq_map (h : GoesByFiles n info) :
    info.marker = (findMarker (n.namesOf (·.isFile))).map (·.2) := by
  cases h with
  | marked marker first marker_eq => rw [first, marker_eq, Option.map_some]
  | unmarked absent marker_eq => rw [absent, marker_eq, Option.map_none]

theorem ask_eq_ok_iff {α : Type} {answer : Except TreeError α} {a : α} :
    ask answer = .ok a ↔ answer = .ok a :=
  mapError_eq_ok_iff

theorem ask_isDir_eq_error {p : Path} (h : ask (t.isDir p) = .error e) :
    e = .inaccessible (.nameTooLong p) ∧ t.IsTooLong p := by
  obtain ⟨e', he', rfl⟩ := mapError_eq_error_iff.1 h
  obtain ⟨rfl, hlong⟩ := FileTree.isDir_eq_error he'
  exact ⟨rfl, hlong⟩

theorem firstDir_eq_error {names : List String} (h : firstDir t d names = .error e) :
    ∃ name ∈ names, e = .inaccessible (.nameTooLong (d.join (Path.parse name))) ∧
      t.IsTooLong (d.join (Path.parse name)) := by
  induction names with
  | nil => cases h
  | cons name names ih =>
    rw [firstDir] at h
    rcases bind_eq_error_iff.1 h with hask | ⟨b, -, h⟩
    · exact ⟨name, List.mem_cons_self, ask_isDir_eq_error hask⟩
    · split at h
      · cases h
      · exact (ih h).imp fun _ => And.imp_left (List.mem_cons_of_mem _)

theorem dirWithSources?_eq_error {names : List String} (h : dirWithSources? t d names = .error e) :
    ∃ name ∈ names, e = .inaccessible (.nameTooLong (d.child name)) ∧
      t.IsTooLong (d.child name) := by
  induction names with
  | nil => cases h
  | cons name names ih =>
    rw [dirWithSources?] at h
    rcases bind_eq_error_iff.1 h with hask | ⟨b, -, h⟩
    · exact ⟨name, List.mem_cons_self, ask_isDir_eq_error hask⟩
    · split at h
      · cases h
      · exact (ih h).imp fun _ => And.imp_left (List.mem_cons_of_mem _)

/-- A configuration file is of no use if it is no text, or if it holds a number with too many
digits. -/
theorem foundrySource_eq_error {file : Path} (h : foundrySource t file = .error e) :
    ∃ bytes, t.read file = .ok bytes ∧
      (Text.Utf8.decode? bytes = none ∧ e = .undecodable file ∨
        ∃ text x, Text.Utf8.decode? bytes = some text ∧
          Toml.parse (Text.unifyNewlines text) = .error (.number x) ∧ e = .oversized x) := by
  rw [foundrySource] at h
  split at h
  · cases h
  · rename_i bytes hread
    refine ⟨bytes, hread, ?_⟩
    split at h
    · rename_i hdecode
      cases h
      exact .inl ⟨hdecode, rfl⟩
    · rename_i text hdecode
      split at h
      · cases h
      · cases h
      · rename_i x hparse
        cases h
        exact .inr ⟨text, x, hdecode, hparse, rfl⟩

/-- Why the configuration file of a project fails its classification. -/
theorem unclassified_of_foundrySource (h : foundrySource t (d.child foundryMarker) = .error e) :
    Unclassified t d e := by
  obtain ⟨bytes, hread, ⟨hdecode, rfl⟩ | ⟨text, x, hdecode, hparse, rfl⟩⟩ :=
    foundrySource_eq_error h
  · exact .undecodable hread hdecode
  · exact .oversized hread hdecode hparse

/-- Without a marker, the files of a directory decide about its classification. -/
theorem classifyDir_of_findMarker_eq_none (hlocate : t.locate d = .ok n)
    (h : findMarker (n.namesOf (·.isFile)) = none) (hinfo : classifyDir t d = .ok info) :
    info.marker = none ∧ info.root = d ∧ info.layout ∈ [.plain, .unknown] ∧
      ∃ found, dirWithSources? t d ["contracts", "src"] = .ok found ∧
        info.sourceRoot = found.getD d := by
  rw [classifyDir, hlocate] at hinfo
  dsimp only at hinfo
  rw [h] at hinfo
  obtain ⟨found, hfound, hinfo⟩ := bind_eq_ok_iff.1 hinfo
  cases found with
  | some source =>
    cases hinfo
    exact ⟨rfl, rfl, List.mem_cons_self, _, hfound, rfl⟩
  | none =>
    cases hinfo
    refine ⟨rfl, rfl, ?_, _, hfound, rfl⟩
    dsimp only
    split <;> simp

/-- A directory is classified by the first marker among its files. -/
theorem goesByFiles_of_classifyDir (hlocate : t.locate d = .ok n)
    (hinfo : classifyDir t d = .ok info) : GoesByFiles n info := by
  have hlayout : ∀ marker ∈ markers, marker.1 ∈ [.foundry, .hardhat, .truffle] := by decide
  cases hmarker : findMarker (n.namesOf (·.isFile)) with
  | none =>
    obtain ⟨hnone, -, hlayout, -⟩ := classifyDir_of_findMarker_eq_none hlocate hmarker hinfo
    exact .unmarked hmarker hnone hlayout
  | some marker =>
    have hmem := hlayout marker (mem_of_findMarker hmarker).1
    rw [classifyDir, hlocate] at hinfo
    dsimp only at hinfo
    rw [hmarker] at hinfo
    -- the configuration of Foundry projects is read for their source directory only
    split at hinfo
    · rename_i name heq
      cases heq
      obtain ⟨source, -, hinfo⟩ := bind_eq_ok_iff.1 hinfo
      obtain ⟨dir, -, hinfo⟩ := bind_eq_ok_iff.1 hinfo
      cases hinfo
      exact .marked _ hmarker rfl rfl hmem
    · rename_i layout name _ heq
      cases heq
      obtain ⟨dir, -, hinfo⟩ := bind_eq_ok_iff.1 hinfo
      cases hinfo
      exact .marked _ hmarker rfl rfl hmem
    · rename_i heq
      cases heq

/-- The usual source directory is an entry of the project. -/
theorem join_parse_contracts (d : Path) : d.join (Path.parse "contracts") = d.child "contracts" := by
  have hparse : Path.parse "contracts" = ⟨.relative, ["contracts"]⟩ := by decide
  rw [hparse]
  rfl

/-- Why a classification fails. -/
theorem unclassified_of_classifyDir (h : classifyDir t d = .error e) : Unclassified t d e := by
  have hfoundry : ∀ marker ∈ markers, marker.1 = .foundry → marker.2 = foundryMarker := by decide
  have hcontracts : t.IsTooLong (d.join (Path.parse "contracts")) →
      Unclassified t d (.inaccessible (.nameTooLong (d.join (Path.parse "contracts")))) := by
    rw [join_parse_contracts]
    exact .tooLong (.usual (by decide))
  rw [classifyDir] at h
  split at h
  · rename_i name hmarker
    have hname : name = foundryMarker := hfoundry _ (mem_of_findMarker hmarker).1 rfl
    subst hname
    rcases bind_eq_error_iff.1 h with hsource | ⟨source, hsource, h⟩
    · exact unclassified_of_foundrySource hsource
    rcases bind_eq_error_iff.1 h with hdir | ⟨dir, -, h⟩
    · obtain ⟨name, hname, rfl, hlong⟩ := firstDir_eq_error hdir
      rcases List.mem_cons.1 hname with rfl | hname
      · exact .tooLong (.configured hsource) hlong
      · cases List.mem_singleton.1 hname
        exact hcontracts hlong
    · cases h
  · rcases bind_eq_error_iff.1 h with hdir | ⟨dir, -, h⟩
    · obtain ⟨name, hname, rfl, hlong⟩ := firstDir_eq_error hdir
      cases List.mem_singleton.1 hname
      exact hcontracts hlong
    · cases h
  · rcases bind_eq_error_iff.1 h with hdir | ⟨found, -, h⟩
    · obtain ⟨name, hname, rfl, hlong⟩ := dirWithSources?_eq_error hdir
      exact .tooLong (.usual hname) hlong
    · cases found with
      | some dir => cases h
      | none => cases h

/-! ## The search -/

/-- No search stops above its root. -/
theorem markedDirs_max (t : FileTree) (options : SearchOptions) (root : Path) :
    markedDirs t { options with maxDepth := max options.maxDepth 0 } root =
      markedDirs t options root := by
  have hlimit : ∀ k : Nat, (k : Int) < max options.maxDepth 0 ↔ (k : Int) < options.maxDepth := by
    omega
  simp only [markedDirs, hlimit]

/-- A search finds those of the directories it visits that hold a marker. -/
theorem mem_markedDirs_iff_isVisited (ht : t.top.Proper) (hroot : root.anchor = .root)
    (hdots : ".." ∉ root.names) (hlocate : t.locate root = .ok n) :
    d ∈ markedDirs t options root ↔
      ∃ names m, d = root.below names ∧ IsVisited t options root names m ∧ HoldsMarker m := by
  rw [← markedDirs_max, mem_markedDirs_iff ht hroot hdots hlocate (le_max_right _ _)]
  constructor
  · rintro ⟨names, rfl, ⟨m, hat, hmarker⟩, hdepth, hentered⟩
    exact ⟨names, m, rfl, ⟨hat, hmarker.isDir, hdepth, hentered⟩, hmarker⟩
  · rintro ⟨names, m, rfl, ⟨hat, -, hdepth, hentered⟩, hmarker⟩
    exact ⟨names, rfl, ⟨m, hat, hmarker⟩, hdepth, hentered⟩

/-- A search visits its root. -/
theorem isVisited_root (hat : t.top.at? root.names = some n) (hn : n.isDir = true)
    (options : SearchOptions) : IsVisited t options root [] n where
  at_end := by rwa [List.append_nil]
  isDir := hn
  depth := le_max_right _ _
  entered := List.forall_mem_nil _

/-- Among the directories that it visits, a search finds those in which it sees a marker. -/
theorem IsVisited.mem_markedDirs_iff (ht : t.top.Proper) (hroot : root.anchor = .root)
    (hdots : ".." ∉ root.names) (hlocate : t.locate root = .ok n) {names : List String}
    (h : IsVisited t options root names m) : root.below names ∈ markedDirs t options root ↔
      (findMarker (m.namesOf (!·.isDir))).isSome = true := by
  rw [mem_markedDirs_iff_isVisited ht hroot hdots hlocate,
    isSome_findMarker_namesOf_iff (ht.of_at? h.at_end).2]
  constructor
  · rintro ⟨names', m', hpath, hvisited, hmarker⟩
    cases Path.below_injective hpath
    cases h.at_end.symm.trans hvisited.at_end
    exact hmarker
  · intro hmarker
    exact ⟨names, m, rfl, h, hmarker⟩

/-- A directory that a search visits is found exactly if the search sees a marker in it. It is
classified, unless a path that this asks for is too long, or it holds a configuration file that is no
text or states a number with too many digits. It is classified by the first marker among its files.
This is the marker that the search sees exactly if that one is a file. -/
theorem classify_of_isVisited (ht : t.top.Proper) (hplain : t.top.Plain) (hnull : t.top.NullFree)
    {given : String} (hroot : validateRoot t given = .ok root) :
    ∃ found, findRoots t options given = .ok found ∧
      (∀ d ∈ found, ∃ names m, d = root.below names ∧ IsVisited t options root names m) ∧
      ∀ names m, IsVisited t options root names m →
        (root.below names ∈ found ↔ (findMarker (m.namesOf (!·.isDir))).isSome = true) ∧
        (∀ info, classify t (root.below names).render = .ok info → GoesByFiles m info ∧
          (info.marker = (findMarker (m.namesOf (!·.isDir))).map (·.2) ↔
            ∀ marker, findMarker (m.namesOf (!·.isDir)) = some marker →
              ∃ bytes, m.entry? marker.2 = some (.file bytes))) ∧
        ∀ e, classify t (root.below names).render = .error e →
          Unclassified t (root.below names) e := by
  obtain ⟨hanchor, hdots⟩ := validateRoot_spec hroot
  obtain ⟨n, hlocate, -⟩ := isDir_of_validateRoot hroot
  refine ⟨markedDirs t options root, ?_, fun d hd => ?_, fun names m hvisited => ?_⟩
  · rw [findRoots, hroot]
    rfl
  · obtain ⟨names, m, hpath, hvisited, -⟩ :=
      (mem_markedDirs_iff_isVisited ht hanchor hdots hlocate).1 hd
    exact ⟨names, m, hpath, hvisited⟩
  refine ⟨hvisited.mem_markedDirs_iff ht hanchor hdots hlocate, ?_⟩
  obtain ⟨hdots', hproper⟩ := ht.of_at? hvisited.at_end
  have hplain' : (root.below names).IsPlain := hplain.of_at? hvisited.at_end
  have hnull' := Path.hasNull_eq_false (p := root.below names) (hnull.of_at? hvisited.at_end)
  rcases locate_or_too_long (P := root.below names) hnull hanchor hdots' hvisited.at_end with
    hfound | ⟨hlong, -⟩
  · have hclassify : classify t (root.below names).render = classifyDir t (root.below names) := by
      rw [classify, validateRoot_render hplain' hanchor hdots' hfound hvisited.isDir]
      rfl
    rw [hclassify]
    refine ⟨fun info hinfo => ?_, fun e he => ?_⟩
    · have hfiles := goesByFiles_of_classifyDir hfound hinfo
      refine ⟨hfiles, ?_⟩
      rw [hfiles.marker_eq_map, map_findMarker_eq_iff, findMarker_isFile_eq_iff hproper]
    · exact unclassified_of_classifyDir he
  · have hclassify : classify t (root.below names).render =
        .error (.inaccessible (.nameTooLong (root.below names))) := by
      rw [classify, validateRoot_render_of_too_long hplain' hanchor hdots' hnull' hlong]
      rfl
    rw [hclassify]
    refine ⟨fun info hinfo => ?_, fun e he => ?_⟩
    · cases hinfo
    · cases he
      exact .tooLong .self (FileTree.isTooLong_of_locate hlong).2

/-! ## Markers that lead nowhere -/

/-- Two directories with a marker that leads nowhere, one of them with a further marker. -/
def brokenMarkers : FileTree where
  top := .dir [("bare", .dir [("foundry.toml", .dangling)]),
    ("mixed", .dir [("foundry.toml", .dangling), ("hardhat.config.js", .file [])])]
  cwd := Path.mk .root []

theorem proper_brokenMarkers : brokenMarkers.top.Proper := by
  refine .dir (by decide) (by simp) ?_
  simp only [List.forall_mem_cons, List.not_mem_nil, false_implies, implies_true, and_true]
  refine ⟨.dir (by decide) (by simp) ?_, .dir (by decide) (by simp) ?_⟩
  · simp [Node.Proper.dangling]
  · simp [Node.Proper.dangling, Node.Proper.file]

theorem plain_brokenMarkers : brokenMarkers.top.Plain := by
  refine .dir (by decide) ?_
  simp only [List.forall_mem_cons, List.not_mem_nil, false_implies, implies_true, and_true]
  refine ⟨.dir (by decide) ?_, .dir (by decide) ?_⟩
  · simp [Node.Plain.dangling]
  · simp [Node.Plain.dangling, Node.Plain.file]

theorem nullFree_brokenMarkers : brokenMarkers.top.NullFree := by
  refine .dir (by decide) ?_
  simp only [List.forall_mem_cons, List.not_mem_nil, false_implies, implies_true, and_true]
  refine ⟨.dir (by decide) ?_, .dir (by decide) ?_⟩
  · simp [Node.NullFree.dangling]
  · simp [Node.NullFree.dangling, Node.NullFree.file]

/-- A search finds both directories. One of them is classified as a directory without a marker, the
other one by its second marker. -/
theorem classify_brokenMarkers :
    ∃ found, findRoots brokenMarkers ⟨[], 8⟩ "/" = .ok found ∧ ⟨.root, ["bare"]⟩ ∈ found ∧
      ⟨.root, ["mixed"]⟩ ∈ found ∧
      (∃ info, classify brokenMarkers "/bare" = .ok info ∧ info.marker = none) ∧
      ∃ info, classify brokenMarkers "/mixed" = .ok info ∧
        info.marker = some "hardhat.config.js" ∧ info.layout = .hardhat := by
  have hroot : validateRoot brokenMarkers "/" = .ok ⟨.root, []⟩ :=
    eq_ok_of_toOption (by decide +kernel)
  obtain ⟨found, hfound, -, hclassify⟩ := @classify_of_isVisited brokenMarkers ⟨[], 8⟩ _
    proper_brokenMarkers plain_brokenMarkers nullFree_brokenMarkers _ hroot
  have hvisited : ∀ name m, brokenMarkers.top.at? [name] = some m → m.isDir = true →
      name ∉ excludedDirs → IsVisited brokenMarkers ⟨[], 8⟩ ⟨.root, []⟩ [name] m := by
    intro name m hat hm hname
    exact ⟨hat, hm, by simp, by simpa using hname⟩
  obtain ⟨hbare, hinfo, -⟩ := hclassify ["bare"] (.dir [("foundry.toml", .dangling)])
    (hvisited _ _ rfl rfl (by decide))
  obtain ⟨hmixed, hinfo', -⟩ := hclassify ["mixed"]
    (.dir [("foundry.toml", .dangling), ("hardhat.config.js", .file [])])
    (hvisited _ _ rfl rfl (by decide))
  have hok : classify brokenMarkers "/bare" =
      .ok ⟨.unknown, ⟨.root, ["bare"]⟩, ⟨.root, ["bare"]⟩, none, []⟩ :=
    eq_ok_of_toOption (by decide +kernel)
  have hok' : classify brokenMarkers "/mixed" = .ok ⟨.hardhat, ⟨.root, ["mixed"]⟩,
      ⟨.root, ["mixed"]⟩, some "hardhat.config.js", []⟩ := eq_ok_of_toOption (by decide +kernel)
  refine ⟨found, hfound, hbare.2 (by decide), hmixed.2 (by decide), ⟨_, hok, ?_⟩, _, hok', ?_⟩
  · cases (hinfo _ hok).1 with
    | marked marker first => cases first
    | unmarked absent marker_eq => exact marker_eq
  · cases (hinfo' _ hok').1 with
    | marked marker first marker_eq layout_eq =>
      cases first
      exact ⟨marker_eq, layout_eq⟩
    | unmarked absent => cases absent

end AbiIndex.Project
