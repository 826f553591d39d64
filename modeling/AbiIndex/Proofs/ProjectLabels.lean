import AbiIndex.Proofs.FaithfulStore
import AbiIndex.Proofs.NestedWalks

/-!
# Labels of projects

A search finds every marked directory once, and the root in addition if it is a project of its own.
Seen from the root, the paths of what it finds differ in the names of files, so that their texts
differ as well.

## Key results

- `Project.roots_of_projectsOf`: which directories are projects
- `Project.nodup_labels`: no two projects of a search have the same label
-/

namespace AbiIndex

/-- Names that lead somewhere are plain. -/
theorem Node.Plain.of_at? {n m : Node} {names : List String} (h : n.Plain)
    (hat : n.at? names = some m) : ∀ name ∈ names, isPlainName name := by
  refine (forall_of_at? (fun es hes e he => ?_) h hat).1
  cases hes with
  | dir names below => exact ⟨names e he, below e he⟩

/-- Below a directory, the label of a path gives its further names. -/
theorem Path.label_below (p : Path) (names : List String) :
    p.label (p.below names) = (Path.mk .relative names).render := by
  have hrelative : (p.below names).relativeTo? p = some names := by
    rw [relativeTo?, below, if_pos ⟨rfl, List.take_left⟩, List.drop_left]
  rw [label, hrelative]

namespace Project

variable {t : FileTree} {options : SearchOptions} {root d d' : Path} {marked : List Path}
  {infos : List Info}

/-- Directories that a search finds lie below the root at plain names. -/
theorem exists_plain_of_mem_markedDirs (ht : t.top.Proper) (hplain : t.top.Plain)
    (hroot : root.anchor = .root) (hd : d = root ∨ d ∈ markedDirs t options root) :
    ∃ names, d = root.below names ∧ ∀ name ∈ names, isPlainName name := by
  rcases hd with rfl | hd
  · exact ⟨[], (Path.below_nil d).symm, List.forall_mem_nil _⟩
  obtain ⟨names, m, hat, rfl⟩ := exists_at?_of_mem_markedDirs ht hroot hd
  exact ⟨names, rfl, fun name hname => hplain.of_at? hat name (List.mem_append_right _ hname)⟩

/-- No directory is found twice. -/
theorem nodup_markedDirs (ht : t.top.Proper) (options : SearchOptions) (hroot : root.anchor = .root) :
    (markedDirs t options root).Nodup :=
  (pairwise_markedDirs ht options hroot).nodup

/-- Directories that a search finds can be told apart by their labels. -/
theorem label_injective (ht : t.top.Proper) (hplain : t.top.Plain) (hroot : root.anchor = .root)
    (hd : d = root ∨ d ∈ markedDirs t options root) (hd' : d' = root ∨ d' ∈ markedDirs t options root)
    (h : root.label d = root.label d') : d = d' := by
  obtain ⟨names, rfl, hnames⟩ := exists_plain_of_mem_markedDirs ht hplain hroot hd
  obtain ⟨names', rfl, hnames'⟩ := exists_plain_of_mem_markedDirs ht hplain hroot hd'
  rw [Path.label_below, Path.label_below] at h
  cases Path.render_injective (p := ⟨.relative, names⟩) (q := ⟨.relative, names'⟩) hnames hnames' h
  rfl

/-- The text of a label is not empty. -/
theorem label_ne_empty (ht : t.top.Proper) (hplain : t.top.Plain) (hroot : root.anchor = .root)
    (hd : d = root ∨ d ∈ markedDirs t options root) : root.label d ≠ "" := by
  obtain ⟨names, rfl, hnames⟩ := exists_plain_of_mem_markedDirs ht hplain hroot hd
  rw [Path.label_below]
  intro hempty
  have htext := Path.toList_render (Path.mk .relative names)
  rw [hempty] at htext
  cases names with
  | nil => cases htext
  | cons name rest =>
    have hbody := (List.append_eq_nil_iff.1 htext.symm).2
    have hname : name.toList = [] := (List.append_eq_nil_iff.1 hbody).1
    have hplainName := hnames name List.mem_cons_self
    rw [String.toList_eq_nil_iff.1 hname] at hplainName
    revert hplainName
    decide

/-- The projects are the marked directories, and sometimes the root. -/
theorem roots_of_projectsOf (h : projectsOf t options root marked = .ok infos) :
    infos.map (·.root) = marked ∨ root ∉ marked ∧ infos.map (·.root) = root :: marked := by
  obtain ⟨own, others, rfl, hothers, hown⟩ := projectsOf_spec h
  have hroots : others.map (·.root) = marked := by
    refine (List.forall₂_eq_eq_eq ▸ List.forall₂_map_right_iff.2 ?_ : marked = _).symm
    refine hothers.imp ?_
    rintro path _ ⟨plain, hplain, rfl⟩
    exact (classifyDir_spec hplain).1.symm
  rw [List.map_append, hroots]
  rcases hown with ⟨-, rfl⟩ | ⟨hroot, plain, hplain, rfl | rfl⟩
  · exact .inl rfl
  · exact .inl rfl
  · exact .inr ⟨hroot, congrArg (· :: marked) (classifyDir_spec hplain).1⟩

/-- No two projects have the same label. -/
theorem nodup_labels (ht : t.top.Proper) (hplain : t.top.Plain) (hroot : root.anchor = .root)
    (h : projectsOf t options root (markedDirs t options root) = .ok infos) :
    (infos.map fun info => root.label info.root).Nodup := by
  have hmarked := nodup_markedDirs ht options hroot
  have hfound : ∀ d ∈ infos.map (·.root), d = root ∨ d ∈ markedDirs t options root := by
    intro d hd
    rcases roots_of_projectsOf h with heq | ⟨-, heq⟩
    · exact .inr (heq ▸ hd)
    · exact List.mem_cons.1 (heq ▸ hd)
  have hroots : (infos.map (·.root)).Nodup := by
    rcases roots_of_projectsOf h with heq | ⟨hout, heq⟩
    · rwa [heq]
    · rw [heq]
      exact List.nodup_cons.2 ⟨hout, hmarked⟩
  rw [← Function.comp_def root.label, ← List.map_map]
  refine hroots.map_on fun d hd d' hd' heq => ?_
  exact label_injective ht hplain hroot (hfound d hd) (hfound d' hd') heq

end Project

end AbiIndex
