import AbiIndex.Project.Discovery
import AbiIndex.Proofs.TreeWalk

/-!
# The order in which directories list their entries

Two trees can hold the same and differ in the order in which their directories list it. Whatever is
asked about a path has the same answer in both, so that both accept the same roots for a search.

## Key results

- `Node.Relists.follow`: a path leads to the same in both trees
- `Project.validateRoot_of_relists`: the same roots are accepted
-/

namespace AbiIndex

namespace Node

variable {n n' m m' : Node} {name : String}

/-- The entries of a proper directory have the names that it is asked for. -/
theorem mem_namesOf_iff (hn : n.Proper) {p : Node → Bool} :
    name ∈ n.namesOf p ↔ ∃ m, n.entry? name = some m ∧ p m = true := by
  rw [namesOf, List.mem_map]
  constructor
  · rintro ⟨e, he, rfl⟩
    obtain ⟨hmem, hp⟩ := List.mem_filter.1 he
    cases n with
    | file bytes => cases hmem
    | dangling => cases hmem
    | dir es => exact ⟨e.2, hn.entry?_of_mem hmem, hp⟩
  · rintro ⟨m, hentry, hp⟩
    obtain ⟨es, rfl, hmem⟩ := entry?_eq_some hentry
    exact ⟨(name, m), List.mem_filter.2 ⟨hmem, hp⟩, rfl⟩

theorem nodup_namesOf (hn : n.Proper) (p : Node → Bool) : (n.namesOf p).Nodup := by
  cases hn with
  | file bytes => exact List.nodup_nil
  | dangling => exact List.nodup_nil
  | dir nodup dots below => exact nodup.sublist (List.filter_sublist.map _)

theorem Proper.of_perm {es es' : List (String × Node)} (hn : (Node.dir es).Proper)
    (h : es.Perm es') : (Node.dir es').Proper := by
  cases hn with
  | dir nodup dots below =>
    exact .dir ((h.map _).nodup_iff.1 nodup) (fun e he => dots e (h.mem_iff.2 he))
      fun e he => below e (h.mem_iff.2 he)

/-- The node without what it lists. -/
def unlisted : Node → Node
  | dir _ => dir []
  | n => n

/-- The two trees hold the same: every way leads in both to a directory, to a file with the same
contents, to an entry that leads nowhere, or to nothing. -/
def Relists (n n' : Node) : Prop :=
  ∀ names, (n.at? names).map unlisted = (n'.at? names).map unlisted

namespace Relists

/-- A directory with its entries in another order holds the same. -/
theorem of_perm {es es' : List (String × Node)} (hn : (dir es).Proper) (h : es.Perm es') :
    (dir es).Relists (dir es') := by
  have hn' := hn.of_perm h
  have hentry : ∀ name, Node.entry? (dir es) name = Node.entry? (dir es') name := by
    intro name
    apply Option.ext
    intro m
    constructor
    · intro hm
      obtain ⟨_, ⟨⟩, hmem⟩ := entry?_eq_some hm
      exact hn'.entry?_of_mem (h.mem_iff.1 hmem)
    · intro hm
      obtain ⟨_, ⟨⟩, hmem⟩ := entry?_eq_some hm
      exact hn.entry?_of_mem (h.mem_iff.2 hmem)
  intro names
  cases names with
  | nil => rfl
  | cons name names => rw [Node.at?, Node.at?, hentry]

theorem symm (h : n.Relists n') : n'.Relists n := fun names => (h names).symm

theorem unlisted_eq (h : n.Relists n') : n.unlisted = n'.unlisted := by
  simpa [at?] using h []

theorem isDir_eq (h : n.Relists n') : n.isDir = n'.isDir := by
  have hisDir : ∀ k : Node, k.unlisted.isDir = k.isDir := by
    intro k
    cases k <;> rfl
  rw [← hisDir n, h.unlisted_eq, hisDir]

theorem isFile_eq (h : n.Relists n') : n.isFile = n'.isFile := by
  have hisFile : ∀ k : Node, k.unlisted.isFile = k.isFile := by
    intro k
    cases k <;> rfl
  rw [← hisFile n, h.unlisted_eq, hisFile]

/-- What some names lead to in one tree, they lead to in the other. -/
theorem at? (h : n.Relists n') {names : List String} (hat : n.at? names = some m) :
    ∃ m', n'.at? names = some m' ∧ m.Relists m' := by
  have hend := h names
  rw [hat, Option.map_some, eq_comm, Option.map_eq_some_iff] at hend
  obtain ⟨m', hat', -⟩ := hend
  refine ⟨m', hat', fun further => ?_⟩
  have hfurther := h (names ++ further)
  rw [at?_append, at?_append, hat, hat'] at hfurther
  exact hfurther

theorem entry? (h : n.Relists n') (hentry : n.entry? name = some m) :
    ∃ m', n'.entry? name = some m' ∧ m.Relists m' := by
  have hone : ∀ k : Node, k.at? [name] = k.entry? name := by
    intro k
    simp [Node.at?]
  rw [← hone] at hentry ⊢
  exact h.at? hentry

theorem entry?_eq_none (h : n.Relists n') (hentry : n.entry? name = none) :
    n'.entry? name = none := by
  cases hother : n'.entry? name with
  | none => rfl
  | some m' =>
    obtain ⟨m, hm, -⟩ := h.symm.entry? hother
    rw [hentry] at hm
    cases hm

/-- A path leads to the same in both trees, or it has the same fault. -/
theorem follow {above above' : List Node} (habove : List.Forall₂ Relists above above')
    (h : n.Relists n') (names : List String) :
    (∃ e, n.follow above names = .error e ∧ n'.follow above' names = .error e) ∨
      ∃ m m', n.follow above names = .ok m ∧ n'.follow above' names = .ok m' ∧ m.Relists m' := by
  induction names generalizing n n' above above' with
  | nil => exact .inr ⟨n, n', by rw [Node.follow], by rw [Node.follow], h⟩
  | cons name names ih =>
    have hkind := h.unlisted_eq
    cases n with
    | file bytes =>
      cases n' with
      | file bytes' => exact .inl ⟨.notDirectory, rfl, rfl⟩
      | dangling => cases hkind
      | dir es' => cases hkind
    | dangling =>
      cases n' with
      | file bytes' => cases hkind
      | dangling => exact .inl ⟨.notFound, rfl, rfl⟩
      | dir es' => cases hkind
    | dir es =>
      cases n' with
      | file bytes' => cases hkind
      | dangling => cases hkind
      | dir es' =>
        rw [Node.follow.eq_def, Node.follow.eq_def (n := dir es')]
        dsimp only
        by_cases hdots : name = ".."
        · -- back to where both paths came from
          rw [if_pos hdots, if_pos hdots]
          cases habove with
          | nil => exact ih .nil h
          | cons hparent hfurther => exact ih hfurther hparent
        rw [if_neg hdots, if_neg hdots]
        by_cases hlong : maxNameBytes < name.utf8ByteSize
        · exact .inl ⟨.nameTooLong, by rw [if_pos hlong], by rw [if_pos hlong]⟩
        rw [if_neg hlong, if_neg hlong]
        cases hentry : Node.entry? (dir es) name with
        | none => exact .inl ⟨.notFound, rfl, by rw [h.entry?_eq_none hentry]⟩
        | some child =>
          obtain ⟨child', hentry', hchild⟩ := h.entry? hentry
          rw [hentry']
          exact ih (.cons h habove) hchild

end Relists

end Node

namespace FileTree

/-- The two trees hold the same, and relative paths start in the same directory. -/
structure Relists (t t' : FileTree) : Prop where
  top : t.top.Relists t'.top
  cwd : t.cwd = t'.cwd

variable {t t' : FileTree}

namespace Relists

theorem symm (h : t.Relists t') : t'.Relists t := ⟨h.top.symm, h.cwd.symm⟩

theorem locate (h : t.Relists t') (p : Path) :
    (∃ e, t.locate p = .error e ∧ t'.locate p = .error e) ∨
      ∃ n n', t.locate p = .ok n ∧ t'.locate p = .ok n' ∧ n.Relists n' := by
  have hnames : t'.names p = t.names p := by rw [names, names, h.cwd]
  rw [FileTree.locate, FileTree.locate, hnames, FileTree.follow, FileTree.follow]
  split
  · exact .inl ⟨_, rfl, rfl⟩
  split
  · exact .inl ⟨_, rfl, rfl⟩
  rcases h.top.follow .nil (t.names p) with ⟨e, he, he'⟩ | ⟨m, m', hm, hm', hrelists⟩
  · rw [he, he']
    exact .inl ⟨_, rfl, rfl⟩
  · rw [hm, hm']
    exact .inr ⟨m, m', rfl, rfl, hrelists⟩

theorem locate_ok (h : t.Relists t') {p : Path} {n : Node} (hlocate : t.locate p = .ok n) :
    ∃ n', t'.locate p = .ok n' ∧ n.Relists n' := by
  rcases h.locate p with ⟨e, he, -⟩ | ⟨m, m', hm, hm', hrelists⟩
  · rw [hlocate] at he
    cases he
  · rw [hlocate] at hm
    cases hm
    exact ⟨m', hm', hrelists⟩

theorem isDir_eq (h : t.Relists t') (p : Path) : t.isDir p = t'.isDir p := by
  rw [FileTree.isDir, FileTree.isDir, find?, find?]
  rcases h.locate p with ⟨e, he, he'⟩ | ⟨n, n', hn, hn', hrelists⟩
  · rw [he, he']
  · rw [hn, hn']
    exact congrArg Except.ok hrelists.isDir_eq

theorem isThere_eq (h : t.Relists t') (p : Path) : t.isThere p = t'.isThere p := by
  rw [isThere, isThere, find?, find?]
  rcases h.locate p with ⟨e, he, he'⟩ | ⟨n, n', hn, hn', hrelists⟩
  · rw [he, he']
  · rw [hn, hn']
    exact congrArg Except.ok (congrArg₂ (· || ·) hrelists.isFile_eq hrelists.isDir_eq)

end Relists

end FileTree

/-- The same roots are accepted for a search. -/
theorem Project.validateRoot_of_relists {t t' : FileTree} (h : t.Relists t') (given : String) :
    validateRoot t given = validateRoot t' given := by
  have hresolve : ∀ p, t.resolve p = t'.resolve p := by
    intro p
    rw [FileTree.resolve, FileTree.resolve, h.cwd]
  have hhome : ∀ p, t.expandHome p = t'.expandHome p := by
    intro p
    rw [FileTree.expandHome, FileTree.expandHome, h.cwd]
  simp only [validateRoot, hhome, hresolve, h.isThere_eq, h.isDir_eq]

end AbiIndex
