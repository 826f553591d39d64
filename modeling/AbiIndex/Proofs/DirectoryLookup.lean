import AbiIndex.Proofs.FaithfulStore
import AbiIndex.Proofs.NestedWalks

/-!
# Asking for a directory by its path

A search gives the paths of the directories that it finds. In a tree whose names are proper names of
files, such a path can be written down and read again, and it leads to the directory that was found,
as long as it is not too long for the operating system. A directory whose path is too long cannot be
classified, so that a search which finds it fails.

## Key results

- `Path.parse_render`: a path is read back from its text
- `FileTree.isDir_eq_error`: which paths cannot be asked for
- `Project.locate_of_classifyDir`: what can be classified can be found
- `Project.validateRoot_render`: a directory that was found is accepted as a root
-/

namespace AbiIndex

/-! ## Reading the text of a path -/

namespace Path

/-- The pieces of a text of names are the names. -/
theorem pieces_furtherText {name : String} {rest : List String}
    (h : ∀ n ∈ name :: rest, '/' ∉ n.toList) :
    Text.pieces (· == '/') (name.toList ++ furtherText rest) = (name :: rest).map String.toList := by
  simp only [Text.pieces_eq_splitOnP, ← List.splitOn_eq_splitOnP]
  induction rest generalizing name with
  | nil =>
    rw [furtherText, List.append_nil]
    exact List.splitOn_eq_singleton (h name List.mem_cons_self)
  | cons next rest ih =>
    obtain ⟨hname, hrest⟩ := List.forall_mem_cons.1 h
    rw [furtherText, List.splitOn_append_cons_self_of_not_mem hname, ih hrest]
    rfl

/-- An absolute path is read back from its text. -/
theorem parse_render {p : Path} (hp : p.IsPlain) (hroot : p.anchor = .root) : parse p.render = p := by
  have htext : p.render.toList = '/' :: p.bodyText := by
    rw [toList_render, hroot]
    rfl
  have hplain : ∀ name ∈ p.names, name ≠ "" ∧ name ≠ "." ∧ '/' ∉ name.toList := by
    intro name hname
    have := hp name hname
    simp only [isPlainName, Bool.and_eq_true, decide_eq_true_eq] at this
    exact ⟨this.1.1, this.1.2, this.2⟩
  have hanchor : anchorOf p.render.toList = .root := by
    have hhead := bodyText_head? hp
    rw [htext]
    cases hbody : p.bodyText with
    | nil => rfl
    | cons c cs =>
      rw [hbody] at hhead
      have hc : c ≠ '/' := fun heq => hhead (congrArg some heq)
      rw [anchorOf]
      · exact fun rest heq => hc (List.cons.inj heq).1
      · exact fun rest heq => hc (List.cons.inj heq).1
  have hkept : p.names.filter (fun name => name ≠ "" && name ≠ ".") = p.names := by
    rw [List.filter_eq_self]
    intro name hname
    simp [(hplain name hname).1, (hplain name hname).2.1]
  have hnames : ((Text.pieces (· == '/') p.render.toList).map String.ofList).filter
      (fun name => name ≠ "" && name ≠ ".") = p.names := by
    have hslash : Text.pieces (· == '/') ('/' :: p.bodyText) =
        [] :: Text.pieces (· == '/') p.bodyText := rfl
    rw [htext, hslash]
    -- the empty piece in front of the first slash is no name
    show ((Text.pieces (· == '/') p.bodyText).map String.ofList).filter _ = p.names
    cases hcases : p.names with
    | nil =>
      have hbody : p.bodyText = [] := by simp [bodyText, hcases, hroot]
      rw [hbody]
      rfl
    | cons name rest =>
      have hbody : p.bodyText = name.toList ++ furtherText rest := by simp only [bodyText, hcases]
      have hnames : ∀ n ∈ name :: rest, '/' ∉ n.toList := fun n hn => (hplain n (hcases ▸ hn)).2.2
      rw [hcases] at hkept
      rw [hbody, pieces_furtherText hnames, List.map_map]
      simpa [Function.comp_def] using hkept
  obtain ⟨anchor, names⟩ := p
  rw [parse, hanchor, hnames]
  exact congrArg (Path.mk · names) hroot.symm

/-- The path of an entry is longer than that of its directory, unless that is written as a dot. -/
theorem utf8ByteSize_render_le_child {p : Path} (h : p.anchor ≠ .relative ∨ p.names ≠ [])
    (name : String) : p.render.utf8ByteSize ≤ (p.child name).render.utf8ByteSize := by
  have hfurther : ∀ names : List String,
      furtherText (names ++ [name]) = furtherText names ++ '/' :: name.toList := by
    intro names
    induction names with
    | nil => simp [furtherText]
    | cons first names ih => simp [furtherText, ih]
  have hlonger : ∃ cs, (p.child name).render.toList = p.render.toList ++ cs := by
    rw [toList_render, toList_render]
    obtain ⟨anchor, names⟩ := p
    cases names with
    | nil =>
      have hanchor : anchor ≠ .relative := by simpa using h
      exact ⟨name.toList, by simp [child, bodyText, furtherText, hanchor]⟩
    | cons first rest =>
      refine ⟨'/' :: name.toList, ?_⟩
      simp only [child, bodyText, List.cons_append, hfurther]
      simp
  obtain ⟨cs, hcs⟩ := hlonger
  have happend : (p.child name).render = p.render ++ String.ofList cs := by
    rw [← String.toList_inj, hcs, String.toList_append, String.toList_ofList]
  rw [happend, String.utf8ByteSize_append]
  omega

end Path

/-! ## Following the path of a directory -/

theorem Path.hasNull_eq_false {p : Path} (h : ∀ name ∈ p.names, '\x00' ∉ name.toList) :
    p.hasNull = false := by
  rw [hasNull, List.any_eq_false]
  intro name hname hmem
  exact h name hname (List.contains_iff_mem.1 hmem)

namespace Node

/-- A tree in which no name holds a null character. -/
inductive NullFree : Node → Prop
  | file (bytes : List UInt8) : NullFree (file bytes)
  | dangling : NullFree dangling
  | dir {es : List (String × Node)} (names : ∀ e ∈ es, '\x00' ∉ e.1.toList)
      (below : ∀ e ∈ es, NullFree e.2) : NullFree (dir es)

variable {n m : Node} {names : List String}

theorem NullFree.of_at? (h : n.NullFree) (hat : n.at? names = some m) :
    ∀ name ∈ names, '\x00' ∉ name.toList := by
  refine (forall_of_at? (fun es hes e he => ?_) h hat).1
  cases hes with
  | dir names below => exact ⟨names e he, below e he⟩

/-- Names that lead somewhere can be followed unless one of them is too long. -/
theorem follow_of_at? (hat : n.at? names = some m) (hdots : ".." ∉ names) (above : List Node) :
    n.follow above names = .ok m ∨ n.follow above names = .error .nameTooLong := by
  induction names generalizing n above with
  | nil =>
    cases hat
    exact .inl (by rw [follow])
  | cons name names ih =>
    rw [at?, Option.bind_eq_some_iff] at hat
    obtain ⟨child, hchild, hat⟩ := hat
    obtain ⟨es, rfl, -⟩ := entry?_eq_some hchild
    rw [List.mem_cons, not_or] at hdots
    rw [follow.eq_def]
    dsimp only
    rw [if_neg (Ne.symm hdots.1)]
    split
    · exact .inr rfl
    · rw [hchild]
      exact ih hat hdots.2 _

/-- What goes wrong on the way goes wrong on every longer way. -/
theorem follow_append_of_error {above : List Node} {e : Missing} (h : n.follow above names = .error e)
    (further : List String) : n.follow above (names ++ further) = .error e := by
  induction names generalizing n above with
  | nil =>
    rw [follow] at h
    cases h
  | cons name names ih =>
    rw [List.cons_append]
    cases n with
    | file bytes => exact h
    | dangling => exact h
    | dir es =>
      rw [follow.eq_def] at h ⊢
      dsimp only at h ⊢
      split
      · rename_i hname
        rw [if_pos hname] at h
        cases above with
        | nil => exact ih h
        | cons parent above => exact ih h
      · rename_i hname
        rw [if_neg hname] at h
        split
        · rename_i hlong
          rw [if_pos hlong] at h
          exact h
        · rename_i hlong
          rw [if_neg hlong] at h
          cases hentry : entry? (dir es) name with
          | none =>
            rw [hentry] at h
            exact h
          | some child =>
            rw [hentry] at h
            exact ih h

/-- Only a name that is too long is refused as such. -/
theorem exists_long_of_follow {above : List Node} (h : n.follow above names = .error .nameTooLong) :
    ∃ name ∈ names, maxNameBytes < name.utf8ByteSize := by
  induction names generalizing n above with
  | nil =>
    rw [follow] at h
    cases h
  | cons name names ih =>
    cases n with
    | file bytes => cases h
    | dangling => cases h
    | dir es =>
      rw [follow.eq_def] at h
      dsimp only at h
      have hfurther : ∀ {n : Node} {above : List Node},
          n.follow above names = .error .nameTooLong →
          ∃ x ∈ name :: names, maxNameBytes < x.utf8ByteSize := fun h =>
        (ih h).imp fun _ => And.imp_left (List.mem_cons_of_mem _)
      split at h
      · cases above with
        | nil => exact hfurther h
        | cons parent above => exact hfurther h
      · split at h
        · rename_i hlong
          exact ⟨name, List.mem_cons_self, hlong⟩
        · split at h
          · cases h
          · exact hfurther h

end Node

namespace FileTree

variable {t : FileTree} {p q : Path}

/-- The path, or a name on the way along it, is too long for an answer. -/
def IsTooLong (t : FileTree) (p : Path) : Prop :=
  pathByteLimit ≤ p.render.utf8ByteSize ∨ ∃ name ∈ t.names p, Node.maxNameBytes < name.utf8ByteSize

instance : Decidable (t.IsTooLong p) := inferInstanceAs (Decidable (_ ∨ _))

theorem isTooLong_of_locate (h : t.locate p = .error (.nameTooLong q)) : q = p ∧ t.IsTooLong p := by
  rw [locate, follow] at h
  split at h
  · cases h
  split at h
  · rename_i hsize
    cases h
    exact ⟨rfl, .inl hsize⟩
  split at h
  · cases h
  · rename_i missing hfollow
    cases missing with
    | notFound => cases h
    | notDirectory => cases h
    | nameTooLong =>
      cases h
      exact ⟨rfl, .inr (Node.exists_long_of_follow hfollow)⟩

/-- Only for a path that is too long it cannot be told whether there is a directory. -/
theorem isDir_eq_error {e : TreeError} (h : t.isDir p = .error e) :
    e = .nameTooLong p ∧ t.IsTooLong p := by
  rw [isDir, find?] at h
  cases hlocate : t.locate p with
  | ok n =>
    rw [hlocate] at h
    cases h
  | error e' =>
    rw [hlocate] at h
    cases e' with
    | nameTooLong q =>
      cases h
      obtain ⟨rfl, hlong⟩ := isTooLong_of_locate hlocate
      exact ⟨rfl, hlong⟩
    | _ => cases h

end FileTree

namespace Project

variable {t : FileTree} {P : Path} {m : Node}

/-- An absolute path that leads somewhere is found, unless it is too long; then so are those of its
entries. -/
theorem locate_or_too_long (hnull : t.top.NullFree) (hroot : P.anchor = .root)
    (hdots : ".." ∉ P.names) (hat : t.top.at? P.names = some m) :
    t.locate P = .ok m ∨ t.locate P = .error (.nameTooLong P) ∧ ∀ name, '\x00' ∉ name.toList →
      t.locate (P.child name) = .error (.nameTooLong (P.child name)) := by
  have hfollow : ∀ Q : Path, Q.anchor = .root → (∀ name ∈ Q.names, '\x00' ∉ name.toList) →
      t.locate Q = if FileTree.pathByteLimit ≤ Q.render.utf8ByteSize then .error (.nameTooLong Q)
        else (t.top.follow [] Q.names).mapError (·.at Q) := by
    intro Q hQ hnames
    have hplain := Path.hasNull_eq_false hnames
    have hjoin : t.names Q = Q.names := by rw [FileTree.names, Path.join, if_neg (by simp [hQ])]
    rw [FileTree.locate, FileTree.follow, hplain, hjoin, if_neg Bool.false_ne_true]
    cases t.top.follow [] Q.names <;> rfl
  have hnames := hnull.of_at? hat
  have hchild : ∀ name, '\x00' ∉ name.toList → ∀ n ∈ (P.child name).names, '\x00' ∉ n.toList := by
    intro name hname n hn
    rcases List.mem_append.1 hn with hn | hn
    · exact hnames n hn
    · rwa [List.mem_singleton.1 hn]
  by_cases hsize : FileTree.pathByteLimit ≤ P.render.utf8ByteSize
  · refine .inr ⟨(hfollow P hroot hnames).trans (if_pos hsize), fun name hname => ?_⟩
    rw [hfollow (P.child name) hroot (hchild name hname),
      if_pos (hsize.trans (Path.utf8ByteSize_render_le_child (.inl (by simp [hroot])) name))]
  · rcases Node.follow_of_at? hat hdots [] with hok | hlong
    · left
      rw [hfollow P hroot hnames, if_neg hsize, hok]
      rfl
    · refine .inr ⟨?_, fun name hname => ?_⟩
      · rw [hfollow P hroot hnames, if_neg hsize, hlong]
        rfl
      have hfurther := Node.follow_append_of_error hlong [name]
      rw [hfollow (P.child name) hroot (hchild name hname)]
      split
      · rfl
      · rw [show (P.child name).names = P.names ++ [name] from rfl, hfurther]
        rfl

/-- What the path of an entry leads to is the entry. -/
theorem entry?_of_locate_child (hroot : P.anchor = .root) {name : String} (hname : name ≠ "..")
    (hm : t.locate P = .ok m) {k : Node} (hk : t.locate (P.child name) = .ok k) :
    m.entry? name = some k := by
  have htop := at?_target_of_locate (by rw [hroot]; decide) hm
  have hchild := at?_target_of_locate (p := P.child name) (by rw [Path.child, hroot]; decide) hk
  have htarget : (P.child name).target = P.target ++ [name] :=
    Path.foldDots_append (by simpa using Ne.symm hname) P.names
  rw [htarget, Node.at?_append, htop] at hchild
  simpa [Node.at?] using hchild

/-- A directory that can be classified can be found. -/
theorem locate_of_classifyDir (hnull : t.top.NullFree) (hroot : P.anchor = .root)
    (hdots : ".." ∉ P.names) (hat : t.top.at? P.names = some m) {info : Info}
    (h : classifyDir t P = .ok info) : t.locate P = .ok m := by
  rcases locate_or_too_long hnull hroot hdots hat with hok | ⟨hlocate, hlong⟩
  · exact hok
  exfalso
  -- nothing is listed, so that the classification asks for an entry
  have hask : ask (t.isDir (P.child "contracts")) =
      .error (.inaccessible (.nameTooLong (P.child "contracts"))) := by
    rw [FileTree.isDir, FileTree.find?, hlong "contracts" (by decide)]
    rfl
  rw [classifyDir, hlocate, show findMarker [] = none from rfl] at h
  obtain ⟨dir, hdir, -⟩ := bind_eq_ok_iff.1 h
  rw [dirWithSources?, hask] at hdir
  cases hdir

/-- The text of an absolute path is taken for this path. -/
theorem validateRoot_render_eq (hplain : P.IsPlain) (hroot : P.anchor = .root) (hdots : ".." ∉ P.names)
    (hnull : P.hasNull = false) : validateRoot t P.render = do
      if !(← ask (t.isThere P)) then throw (.notFound P.render)
      if !(← ask (t.isDir P)) then throw (.notDirectory P.render)
      return P := by
  have hhome : ask (t.expandHome P) = .ok P := by
    simp [FileTree.expandHome, Path.homeOwner?, hroot, ask, Except.mapError]
  have hresolve : ask (t.resolve P) = .ok P := by
    obtain ⟨anchor, names⟩ := P
    cases hroot
    have hjoin : t.cwd.join ⟨.root, names⟩ = ⟨.root, names⟩ := if_neg (by simp)
    rw [FileTree.resolve, hnull, if_neg Bool.false_ne_true, Path.resolve, hjoin,
      Path.foldDots_of_not_mem hdots]
    rfl
  rw [validateRoot, Path.parse_render hplain hroot, hhome]
  show (ask (t.resolve P) >>= _) = _
  rw [hresolve]
  rfl

/-- A directory that can be found is accepted as the root of a search. -/
theorem validateRoot_render (hplain : P.IsPlain) (hroot : P.anchor = .root) (hdots : ".." ∉ P.names)
    (hlocate : t.locate P = .ok m) (hm : m.isDir = true) : validateRoot t P.render = .ok P := by
  have hnull : P.hasNull = false := by
    rw [FileTree.locate, FileTree.follow] at hlocate
    split at hlocate
    · cases hlocate
    · rename_i h
      exact Bool.eq_false_iff.2 h
  have hthere : ask (t.isThere P) = .ok true := by
    simp [FileTree.isThere, FileTree.find?, hlocate, hm, ask, Except.map, Except.mapError]
  have hdir : ask (t.isDir P) = .ok true := by
    simp [FileTree.isDir, FileTree.find?, hlocate, hm, ask, Except.map, Except.mapError]
  rw [validateRoot_render_eq hplain hroot hdots hnull, hthere, hdir]
  rfl

/-- A path that is too long for an answer is not accepted. -/
theorem validateRoot_render_of_too_long (hplain : P.IsPlain) (hroot : P.anchor = .root)
    (hdots : ".." ∉ P.names) (hnull : P.hasNull = false)
    (hlocate : t.locate P = .error (.nameTooLong P)) :
    validateRoot t P.render = .error (.inaccessible (.nameTooLong P)) := by
  rw [validateRoot_render_eq hplain hroot hdots hnull, FileTree.isThere, FileTree.find?, hlocate]
  rfl

/-- The root of a search is a directory. -/
theorem isDir_of_validateRoot {given : String} {root : Path} (h : validateRoot t given = .ok root) :
    ∃ n, t.locate root = .ok n ∧ n.isDir = true := by
  rw [validateRoot] at h
  obtain ⟨p, -, h⟩ := bind_eq_ok_iff.1 h
  obtain ⟨resolved, -, h⟩ := bind_eq_ok_iff.1 h
  obtain ⟨there, -, h⟩ := bind_eq_ok_iff.1 h
  dsimp only at h
  split at h
  · cases h
  obtain ⟨dir, hdir, h⟩ := bind_eq_ok_iff.1 h
  split at h
  · cases h
  · rename_i his
    cases h
    have : dir = true := by simpa using his
    subst this
    exact isDir_eq_ok_true.1 (mapError_eq_ok_iff.1 hdir)

/-- What a search finds out about a directory, that directory is: the search comes to it, and it can
be found by its path. -/
theorem Found.exists_onWay (ht : t.top.Proper) (hnull : t.top.NullFree) {options : SearchOptions}
    (hlimit : 0 ≤ options.maxDepth) {given : String} {root : Path} {info : Info}
    (hroot : validateRoot t given = .ok root) (h : Found t options root info) :
    ∃ n m names, OnWay t options root info.root n m names ∧ t.locate info.root = .ok m := by
  obtain ⟨hanchor, hdots⟩ := validateRoot_spec hroot
  rcases h.member with heq | hmarked
  · obtain ⟨n, hlocate, hn⟩ := isDir_of_validateRoot hroot
    rw [heq]
    exact ⟨n, n, [], ⟨hlocate, rfl, hn, rfl, (Path.below_nil root).symm⟩, hlocate⟩
  · obtain ⟨hanchor', -, hdots'⟩ := mem_markedDirs ht hanchor hmarked
    rw [markedDirs_eq ht hanchor hlimit] at hmarked
    obtain ⟨n, m, names, honway⟩ := Project.exists_onWay ht hanchor (List.mem_filter.1 hmarked).1
    have hat := honway.at?_target ht hanchor
    rw [Path.target, Path.foldDots_of_not_mem (hdots' hdots)] at hat
    obtain ⟨plain, hclassify, -⟩ := h.classified
    exact ⟨n, m, names, honway, locate_of_classifyDir hnull hanchor' (hdots' hdots) hat hclassify⟩

end Project

end AbiIndex
