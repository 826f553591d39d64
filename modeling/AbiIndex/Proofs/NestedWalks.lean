import AbiIndex.Proofs.ListFacts
import AbiIndex.Proofs.ProjectOverlap

/-!
# Searches inside of searches

A walk that starts in a directory visits what a walk from further above visits in this directory, in
the same order: from the top down, and by name. A limit of depth leaves out exactly the directories
beyond it. So the projects that
are nested in a project can be found by a search of their own, or among those of a search from
further above, as long as no marked directory lies too deep.

## Key results

- `Node.filter_walk_below`: the part of a walk in one directory is the walk of this directory
- `Node.walk_limited`: what a limit of depth leaves out
- `Project.pairwise_markedDirs`: in which order a search finds directories
- `Project.nestedUnder_markedDirs`: both ways to find nested projects give the same
-/

namespace AbiIndex

namespace Path

/-- A path lies at or below another one if it starts with all of it. -/
theorem isSome_relativeTo?_iff {p base : Path} :
    (p.relativeTo? base).isSome = true ↔ p.anchor = base.anchor ∧ base.names <+: p.names := by
  rw [relativeTo?, List.prefix_iff_eq_take, eq_comm (a := base.names)]
  split
  · rename_i h
    exact ⟨fun _ => h, fun _ => rfl⟩
  · rename_i h
    exact iff_of_false Bool.false_ne_true h

theorem below_injective {p : Path} {xs ys : List String} (h : p.below xs = p.below ys) : xs = ys :=
  List.append_cancel_left (congrArg Path.names h)

/-- `p` comes before `q` from the top down: it lies above `q`, or has the lesser name where the two
part. -/
def Precedes (p q : Path) : Prop := p.names < q.names

theorem Precedes.irrefl (p : Path) : ¬ p.Precedes p := List.lt_irrefl p.names

instance : Std.Irrefl Precedes := ⟨Precedes.irrefl⟩

instance : Std.Antisymm Precedes where
  antisymm p _ h h' := absurd (List.lt_trans h h') (Precedes.irrefl p)

theorem precedes_below {p : Path} {xs ys : List String} (h : xs < ys) :
    (p.below xs).Precedes (p.below ys) :=
  List.append_left_lt h

end Path

namespace Node

variable {n m : Node} {descend : Path → String → Bool} {path : Path} {stop : Stop}

/-- The entries of a directory in the order of visits. -/
def listed (es : List (String × Node)) : List (String × Node) :=
  es.mergeSort fun a b => Text.noLater a.1 b.1

theorem mem_listed {es : List (String × Node)} {e : String × Node} : e ∈ listed es ↔ e ∈ es :=
  List.mem_mergeSort

theorem nodup_listed {es : List (String × Node)} (h : (es.map (·.1)).Nodup) :
    ((listed es).map (·.1)).Nodup :=
  ((List.mergeSort_perm es _).map _).nodup_iff.2 h

theorem pairwise_listed {es : List (String × Node)} (h : (es.map (·.1)).Nodup) :
    (listed es).Pairwise fun e e' => e.1 < e'.1 :=
  (Text.pairwise_mergeSort_by (·.1) es).imp₂ (fun _ _ => Text.lt_of_le_of_ne)
    (List.pairwise_map.1 (nodup_listed h))

/-- What a walk visits in an entry of the directory at `path`. -/
def walkEntry (descend : Path → String → Bool) (path : Path) (e : String × Node) : List Stop :=
  if descend path e.1 then e.2.walk descend (path.child e.1) else []

/-- A walk visits a directory before its entries. -/
theorem walk_dir (descend : Path → String → Bool) (path : Path) (es : List (String × Node)) :
    (dir es).walk descend path = ⟨path, (dir es).namesOf (!·.isDir)⟩ ::
      (listed es).flatMap (walkEntry descend path) := by
  have hsort : (listed es).map (fun e => (e.1, walkEntry descend path e)) =
      (es.map fun e => (e.1, walkEntry descend path e)).mergeSort visitedFirst :=
    List.map_mergeSort fun _ _ _ _ => rfl
  rw [walk]
  simp only [walkEntry] at hsort
  rw [← hsort, List.flatMap_map]
  rfl

/-- What is visited lies at or below the path where the walk starts. -/
theorem exists_below_of_mem_walk (hn : n.Proper) (h : stop ∈ n.walk descend path) :
    ∃ names, stop.path = path.below names := by
  obtain ⟨names, m, -, -, -, rfl⟩ := (mem_walk_iff hn descend path stop).1 h
  exact ⟨names, rfl⟩

theorem exists_below_of_mem_walkEntry {e : String × Node} (he : e.2.Proper)
    (h : stop ∈ walkEntry descend path e) : ∃ names, stop.path = path.below (e.1 :: names) := by
  rw [walkEntry] at h
  split at h
  · obtain ⟨names, hnames⟩ := exists_below_of_mem_walk he h
    exact ⟨names, hnames.trans (Path.below_cons path e.1 names).symm⟩
  · cases h

/-- A walk visits directories from the top down, those in one directory by name. -/
theorem pairwise_walk (hn : n.Proper) (descend : Path → String → Bool) (path : Path) :
    ((n.walk descend path).map (·.path)).Pairwise Path.Precedes := by
  induction hn generalizing path with
  | file bytes => simp [walk]
  | dangling => simp [walk]
  | @dir es nodup dots below ih =>
    have hentry : ∀ e ∈ listed es, ∀ d ∈ (walkEntry descend path e).map (·.path),
        ∃ names, d = path.below (e.1 :: names) := by
      intro e he d hd
      obtain ⟨stop, hstop, rfl⟩ := List.mem_map.1 hd
      exact exists_below_of_mem_walkEntry (below e (mem_listed.1 he)) hstop
    rw [walk_dir, List.map_cons, List.pairwise_cons, List.map_flatMap, List.pairwise_flatMap]
    refine ⟨?_, ?_, ?_⟩
    · intro d hd
      obtain ⟨e, he, hd⟩ := List.mem_flatMap.1 hd
      obtain ⟨names, rfl⟩ := hentry e he d hd
      have hbelow := Path.precedes_below (p := path) (List.nil_lt_cons e.1 names)
      rwa [Path.below_nil] at hbelow
    · intro e he
      rw [walkEntry]
      split
      · exact ih e (mem_listed.1 he) _
      · exact .nil
    · refine (pairwise_listed nodup).imp_of_mem ?_
      intro e e' he he' hlt d hd d' hd'
      obtain ⟨names, rfl⟩ := hentry e he d hd
      obtain ⟨names', rfl⟩ := hentry e' he' d' hd'
      exact Path.precedes_below (List.cons_lt_cons_iff.2 (.inl hlt))

/-- The part of a walk in one of the directories on its way is the walk of this directory. -/
theorem filter_walk_below (hn : n.Proper) {names : List String} (hat : n.at? names = some m)
    (hgoes : goesAlong descend path names = true) :
    (n.walk descend path).filter (fun stop => (stop.path.relativeTo? (path.below names)).isSome) =
      m.walk descend (path.below names) := by
  induction names generalizing n path with
  | nil =>
    cases hat
    rw [Path.below_nil, List.filter_eq_self]
    intro stop hstop
    obtain ⟨names, hnames⟩ := exists_below_of_mem_walk hn hstop
    rw [Path.isSome_relativeTo?_iff, hnames]
    exact ⟨rfl, List.prefix_append _ _⟩
  | cons name names ih =>
    rw [at?, Option.bind_eq_some_iff] at hat
    obtain ⟨child, hchild, hat⟩ := hat
    rw [goesAlong, Bool.and_eq_true] at hgoes
    have hproper := hn
    obtain ⟨es, rfl, hmem⟩ := entry?_eq_some hchild
    cases hproper with
    | dir nodup dots below =>
      -- what is not in this entry is not below the directory
      have hother : ∀ e ∈ listed es, e.1 ≠ name → (walkEntry descend path e).filter
          (fun stop => (stop.path.relativeTo? (path.below (name :: names))).isSome) = [] := by
        intro e he hne
        rw [List.filter_eq_nil_iff]
        intro stop hstop hbelow
        obtain ⟨xs, hxs⟩ := exists_below_of_mem_walkEntry (below e (mem_listed.1 he)) hstop
        rw [Path.isSome_relativeTo?_iff, hxs] at hbelow
        have hprefix := (List.prefix_append_right_inj _).1 hbelow.2
        exact hne (List.cons_prefix_cons.1 hprefix).1.symm
      have hself : ¬((path.relativeTo? (path.below (name :: names))).isSome = true) := by
        intro hbelow
        have hlength := (Path.isSome_relativeTo?_iff.1 hbelow).2.length_le
        simp only [Path.below, List.length_append, List.length_cons] at hlength
        omega
      rw [walk_dir, List.filter_cons, if_neg hself, List.filter_flatMap,
        flatMap_eq_of_unique (mem_listed.2 hmem) (nodup_listed nodup) hother, walkEntry,
        if_pos hgoes.1]
      simp only [Path.below_cons]
      exact ih (below _ hmem) hat hgoes.2

/-! ## Limits of depth -/

/-- The number of names that a path has beyond the first `k`. -/
def depthFrom (k : Nat) (p : Path) : Int := (p.names.length - k : Nat)

theorem depthFrom_below {k : Nat} {p : Path} (hk : k ≤ p.names.length) (names : List String) :
    depthFrom k (p.below names) = depthFrom k p + names.length := by
  simp only [depthFrom, Path.below, List.length_append]
  omega

/-- A limit of depth leaves out exactly the directories beyond it. -/
theorem walk_limited (hn : n.Proper) (enter : String → Bool) {k : Nat} {limit : Int} {path : Path}
    (hk : k ≤ path.names.length) (hpath : depthFrom k path ≤ limit) :
    n.walk (fun p name => depthFrom k p < limit && enter name) path =
      (n.walk (fun _ name => enter name) path).filter fun stop => depthFrom k stop.path ≤ limit := by
  induction hn generalizing path with
  | file bytes => simp [walk]
  | dangling => simp [walk]
  | @dir es nodup dots below ih =>
    have hkeep : decide (depthFrom k path ≤ limit) = true := decide_eq_true hpath
    rw [walk_dir, walk_dir, List.filter_cons, if_pos hkeep, List.filter_flatMap, List.cons.injEq]
    refine ⟨rfl, List.flatMap_congr fun e he => ?_⟩
    have hchild : (path.child e.1).names.length = path.names.length + 1 := by simp [Path.child]
    by_cases hdeep : depthFrom k path < limit
    · -- the entries do not lie beyond the limit
      rw [walkEntry, walkEntry, decide_eq_true hdeep, Bool.true_and]
      split
      · refine ih e (mem_listed.1 he) (by omega) ?_
        rw [depthFrom] at hdeep ⊢
        omega
      · rfl
    · -- nothing is gone into, and everything there lies beyond the limit
      rw [walkEntry, decide_eq_false hdeep, Bool.false_and, if_neg Bool.false_ne_true]
      symm
      rw [List.filter_eq_nil_iff]
      intro stop hstop hle
      obtain ⟨names, hnames⟩ := exists_below_of_mem_walkEntry (below e (mem_listed.1 he)) hstop
      rw [hnames, decide_eq_true_eq, depthFrom_below hk, List.length_cons] at hle
      omega

end Node

namespace Project

variable {t : FileTree} {options : SearchOptions} {root : Path}

/-- Whether a search goes into the directories of that name, as far as its limit of depth allows. -/
def isEntered (options : SearchOptions) (name : String) : Bool :=
  name ∉ excludedDirs && name ∉ options.excludeDirs

/-- The directories with a marker at and below `root`, however deep. -/
def markedBelow (t : FileTree) (options : SearchOptions) (root : Path) : List Path :=
  ((visited t (fun _ name => isEntered options name) root).filter fun stop =>
    (findMarker stop.files).isSome).map (·.path)

/-- A search finds directories from the top down, those in one directory by name. -/
theorem pairwise_markedDirs (ht : t.top.Proper) (options : SearchOptions)
    (hroot : root.anchor = .root) : (markedDirs t options root).Pairwise Path.Precedes := by
  rw [markedDirs, visited]
  cases hlocate : t.locate root with
  | error e => exact .nil
  | ok n =>
    have hn := (ht.of_at? (at?_target_of_locate (by rw [hroot]; decide) hlocate)).2
    exact (Node.pairwise_walk hn _ root).sublist (List.filter_sublist.map _)

/-- Whether no directory with a marker lies deeper below `root` than a search goes. -/
def IsShallow (t : FileTree) (options : SearchOptions) (root : Path) : Prop :=
  ∀ d ∈ markedBelow t options root, Node.depthFrom root.names.length d ≤ options.maxDepth

/-- A search finds the marked directories up to its limit. -/
theorem markedDirs_eq (ht : t.top.Proper) (hroot : root.anchor = .root)
    (hlimit : 0 ≤ options.maxDepth) : markedDirs t options root =
      (markedBelow t options root).filter fun d =>
        Node.depthFrom root.names.length d ≤ options.maxDepth := by
  rw [markedDirs, markedBelow, visited, visited]
  cases hlocate : t.locate root with
  | error e => rfl
  | ok n =>
    have hn := (ht.of_at? (at?_target_of_locate (by rw [hroot]; decide) hlocate)).2
    have hdepth : Node.depthFrom root.names.length root ≤ options.maxDepth := by
      simpa [Node.depthFrom] using hlimit
    have hwalk := Node.walk_limited hn (isEntered options) (Nat.le_refl _) hdepth
    simp only [isEntered, ← Bool.and_assoc] at hwalk
    dsimp only
    rw [List.filter_map, List.filter_filter]
    refine congrArg _ ((congrArg _ hwalk).trans ?_)
    rw [List.filter_filter]
    exact List.filter_congr fun stop _ => Bool.and_comm _ _

theorem markedDirs_of_isShallow (ht : t.top.Proper) (hroot : root.anchor = .root)
    (hlimit : 0 ≤ options.maxDepth) (h : IsShallow t options root) :
    markedDirs t options root = markedBelow t options root := by
  rw [markedDirs_eq ht hroot hlimit, List.filter_eq_self]
  exact fun d hd => decide_eq_true (h d hd)

/-- A directory that a search comes to, from the root on. -/
structure OnWay (t : FileTree) (options : SearchOptions) (root P : Path) (n m : Node)
    (names : List String) : Prop where
  start : t.locate root = .ok n
  at_end : n.at? names = some m
  isDir : m.isDir = true
  goes : Node.goesAlong (fun _ name => isEntered options name) root names = true
  path : P = root.below names

/-- A search comes to the directories that it finds. -/
theorem exists_onWay (ht : t.top.Proper) (hroot : root.anchor = .root) {P : Path}
    (hP : P ∈ markedBelow t options root) : ∃ n m names, OnWay t options root P n m names := by
  obtain ⟨stop, hstop, rfl⟩ := List.mem_map.1 hP
  obtain ⟨hstop, -⟩ := List.mem_filter.1 hstop
  obtain ⟨n, m, names, hn, -, hat, hdir, hgoes, hpath⟩ := exists_at?_of_mem_visited ht hroot hstop
  exact ⟨n, m, names, hn, hat, hdir, hgoes, hpath⟩

namespace OnWay

variable {P : Path} {n m : Node} {names : List String}

/-- From the top, the directory is found at the names of its path. -/
theorem at?_target (h : OnWay t options root P n m names) (ht : t.top.Proper)
    (hroot : root.anchor = .root) : t.top.at? P.target = some m := by
  have htop := at?_target_of_locate (by rw [hroot]; decide) h.start
  have hdots := ((ht.of_at? htop).2.of_at? h.at_end).1
  rw [h.path, Path.target, Path.below, Path.foldDots_append hdots, Node.at?_append]
  rw [Path.target] at htop
  rw [htop]
  exact h.at_end

/-- A search that starts at the directory finds what lies in it. -/
theorem markedBelow_eq (h : OnWay t options root P n m names) (ht : t.top.Proper)
    (hroot : root.anchor = .root) (hlocate : t.locate P = .ok m) : markedBelow t options P =
      (markedBelow t options root).filter fun d => (d.relativeTo? P).isSome := by
  have hn := (ht.of_at? (at?_target_of_locate (by rw [hroot]; decide) h.start)).2
  have hwalk := Node.filter_walk_below hn h.at_end h.goes
  rw [← h.path] at hwalk
  rw [markedBelow, markedBelow, visited, visited, hlocate, h.start]
  dsimp only
  rw [← hwalk, List.filter_map, List.filter_filter, List.filter_filter]
  exact congrArg _ (List.filter_congr fun stop _ => Bool.and_comm _ _)

/-- It does not lie above the root. -/
theorem length_le (h : OnWay t options root P n m names) :
    root.names.length ≤ P.names.length := by
  rw [h.path, Path.below, List.length_append]
  omega

end OnWay

/-- The projects nested in a project are those that a search of its own finds, if no marked
directory lies too deep. -/
theorem nestedUnder_markedDirs (ht : t.top.Proper) (hroot : root.anchor = .root)
    (hlimit : 0 ≤ options.maxDepth) (hshallow : IsShallow t options root) {P : Path} {n m : Node}
    {names : List String} (h : OnWay t options root P n m names) (hlocate : t.locate P = .ok m) :
    nestedUnder P (markedDirs t options root) = (markedDirs t options P).filter (· ≠ P) := by
  have hbelow := h.markedBelow_eq ht hroot hlocate
  have hP : P.anchor = .root := by
    rw [h.path]
    exact hroot
  have hinside : IsShallow t options P := by
    intro d hd
    rw [hbelow] at hd
    have hdeep := hshallow d (List.mem_filter.1 hd).1
    have hlength := h.length_le
    rw [Node.depthFrom] at hdeep ⊢
    omega
  rw [markedDirs_of_isShallow ht hroot hlimit hshallow, markedDirs_of_isShallow ht hP hlimit hinside,
    hbelow, nestedUnder, List.filter_filter]

end Project

end AbiIndex
