import AbiIndex.Proofs.OwnSources

/-!
# Why a search for projects fails

A search fails if the path that it is given leads to no directory. Apart from that, only the
classification of a directory can fail: where its configuration file is no text or states a number
with too many digits, or where a path is too long for an answer that comes before the source
directory is found. The first directory that cannot be classified ends the whole search. Where
nothing fails, every project has a source directory that exists.

## Key results

- `Node.follow_eq_nameTooLong_iff`, `FileTree.find?_eq_error_iff`: which paths have no answer
- `validateRoot_eq_error_iff`: the paths that are no roots of a search
- `classifyDir_eq_error_iff`: the directories that cannot be classified
- `search_fails_iff`: when a search and a classification fail, and with what
-/

namespace AbiIndex

/-! ## Paths without an answer -/

namespace Node

/-- A name is too long only for a directory that is to be looked through for it. -/
theorem follow_eq_nameTooLong_iff {n : Node} {above : List Node} {names : List String} :
    n.follow above names = .error .nameTooLong ↔ ∃ before name after m,
      names = before ++ name :: after ∧ n.follow above before = .ok m ∧ m.isDir = true ∧
        maxNameBytes < name.utf8ByteSize := by
  have hdots : ¬ maxNameBytes < "..".utf8ByteSize := by decide
  induction names generalizing n above with
  | nil =>
    rw [follow]
    constructor
    · rintro ⟨⟩
    · rintro ⟨before, name, after, m, heq, -⟩
      cases before <;> cases heq
  | cons first names ih =>
    -- the name that is too long is the first one, or lies behind it
    have hcons : (∃ before name after m, first :: names = before ++ name :: after ∧
        n.follow above before = .ok m ∧ m.isDir = true ∧ maxNameBytes < name.utf8ByteSize) ↔
        n.isDir = true ∧ maxNameBytes < first.utf8ByteSize ∨
          ∃ before name after m, names = before ++ name :: after ∧
            n.follow above (first :: before) = .ok m ∧ m.isDir = true ∧
              maxNameBytes < name.utf8ByteSize := by
      constructor
      · rintro ⟨before, name, after, m, heq, hm, hdir, hlong⟩
        cases before with
        | nil =>
          cases heq
          rw [follow] at hm
          cases hm
          exact .inl ⟨hdir, hlong⟩
        | cons x before =>
          cases heq
          exact .inr ⟨before, name, after, m, rfl, hm, hdir, hlong⟩
      · rintro (⟨hdir, hlong⟩ | ⟨before, name, after, m, rfl, hm, hdir, hlong⟩)
        · exact ⟨[], first, names, n, rfl, by rw [follow], hdir, hlong⟩
        · exact ⟨first :: before, name, after, m, rfl, hm, hdir, hlong⟩
    rw [hcons]
    cases n with
    | file bytes => simp [follow, isDir]
    | dangling => simp [follow, isDir]
    | dir es =>
      simp only [follow_dir_cons]
      by_cases hfirst : first = ".."
      · subst hfirst
        simp only [if_true, hdots, and_false, false_or]
        cases above with
        | nil => exact ih
        | cons parent further => exact ih
      · simp only [if_neg hfirst]
        by_cases hlong : maxNameBytes < first.utf8ByteSize
        · simp [hlong, isDir]
        · simp only [hlong, and_false, false_or]
          cases entry? (dir es) first with
          | none => simp
          | some child => exact ih

end Node

namespace FileTree

variable {t : FileTree} {p : Path}

/-- There is no answer about the path: it is too long as a whole, or a directory on the way along it
is to be looked through for a name that is too long. -/
inductive Overlong (t : FileTree) (p : Path) : Prop
  | path (plain : p.hasNull = false) (size : pathByteLimit ≤ p.render.utf8ByteSize)
  | name {before after : List String} {name : String} {m : Node} (plain : p.hasNull = false)
      (split : t.names p = before ++ name :: after) (reached : t.top.follow [] before = .ok m)
      (dir : m.isDir = true) (size : Node.maxNameBytes < name.utf8ByteSize)

theorem locate_eq_nameTooLong_iff {q : Path} :
    t.locate p = .error (.nameTooLong q) ↔ q = p ∧ t.Overlong p := by
  rw [locate, follow]
  by_cases hnull : p.hasNull = true
  · rw [if_pos hnull]
    constructor
    · rintro ⟨⟩
    · rintro ⟨-, ⟨plain, -⟩ | ⟨plain, -, -, -, -⟩⟩ <;> simp [hnull] at plain
  have hplain : p.hasNull = false := by simpa using hnull
  rw [if_neg hnull]
  by_cases hsize : pathByteLimit ≤ p.render.utf8ByteSize
  · rw [if_pos hsize]
    constructor
    · rintro ⟨⟩
      exact ⟨rfl, .path hplain hsize⟩
    · rintro ⟨rfl, -⟩
      rfl
  rw [if_neg hsize]
  have hname : t.Overlong p ↔ t.top.follow [] (t.names p) = .error .nameTooLong := by
    rw [Node.follow_eq_nameTooLong_iff]
    constructor
    · rintro (⟨-, size⟩ | ⟨-, split, reached, dir, size⟩)
      · exact absurd size hsize
      · exact ⟨_, _, _, _, split, reached, dir, size⟩
    · rintro ⟨before, name, after, m, split, reached, dir, size⟩
      exact .name hplain split reached dir size
  rw [hname]
  cases t.top.follow [] (t.names p) with
  | ok n => simp
  | error missing =>
    cases missing with
    | notFound => simp [Node.Missing.at]
    | notDirectory => simp [Node.Missing.at]
    | nameTooLong => simp [Node.Missing.at, eq_comm]

/-- There is an answer about every other path. -/
theorem find?_eq_error_iff {e : TreeError} :
    t.find? p = .error e ↔ e = .nameTooLong p ∧ t.Overlong p := by
  have hlocate := @locate_eq_nameTooLong_iff t p
  rw [find?]
  cases h : t.locate p with
  | ok n =>
    simp only [h, reduceCtorEq, false_iff] at hlocate ⊢
    exact fun hlong => hlocate ⟨rfl, hlong.2⟩
  | error e' =>
    rw [h] at hlocate
    cases e' with
    | nameTooLong q =>
      obtain ⟨rfl, hlong⟩ := hlocate.1 rfl
      simp [hlong, eq_comm]
    | _ =>
      simp only [Except.error.injEq, reduceCtorEq, false_iff] at hlocate ⊢
      exact fun hlong => hlocate ⟨rfl, hlong.2⟩

theorem isDir_eq_error_iff {e : TreeError} :
    t.isDir p = .error e ↔ e = .nameTooLong p ∧ t.Overlong p := by
  rw [← find?_eq_error_iff, isDir]
  cases t.find? p <;> simp [Except.map]

end FileTree

/-! ## Home directories -/

/-- A path starts in the home directory of the user whose name follows a tilde. -/
theorem Path.homeOwner?_eq_some_iff {p : Path} {user : String} :
    p.homeOwner? = some user ↔ ∃ rest, p = ⟨.relative, ("~" ++ user) :: rest⟩ := by
  obtain ⟨anchor, names⟩ := p
  constructor
  · intro h
    rw [homeOwner?] at h
    split at h
    · rename_i owner hanchor hfirst
      obtain ⟨name, hname, htext⟩ := Option.map_eq_some_iff.1 hfirst
      obtain ⟨rest, rfl⟩ := List.head?_eq_some_iff.1 hname
      refine ⟨rest, ?_⟩
      cases hanchor
      cases h
      exact congrArg (Path.mk .relative <| · :: rest) (String.toList_inj.1 (by simp [htext]))
    · cases h
  · rintro ⟨rest, heq⟩
    cases heq
    have htext : ("~" ++ user).toList = '~' :: user.toList := by
      rw [String.toList_append]
      rfl
    simp only [homeOwner?, List.head?_cons, Option.map_some, htext, String.ofList_toList]

namespace FileTree

/-- What a path means that a user gave: it is seen from the home directory of the user whose name
follows a tilde at its start, and otherwise it is taken as it is. -/
inductive Means (t : FileTree) : Path → Path → Prop
  | itself {p : Path} (away : ∀ user rest, p ≠ ⟨.relative, ("~" ++ user) :: rest⟩) : Means t p p
  | home {user text : String} {rest : List String} (plain : '\x00' ∉ user.toList)
      (known : t.cwd.homes user = some text) (settled : text.toList.head? ≠ some '~') :
      Means t ⟨.relative, ("~" ++ user) :: rest⟩ ((Path.ofHome text).join ⟨.relative, rest⟩)

theorem Means.of_anchor {t : FileTree} {p : Path} (h : p.anchor ≠ .relative) : t.Means p p :=
  .itself fun _ _ heq => h (congrArg Path.anchor heq)

/-- Why a path that a user gave means nothing: it starts in a home directory that is not known. -/
inductive Homeless (t : FileTree) : Path → TreeError → Prop
  | nullCharacter {user : String} {rest : List String} (null : '\x00' ∈ user.toList) :
      Homeless t ⟨.relative, ("~" ++ user) :: rest⟩ .nullCharacter
  | noHome {user : String} {rest : List String} (plain : '\x00' ∉ user.toList)
      (unknown : ∀ text, t.cwd.homes user = some text → text.toList.head? = some '~') :
      Homeless t ⟨.relative, ("~" ++ user) :: rest⟩ .noHome

theorem Means.expandHome_eq {t : FileTree} {p q : Path} (h : t.Means p q) :
    t.expandHome p = .ok q := by
  cases h with
  | itself away =>
    have howner : p.homeOwner? = none := by
      refine Option.eq_none_iff_forall_ne_some.2 fun user howner => ?_
      obtain ⟨rest, heq⟩ := Path.homeOwner?_eq_some_iff.1 howner
      exact away user rest heq
    rw [expandHome, howner]
  | home plain known settled =>
    rw [expandHome, Path.homeOwner?_eq_some_iff.2 ⟨_, rfl⟩]
    dsimp only
    rw [if_neg (by simpa using plain), known, Option.filter_some, if_pos (by simpa using settled)]
    rfl

theorem Homeless.expandHome_eq {t : FileTree} {p : Path} {e : TreeError} (h : t.Homeless p e) :
    t.expandHome p = .error e := by
  cases h with
  | nullCharacter null =>
    rw [expandHome, Path.homeOwner?_eq_some_iff.2 ⟨_, rfl⟩]
    exact if_pos (by simpa using null)
  | @noHome user _ plain unknown =>
    have hnone : (t.cwd.homes user).filter (·.toList.head? ≠ some '~') = none := by
      simpa [Option.filter_eq_none_iff] using unknown
    rw [expandHome, Path.homeOwner?_eq_some_iff.2 ⟨_, rfl⟩]
    dsimp only
    rw [if_neg (by simpa using plain), hnone]

/-- A path that a user gave means something, unless it starts in an unknown home directory. -/
theorem means_or_homeless (t : FileTree) (p : Path) :
    (∃ q, t.Means p q) ∨ ∃ e, t.Homeless p e := by
  by_cases hhome : ∃ user rest, p = ⟨.relative, ("~" ++ user) :: rest⟩
  · obtain ⟨user, rest, rfl⟩ := hhome
    by_cases hnull : '\x00' ∈ user.toList
    · exact .inr ⟨_, .nullCharacter hnull⟩
    · by_cases hknown : ∃ text, t.cwd.homes user = some text ∧ text.toList.head? ≠ some '~'
      · obtain ⟨text, htext, hsettled⟩ := hknown
        exact .inl ⟨_, .home hnull htext hsettled⟩
      · refine .inr ⟨_, .noHome hnull fun text htext => ?_⟩
        by_contra hsettled
        exact hknown ⟨text, htext, hsettled⟩
  · exact .inl ⟨p, .itself fun user rest heq => hhome ⟨user, rest, heq⟩⟩

end FileTree

namespace Project

/-! ## The root of a search -/

/-- The path that is given names `root`. -/
inductive Names (t : FileTree) (given : String) (root : Path) : Prop
  | intro {path : Path} (means : t.Means (Path.parse given) path) (plain : path.hasNull = false)
      (root_eq : root = Path.resolve t.cwd.toPath path)

/-- The path that is given leads to the directory `root`. -/
structure IsRoot (t : FileTree) (given : String) (root : Path) : Prop where
  named : Names t given root
  dir : ∃ es, t.locate root = .ok (.dir es)

/-- Why the path that is given leads to no directory: nothing is there, a file is there, or it is
not a path that can be asked for. -/
inductive BadRoot (t : FileTree) (given : String) : DiscoveryError → Prop
  | homeless {e : TreeError} (homeless : t.Homeless (Path.parse given) e) :
      BadRoot t given (.inaccessible e)
  | nullCharacter {path : Path} (means : t.Means (Path.parse given) path)
      (null : path.hasNull = true) : BadRoot t given (.inaccessible .nullCharacter)
  | overlong {root : Path} (named : Names t given root) (long : t.Overlong root) :
      BadRoot t given (.inaccessible (.nameTooLong root))
  | missing {root : Path} (named : Names t given root) (short : ¬ t.Overlong root)
      (absent : ∀ n, t.locate root = .ok n → n = .dangling) : BadRoot t given (.notFound given)
  | file {root : Path} {bytes : List UInt8} (named : Names t given root)
      (found : t.locate root = .ok (.file bytes)) : BadRoot t given (.notDirectory given)

variable {t : FileTree} {options : SearchOptions} {given : String} {root d : Path} {n : Node}
  {info : Info} {infos : List Info} {e : DiscoveryError}

/-- What is given names one path. -/
theorem Names.unique {root' : Path} (h : Names t given root) (h' : Names t given root') :
    root = root' := by
  obtain ⟨means, -, rfl⟩ := h
  obtain ⟨means', -, rfl⟩ := h'
  have heq := means.expandHome_eq
  rw [means'.expandHome_eq] at heq
  cases heq
  rfl

/-- What decides about a root that can be named is what is found there. -/
theorem validateRoot_of_names (h : Names t given root) : validateRoot t given =
    match t.find? root with
    | .error e => .error (.inaccessible e)
    | .ok none => .error (.notFound given)
    | .ok (some n) =>
      if n.isDir then .ok root
      else if n.isFile then .error (.notDirectory given) else .error (.notFound given) := by
  obtain @⟨path, means, plain, root_eq⟩ := h
  have hresolve : ask (t.resolve path) = .ok root := by
    rw [FileTree.resolve, plain, root_eq]
    rfl
  rw [validateRoot, means.expandHome_eq]
  show (ask (t.resolve path) >>= _) = _
  rw [hresolve]
  simp only [FileTree.isThere, FileTree.isDir, bind, Except.bind]
  cases t.find? root with
  | error e => rfl
  | ok found =>
    cases found with
    | none => rfl
    | some n => cases n <;> rfl

/-- A path that cannot be asked for is no root. -/
theorem validateRoot_of_not_names (h : ∀ root, ¬ Names t given root) :
    ∃ e, validateRoot t given = .error e ∧ BadRoot t given e := by
  rw [validateRoot]
  rcases t.means_or_homeless (Path.parse given) with ⟨path, hmeans⟩ | ⟨e, hhomeless⟩
  · cases hnull : path.hasNull with
    | true =>
      refine ⟨_, ?_, .nullCharacter hmeans hnull⟩
      rw [hmeans.expandHome_eq]
      show (ask (t.resolve path) >>= _) = _
      rw [FileTree.resolve, hnull]
      rfl
    | false => exact absurd (.intro hmeans hnull rfl) (h _)
  · refine ⟨_, ?_, .homeless hhomeless⟩
    rw [hhomeless.expandHome_eq]
    rfl

/-- What is found at a path that is named. -/
theorem find?_cases (t : FileTree) (root : Path) :
    (t.Overlong root ∧ t.find? root = .error (.nameTooLong root)) ∨
    ¬ t.Overlong root ∧ (t.find? root = .ok none ∧ (∀ n, t.locate root ≠ .ok n) ∨
      ∃ n, t.find? root = .ok (some n) ∧ t.locate root = .ok n) := by
  cases hfind : t.find? root with
  | error e =>
    obtain ⟨rfl, hlong⟩ := FileTree.find?_eq_error_iff.1 hfind
    exact .inl ⟨hlong, rfl⟩
  | ok found =>
    refine .inr ⟨fun hlong => ?_, ?_⟩
    · rw [FileTree.find?_eq_error_iff.2 ⟨rfl, hlong⟩] at hfind
      cases hfind
    · rw [FileTree.find?] at hfind
      split at hfind
      · rename_i n hlocate
        cases hfind
        exact .inr ⟨n, rfl, hlocate⟩
      · cases hfind
      · rename_i hlocate
        cases hfind
        exact .inl ⟨rfl, fun n hn => by simp [hn] at hlocate⟩

/-- The roots of a search are the directories that are given. -/
theorem validateRoot_eq_ok_iff : validateRoot t given = .ok root ↔ IsRoot t given root := by
  by_cases hnamed : ∃ root, Names t given root
  · obtain ⟨named, hnamed⟩ := hnamed
    have hroot : IsRoot t given root ↔ root = named ∧ ∃ es, t.locate named = .ok (.dir es) := by
      constructor
      · rintro ⟨hnamed', hdir⟩
        obtain rfl := hnamed'.unique hnamed
        exact ⟨rfl, hdir⟩
      · rintro ⟨rfl, hdir⟩
        exact ⟨hnamed, hdir⟩
    rw [hroot, validateRoot_of_names hnamed]
    rcases find?_cases t named with ⟨hlong, hfind⟩ | ⟨-, ⟨hfind, hnone⟩ | ⟨n, hfind, hlocate⟩⟩
    · have hlocate := FileTree.locate_eq_nameTooLong_iff.2 ⟨rfl, hlong⟩
      simp [hfind, hlocate]
    · simp [hfind, hnone]
    · cases n <;> simp [hfind, hlocate, Node.isDir, Node.isFile, eq_comm]
  · obtain ⟨e, he, -⟩ := validateRoot_of_not_names fun root h => hnamed ⟨root, h⟩
    rw [he]
    simp only [reduceCtorEq, false_iff]
    exact fun h => hnamed ⟨root, h.named⟩

/-- A path is refused because it is no root of a search. -/
theorem badRoot_of_validateRoot (h : validateRoot t given = .error e) : BadRoot t given e := by
  by_cases hnamed : ∃ root, Names t given root
  · obtain ⟨root, hnamed⟩ := hnamed
    rw [validateRoot_of_names hnamed] at h
    rcases find?_cases t root with ⟨hlong, hfind⟩ | ⟨hshort, ⟨hfind, hnone⟩ | ⟨n, hfind, hlocate⟩⟩
    · rw [hfind] at h
      cases h
      exact .overlong hnamed hlong
    · rw [hfind] at h
      cases h
      exact .missing hnamed hshort fun n hn => absurd hn (hnone n)
    · rw [hfind] at h
      cases n with
      | file bytes =>
        cases h
        exact .file hnamed hlocate
      | dangling =>
        cases h
        refine .missing hnamed hshort fun n hn => ?_
        rw [hlocate] at hn
        exact (Except.ok.inj hn).symm
      | dir es => cases h
  · obtain ⟨e', he', hbad⟩ := validateRoot_of_not_names fun root h => hnamed ⟨root, h⟩
    rw [he'] at h
    cases h
    exact hbad

/-- What is no root of a search is refused. -/
theorem BadRoot.validateRoot_eq (h : BadRoot t given e) : validateRoot t given = .error e := by
  rcases h with homeless | @⟨path, means, null⟩ | @⟨root, named, long⟩ |
    @⟨root, named, short, absent⟩ | @⟨root, bytes, named, found⟩
  · rw [validateRoot, homeless.expandHome_eq]
    rfl
  · rw [validateRoot, means.expandHome_eq]
    show (ask (t.resolve path) >>= _) = _
    rw [FileTree.resolve, null]
    rfl
  · rw [validateRoot_of_names named, FileTree.find?_eq_error_iff.2 ⟨rfl, long⟩]
  · rw [validateRoot_of_names named]
    rcases find?_cases t root with ⟨hlong, -⟩ | ⟨-, ⟨hfind, -⟩ | ⟨n, hfind, hlocate⟩⟩
    · exact absurd hlong short
    · rw [hfind]
    · rw [hfind, absent n hlocate]
      rfl
  · rw [validateRoot_of_names named]
    rcases find?_cases t root with ⟨hlong, -⟩ | ⟨-, ⟨-, hnone⟩ | ⟨n, hfind, hlocate⟩⟩
    · rw [FileTree.locate_eq_nameTooLong_iff.2 ⟨rfl, hlong⟩] at found
      cases found
    · exact absurd found (hnone _)
    · rw [found] at hlocate
      cases hlocate
      rw [hfind]
      rfl

/-- The paths that are no roots of a search. -/
theorem validateRoot_eq_error_iff : validateRoot t given = .error e ↔ BadRoot t given e :=
  ⟨badRoot_of_validateRoot, BadRoot.validateRoot_eq⟩

/-! ## The search for a source directory -/

/-- Looks at some paths for the first one that is taken. A path without an answer ends the
search. -/
inductive Search (t : FileTree) (Takes : Path → Prop) :
    List Path → Except DiscoveryError (Option Path) → Prop
  | none : Search t Takes [] (.ok none)
  | overlong {p : Path} {rest : List Path} (long : t.Overlong p) :
      Search t Takes (p :: rest) (.error (.inaccessible (.nameTooLong p)))
  | here {p : Path} {rest : List Path} (short : ¬ t.Overlong p) (takes : Takes p) :
      Search t Takes (p :: rest) (.ok (some p))
  | further {p : Path} {rest : List Path} {found : Except DiscoveryError (Option Path)}
      (short : ¬ t.Overlong p) (passes : ¬ Takes p) (next : Search t Takes rest found) :
      Search t Takes (p :: rest) found

/-- The names of the files of a directory. There are none where it cannot be found. -/
def filesAt (t : FileTree) (d : Path) : List String :=
  match t.locate d with
  | .ok n => n.namesOf (·.isFile)
  | .error _ => []

/-- Where the source directory of `d` is looked for: the paths in order, and which of them are
taken. With a marker, any directory is; without one, only a directory that holds sources. -/
inductive Candidates (t : FileTree) (d : Path) : List Path → (Path → Prop) → Prop
  | configured {source : String} (first : findMarker (filesAt t d) = some (.foundry, foundryMarker))
      (states : foundrySource t (d.child foundryMarker) = .ok source) :
      Candidates t d [d.join (Path.parse source), d.child "contracts"] (t.isDir · = .ok true)
  | usual {layout : Layout} {marker : String}
      (first : findMarker (filesAt t d) = some (layout, marker)) (other : layout ≠ .foundry) :
      Candidates t d [d.child "contracts"] (t.isDir · = .ok true)
  | unmarked (absent : findMarker (filesAt t d) = none) :
      Candidates t d [d.child "contracts", d.child "src"] (HoldsOwn t [] [])

/-- The configuration file of a project cannot be used: it is not UTF-8, or it states a number with
too many digits. -/
inductive BadConfig (t : FileTree) (d : Path) : DiscoveryError → Prop
  | undecodable {bytes : List UInt8} (read : t.read (d.child foundryMarker) = .ok bytes)
      (decode : Text.Utf8.decode? bytes = none) :
      BadConfig t d (.undecodable (d.child foundryMarker))
  | oversized {bytes : List UInt8} {text : List Char} {x : Number.TooLong}
      (read : t.read (d.child foundryMarker) = .ok bytes)
      (decode : Text.Utf8.decode? bytes = some text)
      (parse : Toml.parse (Text.unifyNewlines text) = .error (.number x)) :
      BadConfig t d (.oversized x)

/-- Why a directory cannot be classified. -/
inductive Fault (t : FileTree) (d : Path) (e : DiscoveryError) : Prop
  | config (first : findMarker (filesAt t d) = some (.foundry, foundryMarker))
      (bad : BadConfig t d e)
  | search {paths : List Path} {Takes : Path → Prop} (candidates : Candidates t d paths Takes)
      (search : Search t Takes paths (.error e))

theorem Search.unique {Takes : Path → Prop} {paths : List Path}
    {found found' : Except DiscoveryError (Option Path)} (h : Search t Takes paths found)
    (h' : Search t Takes paths found') : found = found' := by
  induction h with
  | none =>
    cases h'
    rfl
  | overlong long =>
    cases h' with
    | overlong => rfl
    | here short => exact absurd long short
    | further short => exact absurd long short
  | here short takes =>
    cases h' with
    | overlong long => exact absurd long short
    | here => rfl
    | further _ passes => exact absurd takes passes
  | further short passes next ih =>
    cases h' with
    | overlong long => exact absurd long short
    | here _ takes => exact absurd takes passes
    | further _ _ next' => exact ih next'

/-- What is found is taken. -/
theorem Search.takes {Takes : Path → Prop} {paths : List Path} {p : Path}
    (h : Search t Takes paths (.ok (some p))) : Takes p := by
  generalize hfound : Except.ok (some p) = found at h
  induction h with
  | none => cases hfound
  | overlong long => cases hfound
  | here short takes =>
    cases hfound
    exact takes
  | further short passes next ih => exact ih hfound

theorem ask_isDir_eq_error_iff {p : Path} : ask (t.isDir p) = .error e ↔
    e = .inaccessible (.nameTooLong p) ∧ t.Overlong p := by
  rw [ask, mapError_eq_error_iff]
  constructor
  · rintro ⟨e', he', rfl⟩
    obtain ⟨rfl, hlong⟩ := FileTree.isDir_eq_error_iff.1 he'
    exact ⟨rfl, hlong⟩
  · rintro ⟨rfl, hlong⟩
    exact ⟨_, FileTree.isDir_eq_error_iff.2 ⟨rfl, hlong⟩, rfl⟩

theorem not_overlong_of_ask {p : Path} {b : Bool} (h : ask (t.isDir p) = .ok b) :
    ¬ t.Overlong p := by
  intro hlong
  rw [ask_isDir_eq_error_iff.2 ⟨rfl, hlong⟩] at h
  cases h

/-- The first directory that exists is the one that is found, or else the root. -/
theorem search_firstDir (t : FileTree) (d : Path) (names : List String) : ∃ found,
    Search t (t.isDir · = .ok true) (names.map fun name => d.join (Path.parse name)) found ∧
      firstDir t d names = found.map (·.getD d) := by
  induction names with
  | nil => exact ⟨_, .none, rfl⟩
  | cons name names ih =>
    rw [firstDir, List.map_cons]
    cases hask : ask (t.isDir (d.join (Path.parse name))) with
    | error e =>
      obtain ⟨rfl, hlong⟩ := ask_isDir_eq_error_iff.1 hask
      exact ⟨_, .overlong hlong, rfl⟩
    | ok b =>
      have hshort := not_overlong_of_ask hask
      have hdir := ask_eq_ok_iff.1 hask
      cases b with
      | true => exact ⟨_, .here hshort hdir, rfl⟩
      | false =>
        obtain ⟨found, hfound, heq⟩ := ih
        exact ⟨found, .further hshort (by simp [hdir]) hfound, heq⟩

/-- The first directory that holds sources is the one that is found. -/
theorem search_dirWithSources? (ht : t.top.Proper) (d : Path) (names : List String) :
    Search t (HoldsOwn t [] []) (names.map d.child) (dirWithSources? t d names) := by
  induction names with
  | nil => exact .none
  | cons name names ih =>
    rw [dirWithSources?, List.map_cons]
    cases hask : ask (t.isDir (d.child name)) with
    | error e =>
      obtain ⟨rfl, hlong⟩ := ask_isDir_eq_error_iff.1 hask
      exact .overlong hlong
    | ok b =>
      have hshort := not_overlong_of_ask hask
      have hdir := ask_eq_ok_iff.1 hask
      show Search t _ _ (if (b && containsSources t (d.child name)) = true then _ else _)
      split
      · rename_i hboth
        rw [Bool.and_eq_true] at hboth
        obtain ⟨rfl, hcontains⟩ := hboth
        exact .here hshort ((containsSources_iff ht hdir).1 hcontains)
      · rename_i hnot
        refine .further hshort (fun hholds => hnot ?_) ih
        have htrue := hholds.isDir
        rw [hdir, Except.ok.injEq] at htrue
        subst htrue
        rw [Bool.true_and]
        exact (containsSources_iff ht hdir).2 hholds

/-- The configuration file fails the classification exactly if it cannot be used. -/
theorem foundrySource_eq_error_iff :
    foundrySource t (d.child foundryMarker) = .error e ↔ BadConfig t d e := by
  constructor
  · intro h
    obtain ⟨bytes, hread, ⟨hdecode, rfl⟩ | ⟨text, x, hdecode, hparse, rfl⟩⟩ :=
      foundrySource_eq_error h
    · exact .undecodable hread hdecode
    · exact .oversized hread hdecode hparse
  · rintro (⟨read, decode⟩ | ⟨read, decode, parse⟩)
    · simp only [foundrySource, read, decode]
    · simp only [foundrySource, read, decode, parse]

/-! ## Classification -/

theorem fst_eq_foundry_iff {marker : Layout × String} (h : marker ∈ markers) :
    marker.1 = .foundry ↔ marker.2 = foundryMarker := by
  revert marker
  decide

theorem Candidates.unique {paths paths' : List Path} {Takes Takes' : Path → Prop}
    (h : Candidates t d paths Takes) (h' : Candidates t d paths' Takes') :
    paths = paths' ∧ Takes = Takes' := by
  cases h with
  | configured first states =>
    cases h' with
    | configured first' states' =>
      cases states.symm.trans states'
      exact ⟨rfl, rfl⟩
    | usual first' other =>
      cases first.symm.trans first'
      exact absurd rfl other
    | unmarked absent => cases first.symm.trans absent
  | usual first other =>
    cases h' with
    | configured first' states =>
      cases first.symm.trans first'
      exact absurd rfl other
    | usual first' other' => exact ⟨rfl, rfl⟩
    | unmarked absent => cases first.symm.trans absent
  | unmarked absent =>
    cases h' with
    | configured first' states => cases absent.symm.trans first'
    | usual first' other => cases absent.symm.trans first'
    | unmarked absent' => exact ⟨rfl, rfl⟩

/-- Nothing is looked for if the configuration file cannot be used. -/
theorem Candidates.not_badConfig {paths : List Path} {Takes : Path → Prop}
    (h : Candidates t d paths Takes)
    (hfirst : findMarker (filesAt t d) = some (.foundry, foundryMarker)) : ¬ BadConfig t d e := by
  intro hbad
  cases h with
  | configured first states =>
    rw [foundrySource_eq_error_iff.2 hbad] at states
    cases states
  | usual first other =>
    cases hfirst.symm.trans first
    exact absurd rfl other
  | unmarked absent => cases hfirst.symm.trans absent

theorem classifyDir_eq (t : FileTree) (d : Path) :
    classifyDir t d = match findMarker (filesAt t d) with
      | some (.foundry, marker) => do
        let source ← foundrySource t (d.child marker)
        return ⟨.foundry, d, ← firstDir t d [source, "contracts"], some marker, []⟩
      | some (layout, marker) => do
        return ⟨layout, d, ← firstDir t d ["contracts"], some marker, []⟩
      | none => do
        match ← dirWithSources? t d ["contracts", "src"] with
        | some dir => return ⟨.plain, d, dir, none, []⟩
        | none =>
          let layout := if (filesAt t d).any isSourceName then .plain else .unknown
          return ⟨layout, d, d, none, []⟩ := rfl

/-- Where the configuration can be used, a directory is classified as soon as its source directory
has been looked for. -/
theorem exists_search_of_classifyDir (ht : t.top.Proper) (d : Path) :
    (findMarker (filesAt t d) = some (.foundry, foundryMarker) ∧
      ∃ e, BadConfig t d e ∧ classifyDir t d = .error e) ∨
    ∃ paths Takes found, Candidates t d paths Takes ∧ Search t Takes paths found ∧
      (classifyDir t d).map (fun info => (info.root, info.sourceRoot)) =
        found.map fun dir => (d, dir.getD d) := by
  have hcontracts : d.join (Path.parse "contracts") = d.child "contracts" := join_parse_contracts d
  rw [classifyDir_eq]
  cases hmarker : findMarker (filesAt t d) with
  | none =>
    obtain hsearch := search_dirWithSources? ht d ["contracts", "src"]
    refine .inr ⟨_, _, _, .unmarked hmarker, hsearch, ?_⟩
    cases dirWithSources? t d ["contracts", "src"] with
    | error e => rfl
    | ok found => cases found <;> rfl
  | some marker =>
    obtain ⟨layout, name⟩ := marker
    have hfirst := fst_eq_foundry_iff (mem_of_findMarker hmarker).1
    by_cases hlayout : layout = .foundry
    · subst hlayout
      obtain rfl : name = foundryMarker := hfirst.1 rfl
      dsimp only
      cases hsource : foundrySource t (d.child foundryMarker) with
      | error e => exact .inl ⟨rfl, e, foundrySource_eq_error_iff.1 hsource, rfl⟩
      | ok source =>
        obtain ⟨found, hsearch, heq⟩ := search_firstDir t d [source, "contracts"]
        simp only [List.map_cons, List.map_nil, hcontracts] at hsearch
        refine .inr ⟨_, _, found, .configured hmarker hsource, hsearch, ?_⟩
        show Except.map _ (firstDir t d [source, "contracts"] >>= _) = _
        rw [heq]
        cases found <;> rfl
    · obtain ⟨found, hsearch, heq⟩ := search_firstDir t d ["contracts"]
      simp only [List.map_cons, List.map_nil, hcontracts] at hsearch
      refine .inr ⟨_, _, found, .usual hmarker hlayout, hsearch, ?_⟩
      cases layout with
      | foundry => exact absurd rfl hlayout
      | _ =>
        rw [heq]
        cases found <;> rfl

/-- The directories that cannot be classified. -/
theorem classifyDir_eq_error_iff (ht : t.top.Proper) :
    classifyDir t d = .error e ↔ Fault t d e := by
  rcases exists_search_of_classifyDir ht d with
    ⟨hfirst, e', hbad, hclassify⟩ | ⟨paths, Takes, found, hcandidates, hsearch, hclassify⟩
  · rw [hclassify, Except.error.injEq]
    constructor
    · rintro rfl
      exact .config hfirst hbad
    · rintro (⟨-, hbad'⟩ | ⟨hcandidates, -⟩)
      · have := (foundrySource_eq_error_iff.2 hbad).symm.trans (foundrySource_eq_error_iff.2 hbad')
        exact Except.error.inj this
      · exact absurd hbad (hcandidates.not_badConfig hfirst)
  · have herror : classifyDir t d = .error e ↔ found = .error e := by
      cases hinfo : classifyDir t d <;> cases found <;> simp_all [Except.map]
    rw [herror]
    constructor
    · rintro rfl
      exact .search hcandidates hsearch
    · rintro (⟨hfirst, hbad⟩ | ⟨hcandidates', hsearch'⟩)
      · exact absurd hbad (hcandidates.not_badConfig hfirst)
      · obtain ⟨rfl, rfl⟩ := hcandidates.unique hcandidates'
        exact hsearch.unique hsearch'

/-- The source directory of a directory that is classified exists. -/
theorem isDir_sourceRoot (ht : t.top.Proper) (hd : t.isDir d = .ok true)
    (h : classifyDir t d = .ok info) : t.isDir info.sourceRoot = .ok true := by
  rcases exists_search_of_classifyDir ht d with
    ⟨-, e, -, hclassify⟩ | ⟨paths, Takes, found, hcandidates, hsearch, hclassify⟩
  · rw [h] at hclassify
    cases hclassify
  · rw [h] at hclassify
    obtain ⟨dir, rfl, heq⟩ := map_eq_ok_iff.1 hclassify.symm
    have hsource : dir.getD d = info.sourceRoot := congrArg Prod.snd heq
    rw [← hsource]
    cases dir with
    | none => exact hd
    | some p =>
      have htakes := hsearch.takes
      cases hcandidates with
      | configured => exact htakes
      | usual => exact htakes
      | unmarked => exact HoldsOwn.isDir htakes

/-! ## The search for projects -/

/-- The directories that a search classifies, in order: its root, and those with a marker. -/
def searched (t : FileTree) (options : SearchOptions) (root : Path) : List Path :=
  if root ∈ markedDirs t options root then markedDirs t options root
  else root :: markedDirs t options root

/-- The first of some directories that cannot be classified. -/
inductive FirstFault (t : FileTree) (e : DiscoveryError) : List Path → Prop
  | here {d : Path} {rest : List Path} (fault : Fault t d e) : FirstFault t e (d :: rest)
  | further {d : Path} {rest : List Path} {info : Info} (classified : classifyDir t d = .ok info)
      (next : FirstFault t e rest) : FirstFault t e (d :: rest)

/-- A classification of one directory after the other fails with the first that cannot be
classified. -/
theorem mapM_classifyDir_eq_error_iff (ht : t.top.Proper) (complete : Path → Info → Info)
    {dirs : List Path} :
    (dirs.mapM fun path => do return complete path (← classifyDir t path)) = .error e ↔
      FirstFault t e dirs := by
  induction dirs with
  | nil =>
    rw [List.mapM_nil]
    constructor
    · rintro ⟨⟩
    · rintro ⟨⟩
  | cons d dirs ih =>
    rw [List.mapM_cons, bind_eq_error_iff]
    cases hinfo : classifyDir t d with
    | error e' =>
      have hfault := (classifyDir_eq_error_iff ht).1 hinfo
      constructor
      · rintro (h | ⟨-, ⟨⟩, -⟩)
        cases h
        exact .here hfault
      · rintro (fault | classified)
        · cases hinfo.symm.trans ((classifyDir_eq_error_iff ht).2 fault)
          exact .inl rfl
        · cases hinfo.symm.trans classified
    | ok info =>
      constructor
      · rintro (h | ⟨_, _, h⟩)
        · cases h
        · rcases bind_eq_error_iff.1 h with hrest | ⟨_, _, h⟩
          · exact .further hinfo (ih.1 hrest)
          · cases h
      · rintro (fault | ⟨-, next⟩)
        · cases hinfo.symm.trans ((classifyDir_eq_error_iff ht).2 fault)
        · exact .inr ⟨_, rfl, bind_eq_error_iff.2 (.inl (ih.2 next))⟩

/-- A search fails with the first of its directories that cannot be classified. -/
theorem projectsOf_eq_error_iff (ht : t.top.Proper) (hroot : t.isDir root = .ok true) :
    projectsOf t options root (markedDirs t options root) = .error e ↔
      FirstFault t e (searched t options root) := by
  have hothers : ∀ own : List Info, (do
      let others ← (markedDirs t options root).mapM fun path => do
        return { ← classifyDir t path with nested := nestedUnder path (markedDirs t options root) }
      return own ++ others) = Except.error e ↔ FirstFault t e (markedDirs t options root) := by
    intro own
    rw [bind_eq_error_iff, ← mapM_classifyDir_eq_error_iff ht fun path info =>
      { info with nested := nestedUnder path (markedDirs t options root) }]
    constructor
    · rintro (h | ⟨-, -, ⟨⟩⟩)
      exact h
    · exact .inl
  rw [projectsOf, searched]
  by_cases hmarked : root ∈ markedDirs t options root
  · rw [if_pos hmarked, if_pos hmarked]
    exact hothers []
  · rw [if_neg hmarked, if_neg hmarked]
    cases hplain : classifyDir t root with
    | error e' =>
      constructor
      · rintro ⟨⟩
        exact .here ((classifyDir_eq_error_iff ht).1 hplain)
      · rintro (fault | classified)
        · cases hplain.symm.trans ((classifyDir_eq_error_iff ht).2 fault)
          rfl
        · cases hplain.symm.trans classified
    | ok plain =>
      have hfirst : FirstFault t e (root :: markedDirs t options root) ↔
          FirstFault t e (markedDirs t options root) := by
        constructor
        · rintro (fault | ⟨-, next⟩)
          · cases hplain.symm.trans ((classifyDir_eq_error_iff ht).2 fault)
          · exact next
        · exact .further hplain
      show (if nestedUnder root (markedDirs t options root) = [] then _ else _) = _ ↔ _
      split
      · exact (hothers _).trans hfirst.symm
      · -- the files of a root that can be classified are listed
        have hsource := isDir_sourceRoot ht hroot hplain
        obtain ⟨files, hfiles⟩ := @exists_sourceFiles t { plain with
          nested := nestedUnder root (markedDirs t options root) } options.excludeDirs true hsource
        rw [hfiles]
        exact (hothers _).trans hfirst.symm

/-- What a search classifies can be found. -/
theorem locate_of_searched (ht : t.top.Proper) (hnull : t.top.NullFree)
    (hroot : validateRoot t given = .ok root) (hd : d = root ∨ d ∈ markedDirs t options root)
    (h : classifyDir t d = .ok info) : ∃ n, t.locate d = .ok n ∧ n.isDir = true := by
  obtain ⟨n, hlocate, hn⟩ := isDir_of_validateRoot hroot
  rcases hd with rfl | hd
  · exact ⟨n, hlocate, hn⟩
  · obtain ⟨hanchor, hdots⟩ := validateRoot_spec hroot
    obtain ⟨names, m, rfl, hvisited, -⟩ :=
      (mem_markedDirs_iff_isVisited ht hanchor hdots hlocate).1 hd
    exact ⟨m, locate_of_classifyDir (P := root.below names) hnull hanchor
      (ht.of_at? hvisited.at_end).1 hvisited.at_end h, hvisited.isDir⟩

/-- The marker of Foundry projects comes before all others. -/
theorem findMarker_of_foundryMarker {names : List String} (h : foundryMarker ∈ names) :
    findMarker names = some (.foundry, foundryMarker) := by
  rw [findMarker, markers, List.find?_cons_of_pos]
  exact decide_eq_true h

/-- A classified directory has a source directory that exists, and is taken for a Foundry project
exactly if it holds the file that configures one. -/
theorem classified_spec (ht : t.top.Proper) (hlocate : t.locate d = .ok n) (hn : n.isDir = true)
    (h : classifyDir t d = .ok info) : t.isDir info.sourceRoot = .ok true ∧
      (info.layout = .foundry ↔ foundryMarker ∈ filesAt t info.root) := by
  refine ⟨isDir_sourceRoot ht (isDir_eq_ok_true.2 ⟨n, hlocate, hn⟩) h, ?_⟩
  have hfiles : filesAt t info.root = n.namesOf (·.isFile) := by
    rw [(classifyDir_spec h).1, filesAt, hlocate]
  rw [hfiles]
  cases goesByFiles_of_classifyDir hlocate h with
  | marked marker first marker_eq layout_eq =>
    obtain ⟨hmem, hname⟩ := mem_of_findMarker first
    rw [layout_eq]
    constructor
    · intro hfoundry
      exact (fst_eq_foundry_iff hmem).1 hfoundry ▸ hname
    · intro hfoundry
      rw [findMarker_of_foundryMarker hfoundry] at first
      cases first
      rfl
  | unmarked absent marker_eq layout =>
    refine iff_of_false ?_ fun hfoundry => ?_
    · intro hlayout
      rw [hlayout] at layout
      revert layout
      decide
    · rw [findMarker_of_foundryMarker hfoundry] at absent
      cases absent

/-- The search for marked directories fails exactly if the path that it is given leads to no
directory. A classification fails exactly if it does not, or if the directory cannot be classified.
A search for projects fails exactly if it does not, or with the first of its directories that cannot
be classified. A directory cannot be classified if the file that configures it is not UTF-8 or
states a number with too many digits, whatever else the file says, or if its source directory is
looked for at a path that is too long. All projects that a search gives have a source directory that
exists. -/
theorem search_fails_iff (ht : t.top.Proper) (hnull : t.top.NullFree) (options : SearchOptions)
    (given : String) :
    (∀ e, findRoots t options given = .error e ↔ BadRoot t given e) ∧
    (∀ e, classify t given = .error e ↔
      BadRoot t given e ∨ ∃ root, IsRoot t given root ∧ Fault t root e) ∧
    (∀ e, discover t options given = .error e ↔
      BadRoot t given e ∨
        ∃ root, IsRoot t given root ∧ FirstFault t e (searched t options root)) ∧
    ∀ info, (classify t given = .ok info ∨
        ∃ infos, discover t options given = .ok infos ∧ info ∈ infos) →
      t.isDir info.sourceRoot = .ok true ∧
        (info.layout = .foundry ↔ foundryMarker ∈ filesAt t info.root) := by
  have hafter : ∀ {α : Type} (next : Path → Except DiscoveryError α) (Fails : Path → Prop)
      (e : DiscoveryError), (∀ root, IsRoot t given root → (next root = .error e ↔ Fails root)) →
      ((validateRoot t given >>= next) = .error e ↔
        BadRoot t given e ∨ ∃ root, IsRoot t given root ∧ Fails root) := by
    intro α next Fails e hnext
    rw [bind_eq_error_iff, validateRoot_eq_error_iff]
    refine or_congr_right (exists_congr fun root => ?_)
    rw [validateRoot_eq_ok_iff]
    exact and_congr_right (hnext root)
  refine ⟨fun e => ?_, fun e => ?_, fun e => ?_, fun info hinfo => ?_⟩
  · rw [findRoots, hafter _ (fun _ => False) e fun root _ => by simp [pure, Except.pure]]
    simp only [and_false, exists_false, or_false]
  · exact hafter _ _ e fun root _ => classifyDir_eq_error_iff ht
  · refine hafter _ _ e fun root hroot => projectsOf_eq_error_iff ht ?_
    obtain ⟨es, hes⟩ := hroot.dir
    exact isDir_eq_ok_true.2 ⟨_, hes, rfl⟩
  · rcases hinfo with hclassify | ⟨infos, hdiscover, hmem⟩
    · obtain ⟨root, hroot, hclassify⟩ := bind_eq_ok_iff.1 hclassify
      obtain ⟨n, hlocate, hn⟩ := isDir_of_validateRoot hroot
      exact classified_spec ht hlocate hn hclassify
    · obtain ⟨root, hroot, hprojects⟩ := bind_eq_ok_iff.1 hdiscover
      have hfound := found_of_projectsOf hprojects info hmem
      obtain ⟨plain, hplain, heq⟩ := hfound.classified
      obtain ⟨n, hlocate, hn⟩ := locate_of_searched ht hnull hroot hfound.member hplain
      have hspec := classified_spec ht hlocate hn hplain
      -- the nested projects of an entry play no part
      rw [heq]
      exact hspec

/-! ## A configuration that is no text -/

/-- Two Foundry projects, the second of which is configured by a byte that is no text. -/
def badSecond : FileTree where
  top := .dir [("a", .dir [("foundry.toml", .file []), ("src", .dir [])]),
    ("b", .dir [("foundry.toml", .file [0xff]), ("src", .dir [])])]
  cwd := Path.mk .root []

theorem proper_badSecond : badSecond.top.Proper ∧ badSecond.top.NullFree := by
  constructor
  · have hproject : ∀ bytes,
        (Node.dir [("foundry.toml", .file bytes), ("src", .dir [])]).Proper := by
      intro bytes
      have hempty : (Node.dir []).Proper := .dir (by simp) (by simp) (by simp)
      exact .dir (by simp) (by simp) (by simp [Node.Proper.file, hempty])
    exact .dir (by decide) (by simp) (by simp [hproject])
  · have hproject : ∀ bytes,
        (Node.dir [("foundry.toml", .file bytes), ("src", .dir [])]).NullFree := by
      intro bytes
      have hempty : (Node.dir []).NullFree := .dir (by simp) (by simp)
      exact .dir (by simp) (by simp [Node.NullFree.file, hempty])
    exact .dir (by decide) (by simp [hproject])

/-- The second project ends a search that finds both; the first one can be classified alone. -/
theorem search_fails_badSecond :
    discover badSecond ⟨[], 8⟩ "/" = .error (.undecodable ⟨.root, ["b", "foundry.toml"]⟩) ∧
    ∃ info, classify badSecond "/a" = .ok info ∧ info.layout = .foundry ∧
      badSecond.isDir info.sourceRoot = .ok true := by
  obtain ⟨hproper, hnull⟩ := proper_badSecond
  constructor
  · obtain ⟨-, -, hfails, -⟩ := search_fails_iff hproper hnull ⟨[], 8⟩ "/"
    have hsearched : searched badSecond ⟨[], 8⟩ ⟨.root, []⟩ =
        [⟨.root, []⟩, ⟨.root, ["a"]⟩, ⟨.root, ["b"]⟩] := by
      have hmarked : markedDirs badSecond ⟨[], 8⟩ ⟨.root, []⟩ =
          [⟨.root, ["a"]⟩, ⟨.root, ["b"]⟩] := by
        have hlocate : badSecond.locate ⟨.root, []⟩ = .ok badSecond.top := rfl
        rw [markedDirs, visited, hlocate, badSecond]
        -- the entries are listed by name, so that nothing has to be sorted
        simp (disch := decide +kernel) only [Node.walk_dir_of_pairwise, List.flatMap_cons,
          List.flatMap_nil]
        decide +kernel
      rw [searched, hmarked]
      rfl
    have hroot : Names badSecond "/" ⟨.root, []⟩ :=
      .intro (.of_anchor (by decide +kernel)) (by decide +kernel) (by decide +kernel)
    refine (hfails _).2 (.inr ⟨⟨.root, []⟩, ⟨hroot, _, rfl⟩, ?_⟩)
    rw [hsearched]
    have hroot : classifyDir badSecond ⟨.root, []⟩ =
        .ok ⟨.unknown, ⟨.root, []⟩, ⟨.root, []⟩, none, []⟩ := eq_ok_of_toOption (by decide +kernel)
    have hfirst : classifyDir badSecond ⟨.root, ["a"]⟩ = .ok ⟨.foundry, ⟨.root, ["a"]⟩,
        ⟨.root, ["a", "src"]⟩, some "foundry.toml", []⟩ := eq_ok_of_toOption (by decide +kernel)
    exact .further hroot (.further hfirst (.here (.config (by decide +kernel)
      (.undecodable rfl (by decide +kernel)))))
  · obtain ⟨-, -, -, hsource⟩ := search_fails_iff hproper hnull ⟨[], 8⟩ "/a"
    have hclassify : classify badSecond "/a" = .ok ⟨.foundry, ⟨.root, ["a"]⟩,
        ⟨.root, ["a", "src"]⟩, some "foundry.toml", []⟩ := eq_ok_of_toOption (by decide +kernel)
    exact ⟨_, hclassify, rfl, (hsource _ (.inl hclassify)).1⟩

end Project

end AbiIndex
