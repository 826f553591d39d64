import AbiIndex.Proofs.CacheTransparency

/-!
# A store that fits a tree

The store finds parsed files by the text of their path. In a tree whose names are proper names of
files, two paths with the same text are the same path, so that a tree and a store that was filled
from it agree, whatever the fingerprints are good for.

## Key results

- `Path.render_injective`: a path can be told from its text
- `Faithful.trusted`: what the store has for a file of the tree stays what the file declares
- `fresh_eq_direct_of_plain`: what a new session reports
-/

namespace AbiIndex

/-! ## Names and paths -/

/-- Whether a text can be the name of an entry of a directory. -/
def isPlainName (name : String) : Bool :=
  name ≠ "" && name ≠ "." && '/' ∉ name.toList

/-- All entries have names that can stand in a path. -/
inductive Node.Plain : Node → Prop
  | file (bytes : List UInt8) : Plain (file bytes)
  | dangling : Plain dangling
  | dir {es : List (String × Node)} (names : ∀ e ∈ es, isPlainName e.1)
      (below : ∀ e ∈ es, Plain e.2) : Plain (dir es)

/-- The names of a path that can be followed are plain. -/
theorem Node.Plain.of_follow {n m : Node} {above : List Node} {names : List String}
    (hn : n.Plain) (habove : ∀ a ∈ above, a.Plain) (h : n.follow above names = .ok m) :
    ∀ name ∈ names, isPlainName name := by
  induction names generalizing n above with
  | nil => simp
  | cons name rest ih =>
    cases n with
    | file bytes => cases h
    | dangling => cases h
    | dir es =>
      simp only [follow] at h
      split at h
      · rename_i hdots
        have hname : isPlainName name := by
          rw [hdots]
          decide
        cases above with
        | nil => exact List.forall_mem_cons.2 ⟨hname, ih hn habove h⟩
        | cons parent further =>
          obtain ⟨hparent, hfurther⟩ := List.forall_mem_cons.1 habove
          exact List.forall_mem_cons.2 ⟨hname, ih hparent hfurther h⟩
      split at h
      · cases h
      split at h
      · cases h
      · rename_i child hchild
        obtain ⟨es', hes, hmem⟩ := entry?_eq_some hchild
        cases hes
        cases hn with
        | dir hnames hbelow =>
          refine List.forall_mem_cons.2 ⟨hnames _ hmem, ih (hbelow _ hmem) ?_ h⟩
          exact List.forall_mem_cons.2 ⟨.dir hnames hbelow, habove⟩

namespace Path

/-- The text of further names behind a first one. -/
def furtherText : List String → List Char
  | [] => []
  | name :: rest => '/' :: (name.toList ++ furtherText rest)

theorem toList_intercalate_cons (name : String) (rest : List String) :
    ("/".intercalate (name :: rest)).toList = name.toList ++ furtherText rest := by
  induction rest generalizing name with
  | nil => simp [furtherText]
  | cons next rest ih =>
    rw [String.intercalate_cons_of_ne_nil (by simp), String.toList_append, String.toList_append, ih,
      List.append_assoc]
    rfl

/-- A plain name ends where the next slash stands. -/
theorem append_furtherText_inj {name name' : String} {rest rest' : List String}
    (hname : '/' ∉ name.toList) (hname' : '/' ∉ name'.toList)
    (h : name.toList ++ furtherText rest = name'.toList ++ furtherText rest') :
    name = name' ∧ furtherText rest = furtherText rest' := by
  have htake {n : String} {r : List String} (hn : '/' ∉ n.toList) :
      (n.toList ++ furtherText r).takeWhile (· ≠ '/') = n.toList := by
    have hall : ∀ c ∈ n.toList, decide (c ≠ '/') = true := by
      intro c hc
      exact decide_eq_true fun heq => hn (heq ▸ hc)
    rw [List.takeWhile_append_of_pos hall]
    cases r <;> simp [furtherText]
  have hsame : name.toList = name'.toList := by
    rw [← htake hname, h, htake hname']
  rw [hsame, List.append_cancel_left_eq] at h
  exact ⟨String.toList_inj.1 hsame, h⟩

theorem furtherText_inj {names names' : List String} (h : ∀ n ∈ names, '/' ∉ n.toList)
    (h' : ∀ n ∈ names', '/' ∉ n.toList) (heq : furtherText names = furtherText names') :
    names = names' := by
  induction names generalizing names' with
  | nil => cases names' with
    | nil => rfl
    | cons name' rest' => cases heq
  | cons name rest ih => cases names' with
    | nil => cases heq
    | cons name' rest' =>
      rw [List.forall_mem_cons] at h h'
      obtain ⟨rfl, hrest⟩ := append_furtherText_inj h.1 h'.1 (List.cons.inj heq).2
      rw [ih h.2 h'.2 hrest]

/-- The text of a path behind the slashes of its anchor. -/
def bodyText (p : Path) : List Char :=
  match p.names with
  | [] => if p.anchor = .relative then ['.'] else []
  | name :: rest => name.toList ++ furtherText rest

theorem toList_render (p : Path) :
    p.render.toList = (Anchor.text p.anchor).toList ++ p.bodyText := by
  obtain ⟨anchor, names⟩ := p
  cases names with
  | nil => cases anchor <;> rfl
  | cons name rest =>
    rw [render, if_neg (by simp), String.toList_append, toList_intercalate_cons]
    rfl

/-- Every name of the path is plain. -/
def IsPlain (p : Path) : Prop := ∀ name ∈ p.names, isPlainName name

theorem bodyText_head? {p : Path} (hp : p.IsPlain) : p.bodyText.head? ≠ some '/' := by
  obtain ⟨anchor, names⟩ := p
  cases names with
  | nil => cases anchor <;> simp [bodyText]
  | cons name rest =>
    have hname := hp name List.mem_cons_self
    simp only [isPlainName, Bool.and_eq_true, decide_eq_true_eq] at hname
    have hne : name.toList ≠ [] := fun h => hname.1.1 (String.toList_inj.1 h)
    simp only [bodyText, List.head?_append_of_ne_nil _ hne]
    exact fun h => hname.2 (List.mem_of_mem_head? h)

/-- The anchor is as many slashes as stand in front. -/
theorem anchor_eq_of_render {p q : Path} (hp : p.IsPlain) (hq : q.IsPlain)
    (h : p.render = q.render) : p.anchor = q.anchor ∧ p.bodyText = q.bodyText := by
  have hslashes {r : Path} (hr : r.IsPlain) :
      r.render.toList.takeWhile (· = '/') = (Anchor.text r.anchor).toList := by
    have hall : ∀ c ∈ (Anchor.text r.anchor).toList, decide (c = '/') = true := by
      cases r.anchor <;> simp [Anchor.text]
    have hbody : r.bodyText.takeWhile (· = '/') = [] := by
      have hhead := bodyText_head? hr
      cases hbody : r.bodyText with
      | nil => rfl
      | cons c cs =>
        rw [hbody] at hhead
        rw [List.takeWhile_cons, if_neg (by simpa using hhead)]
    rw [toList_render, List.takeWhile_append_of_pos hall, hbody, List.append_nil]
  have hanchor : p.anchor = q.anchor := by
    have htext : (Anchor.text p.anchor).toList = (Anchor.text q.anchor).toList := by
      rw [← hslashes hp, ← hslashes hq, h]
    revert htext
    cases p.anchor <;> cases q.anchor <;> decide
  refine ⟨hanchor, ?_⟩
  have hboth := congrArg String.toList h
  rwa [toList_render, toList_render, hanchor, List.append_cancel_left_eq] at hboth

/-- A plain path can be told from its text. -/
theorem render_injective {p q : Path} (hp : p.IsPlain) (hq : q.IsPlain) (h : p.render = q.render) :
    p = q := by
  obtain ⟨hanchor, hbody⟩ := anchor_eq_of_render hp hq h
  obtain ⟨anchor, names⟩ := p
  obtain ⟨anchor', names'⟩ := q
  cases hanchor
  -- a text without names is no name
  have hnil {name : String} {rest : List String} (hname : isPlainName name) :
      bodyText ⟨anchor, []⟩ ≠ bodyText ⟨anchor, name :: rest⟩ := by
    simp only [isPlainName, Bool.and_eq_true, decide_eq_true_eq] at hname
    intro heq
    simp only [bodyText] at heq
    split at heq
    · cases hchars : name.toList with
      | nil => exact hname.1.1 (String.toList_inj.1 hchars)
      | cons c cs =>
        rw [hchars] at heq
        obtain ⟨rfl, hcs⟩ := List.cons.inj heq
        rw [(List.append_eq_nil_iff.1 hcs.symm).1] at hchars
        exact hname.1.2 (String.toList_inj.1 hchars)
    · exact hname.1.1 (String.toList_inj.1 (List.append_eq_nil_iff.1 heq.symm).1)
  have hslash {names : List String} (hnames : ∀ n ∈ names, isPlainName n) :
      ∀ n ∈ names, '/' ∉ n.toList := by
    intro n hn
    have hplain := hnames n hn
    simp only [isPlainName, Bool.and_eq_true, decide_eq_true_eq] at hplain
    exact hplain.2
  cases names with
  | nil => cases names' with
    | nil => rfl
    | cons name' rest' => exact absurd hbody (hnil (hq name' List.mem_cons_self))
  | cons name rest => cases names' with
    | nil => exact absurd hbody.symm (hnil (hp name List.mem_cons_self))
    | cons name' rest' =>
      have hs := List.forall_mem_cons.1 (hslash hp)
      have hs' := List.forall_mem_cons.1 (hslash hq)
      obtain ⟨rfl, hrest⟩ := append_furtherText_inj hs.1 hs'.1 hbody
      rw [furtherText_inj hs.2 hs'.2 hrest]

end Path

namespace FileTree

variable {t : FileTree}

theorem locate_of_read {p : Path} {bytes : List UInt8} (h : t.read p = .ok bytes) :
    t.locate p = .ok (.file bytes) := by
  rw [read] at h
  split at h
  · cases h
  · rename_i hlocate
    cases h
    exact hlocate
  · cases h
  · cases h

/-- What can be found in a plain tree has a plain path. -/
theorem isPlain_of_locate (ht : t.top.Plain) {p : Path} {n : Node} (h : t.locate p = .ok n) :
    p.IsPlain := by
  rw [locate, follow] at h
  split at h
  · cases h
  split at h
  · cases h
  split at h
  · rename_i hfollow
    intro name hname
    refine ht.of_follow (by simp) hfollow name ?_
    -- the names of a relative path stand behind those of the working directory
    rw [names, Path.join]
    split
    · exact List.mem_append_right _ hname
    · exact hname
  · cases h

theorem isPlain_of_read (ht : t.top.Plain) {p : Path} {bytes : List UInt8}
    (h : t.read p = .ok bytes) : p.IsPlain := isPlain_of_locate ht (locate_of_read h)

end FileTree

namespace Scan

open AbiIndex.Source

/-! ## Faithful stores -/

/-- What the store has for a file of the tree is what the file declares. -/
def Faithful (t : FileTree) (cache : Cache SourceUnit) : Prop :=
  ∀ e ∈ cache.entries, ∀ root path file, LoadedFile.load t root path = .ok file →
    file.key = e.path → file.fingerprint = e.fingerprint → file.label = e.value.path →
    file.extract = .ok e.value

theorem load_eq_ok {t : FileTree} {root path : Path} {file : LoadedFile}
    (h : LoadedFile.load t root path = .ok file) :
    ∃ bytes, t.read path = .ok bytes ∧ file = ⟨path, root.label path, .ofBytes bytes⟩ := by
  rw [LoadedFile.load] at h
  split at h
  · rename_i bytes hbytes
    cases h
    exact ⟨bytes, hbytes, rfl⟩
  · cases h

/-- In a plain tree, the files with the same name among the parsed files are one file. -/
theorem source_eq_of_key {t : FileTree} (ht : t.top.Plain) {root root' path path' : Path}
    {file file' : LoadedFile} (h : LoadedFile.load t root path = .ok file)
    (h' : LoadedFile.load t root' path' = .ok file') (hkey : file.key = file'.key) :
    file.source = file'.source := by
  obtain ⟨bytes, hread, rfl⟩ := load_eq_ok h
  obtain ⟨bytes', hread', rfl⟩ := load_eq_ok h'
  have hpath : path = path' := Path.render_injective (FileTree.isPlain_of_read ht hread)
    (FileTree.isPlain_of_read ht hread') hkey
  subst hpath
  rw [hread, Except.ok.injEq] at hread'
  rw [hread']

namespace Faithful

variable {t : FileTree} {cache : Cache SourceUnit} {root path : Path} {file : LoadedFile}

theorem new (limit : Int) : Faithful t (.new limit) := by
  intro e he
  cases he

theorem lookUp (h : Faithful t cache) (file : LoadedFile) : Faithful t (file.lookUp cache).2 :=
  fun e he => h e (Cache.mem_of_mem_get he)

theorem remember (h : Faithful t cache) (ht : t.top.Plain)
    (hfile : LoadedFile.load t root path = .ok file) :
    Faithful t (file.remember cache file.extract) := by
  intro e he
  rcases LoadedFile.mem_remember he with hold | ⟨unit, hextract, rfl⟩
  · exact h e hold
  · -- only the same file can be looked up by this name
    intro root' path' file' hfile' hkey _ hlabel
    rw [LoadedFile.extract, source_eq_of_key ht hfile' hfile hkey, hlabel,
      path_of_extract hextract]
    exact hextract

/-- In a plain tree a faithful store can be trusted, whatever the fingerprints are good for. -/
theorem trusted (ht : t.top.Plain) : Trusted t (Faithful t) where
  lookUp file h := h.lookUp file
  remember h hfile := h.remember ht hfile
  found := by
    intro cache root path file unit h hfile hfound
    obtain ⟨hget, hlabel⟩ := Option.filter_eq_some_iff.1 hfound
    obtain ⟨e, he, hpath, hfingerprint, rfl⟩ := Cache.exists_of_get_eq_some hget
    exact h e he root path file hfile hpath.symm hfingerprint.symm (of_decide_eq_true hlabel).symm

end Faithful

/-- In a plain tree a new session reports what reading all declarations gives. -/
theorem fresh_eq_direct_of_plain {t : FileTree} (ht : t.top.Plain) (settings : Settings)
    (limit : Int) (request : Request) :
    fresh settings limit t request = request.direct settings t := by
  obtain ⟨cache₁, hdoes⟩ := @exists_does_direct_of_trusted settings t (.new limit) (Faithful t)
    (Faithful.trusted ht) (Faithful.new limit) request
  exact (hdoes _ ⟨rfl, fun _ => rfl⟩ rfl rfl).1

end Scan

end AbiIndex
