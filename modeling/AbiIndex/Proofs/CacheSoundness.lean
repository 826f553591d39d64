import AbiIndex.Scan.SourceFile
import Mathlib.Data.Set.Function

/-!
# What the store of parsed files holds

Every entry of the store was read from a text with the fingerprint of the entry, under the name that
the entry itself carries. The path of the entry plays no part in this. As long as fingerprints tell
texts apart, an entry that is found for a file is thus what reading the file would give.

## Key results

- `Sound.lookUp`, `Sound.remember`: look-ups and stores keep the entries right
- `Sound.extract_of_lookUp`: what a look-up finds is what the file declares
- `Trusted`: what the work on files needs of a property of stores
-/

namespace AbiIndex.Scan

open AbiIndex.Source

/-! ## Entries of a store -/

namespace Cache

variable {α : Type} {cache : Cache α} {e : CacheEntry α}

theorem mem_others {path : String} (h : e ∈ cache.others path) : e ∈ cache.entries :=
  (List.mem_filter.1 h).1

/-- A look-up adds no entry. -/
theorem mem_of_mem_get {path fingerprint : String}
    (h : e ∈ (cache.get path fingerprint).2.entries) : e ∈ cache.entries := by
  rw [get] at h
  split at h
  · exact h
  · rename_i found heq
    split at h
    -- a hit only moves its entry
    · rcases List.mem_append.1 h with hother | hfound
      · exact mem_others hother
      · rw [List.mem_singleton.1 hfound]
        exact List.mem_of_find?_eq_some heq
    · exact mem_others h

/-- What a look-up finds is the value of an entry with the same path and fingerprint. -/
theorem exists_of_get_eq_some {path fingerprint : String} {value : α}
    (h : (cache.get path fingerprint).1 = some value) :
    ∃ e ∈ cache.entries, e.path = path ∧ e.fingerprint = fingerprint ∧ e.value = value := by
  rw [get] at h
  split at h
  · cases h
  · rename_i found heq
    split at h
    · rename_i hfingerprint
      have hpath : found.path = path := by simpa using List.find?_some heq
      exact ⟨found, List.mem_of_find?_eq_some heq, hpath, hfingerprint, Option.some.inj h⟩
    · cases h

/-- A store adds one entry and may drop others. -/
theorem mem_of_mem_store {path fingerprint : String} {value : α}
    (h : e ∈ (cache.store path fingerprint value).entries) :
    e ∈ cache.entries ∨ e = ⟨path, fingerprint, value⟩ := by
  rcases List.mem_append.1 (List.mem_of_mem_drop h) with hother | hnew
  · exact .inl (mem_others hother)
  · exact .inr (List.mem_singleton.1 hnew)

end Cache

/-! ## Names and fingerprints -/

/-- The fingerprint of a text. -/
def fingerprintOf (text : List Char) : String :=
  Digest.hex (Digest.Sha256.digest (Text.Utf8.encode (String.ofList text)))

/-- The texts of the files in a tree. -/
def textsOf (t : FileTree) : Set (List Char) :=
  {text | ∃ path bytes, t.read path = .ok bytes ∧ (SourceText.ofBytes bytes).text = text}

/-- The declarations of a text carry the name under which it was read. -/
theorem path_of_extract {text : List Char} {path : String} {unit : SourceUnit}
    (h : SourceUnit.extract text path = .ok unit) : unit.path = path := by
  rw [SourceUnit.extract, SourceUnit.extractAs] at h
  cases htokens : tokenize text with
  | error e =>
    rw [htokens] at h
    cases h
  | ok tokens =>
    rw [htokens] at h
    cases h
    rfl

/-- A property of stores that the work on the files of a tree keeps, and by which what is found for
a file is what the file declares. -/
structure Trusted (t : FileTree) (Holds : Cache SourceUnit → Prop) : Prop where
  lookUp {cache : Cache SourceUnit} (file : LoadedFile) (h : Holds cache) :
    Holds (file.lookUp cache).2
  remember {cache : Cache SourceUnit} {root path : Path} {file : LoadedFile}
    (h : Holds cache) (hfile : LoadedFile.load t root path = .ok file) :
    Holds (file.remember cache file.extract)
  found {cache : Cache SourceUnit} {root path : Path} {file : LoadedFile} {unit : SourceUnit}
    (h : Holds cache) (hfile : LoadedFile.load t root path = .ok file)
    (hfound : (file.lookUp cache).1 = some unit) : file.extract = .ok unit

/-- Once a file was read, each entry is an old one or the one of the file. -/
theorem LoadedFile.mem_remember {file : LoadedFile} {cache : Cache SourceUnit}
    {e : CacheEntry SourceUnit} (h : e ∈ (file.remember cache file.extract).entries) :
    e ∈ cache.entries ∨ ∃ unit, file.extract = .ok unit ∧ e = ⟨file.key, file.fingerprint, unit⟩ := by
  cases hextract : file.extract with
  -- a text that cannot be read takes the entry of its path away
  | error _ =>
    rw [hextract] at h
    exact .inl (Cache.mem_others h)
  | ok unit =>
    rw [hextract] at h
    exact (Cache.mem_of_mem_store h).imp_right fun hnew => ⟨unit, rfl, hnew⟩

theorem text_mem_of_load {t : FileTree} {root path : Path} {file : LoadedFile}
    (h : LoadedFile.load t root path = .ok file) : file.source.text ∈ textsOf t := by
  rw [LoadedFile.load] at h
  split at h
  · rename_i bytes hbytes
    cases h
    exact ⟨path, bytes, hbytes, rfl⟩
  · cases h

/-! ## Sound stores -/

/-- Every entry was read from one of the texts, with the name that it carries itself. -/
def Sound (texts : Set (List Char)) (cache : Cache SourceUnit) : Prop :=
  ∀ e ∈ cache.entries, ∃ text ∈ texts,
    fingerprintOf text = e.fingerprint ∧ SourceUnit.extract text e.value.path = .ok e.value

namespace Sound

variable {texts : Set (List Char)} {cache : Cache SourceUnit} {file : LoadedFile}

theorem new (limit : Int) : Sound texts (Cache.new limit) := by
  intro e he
  cases he

theorem lookUp (h : Sound texts cache) (file : LoadedFile) : Sound texts (file.lookUp cache).2 :=
  fun e he => h e (Cache.mem_of_mem_get he)

theorem remember (h : Sound texts cache) (hfile : file.source.text ∈ texts) :
    Sound texts (file.remember cache file.extract) := by
  intro e he
  rcases LoadedFile.mem_remember he with hold | ⟨unit, hextract, rfl⟩
  · exact h e hold
  · -- the name of the unit is the one that the file was read under
    refine ⟨file.source.text, hfile, rfl, ?_⟩
    rw [path_of_extract hextract]
    exact hextract

/-- A parsed file that is found is what the file declares, if fingerprints tell the texts apart. -/
theorem extract_of_lookUp (h : Sound texts cache) (hinj : Set.InjOn fingerprintOf texts)
    (hfile : file.source.text ∈ texts) {unit : SourceUnit}
    (hfound : (file.lookUp cache).1 = some unit) : file.extract = .ok unit := by
  obtain ⟨hget, hname⟩ := Option.filter_eq_some_iff.1 hfound
  obtain ⟨e, he, -, hfingerprint, rfl⟩ := Cache.exists_of_get_eq_some hget
  obtain ⟨text, htext, heq, hextract⟩ := h e he
  -- the same fingerprint means the same text, and the name was compared
  have hsame : text = file.source.text := hinj htext hfile (heq.trans hfingerprint)
  have hpath : e.value.path = file.label := of_decide_eq_true hname
  rw [hsame, hpath] at hextract
  exact hextract

theorem trusted (hinj : Set.InjOn fingerprintOf texts) {t : FileTree} (ht : textsOf t ⊆ texts) :
    Trusted t (Sound texts) where
  lookUp file h := h.lookUp file
  remember h hfile := h.remember (ht (text_mem_of_load hfile))
  found h hfile hfound := h.extract_of_lookUp hinj (ht (text_mem_of_load hfile)) hfound

end Sound

end AbiIndex.Scan
