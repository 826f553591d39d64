import AbiIndex.Proofs.CacheSoundness
import AbiIndex.Proofs.ListFacts
import Mathlib.Data.Finset.Card
import Mathlib.Data.Finset.Dedup
import Mathlib.Data.List.DropRight

/-!
# The store of parsed files through its history

What a bounded store holds is told by the operations that were done on it: a look-up finds what was
stored last for its path, unless that was taken away since, and what was used least recently makes
room. The store keeps its entries in the order of their last use, and this order is the invariant
behind both.

## Key results

- `isStored_concat_iff`: what an operation changes about what was stored last
- `Agrees.apply`: every operation keeps the entries in agreement with the history
- `agrees_after`: they agree with it at any time
- `history_spec`: what is found, what is missed, how much is held and what is counted
-/

namespace AbiIndex.Scan

variable {α : Type}

/-- An operation on a store. -/
inductive CacheOperation (α : Type) where
  | get (path fingerprint : String)
  | store (path fingerprint : String) (value : α)
  | invalidate (path : String)
  | clear

namespace CacheOperation

/-- The operation does not take away what was stored for the path with the fingerprint: it neither
clears the store nor stores or removes the path, and it looks the path up with no other fingerprint.
-/
def Keeps (path fingerprint : String) : CacheOperation α → Prop
  | get p f => p = path → f = fingerprint
  | store p _ _ => p ≠ path
  | invalidate p => p ≠ path
  | clear => False

def isGet : CacheOperation α → Bool
  | get _ _ => true
  | _ => false

def isClear : CacheOperation α → Bool
  | clear => true
  | _ => false

end CacheOperation

/-- The value was the last one that was stored for the path, it was stored with the fingerprint, and
nothing since then took it away. -/
def IsStored (history : List (CacheOperation α)) (path fingerprint : String) (value : α) : Prop :=
  ∃ before since, history = before ++ .store path fingerprint value :: since ∧
    ∀ op ∈ since, op.Keeps path fingerprint

namespace Cache

/-- The store after an operation. -/
def apply (cache : Cache α) : CacheOperation α → Cache α
  | .get path fingerprint => (cache.get path fingerprint).2
  | .store path fingerprint value => cache.store path fingerprint value
  | .invalidate path => cache.invalidate path
  | .clear => cache.clear

/-- The path that an operation uses, by storing or by finding it. -/
def used? (cache : Cache α) : CacheOperation α → Option String
  | .get path fingerprint => if (cache.get path fingerprint).1.isSome then some path else none
  | .store path _ _ => some path
  | .invalidate _ => none
  | .clear => none

/-- The store for at most `limit` entries after some operations. -/
def after (limit : Int) (history : List (CacheOperation α)) : Cache α :=
  history.foldl apply (new limit)

/-- The paths that some operations use, one after the other. -/
def uses (cache : Cache α) : List (CacheOperation α) → List String
  | [] => []
  | op :: ops => (cache.used? op).toList ++ uses (cache.apply op) ops

/-- The other paths that were used since the last use of a path. -/
def usedSince (limit : Int) (history : List (CacheOperation α)) (path : String) : List String :=
  ((new limit).uses history).rtakeWhile (· ≠ path)

/-! ## One more operation -/

theorem after_concat (limit : Int) (history : List (CacheOperation α)) (op : CacheOperation α) :
    after limit (history ++ [op]) = (after limit history).apply op := by
  rw [after, after, List.foldl_append]
  rfl

theorem uses_concat (cache : Cache α) (history : List (CacheOperation α)) (op : CacheOperation α) :
    cache.uses (history ++ [op]) =
      cache.uses history ++ ((history.foldl apply cache).used? op).toList := by
  induction history generalizing cache with
  | nil => exact List.append_nil _
  | cons first history ih =>
    rw [List.cons_append, uses, uses, ih, List.append_assoc]
    rfl

end Cache

/-! ## What was stored last -/

/-- What was stored last for a path is what was stored just now, or what was stored before and is
not taken away. -/
theorem isStored_concat_iff {history : List (CacheOperation α)} {op : CacheOperation α}
    {path fingerprint : String} {value : α} :
    IsStored (history ++ [op]) path fingerprint value ↔
      op = .store path fingerprint value ∨
        IsStored history path fingerprint value ∧ op.Keeps path fingerprint := by
  constructor
  · rintro ⟨before, since, heq, hkeeps⟩
    rcases List.eq_nil_or_concat since with rfl | ⟨since, last, rfl⟩
    · obtain ⟨-, hlast⟩ := List.append_inj' heq rfl
      exact .inl (List.singleton_inj.1 hlast)
    · have hsplit : history ++ [op] =
          (before ++ .store path fingerprint value :: since) ++ [last] := by simpa using heq
      obtain ⟨rfl, hlast⟩ := List.append_inj' hsplit rfl
      cases hlast
      exact .inr ⟨⟨before, since, rfl, fun o ho => hkeeps o (by simp [ho])⟩, hkeeps op (by simp)⟩
  · rintro (rfl | ⟨⟨before, since, rfl, hkeeps⟩, hop⟩)
    · exact ⟨history, [], rfl, by simp⟩
    · refine ⟨before, since ++ [op], by simp, fun o ho => ?_⟩
      rcases List.mem_append.1 ho with ho | ho
      · exact hkeeps o ho
      · rw [List.mem_singleton.1 ho]
        exact hop

/-- Only one value was stored last. -/
theorem IsStored.unique {history : List (CacheOperation α)} {path f f' : String} {v v' : α}
    (h : IsStored history path f v) (h' : IsStored history path f' v') : f = f' ∧ v = v' := by
  induction history using List.reverseRecOn with
  | nil =>
    obtain ⟨before, since, heq, -⟩ := h
    simp at heq
  | append_singleton history op ih =>
    rw [isStored_concat_iff] at h h'
    -- a store leaves nothing of what was stored for its path before
    rcases h with rfl | ⟨h, hop⟩
    · rcases h' with heq | ⟨-, hop'⟩
      · cases heq
        exact ⟨rfl, rfl⟩
      · exact absurd rfl hop'
    · rcases h' with rfl | ⟨h', -⟩
      · exact absurd rfl hop
      · exact ih h h'

/-! ## Entries in the order of their last use -/

/-- A use of one path adds it to the paths that were used since the last use of another one. -/
theorem rtakeWhile_concat_of_ne {log : List String} {path used : String} (h : used ≠ path) :
    (log ++ [used]).rtakeWhile (· ≠ path) = log.rtakeWhile (· ≠ path) ++ [used] :=
  List.rtakeWhile_concat_pos _ _ _ (by simpa using h)

/-- The entries have different paths, and the paths of later ones were used since the last use of
those of earlier ones. -/
structure InOrder (log : List String) (entries : List (CacheEntry α)) : Prop where
  distinct : (entries.map (·.path)).Nodup
  recent : entries.Pairwise fun e e' => e'.path ∈ log.rtakeWhile (· ≠ e.path)

namespace InOrder

variable {log : List String} {entries entries' : List (CacheEntry α)}

theorem nil (log : List String) : InOrder log ([] : List (CacheEntry α)) := ⟨by simp, .nil⟩

theorem sublist (h : InOrder log entries) (hsub : entries'.Sublist entries) :
    InOrder log entries' :=
  ⟨h.distinct.sublist (hsub.map _), h.recent.sublist hsub⟩

/-- The entry that is used comes last. -/
theorem use (h : InOrder log entries) {e : CacheEntry α} (hnew : ∀ o ∈ entries, o.path ≠ e.path) :
    InOrder (log ++ [e.path]) (entries ++ [e]) where
  distinct := by
    rw [List.map_append, List.map_singleton, List.nodup_append]
    refine ⟨h.distinct, List.nodup_singleton _, ?_⟩
    simpa using hnew
  recent := by
    rw [List.pairwise_append]
    refine ⟨?_, List.pairwise_singleton _ _, ?_⟩
    · refine h.recent.imp_of_mem fun {o o'} ho _ hoo' => ?_
      rw [rtakeWhile_concat_of_ne (hnew o ho).symm]
      exact List.mem_append_left _ hoo'
    · intro o ho o' ho'
      rw [List.mem_singleton.1 ho', rtakeWhile_concat_of_ne (hnew o ho).symm]
      exact List.mem_append_right _ (List.mem_singleton_self _)

/-- Behind an entry there are at most as many others as paths that were used since its last use. -/
theorem length_le {front back : List (CacheEntry α)} {e : CacheEntry α}
    (h : InOrder log (front ++ e :: back)) :
    back.length ≤ (log.rtakeWhile (· ≠ e.path)).toFinset.card := by
  -- the paths behind the entry are different ones, and each was used since
  have hback := (List.pairwise_cons.1 (List.pairwise_append.1 h.recent).2.1).1
  have hnodup : (back.map (·.path)).Nodup := by
    have := h.distinct
    rw [List.map_append, List.map_cons, List.nodup_append, List.nodup_cons] at this
    exact this.2.1.2
  calc back.length = (back.map (·.path)).toFinset.card := by
        rw [List.toFinset_card_of_nodup hnodup, List.length_map]
    _ ≤ _ := by
        refine Finset.card_le_card fun path hpath => ?_
        obtain ⟨o, ho, rfl⟩ := List.mem_map.1 (List.mem_toFinset.1 hpath)
        exact List.mem_toFinset.2 (hback o ho)

end InOrder

/-! ## Look-ups and removals -/

namespace Cache

variable {cache : Cache α}

theorem mem_others_iff {path : String} {e : CacheEntry α} :
    e ∈ cache.others path ↔ e ∈ cache.entries ∧ e.path ≠ path := by
  simp [others]

/-- A look-up finds the entry of its path if that has its fingerprint, which then is the most recent
one; otherwise no entry of the path is left. -/
theorem get_cases (hdistinct : (cache.entries.map (·.path)).Nodup) (path fingerprint : String) :
    (∃ e ∈ cache.entries, e.path = path ∧ e.fingerprint = fingerprint ∧
      cache.get path fingerprint =
        (some e.value, { cache with
          entries := cache.others path ++ [e]
          hits := cache.hits + 1 })) ∨
    ((∀ e ∈ cache.entries, e.path = path → e.fingerprint ≠ fingerprint) ∧
      cache.get path fingerprint =
        (none, { cache with
          entries := cache.others path
          misses := cache.misses + 1 })) := by
  rw [get]
  cases hfind : cache.entries.find? (·.path = path) with
  | none =>
    have hnone : ∀ e ∈ cache.entries, e.path ≠ path := by simpa using hfind
    have hall : cache.others path = cache.entries :=
      List.filter_eq_self.2 fun e he => by simpa using hnone e he
    exact .inr ⟨fun e he hpath => absurd hpath (hnone e he), by rw [hall]⟩
  | some e =>
    obtain ⟨he, hpath⟩ := (find?_key_eq_some_iff hdistinct).1 hfind
    dsimp only
    split
    · rename_i hfingerprint
      exact .inl ⟨e, he, hpath, hfingerprint, rfl⟩
    · rename_i hfingerprint
      -- no other entry has the path
      refine .inr ⟨fun o ho hopath => ?_, rfl⟩
      rw [List.inj_on_of_nodup_map hdistinct ho he (hopath.trans hpath.symm)]
      exact hfingerprint

/-- The capacity of a store never changes. -/
theorem capacity_apply (cache : Cache α) (op : CacheOperation α) :
    (cache.apply op).capacity = cache.capacity := by
  cases op with
  | get path fingerprint =>
    rw [apply, get]
    split
    · rfl
    · split <;> rfl
  | store path fingerprint value => rfl
  | invalidate path => rfl
  | clear => rfl

theorem capacity_after (limit : Int) (history : List (CacheOperation α)) :
    ((after limit history).capacity : Int) = max 1 limit := by
  induction history using List.reverseRecOn with
  | nil =>
    show ((max 1 limit.toNat : Nat) : Int) = max 1 limit
    omega
  | append_singleton history op ih => rw [after_concat, capacity_apply, ih]

end Cache

/-! ## The entries and the history -/

/-- The entries agree with what was done, where `log` lists the paths that were used: each was
stored last for its path, and what was stored last for any other path has made room, since as many
paths as the store can hold were used after its last use. -/
structure Agrees (history : List (CacheOperation α)) (log : List String) (cache : Cache α) :
    Prop where
  order : InOrder log cache.entries
  stored : ∀ e ∈ cache.entries, IsStored history e.path e.fingerprint e.value
  bounded : cache.entries.length ≤ cache.capacity
  evicted : ∀ path fingerprint value, IsStored history path fingerprint value →
    (∃ e ∈ cache.entries, e.path = path) ∨
      cache.capacity ≤ (log.rtakeWhile (· ≠ path)).toFinset.card

namespace Agrees

variable {history : List (CacheOperation α)} {log : List String} {cache cache' : Cache α}
  {op : CacheOperation α}

/-- The entries agree with an operation that takes away some of them and uses none. -/
theorem drop (h : Agrees history log cache) (hstore : ∀ path f v, op ≠ .store path f v)
    (hcapacity : cache'.capacity = cache.capacity)
    (hsub : cache'.entries.Sublist cache.entries)
    (hmem : ∀ e ∈ cache.entries, e ∈ cache'.entries ↔ op.Keeps e.path e.fingerprint) :
    Agrees (history ++ [op]) log cache' where
  order := h.order.sublist hsub
  stored e he := by
    have hold := hsub.subset he
    exact isStored_concat_iff.2 (.inr ⟨h.stored e hold, (hmem e hold).1 he⟩)
  bounded := hcapacity ▸ hsub.length_le.trans h.bounded
  evicted path fingerprint value hpath := by
    rcases isStored_concat_iff.1 hpath with rfl | ⟨hpath, hkeeps⟩
    · exact absurd rfl (hstore _ _ _)
    rcases h.evicted path fingerprint value hpath with ⟨e, he, rfl⟩ | hfull
    · -- the entry of the path is the one that was stored last, which the operation keeps
      obtain ⟨hfingerprint, -⟩ := (h.stored e he).unique hpath
      exact .inl ⟨e, (hmem e he).2 (hfingerprint ▸ hkeeps), rfl⟩
    · exact .inr (hcapacity ▸ hfull)

/-- The entries agree with an operation that uses a path: its entry becomes the last one, and if
there are too many, the first one makes room. -/
theorem use (h : Agrees history log cache) {e : CacheEntry α} {entries : List (CacheEntry α)}
    (hentries : entries = cache.others e.path ++ [e])
    (he : IsStored (history ++ [op]) e.path e.fingerprint e.value)
    (hop : ∀ path f v, path ≠ e.path → op ≠ .store path f v ∧ op.Keeps path f)
    (hcapacity : cache'.capacity = cache.capacity)
    (hcache : cache'.entries = entries.drop (entries.length - cache.capacity)) :
    Agrees (history ++ [op]) (log ++ [e.path]) cache' := by
  have hnew : ∀ o ∈ cache.others e.path, o.path ≠ e.path :=
    fun o ho => (Cache.mem_others_iff.1 ho).2
  have horder : InOrder (log ++ [e.path]) entries :=
    hentries ▸ (h.order.sublist List.filter_sublist).use hnew
  refine ⟨hcache ▸ horder.sublist (List.drop_sublist _ _), ?_, ?_, ?_⟩
  · intro o ho
    have ho : o ∈ cache.others e.path ++ [e] := hentries ▸ List.mem_of_mem_drop (hcache ▸ ho)
    rcases List.mem_append.1 ho with ho | ho
    · obtain ⟨hold, hne⟩ := Cache.mem_others_iff.1 ho
      exact isStored_concat_iff.2 (.inr ⟨h.stored o hold, (hop _ _ o.value hne).2⟩)
    · rwa [List.mem_singleton.1 ho]
  · rw [hcache, hcapacity, List.length_drop]
    omega
  · intro path fingerprint value hpath
    rw [hcache, hcapacity]
    by_cases hne : path = e.path
    · -- there is room for the last entry at least
      subst hne
      refine .inl ⟨e, ?_, rfl⟩
      have hpos := cache.capacity_pos
      rw [hentries, List.drop_append_of_le_length
        (by simp only [List.length_append, List.length_singleton]; omega)]
      simp
    rcases isStored_concat_iff.1 hpath with heq | ⟨hpath, -⟩
    · exact absurd heq (hop _ _ _ hne).1
    rcases h.evicted path fingerprint value hpath with ⟨o, ho, rfl⟩ | hfull
    · have ho : o ∈ entries := by
        rw [hentries]
        exact List.mem_append_left _ (Cache.mem_others_iff.2 ⟨ho, hne⟩)
      rw [← List.take_append_drop (entries.length - cache.capacity) entries, List.mem_append] at ho
      rcases ho with ho | ho
      · -- all entries that are left stand behind the one that made room
        obtain ⟨front, back, hsplit⟩ := List.append_of_mem ho
        have hall : entries = front ++ o :: (back ++
            entries.drop (entries.length - cache.capacity)) := by
          rw [← List.cons_append, ← List.append_assoc, ← hsplit, List.take_append_drop]
        have hlength := (hall ▸ horder).length_le
        have htake := List.length_pos_of_mem ho
        rw [List.length_append, List.length_drop] at hlength
        rw [List.length_take] at htake
        exact .inr (by omega)
      · exact .inl ⟨o, ho, rfl⟩
    · -- the paths that were used since only become more
      right
      rw [rtakeWhile_concat_of_ne (Ne.symm hne)]
      refine hfull.trans (Finset.card_le_card fun p hp => ?_)
      rw [List.mem_toFinset] at hp ⊢
      exact List.mem_append_left _ hp

/-- Every operation keeps the entries in agreement with what was done. -/
theorem apply (h : Agrees history log cache) (op : CacheOperation α) :
    Agrees (history ++ [op]) (log ++ (cache.used? op).toList) (cache.apply op) := by
  cases op with
  | get path fingerprint =>
    rcases cache.get_cases h.order.distinct path fingerprint with
      ⟨e, he, rfl, rfl, hget⟩ | ⟨hmiss, hget⟩
    · -- a hit uses its path; there are no more entries than before
      have hlength : (cache.others e.path ++ [e]).length ≤ cache.capacity := by
        have hless := List.length_filter_lt_length_iff_exists (p := (·.path ≠ e.path)).2
          ⟨e, he, by simp⟩
        have := h.bounded
        rw [List.length_append, List.length_singleton, Cache.others]
        omega
      rw [Cache.used?, Cache.apply, hget]
      refine h.use rfl ?_ ?_ rfl ?_
      · exact isStored_concat_iff.2 (.inr ⟨h.stored e he, fun _ => rfl⟩)
      · exact fun p f v hne => ⟨nofun, fun heq => absurd heq.symm hne⟩
      · rw [Nat.sub_eq_zero_of_le hlength]
        rfl
    · -- a miss uses no path, and what it takes away has another fingerprint
      rw [Cache.used?, Cache.apply, hget]
      refine (List.append_nil log).symm ▸ h.drop nofun rfl List.filter_sublist fun e he => ?_
      constructor
      · intro hleft heq
        exact absurd heq.symm (Cache.mem_others_iff.1 hleft).2
      · intro hkeeps
        refine Cache.mem_others_iff.2 ⟨he, fun heq => ?_⟩
        exact hmiss e he heq (hkeeps heq.symm).symm
  | store path fingerprint value =>
    refine h.use (e := ⟨path, fingerprint, value⟩) rfl (isStored_concat_iff.2 (.inl rfl)) ?_ rfl rfl
    intro p f v hne
    refine ⟨fun heq => ?_, fun heq => hne heq.symm⟩
    cases heq
    exact hne rfl
  | invalidate path =>
    refine (List.append_nil log).symm ▸ h.drop nofun rfl List.filter_sublist fun e he => ?_
    exact ⟨fun hleft heq => (Cache.mem_others_iff.1 hleft).2 heq.symm,
      fun hkeeps => Cache.mem_others_iff.2 ⟨he, fun heq => hkeeps heq.symm⟩⟩
  | clear =>
    refine (List.append_nil log).symm ▸ h.drop nofun rfl (List.nil_sublist _) fun e _ => ?_
    exact iff_of_false List.not_mem_nil id

end Agrees

/-- After any operations the entries of a store agree with them. -/
theorem agrees_after (limit : Int) (history : List (CacheOperation α)) :
    Agrees history ((Cache.new limit).uses history) (Cache.after limit history) := by
  induction history using List.reverseRecOn with
  | nil =>
    refine ⟨.nil _, nofun, Nat.zero_le _, ?_⟩
    rintro path fingerprint value ⟨before, since, heq, -⟩
    simp at heq
  | append_singleton history op ih =>
    rw [Cache.after_concat, Cache.uses_concat]
    exact ih.apply op

/-- Hits and misses together are the look-ups since the store was cleared last. -/
theorem hits_add_misses_after (limit : Int) (history : List (CacheOperation α)) :
    (Cache.after limit history).hits + (Cache.after limit history).misses =
      (history.rtakeWhile (!·.isClear)).countP (·.isGet) := by
  induction history using List.reverseRecOn with
  | nil => rfl
  | append_singleton history op ih =>
    rw [Cache.after_concat]
    cases op with
    | get path fingerprint =>
      rw [List.rtakeWhile_concat_pos _ _ _ (by rfl), List.countP_append, ← ih, Cache.apply]
      rcases (Cache.after limit history).get_cases
        (agrees_after limit history).order.distinct path fingerprint with
        ⟨e, -, -, -, hget⟩ | ⟨-, hget⟩
      · rw [hget]
        exact Nat.add_right_comm _ 1 _
      · rw [hget]
        rfl
    | store path fingerprint value =>
      rw [List.rtakeWhile_concat_pos _ _ _ (by rfl), List.countP_append, ← ih]
      rfl
    | invalidate path =>
      rw [List.rtakeWhile_concat_pos _ _ _ (by rfl), List.countP_append, ← ih]
      rfl
    | clear =>
      rw [List.rtakeWhile_concat_neg _ _ _ (by simp [CacheOperation.isClear])]
      rfl

/-- A store for at most `limit` entries, and for at least one, holds no more, each of another path.
A look-up finds what was stored last for its path with its fingerprint, as long as no other look-up,
no removal and no clearing took it away since; only if as many other paths as the store can hold
were stored or found since the path was, it may find nothing. Hits and misses count the look-ups
since the store was cleared. -/
theorem history_spec (limit : Int) (history : List (CacheOperation α)) :
    let cache := Cache.after limit history
    (cache.entries.length : Int) ≤ max 1 limit ∧ (cache.entries.map (·.path)).Nodup ∧
    (∀ path fingerprint value, (cache.get path fingerprint).1 = some value →
      IsStored history path fingerprint value) ∧
    (∀ path fingerprint value, IsStored history path fingerprint value →
      (cache.get path fingerprint).1 = some value ∨ (cache.get path fingerprint).1 = none ∧
        max 1 limit ≤ ((Cache.usedSince limit history path).toFinset.card : Int)) ∧
    cache.hits + cache.misses = (history.rtakeWhile (!·.isClear)).countP (·.isGet) := by
  intro cache
  have h : Agrees history ((Cache.new limit).uses history) cache := agrees_after limit history
  have hcapacity : (cache.capacity : Int) = max 1 limit := Cache.capacity_after limit history
  refine ⟨?_, h.order.distinct, ?_, ?_, hits_add_misses_after limit history⟩
  · have := h.bounded
    omega
  · intro path fingerprint value hfound
    obtain ⟨e, he, rfl, rfl, rfl⟩ := Cache.exists_of_get_eq_some hfound
    exact h.stored e he
  · intro path fingerprint value hpath
    rcases cache.get_cases h.order.distinct path fingerprint with
      ⟨e, he, rfl, rfl, hget⟩ | ⟨hmiss, hget⟩
    · obtain ⟨-, rfl⟩ := (h.stored e he).unique hpath
      exact .inl (by rw [hget])
    · refine .inr ⟨by rw [hget], ?_⟩
      rcases h.evicted path fingerprint value hpath with ⟨e, he, rfl⟩ | hfull
      -- an entry of the path would have the fingerprint that was stored last
      · exact absurd ((h.stored e he).unique hpath).1 (hmiss e he rfl)
      · rw [← hcapacity]
        exact Int.ofNat_le.2 hfull

/-- Three files in a store for two: the second one makes room, the first one being used after it. -/
def threeFiles : List (CacheOperation Nat) :=
  [.store "A.sol" "a" 1, .store "B.sol" "b" 2, .get "A.sol" "a", .store "C.sol" "c" 3]

/-- What is stored for the first file is still found, and what is stored for the second one is lost
after two other files were used. -/
theorem history_spec_threeFiles :
    IsStored threeFiles "A.sol" "a" 1 ∧ IsStored threeFiles "B.sol" "b" 2 ∧
    ((Cache.after 2 threeFiles).get "A.sol" "a").1 = some 1 ∧
    ((Cache.after 2 threeFiles).get "B.sol" "b").1 = none ∧
    (2 : Int) ≤ ((Cache.usedSince 2 threeFiles "B.sol").toFinset.card : Int) := by
  have hfound : ((Cache.after 2 threeFiles).get "A.sol" "a").1 = some 1 := by decide
  have hlost : ((Cache.after 2 threeFiles).get "B.sol" "b").1 = none := by decide
  have hstored : IsStored threeFiles "B.sol" "b" 2 :=
    ⟨[.store "A.sol" "a" 1], [.get "A.sol" "a", .store "C.sol" "c" 3], rfl, by
      simp [CacheOperation.Keeps]⟩
  obtain ⟨-, -, hlast, hmissed, -⟩ := history_spec 2 threeFiles
  rcases hmissed "B.sol" "b" 2 hstored with h | ⟨-, hfull⟩
  · rw [hlost] at h
    cases h
  · exact ⟨hlast _ _ _ hfound, hstored, hfound, hlost, hfull⟩

end AbiIndex.Scan
