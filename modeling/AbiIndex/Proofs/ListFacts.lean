import Mathlib.Data.List.Forall2
import Mathlib.Data.List.Nodup

/-!
# Facts about lists

What the library does not have on lists whose elements are told apart by a key, and on lists of
outcomes of which some are missing.
-/

namespace AbiIndex

variable {α β γ : Type}

/-- Nothing is left twice. -/
theorem nodup_eraseDups [BEq α] [LawfulBEq α] : ∀ xs : List α, xs.eraseDups.Nodup
  | [] => by simp
  | x :: xs => by
    rw [List.eraseDups_cons, List.nodup_cons, List.mem_eraseDups]
    exact ⟨by simp, nodup_eraseDups _⟩
termination_by xs => xs.length
decreasing_by exact Nat.lt_succ_of_le (List.length_filter_le _ _)

theorem eraseDups_of_nodup [BEq α] [LawfulBEq α] {xs : List α} (h : xs.Nodup) :
    xs.eraseDups = xs := by
  induction xs with
  | nil => rfl
  | cons x xs ih =>
    obtain ⟨hx, hxs⟩ := List.nodup_cons.1 h
    have hfilter : xs.filter (fun y => !y == x) = xs :=
      List.filter_eq_self.2 fun y hy => by simpa using fun heq : y = x => hx (heq ▸ hy)
    rw [List.eraseDups_cons, hfilter, ih hxs]

/-- Where elements are told apart by a key, the first one with a key is the one with it. -/
theorem find?_key_eq_some_iff [DecidableEq β] {f : α → β} {xs : List α} {x : α} {k : β}
    (h : (xs.map f).Nodup) : xs.find? (f · = k) = some x ↔ x ∈ xs ∧ f x = k := by
  constructor
  · intro hfind
    exact ⟨List.mem_of_find?_eq_some hfind, by simpa using List.find?_some hfind⟩
  · rintro ⟨hx, rfl⟩
    cases hfind : xs.find? (f · = f x) with
    | none => exact absurd (List.find?_eq_none.1 hfind x hx) (by simp)
    | some y =>
      have hkey : f y = f x := by simpa using List.find?_some hfind
      rw [List.inj_on_of_nodup_map h (List.mem_of_find?_eq_some hfind) hx hkey]

/-- Two or more are left if and only if some differ. -/
theorem two_le_length_eraseDups_iff [BEq α] [LawfulBEq α] {xs : List α} :
    2 ≤ xs.eraseDups.length ↔ ∃ x ∈ xs, ∃ y ∈ xs, x ≠ y := by
  have hnodup := nodup_eraseDups xs
  simp only [← List.mem_eraseDups (l := xs)]
  generalize xs.eraseDups = ys at hnodup ⊢
  match ys with
  | [] => simp
  | [y] => simp
  | y :: z :: ys =>
    have hne : y ≠ z := fun h => (List.nodup_cons.1 hnodup).1 (h ▸ List.mem_cons_self)
    exact iff_of_true (by simp) ⟨y, by simp, z, by simp, hne⟩

/-- A list is put together from its parts of each key. -/
theorem flatMap_filter_perm [DecidableEq β] {f : α → β} {keys : List β} {xs : List α}
    (hnodup : keys.Nodup) (hxs : ∀ x ∈ xs, f x ∈ keys) :
    (keys.flatMap fun k => xs.filter (f · = k)).Perm xs := by
  induction keys generalizing xs with
  | nil =>
    cases xs with
    | nil => exact .rfl
    | cons x xs => exact absurd (hxs x List.mem_cons_self) List.not_mem_nil
  | cons k keys ih =>
    rw [List.nodup_cons] at hnodup
    -- the parts of the other keys are those of what is left without the first part
    have hrest : ∀ l ∈ keys, xs.filter (f · = l) =
        (xs.filter fun x => !decide (f x = k)).filter (f · = l) := by
      intro l hl
      rw [List.filter_filter]
      refine List.filter_congr fun x _ => ?_
      by_cases h : f x = l
      · simp [h, show l ≠ k from fun heq => hnodup.1 (heq ▸ hl)]
      · simp [h]
    rw [List.flatMap_cons, List.flatMap_congr hrest]
    refine ((ih hnodup.2 fun x hx => ?_).append_left _).trans (List.filter_append_perm _ xs)
    obtain ⟨hx, hne⟩ := List.mem_filter.1 hx
    exact (List.mem_cons.1 (hxs x hx)).resolve_left (by simpa using hne)

/-- Among elements with different keys, only one contributes. -/
theorem flatMap_eq_of_unique {f : α → List γ} {key : α → β} {xs : List α} {x : α} (hx : x ∈ xs)
    (hnodup : (xs.map key).Nodup) (h : ∀ y ∈ xs, key y ≠ key x → f y = []) :
    xs.flatMap f = f x := by
  induction xs with
  | nil => cases hx
  | cons y xs ih =>
    rw [List.map_cons, List.nodup_cons] at hnodup
    rw [List.forall_mem_cons] at h
    rw [List.flatMap_cons]
    rcases List.mem_cons.1 hx with rfl | hx
    · have hrest : xs.flatMap f = [] := List.flatMap_eq_nil_iff.2 fun z hz =>
        h.2 z hz fun heq => hnodup.1 (heq ▸ List.mem_map_of_mem hz)
      rw [hrest, List.append_nil]
    · have hhead : f y = [] := h.1 fun heq => hnodup.1 (heq ▸ List.mem_map_of_mem hx)
      rw [hhead, List.nil_append]
      exact ih hx hnodup.2 h.2

/-- What has the tag of one of several elements with different tags comes from this element. -/
theorem filter_flatMap_of_tag [DecidableEq β] {f : α → List γ} {key : α → β} {tag : γ → β}
    {xs : List α} {x : α} (hx : x ∈ xs) (hnodup : (xs.map key).Nodup)
    (htag : ∀ x ∈ xs, ∀ y ∈ f x, tag y = key x) :
    (xs.flatMap f).filter (fun y => tag y = key x) = f x := by
  have hother : ∀ z ∈ xs, key z ≠ key x → (f z).filter (fun y => tag y = key x) = [] := by
    intro z hz hne
    rw [List.filter_eq_nil_iff]
    intro y hy heq
    exact hne ((htag z hz y hy).symm.trans (of_decide_eq_true heq))
  rw [List.filter_flatMap, flatMap_eq_of_unique hx hnodup hother, List.filter_eq_self]
  exact fun y hy => decide_eq_true (htag x hx y hy)

/-- The outcomes that are not missing belong to some of the elements, in their order. -/
theorem exists_sublist_of_filterMap_id {R : α → β → Prop} {xs : List α} {ys : List (Option β)}
    (h : List.Forall₂ (fun x y => ∀ b, y = some b → R x b) xs ys) :
    ∃ xs', xs'.Sublist xs ∧ List.Forall₂ R xs' (ys.filterMap id) := by
  induction h with
  | nil => exact ⟨[], .slnil, .nil⟩
  | @cons x y xs ys hxy _ ih =>
    obtain ⟨xs', hsub, hall⟩ := ih
    cases y with
    | none => exact ⟨xs', hsub.cons x, hall⟩
    | some b => exact ⟨x :: xs', hsub.cons_cons x, .cons (hxy b rfl) hall⟩

end AbiIndex
