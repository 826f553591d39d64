/-!
# Order of texts

Texts are ordered by the code points of their characters.
-/

namespace AbiIndex.Text

/-- Whether `a` does not come after `b`. -/
def noLater (a b : String) : Bool := !decide (b < a)

/-- The texts in increasing order. -/
def sorted (texts : List String) : List String := texts.mergeSort noLater

theorem noLater_iff {a b : String} : noLater a b = true ↔ a ≤ b := by
  rw [noLater, Bool.not_eq_true', decide_eq_false_iff_not, String.not_lt]

theorem noLater_total (a b : String) : (noLater a b || noLater b a) = true := by
  rw [Bool.or_eq_true, noLater_iff, noLater_iff]
  exact String.le_total a b

theorem lt_of_le_of_ne {a b : String} (hle : a ≤ b) (hne : a ≠ b) : a < b :=
  String.not_le.1 fun hge => hne (String.le_antisymm hle hge)

/-- What is sorted by a text comes in the order of this text. -/
theorem pairwise_mergeSort_by {α : Type} (key : α → String) (xs : List α) :
    (xs.mergeSort fun a b => noLater (key a) (key b)).Pairwise fun a b => key a ≤ key b := by
  have h : (xs.mergeSort fun a b => noLater (key a) (key b)).Pairwise
      fun a b => noLater (key a) (key b) = true := by
    refine List.pairwise_mergeSort (fun a b c hab hbc => ?_) (fun a b => noLater_total _ _) xs
    rw [noLater_iff] at hab hbc ⊢
    exact String.le_trans hab hbc
  exact h.imp noLater_iff.1

theorem pairwise_sorted (texts : List String) : (sorted texts).Pairwise (· ≤ ·) :=
  pairwise_mergeSort_by id texts

theorem mem_sorted {a : String} {texts : List String} : a ∈ sorted texts ↔ a ∈ texts :=
  List.mem_mergeSort

theorem nodup_sorted {texts : List String} (h : texts.Nodup) : (sorted texts).Nodup :=
  (List.mergeSort_perm texts noLater).nodup_iff.2 h

/-- Texts that differ are in strict order. -/
theorem pairwise_lt_sorted {texts : List String} (h : texts.Nodup) :
    (sorted texts).Pairwise (· < ·) :=
  (pairwise_sorted texts).imp₂ (fun _ _ => lt_of_le_of_ne) (nodup_sorted h)

end AbiIndex.Text
