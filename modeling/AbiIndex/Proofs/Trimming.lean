import AbiIndex.Text.Lines
import Mathlib.Data.List.DropRight

/-!
# White space around texts

Trimming takes the white space away from both ends of a text, whatever stands in between.

## Key results

- `dropEndWhile_eq_rdropWhile`: dropping at the end is the operation of the library
- `trim_eq_self_iff`: the texts that trimming leaves as they are
- `trim_append`: what is left of such a text between white space
- `trim_eq_iff`: what trimming leaves of a text
-/

namespace AbiIndex.Text

theorem dropEndWhile_eq_rdropWhile (p : Char → Bool) (cs : List Char) :
    dropEndWhile p cs = cs.rdropWhile p := by
  induction cs with
  | nil => rfl
  | cons c cs ih =>
    have hcons : (c :: cs).rdropWhile p =
        if (cs.rdropWhile p).isEmpty then [c].rdropWhile p else c :: cs.rdropWhile p := by
      simp only [List.rdropWhile, List.reverse_cons, List.dropWhile_append, List.isEmpty_reverse]
      split
      · rfl
      · rw [List.reverse_append]
        rfl
    rw [dropEndWhile, ih, hcons, List.rdropWhile_singleton]
    cases cs.rdropWhile p <;> rfl

/-- Neither the first nor the last character is white space. -/
structure IsTrimmed (cs : List Char) : Prop where
  head : ∀ c ∈ cs.head?, isBlank c = false
  last : ∀ c ∈ cs.getLast?, isBlank c = false

theorem IsTrimmed.nil : IsTrimmed [] := ⟨by simp, by simp⟩

theorem IsTrimmed.dropWhile {cs : List Char} (h : IsTrimmed cs) : cs.dropWhile isBlank = cs := by
  cases cs with
  | nil => rfl
  | cons c cs => rw [List.dropWhile_cons_of_neg (by simp [h.head c rfl])]

/-- Nothing is dropped behind a last character that is not white space. -/
theorem trimEnd_of_getLast? {cs : List Char} (h : ∀ c ∈ cs.getLast?, isBlank c = false) :
    trimEnd cs = cs := by
  rw [trimEnd, dropEndWhile_eq_rdropWhile, List.rdropWhile_eq_self_iff]
  intro hne
  rw [h _ (List.getLast_mem_getLast? hne)]
  exact Bool.false_ne_true

theorem IsTrimmed.trimEnd {cs : List Char} (h : IsTrimmed cs) : trimEnd cs = cs :=
  trimEnd_of_getLast? h.last

/-- Trimming a text between white space gives it back if it has none at its ends. -/
theorem trim_append {front cs back : List Char} (hfront : ∀ c ∈ front, isBlank c)
    (h : IsTrimmed cs) (hback : ∀ c ∈ back, isBlank c) : trim (front ++ cs ++ back) = cs := by
  have hrdrop (cs : List Char) : (cs ++ back).rdropWhile isBlank = cs.rdropWhile isBlank := by
    rw [List.rdropWhile, List.reverse_append, List.dropWhile_append_of_pos (by simpa using hback)]
    rfl
  rw [trim, trimWhile, dropEndWhile_eq_rdropWhile, List.append_assoc,
    List.dropWhile_append_of_pos hfront]
  cases cs with
  | nil => rw [List.nil_append, List.dropWhile_eq_nil_iff.2 hback, List.rdropWhile_nil]
  | cons c cs =>
    rw [List.cons_append, List.dropWhile_cons_of_neg (by simp [h.head c rfl]), ← List.cons_append,
      hrdrop, ← dropEndWhile_eq_rdropWhile]
    exact h.trimEnd

/-- Nothing is left of white space. -/
theorem trim_of_blank {cs : List Char} (h : ∀ c ∈ cs, isBlank c) : trim cs = [] := by
  have htrim : trim (cs ++ [] ++ []) = [] := trim_append h .nil (by simp)
  rwa [List.append_nil, List.append_nil] at htrim

theorem trim_eq_nil_iff {cs : List Char} : trim cs = [] ↔ ∀ c ∈ cs, isBlank c := by
  refine ⟨fun h => ?_, trim_of_blank⟩
  rw [trim, trimWhile, dropEndWhile_eq_rdropWhile, List.rdropWhile_eq_nil_iff] at h
  -- what is left behind the white space at the front does not begin with white space
  cases hdrop : cs.dropWhile isBlank with
  | nil => exact List.dropWhile_eq_nil_iff.1 hdrop
  | cons c rest =>
    have hfirst := List.head?_dropWhile_not isBlank cs
    rw [hdrop] at hfirst h
    exact absurd (h c List.mem_cons_self) (by simpa using hfirst)

theorem trim_eq_self_iff {cs : List Char} : trim cs = cs ↔ IsTrimmed cs := by
  constructor
  · intro h
    rw [trim, trimWhile, dropEndWhile_eq_rdropWhile] at h
    -- nothing is dropped at either end
    have hright := (List.rdropWhile_prefix isBlank (cs.dropWhile isBlank)).length_le
    have hleft := List.dropWhile_suffix isBlank (l := cs)
    rw [h] at hright
    have hdrop := hleft.eq_of_length (Nat.le_antisymm hleft.length_le hright)
    rw [hdrop, List.rdropWhile_eq_self_iff] at h
    constructor
    · intro c hc
      have := List.head?_dropWhile_not isBlank cs
      rw [hdrop, Option.mem_def.1 hc] at this
      simpa using this
    · intro c hc
      obtain ⟨hne, rfl⟩ := List.mem_getLast?_eq_getLast hc
      exact Bool.eq_false_iff.2 (h hne)
  · intro h
    have htrim : trim ([] ++ cs ++ []) = cs := trim_append (by simp) h (by simp)
    rwa [List.nil_append, List.append_nil] at htrim

/-- Trimming leaves what stands between white space at the ends of a text. -/
theorem trim_eq_iff {cs text : List Char} : trim cs = text ↔ IsTrimmed text ∧
    ∃ front back, (∀ c ∈ front, isBlank c) ∧ (∀ c ∈ back, isBlank c) ∧
      cs = front ++ text ++ back := by
  constructor
  · rintro rfl
    have hdrop : cs.dropWhile isBlank = trim cs ++ (cs.dropWhile isBlank).rtakeWhile isBlank := by
      rw [trim, trimWhile, dropEndWhile_eq_rdropWhile, List.rdropWhile_append_rtakeWhile]
    refine ⟨trim_eq_self_iff.1 ?_, cs.takeWhile isBlank, (cs.dropWhile isBlank).rtakeWhile isBlank,
      fun c hc => List.mem_takeWhile_imp hc, fun c hc => List.mem_rtakeWhile_imp hc, ?_⟩
    · have hfirst : (trim cs).dropWhile isBlank = trim cs := by
        cases htrim : trim cs with
        | nil => rfl
        | cons c rest =>
          -- the first character kept is the first that is not white space
          have hhead := List.head?_dropWhile_not isBlank cs
          rw [hdrop, htrim] at hhead
          rw [List.dropWhile_cons_of_neg (by simpa using hhead)]
      rw [trim, trimWhile, hfirst, trim, trimWhile, dropEndWhile_eq_rdropWhile,
        dropEndWhile_eq_rdropWhile, List.rdropWhile_idempotent]
    · rw [List.append_assoc, ← hdrop, List.takeWhile_append_dropWhile]
  · rintro ⟨h, front, back, hfront, hback, rfl⟩
    exact trim_append hfront h hback

end AbiIndex.Text
