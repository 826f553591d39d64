import AbiIndex.Proofs.Lexing
import Mathlib.Data.List.Chain

/-!
# Lexemes side by side

A text is read as the lexemes that it is put together from if each of them is written as its kind
demands and is not continued by the one behind it. What is read up to some place is put together in
this way, and the text behind it is read as it is read alone.

## Key results

- `exists_legible_of_visits`: what is read up to a place is put together from lexemes
- `scan_append`: behind lexemes that it does not continue, a text is read as it is read alone
- `scan_eq_ok_iff`: the texts that are read as given lexemes
-/

namespace AbiIndex.Source

namespace Lexeme

/-! ## Legible lexemes -/

theorem text_ne_nil_of_isWritten {l : Lexeme} (h : l.IsWritten) : l.text ≠ [] := by
  cases l with
  | word text => cases text with
    | nil => cases h
    | cons c cs => exact List.cons_ne_nil _ _
  | number text => cases text with
    | nil => cases h
    | cons c cs => exact List.cons_ne_nil _ _
  | mark text => cases text with
    | nil => cases h
    | cons c cs => exact List.cons_ne_nil _ _
  | _ => exact List.cons_ne_nil _ _

theorem isWritten_of_isSolid {l : Lexeme} (h : l.isSolid) : l.IsWritten := by
  cases l with
  | blank c => cases h
  | lineComment body => cases h
  | blockComment body => cases h
  | _ => exact h

/-- Lexemes that can be told apart when they are written one behind the other. -/
structure Legible (ls : List Lexeme) : Prop where
  written : ∀ l ∈ ls, l.IsWritten
  abuts : ls.IsChain Abuts

namespace Legible

variable {l : Lexeme} {xs ys : List Lexeme}

theorem nil : Legible [] := ⟨by simp, .nil⟩

theorem append (hx : Legible xs) (hy : Legible ys)
    (h : ∀ x ∈ xs, ∀ y ∈ ys.head?, x.Abuts y) : Legible (xs ++ ys) where
  written l hl := (List.mem_append.1 hl).elim (hx.written l) (hy.written l)
  abuts := hx.abuts.append hy.abuts fun x hx y hy => h x (List.mem_of_mem_getLast? hx) y hy

theorem cons (hl : l.IsWritten) (h : Legible xs) (habuts : ∀ x ∈ xs.head?, l.Abuts x) :
    Legible (l :: xs) where
  written := List.forall_mem_cons.2 ⟨hl, h.written⟩
  abuts := h.abuts.cons habuts

theorem of_infix (h : Legible xs) (hin : ys <:+: xs) : Legible ys :=
  ⟨fun l hl => h.written l (hin.subset hl), h.abuts.infix hin⟩

theorem of_suffix (h : Legible xs) (hsuf : ys <:+ xs) : Legible ys := h.of_infix hsuf.isInfix

theorem tail (h : Legible (l :: xs)) : Legible xs := h.of_suffix (List.suffix_cons l xs)

/-- The first lexeme is not continued by the text behind it. -/
theorem endsBefore (h : Legible (l :: xs)) : ∀ d ∈ (xs.flatMap text).head?, l.endsBefore d := by
  intro d hd
  cases xs with
  | nil => cases hd
  | cons x xs =>
    obtain ⟨c, cs, hx⟩ := List.exists_cons_of_ne_nil
      (text_ne_nil_of_isWritten (h.tail.written x List.mem_cons_self))
    rw [List.flatMap_cons, hx] at hd
    refine (List.isChain_cons.1 h.abuts).1 x rfl d ?_
    rw [hx]
    exact hd

end Legible

/-! ## Reading lexemes one behind the other -/

/-- Reading a text lexeme by lexeme comes to the place behind its first `n` characters. -/
inductive Visits : List Char → Nat → Prop
  | start (cs : List Char) : Visits cs 0
  | step {c : Char} {cs after : List Char} {l : Lexeme} {n : Nat}
      (hread : read c cs = .ok (l, after)) (h : Visits after n) :
      Visits (c :: cs) (l.text.length + n)

/-- What is read up to a place is put together from lexemes, and the character there does not
continue the last of them. -/
theorem exists_legible_of_visits {cs : List Char} {n : Nat} (h : Visits cs n) :
    ∃ ls, Legible ls ∧ ls.flatMap text = cs.take n ∧
      ∀ l ∈ ls.getLast?, ∀ d ∈ (cs.drop n).head?, l.endsBefore d := by
  induction h with
  | start cs => exact ⟨[], .nil, rfl, by simp⟩
  | @step c cs after l n hread _ ih =>
    obtain ⟨ls, hlegible, htext, hlast⟩ := ih
    obtain ⟨hsplit, hwritten, hends⟩ := read_eq_ok_iff.1 hread
    rw [hsplit, List.take_length_add_append, List.drop_length_add_append]
    refine ⟨l :: ls, .cons hwritten hlegible fun x hx d hd => hends d ?_,
      by rw [List.flatMap_cons, htext], ?_⟩
    · -- the text of the next lexeme is where the rest of the text begins
      obtain ⟨xs, rfl⟩ : ∃ xs, ls = x :: xs := ⟨_, (List.cons_head?_tail hx).symm⟩
      have hhead : (after.take n).head? = some d := by
        rw [← htext, List.flatMap_cons, List.head?_append, Option.mem_def.1 hd]
        rfl
      rw [← List.take_append_drop n after, List.head?_append, hhead]
      rfl
    · cases ls with
      | nil =>
        have hdrop : after.drop n = after := by
          conv => rhs; rw [← List.take_append_drop n after, ← htext]
          rfl
        intro l' hl' d hd
        cases hl'
        exact hends d (hdrop ▸ hd)
      | cons x xs => exact hlast

/-- Behind lexemes that it does not continue, a text is read as it is read alone. -/
theorem scan_append {ls : List Lexeme} {tail : List Char} (h : Legible ls)
    (hlast : ∀ l ∈ ls.getLast?, ∀ d ∈ tail.head?, l.endsBefore d) :
    scan (ls.flatMap text ++ tail) = ⟨ls ++ (scan tail).lexemes, (scan tail).failure⟩ := by
  induction ls with
  | nil => rfl
  | cons l ls ih =>
    have hends : ∀ d ∈ (ls.flatMap text ++ tail).head?, l.endsBefore d := by
      cases ls with
      | nil => exact hlast l rfl
      | cons x xs =>
        intro d hd
        obtain ⟨c, cs, hx⟩ := List.exists_cons_of_ne_nil
          (text_ne_nil_of_isWritten (h.tail.written x List.mem_cons_self))
        apply h.endsBefore
        rw [List.flatMap_cons, hx] at hd ⊢
        exact hd
    have hrest : ∀ l ∈ ls.getLast?, ∀ d ∈ tail.head?, l.endsBefore d := by
      cases ls with
      | nil => simp
      | cons x xs => exact hlast
    obtain ⟨c, cs, hl⟩ := List.exists_cons_of_ne_nil
      (text_ne_nil_of_isWritten (h.written l List.mem_cons_self))
    have hread : read c (cs ++ (ls.flatMap text ++ tail)) = .ok (l, ls.flatMap text ++ tail) :=
      read_eq_ok_iff.2 ⟨by rw [hl]; rfl, h.written l List.mem_cons_self, hends⟩
    rw [List.flatMap_cons, hl, List.append_assoc, List.cons_append, scan_of_read hread,
      ih h.tail hrest]
    rfl

/-- A text is read as some lexemes if it is what they are written as and they can be told apart. -/
theorem scan_eq_ok_iff {cs : List Char} {ls : List Lexeme} :
    scan cs = ⟨ls, none⟩ ↔ ls.flatMap text = cs ∧ Legible ls := by
  constructor
  · intro h
    fun_induction scan cs generalizing ls with
    | case1 =>
      cases h
      exact ⟨rfl, .nil⟩
    | case2 => cases h
    | case3 c rest l after hread ih =>
      obtain ⟨htext, hwritten, hends⟩ := read_eq_ok_iff.1 hread
      rw [Scan.push, Scan.mk.injEq] at h
      obtain ⟨rfl, hfailure⟩ := h
      obtain ⟨hafter, hlegible⟩ := ih (by rw [← hfailure])
      refine ⟨by rw [List.flatMap_cons, hafter, htext], .cons hwritten hlegible ?_⟩
      -- the text of the next lexeme is where the rest of the text begins
      intro l' hl' d hd
      apply hends
      obtain ⟨more, hmore⟩ : ∃ more, (scan after).lexemes = l' :: more :=
        ⟨_, (List.cons_head?_tail hl').symm⟩
      rw [hmore, List.flatMap_cons] at hafter
      rw [← hafter, List.head?_append, Option.mem_def.1 hd]
      rfl
  · rintro ⟨rfl, h⟩
    have hscan := scan_append h (show ∀ l ∈ ls.getLast?, ∀ d ∈ [].head?, l.endsBefore d by simp)
    rwa [List.append_nil, scan, List.append_nil] at hscan

end Lexeme

end AbiIndex.Source
