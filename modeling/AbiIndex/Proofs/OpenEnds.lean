import AbiIndex.Proofs.CommentInvisibility
import Mathlib.Data.List.DropRight

/-!
# Texts that cannot be read

A text cannot be read if something is opened in it that is never closed: a block comment without its
closing mark, or a quote without a second one on the same line. Backslashes protect the characters
behind them; whether a character is protected shows in the number of backslashes directly in front
of it.

## Key results

- `readComment_eq_none_iff`: a block comment is never closed if no closing mark follows
- `readQuoted_eq_none_iff`: a quoted text is never closed if no unprotected quote follows in front
  of all unprotected line breaks
- `read_eq_error_iff`: these are the only failures
- `scan_failure_iff`: a text cannot be read exactly if reading it comes to such a place
- `tokenize_eq_error_iff_leavesOpen`: the failure says what is opened there, and on which line
-/

namespace AbiIndex.Source

open AbiIndex.Text

/-! ## Protected characters -/

/-- The character behind the front part of a quoted text is protected by a backslash: an odd number
of backslashes stands directly in front of it. -/
def Protects (front : List Char) : Prop := (front.rtakeWhile (· = '\\')).length % 2 = 1

/-- The text that a quote opens is closed: another such quote follows that is not protected, and all
line breaks in front of that are. -/
def IsClosedBy (quote : Char) (cs : List Char) : Prop :=
  ∃ front back, cs = front ++ quote :: back ∧ ¬ Protects front ∧
    ∀ f b, front = f ++ '\n' :: b → Protects f

theorem not_protects_nil : ¬ Protects [] := by simp [Protects]

/-- What stands in front of another character than a backslash does not matter. -/
theorem protects_cons_iff {c : Char} (hc : c ≠ '\\') (front : List Char) :
    Protects (c :: front) ↔ Protects front := by
  rw [Protects, Protects, List.rtakeWhile, List.rtakeWhile, List.reverse_cons,
    List.takeWhile_append]
  split
  · rename_i hall
    -- all of the front part are backslashes, and this character ends their row
    rw [List.takeWhile_cons_of_neg (by simpa using hc), List.append_nil,
      (List.takeWhile_prefix _).eq_of_length hall]
  · rfl

/-- A backslash protects the next character and nothing more. -/
theorem protects_cons_cons_iff (c : Char) (front : List Char) :
    Protects ('\\' :: c :: front) ↔ Protects front := by
  rw [Protects, Protects, List.rtakeWhile, List.rtakeWhile, List.reverse_cons, List.reverse_cons,
    List.append_assoc, List.takeWhile_append]
  split
  · rename_i hall
    have hfront := (List.takeWhile_prefix (· = '\\')).eq_of_length hall
    rw [hfront]
    by_cases hc : c = '\\'
    -- two more backslashes do not change whether their number is odd
    · simp [hc, Nat.add_assoc]
    · simp [hc]
  · rfl

/-! ## Closing a comment and a quote -/

theorem readComment_eq_none_iff {cs : List Char} :
    Lexeme.readComment cs = none ↔ ¬ ['*', '/'] <:+: cs := by
  constructor
  · intro h hin
    fun_induction Lexeme.readComment cs with
    | case1 => simp at hin
    | case2 => cases h
    | case3 c rest hopen ih =>
      rcases List.infix_cons_iff.1 hin with ⟨more, heq⟩ | hin
      · cases heq
        exact hopen _ rfl rfl
      · exact ih (Option.map_eq_none_iff.1 h) hin
  · intro h
    cases hread : Lexeme.readComment cs with
    | none => rfl
    | some found =>
      obtain ⟨body, rest⟩ := found
      refine absurd ⟨body, rest, ?_⟩ h
      rw [Lexeme.readComment_text hread]
      simp

/-- A quoted text whose first character is neither a backslash nor a line break nor the quote is
closed exactly if what follows is. -/
theorem isClosedBy_cons_iff {quote c : Char} {cs : List Char} (hc : c ≠ '\\') (hbreak : c ≠ '\n')
    (hquote : c ≠ quote) : IsClosedBy quote (c :: cs) ↔ IsClosedBy quote cs := by
  constructor
  · rintro ⟨front, back, heq, hend, hbreaks⟩
    cases front with
    | nil => exact absurd (List.cons.inj heq).1 hquote
    | cons d front =>
      cases heq
      refine ⟨front, back, rfl, fun h => hend ((protects_cons_iff hc front).2 h), ?_⟩
      rintro f b rfl
      exact (protects_cons_iff hc f).1 (hbreaks (c :: f) b rfl)
  · rintro ⟨front, back, rfl, hend, hbreaks⟩
    refine ⟨c :: front, back, rfl, fun h => hend ((protects_cons_iff hc front).1 h), ?_⟩
    intro f b heq
    cases f with
    | nil => exact absurd (List.cons.inj heq).1 hbreak
    | cons d f =>
      cases heq
      exact (protects_cons_iff hc f).2 (hbreaks f b rfl)

/-- A backslash and the character behind it are passed over. -/
theorem isClosedBy_cons_cons_iff {quote c : Char} {cs : List Char} (hquote : quote ≠ '\\') :
    IsClosedBy quote ('\\' :: c :: cs) ↔ IsClosedBy quote cs := by
  have hprotects : Protects ['\\'] := by simp [Protects, List.rtakeWhile]
  constructor
  · rintro ⟨front, back, heq, hend, hbreaks⟩
    match front with
    | [] => exact absurd (List.cons.inj heq).1.symm hquote
    | [d] =>
      -- the protected character closes nothing
      cases heq
      exact absurd hprotects hend
    | d :: d' :: front =>
      cases heq
      refine ⟨front, back, rfl, fun h => hend ((protects_cons_cons_iff c front).2 h), ?_⟩
      rintro f b rfl
      exact (protects_cons_cons_iff c f).1 (hbreaks ('\\' :: c :: f) b rfl)
  · rintro ⟨front, back, rfl, hend, hbreaks⟩
    refine ⟨'\\' :: c :: front, back, rfl,
      fun h => hend ((protects_cons_cons_iff c front).1 h), ?_⟩
    intro f b heq
    match f with
    | [] => exact absurd (List.cons.inj heq).1 (by decide)
    | [d] =>
      cases heq
      exact hprotects
    | d :: d' :: f =>
      cases heq
      exact (protects_cons_cons_iff c f).2 (hbreaks f b rfl)

theorem readQuoted_eq_none_iff {quote : Char} (hquote : quote = '"' ∨ quote = '\'')
    (cs : List Char) : Lexeme.readQuoted quote cs = none ↔ ¬ IsClosedBy quote cs := by
  have hescape : quote ≠ '\\' := by rcases hquote with rfl | rfl <;> decide
  fun_induction Lexeme.readQuoted quote cs with
  | case1 => simp [IsClosedBy]
  | case2 c rest ih =>
    rw [isClosedBy_cons_cons_iff hescape]
    exact Option.map_eq_none_iff.trans ih
  | case3 c rest hrest hc =>
    -- a line break that is not protected, or a backslash with nothing behind it
    refine iff_of_true rfl ?_
    rintro ⟨front, back, heq, -, hbreaks⟩
    cases front with
    | nil =>
      obtain rfl := (List.cons.inj heq).1
      rcases hc with rfl | rfl
      · exact hescape rfl
      · exact absurd hquote (by decide)
    | cons d front =>
      cases heq
      rcases hc with rfl | rfl
      · cases front with
        | nil => exact hrest _ _ rfl rfl
        | cons d front => exact hrest _ _ rfl rfl
      · exact not_protects_nil (hbreaks [] front rfl)
  | case4 rest hrest hc =>
    refine iff_of_false (by simp) (not_not.2 ⟨[], rest, rfl, not_protects_nil, ?_⟩)
    intro f b heq
    simp at heq
  | case5 c rest hrest hc hne ih =>
    rw [not_or] at hc
    rw [isClosedBy_cons_iff hc.1 hc.2 hne]
    exact Option.map_eq_none_iff.trans ih

/-! ## What is never closed -/

/-- At the front of the text something is opened that is never closed in it. -/
inductive LeavesOpen : List Char → Unclosed → Prop
  | comment {cs : List Char} (h : ¬ ['*', '/'] <:+: cs) : LeavesOpen ('/' :: '*' :: cs) .comment
  | quote {quote : Char} {cs : List Char} (hquote : quote = '"' ∨ quote = '\'')
      (h : ¬ IsClosedBy quote cs) : LeavesOpen (quote :: cs) .quote

/-- Reading a lexeme fails exactly if it is never closed. -/
theorem read_eq_error_iff {c : Char} {cs : List Char} {what : Unclosed} :
    Lexeme.read c cs = .error what ↔ LeavesOpen (c :: cs) what := by
  constructor
  · intro h
    unfold Lexeme.read at h
    split at h
    · cases h
    split at h
    · cases h
    split at h
    · rename_i hopen
      split at h
      · rename_i hread
        cases h
        rw [hopen.1, Lexeme.eq_cons_drop_of_head? hopen.2]
        exact .comment (readComment_eq_none_iff.1 hread)
      · cases h
    split at h
    · rename_i hquote
      split at h
      · rename_i hread
        cases h
        exact .quote hquote ((readQuoted_eq_none_iff hquote cs).1 hread)
      · cases h
    split at h
    · cases h
    split at h <;> cases h
  · intro h
    cases h with
    | @comment cs h =>
      rw [Lexeme.read, if_neg (by decide), if_neg (by simp), if_pos ⟨rfl, rfl⟩, List.drop_one,
        List.tail_cons, readComment_eq_none_iff.2 h]
    | quote hquote h =>
      have hblank : isBlank c = false := by rcases hquote with rfl | rfl <;> decide
      have hslash : c ≠ '/' := by rcases hquote with rfl | rfl <;> decide
      rw [Lexeme.read, if_neg (by simp [hblank]), if_neg (fun h => hslash h.1),
        if_neg (fun h => hslash h.1), if_pos hquote, (readQuoted_eq_none_iff hquote cs).2 h]

/-- The lexemes of a text are what stands at its front. -/
theorem flatMap_text_scan_isPrefix (cs : List Char) :
    (Lexeme.scan cs).lexemes.flatMap Lexeme.text <+: cs := by
  fun_induction Lexeme.scan cs with
  | case1 => exact List.nil_prefix
  | case2 => exact List.nil_prefix
  | case3 c rest l after hread ih =>
    rw [Scan.push, List.flatMap_cons, Lexeme.read_text hread]
    exact (List.prefix_append_right_inj _).2 ih

/-- Reading a text fails exactly if it comes to something that is never closed, and the lexemes end
there. -/
theorem scan_failure_iff {cs : List Char} {what : Unclosed} {n : Nat} :
    (Lexeme.scan cs).failure = some what ∧
        ((Lexeme.scan cs).lexemes.flatMap Lexeme.text).length = n ↔
      Lexeme.Visits cs n ∧ LeavesOpen (cs.drop n) what := by
  fun_induction Lexeme.scan cs generalizing n with
  | case1 =>
    refine iff_of_false (by simp) ?_
    rintro ⟨⟨⟩, ⟨⟩⟩
  | case2 c rest what' hread =>
    -- no lexeme can be read here, so that no later place is visited
    constructor
    · rintro ⟨hwhat, rfl⟩
      exact ⟨.start _, read_eq_error_iff.1 (hread.trans (congrArg _ (Option.some.inj hwhat)))⟩
    · rintro ⟨hvisits, hopen⟩
      cases hvisits with
      | start =>
        cases hread.symm.trans (read_eq_error_iff.2 hopen)
        exact ⟨rfl, rfl⟩
      | step hread' => cases hread.symm.trans hread'
  | case3 c rest l after hread ih =>
    have hdrop : ∀ m, (c :: rest).drop (l.text.length + m) = after.drop m := by
      intro m
      rw [Lexeme.read_text hread, List.drop_length_add_append]
    -- a lexeme is read here, so that what is never closed stands behind it
    rw [Scan.push, List.flatMap_cons, List.length_append]
    constructor
    · rintro ⟨hwhat, rfl⟩
      obtain ⟨hvisits, hopen⟩ := ih.1 ⟨hwhat, rfl⟩
      exact ⟨.step hread hvisits, (hdrop _).symm ▸ hopen⟩
    · rintro ⟨hvisits, hopen⟩
      cases hvisits with
      | start => cases hread.symm.trans (read_eq_error_iff.2 hopen)
      | step hread' hvisits =>
        cases hread.symm.trans hread'
        obtain ⟨hwhat, rfl⟩ := ih.2 ⟨hvisits, hdrop _ ▸ hopen⟩
        exact ⟨hwhat, rfl⟩

/-- The failure says what is never closed and on which line it is opened. -/
theorem tokenize_eq_error_iff_leavesOpen {text : List Char} {e : Unterminated} :
    tokenize text = .error e ↔ ∃ n, Lexeme.Visits text n ∧ LeavesOpen (text.drop n) e.what ∧
      e.line = 1 + (text.take n).count '\n' := by
  have htake := List.prefix_iff_eq_take.1 (flatMap_text_scan_isPrefix text)
  rw [tokenize]
  constructor
  · intro h
    split at h
    · cases h
    · rename_i what hwhat
      cases h
      obtain ⟨hvisits, hopen⟩ := scan_failure_iff.1 ⟨hwhat, rfl⟩
      exact ⟨_, hvisits, hopen, congrArg (1 + List.count '\n' ·) htake⟩
  · rintro ⟨n, hvisits, hopen, hline⟩
    obtain ⟨hwhat, rfl⟩ := scan_failure_iff.2 ⟨hvisits, hopen⟩
    obtain ⟨what, line⟩ := e
    rw [← htake] at hline
    dsimp only at hwhat hline ⊢
    rw [hwhat, hline]

end AbiIndex.Source
