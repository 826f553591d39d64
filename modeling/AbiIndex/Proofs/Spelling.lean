import AbiIndex.Proofs.CommentInvisibility
import AbiIndex.Proofs.Delimiting
import AbiIndex.Proofs.Provenance

/-!
# Texts and the lexemes they are read as

What ends a lexeme, the texts that are put together from words, numbers and marks, and the tokens
that they are read as.

## Key results

- `exists_legible_of_plain`: a text without white space, quotes and slashes is read as words,
  numbers and marks
- `tokenize_of_legible`: the tokens of a text that is put together from lexemes
- `isSolid_lexeme_of_tokenize`: a token of a text can be written again
-/

namespace AbiIndex.Source

open AbiIndex.Text

namespace Lexeme

/-! ## What ends a lexeme -/

/-- The characters that continue nothing that can be a token. -/
def breaks : List Char := [' ', ')', '[', ']']

theorem endsBefore_of_break {l : Lexeme} (h : l.isSolid) {d : Char} (hd : d ∈ breaks) :
    l.endsBefore d := by
  have hpart : ∀ d ∈ breaks, isWordPart d = false ∧ isNumberPart d = false := by
    simp only [breaks, List.forall_mem_cons, List.not_mem_nil, false_implies, implies_true]
    decide
  have hjoins : ∀ c, joins c d = false := by
    have hsecond : ∀ d ∈ breaks, (∀ m ∈ doubleMarks, m.2 ≠ d) ∧ d ≠ '/' ∧ d ≠ '*' := by
      simp only [breaks, List.forall_mem_cons, List.not_mem_nil, false_implies, implies_true]
      decide
    obtain ⟨hdouble, hslash, hstar⟩ := hsecond d hd
    intro c
    simp only [joins, hslash, hstar, decide_false, Bool.or_self, Bool.and_false, Bool.or_false,
      List.contains_eq_mem, decide_eq_false_iff_not]
    exact fun hmem => hdouble _ hmem rfl
  cases l with
  | lineComment body => cases h
  | word text => simp [endsBefore, hpart d hd]
  | number text => simp [endsBefore, hpart d hd]
  | mark text =>
    rcases text with _ | ⟨c, _ | ⟨c', cs⟩⟩
    · rfl
    · simp [endsBefore, hjoins c]
    · rfl
  | _ => rfl

/-- The characters that are marks by themselves, whatever follows. -/
def openers : List Char := ['(', '[', '.']

theorem joins_of_opener {c : Char} (hc : c ∈ openers) (d : Char) : joins c d = false := by
  have hfirst : ∀ c ∈ openers, (∀ m ∈ doubleMarks, m.1 ≠ c) ∧ c ≠ '/' := by
    simp only [openers, List.forall_mem_cons, List.not_mem_nil, false_implies, implies_true]
    decide
  obtain ⟨hdouble, hslash⟩ := hfirst c hc
  simp only [joins, hslash, decide_false, Bool.false_and, Bool.or_false, List.contains_eq_mem,
    decide_eq_false_iff_not]
  exact fun hmem => hdouble _ hmem rfl

theorem abuts_of_opener {c : Char} (hc : c ∈ openers) (l : Lexeme) : (mark [c]).Abuts l := by
  intro d _
  simp [endsBefore, joins_of_opener hc]

theorem abuts_of_break {l l' : Lexeme} (h : l.isSolid)
    (hl' : l'.text.head?.any (· ∈ breaks)) : l.Abuts l' := by
  intro d hd
  rw [Option.mem_def.1 hd, Option.any_some, decide_eq_true_eq] at hl'
  exact endsBefore_of_break h hl'

theorem abuts_of_blank (c : Char) (l : Lexeme) : (blank c).Abuts l := fun _ _ => rfl

/-! ## Lexemes with a space between any two -/

theorem mem_intersperse {l : Lexeme} {ls : List Lexeme} (h : l ∈ ls.intersperse (blank ' ')) :
    l = blank ' ' ∨ l ∈ ls := by
  induction ls with
  | nil => cases h
  | cons x ls ih =>
    cases ls with
    | nil => exact .inr h
    | cons y ls =>
      rw [List.intersperse_cons_cons, List.mem_cons, List.mem_cons] at h
      rcases h with rfl | rfl | h
      · exact .inr List.mem_cons_self
      · exact .inl rfl
      · exact (ih h).imp_right (List.mem_cons_of_mem x)

theorem legible_intersperse {ls : List Lexeme} (h : ∀ l ∈ ls, l.isSolid) :
    Legible (ls.intersperse (blank ' ')) := by
  induction ls with
  | nil => exact .nil
  | cons l ls ih =>
    obtain ⟨hl, hls⟩ := List.forall_mem_cons.1 h
    cases ls with
    | nil => exact .cons (isWritten_of_isSolid hl) .nil (by simp)
    | cons l' ls =>
      rw [List.intersperse_cons_cons]
      refine .cons (isWritten_of_isSolid hl) (.cons (by decide : isBlank ' ') (ih hls) ?_) ?_
      · exact fun l _ => abuts_of_blank _ l
      · rintro _ ⟨⟩
        exact abuts_of_break hl (by decide)

/-- The values with spaces in between are the text of the lexemes with spaces in between. -/
theorem text_intersperse {ls : List Lexeme} (h : ∀ l ∈ ls, l.value.toList = l.text) :
    (ls.intersperse (blank ' ')).flatMap text = (" ".intercalate (ls.map value)).toList := by
  induction ls with
  | nil => rfl
  | cons l ls ih =>
    obtain ⟨hl, hls⟩ := List.forall_mem_cons.1 h
    cases ls with
    | nil => simp [hl]
    | cons l' ls =>
      rw [List.intersperse_cons_cons, List.flatMap_cons, List.flatMap_cons, ih hls]
      simp only [List.map_cons, String.intercalate_cons_cons, String.toList_append, hl,
        List.append_assoc]
      rfl

/-! ## Texts without white space, quotes and slashes -/

/-- The characters that only words, numbers and marks are made of, without parentheses and
brackets. -/
def isPlain (c : Char) : Bool := !isBlank c && c ∉ ['"', '\'', '/', '(', ')', '[', ']']

theorem exists_read_of_isPlain {c : Char} (h : isPlain c) (cs : List Char) :
    ∃ l rest, read c cs = .ok (l, rest) := by
  simp only [isPlain, Bool.and_eq_true, Bool.not_eq_true', decide_eq_true_eq, List.mem_cons,
    not_or] at h
  obtain ⟨hblank, hquote, hquote', hslash, -⟩ := h
  rw [read, if_neg (by simp [hblank]), if_neg (fun h => hslash h.1), if_neg (fun h => hslash h.1),
    if_neg (by simp [hquote, hquote'])]
  split
  · exact ⟨_, _, rfl⟩
  · split
    · exact ⟨_, _, rfl⟩
    · exact ⟨_, _, rfl⟩

/-- Words, numbers and marks other than parentheses and brackets. -/
structure Plain (l : Lexeme) : Prop where
  solid : l.isSolid
  value : l.value.toList = l.text
  text : ∀ c ∈ l.text, isPlain c

/-- The quotes of a quoted text are not part of its value. -/
theorem kind_ne_quoted {l : Lexeme} (h : l.isSolid) (hvalue : l.value.toList = l.text) :
    l.kind ≠ .quoted := by
  cases l with
  | quoted quote body =>
    have := congrArg List.length hvalue
    simp only [Lexeme.value, Lexeme.text, String.toList_ofList, List.length_cons,
      List.length_append] at this
    omega
  | word text => exact TokenKind.noConfusion
  | number text => exact TokenKind.noConfusion
  | mark text => exact TokenKind.noConfusion
  | _ => cases h

theorem plain_of_isWritten {l : Lexeme} (h : l.IsWritten) (htext : ∀ c ∈ l.text, isPlain c) :
    l.Plain := by
  cases l with
  | blank c =>
    have hc := htext c (List.mem_singleton.2 rfl)
    rw [isPlain, show isBlank c = true from h] at hc
    cases hc
  | lineComment body => exact absurd (htext '/' (by simp [Lexeme.text])) (by decide)
  | blockComment body => exact absurd (htext '/' (by simp [Lexeme.text])) (by decide)
  | quoted quote body =>
    have hquote : quote = '"' ∨ quote = '\'' := by
      simp only [IsWritten, isSolid, Bool.and_eq_true, Bool.or_eq_true, decide_eq_true_eq] at h
      exact h.1
    have hc := htext quote (by simp [Lexeme.text])
    rcases hquote with rfl | rfl <;> exact absurd hc (by decide)
  | word text => exact ⟨h, String.toList_ofList, htext⟩
  | number text => exact ⟨h, String.toList_ofList, htext⟩
  | mark text => exact ⟨h, String.toList_ofList, htext⟩

/-- A text of plain characters is read as words, numbers and marks. -/
theorem exists_legible_of_plain {cs : List Char} (h : ∀ c ∈ cs, isPlain c) :
    ∃ ls, Legible ls ∧ ls.flatMap text = cs ∧ ∀ l ∈ ls, l.Plain := by
  have hclosed : (scan cs).failure = none := by
    fun_induction scan cs with
    | case1 => rfl
    | case2 c rest what hread =>
      obtain ⟨l, after, hok⟩ := exists_read_of_isPlain (h c List.mem_cons_self) rest
      rw [hread] at hok
      cases hok
    | case3 c rest l after hread ih =>
      refine ih fun d hd => h d ?_
      rw [read_text hread]
      exact List.mem_append_right _ hd
  obtain ⟨htext, hlegible⟩ := scan_eq_ok_iff.1 (show scan cs = ⟨(scan cs).lexemes, none⟩ by
    rw [← hclosed])
  refine ⟨_, hlegible, htext, fun l hl => plain_of_isWritten (hlegible.written l hl) ?_⟩
  intro c hc
  apply h
  rw [← htext]
  exact List.mem_flatMap.2 ⟨l, hl, hc⟩

theorem Plain.ne_sign {l : Lexeme} (h : l.Plain) {v : String} (hv : v ∈ ["(", ")", "[", "]"]) :
    l ≠ sign v := by
  rintro rfl
  have hnot : ∀ v ∈ ["(", ")", "[", "]"], v.toList.all isPlain = false := by decide
  have hplain : v.toList.all isPlain := List.all_eq_true.2 h.text
  rw [hnot v hv] at hplain
  cases hplain

end Lexeme

/-! ## Tokens of lexemes -/

/-- The lexemes of a sequence that become tokens. -/
def symbols (ls : List Lexeme) : List Lexeme := ls.filter (·.token?.isSome)

theorem symbols_of_isSolid {ls : List Lexeme} (h : ∀ l ∈ ls, l.isSolid) : symbols ls = ls := by
  rw [symbols, List.filter_eq_self]
  intro l hl
  rw [Lexeme.token?_of_isSolid (h l hl)]
  rfl

@[simp] theorem symbols_append (xs ys : List Lexeme) :
    symbols (xs ++ ys) = symbols xs ++ symbols ys := List.filter_append ..

@[simp] theorem symbols_blank_cons (c : Char) (ls : List Lexeme) :
    symbols (.blank c :: ls) = symbols ls := rfl

@[simp] theorem symbols_term_cons (text : String) (ls : List Lexeme) :
    symbols (.term text :: ls) = .term text :: symbols ls := rfl

@[simp] theorem symbols_sign_cons (text : String) (ls : List Lexeme) :
    symbols (.sign text :: ls) = .sign text :: symbols ls := rfl

theorem symbols_intersperse (ls : List Lexeme) :
    symbols (ls.intersperse (.blank ' ')) = symbols ls := by
  induction ls with
  | nil => rfl
  | cons l ls ih =>
    cases ls with
    | nil => rfl
    | cons l' ls =>
      rw [List.intersperse_cons_cons, ← List.singleton_append, symbols_append, symbols_blank_cons,
        ih, ← symbols_append, List.singleton_append]

theorem symbols_spaced (layout : Layout) (here : Cursor) {ls : List Lexeme}
    (h : ∀ l ∈ ls, l.isSolid) : symbols (spaced layout here ls) = ls := by
  have hblanks : ∀ bs : List Char, symbols (bs.map .blank) = [] := by
    intro bs
    rw [symbols, List.filter_eq_nil_iff]
    intro l hl
    obtain ⟨b, -, rfl⟩ := List.mem_map.1 hl
    simp [Lexeme.token?]
  induction ls generalizing here with
  | nil => rfl
  | cons l ls ih =>
    obtain ⟨hl, hls⟩ := List.forall_mem_cons.1 h
    have hfirst : symbols [l] = [l] := symbols_of_isSolid (by simpa using hl)
    rw [spaced, ← List.singleton_append, symbols_append, symbols_append, hblanks, ih _ hls, hfirst]
    rfl

/-- Apart from their places, the tokens of a text that is put together from lexemes are those of the
lexemes with white space in between. -/
theorem tokenize_of_legible (layout : Layout) {ls : List Lexeme} (h : Lexeme.Legible ls)
    (hsolid : ∀ l ∈ symbols ls, l.isSolid) :
    ∃ ts, tokenize (ls.flatMap Lexeme.text) = .ok ts ∧
      ts.map Token.bare = (tokens layout .start (symbols ls)).map Token.bare := by
  have hscan := Lexeme.scan_eq_ok_iff.2 ⟨rfl, h⟩
  refine ⟨tokensFrom .start ls, ?_, ?_⟩
  · rw [tokenize, hscan]
  · rw [← tokensFrom_spaced layout .start rfl hsolid]
    refine (map_bare_tokensFrom rfl rfl ls).trans (.trans ?_ (map_bare_tokensFrom rfl rfl _).symm)
    rw [← symbols, ← symbols, symbols_spaced layout .start hsolid]

/-! ## Lexemes of tokens -/

/-- Every token of a text that is no quoted text can be written again. -/
theorem isSolid_lexeme_of_tokenize {text : List Char} {ts : List Token} (h : tokenize text = .ok ts)
    {t : Token} (ht : t ∈ ts) (hquoted : t.kind ≠ .quoted) :
    t.lexeme.isSolid ∧ t.value.toList = t.lexeme.text := by
  obtain ⟨-, rfl⟩ := tokenize_eq_ok_iff.1 h
  have hwritten := isWritten_of_mem_scan text
  generalize (Lexeme.scan text).lexemes = ls at ht hwritten
  generalize Cursor.start = here at ht
  induction ls generalizing here with
  | nil => cases ht
  | cons l ls ih =>
    obtain ⟨hl, hls⟩ := List.forall_mem_cons.1 hwritten
    rw [tokensFrom] at ht
    split at ht
    · rename_i kind value htoken
      rcases List.mem_cons.1 ht with rfl | ht
      · -- the lexeme of the token is the one that it was made of
        have hlexeme : (here.token l kind value).lexeme = l ∧ l.isSolid ∧
            value.toList = l.text := by
          cases l with
          | word text =>
            cases htoken
            exact ⟨by simp [Token.lexeme, Cursor.token], hl, by simp [Lexeme.text]⟩
          | number text =>
            cases htoken
            exact ⟨by simp [Token.lexeme, Cursor.token], hl, by simp [Lexeme.text]⟩
          | mark text =>
            cases htoken
            exact ⟨by simp [Token.lexeme, Cursor.token], hl, by simp [Lexeme.text]⟩
          | quoted quote body =>
            cases htoken
            exact absurd rfl hquoted
          | _ => cases htoken
        rw [hlexeme.1]
        exact hlexeme.2
      · exact ih hls _ ht
    · exact ih hls _ ht

end AbiIndex.Source
