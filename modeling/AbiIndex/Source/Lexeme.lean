import AbiIndex.Text.Blank
import AbiIndex.Text.Digit

/-!
# Lexemes

A source text is a sequence of lexemes: white space, comments, quoted literals, words, numbers and
punctuation marks. Reading goes from left to right and always takes the lexeme that the next
characters open; the only way to fail is a block comment or a quoted literal that is never closed.

* `Lexeme.read` takes one lexeme from the front of a text,
* `Lexeme.scan` takes all of them,
* `Lexeme.text` gives back the characters of a lexeme.
-/

namespace AbiIndex.Source

open AbiIndex.Text

/-- A piece of source text. -/
inductive Lexeme where
  /-- One character of white space. -/
  | blank (c : Char)
  /-- The text behind the two slashes, up to the end of the line. -/
  | lineComment (body : List Char)
  /-- The text between the opening and the closing mark. -/
  | blockComment (body : List Char)
  /-- The text between two quotes, with its escapes as they are written. -/
  | quoted (quote : Char) (body : List Char)
  | word (text : List Char)
  | number (text : List Char)
  | mark (text : List Char)
deriving DecidableEq

/-- What was opened and never closed. -/
inductive Unclosed where
  | comment
  | quote
deriving DecidableEq

namespace Lexeme

/-- The characters of a lexeme as they stand in the source. -/
def text : Lexeme → List Char
  | blank c => [c]
  | lineComment body => '/' :: '/' :: body
  | blockComment body => '/' :: '*' :: (body ++ ['*', '/'])
  | quoted quote body => quote :: (body ++ [quote])
  | word text => text
  | number text => text
  | mark text => text

/-- Words start with an ASCII letter, an underscore or a dollar sign. -/
def isWordStart (c : Char) : Bool := c.isAlpha || c == '_' || c == '$'

/-- Words go on with the same characters and ASCII digits. -/
def isWordPart (c : Char) : Bool := isWordStart c || c.isDigit

/-- Numbers go on with the characters of a word and the point. -/
def isNumberPart (c : Char) : Bool := isWordPart c || c == '.'

/-- The marks of two characters. Every other mark is a single character. -/
def doubleMarks : List (Char × Char) :=
  [('=', '>'), ('=', '='), ('!', '='), ('<', '='), ('>', '='), ('&', '&'), ('|', '|'),
   ('+', '+'), ('-', '-'), ('*', '*'), ('<', '<'), ('>', '>'), ('-', '>'), (':', '=')]

/-- The body of a block comment and the text behind its closing mark. -/
def readComment : List Char → Option (List Char × List Char)
  | [] => none
  | '*' :: '/' :: rest => some ([], rest)
  | c :: rest => (readComment rest).map fun (body, after) => (c :: body, after)

/-- The body of a quoted literal and the text behind its closing quote. A backslash protects the
character behind it, also a line break; an unprotected line break leaves the literal unclosed. -/
def readQuoted (quote : Char) : List Char → Option (List Char × List Char)
  | [] => none
  | '\\' :: c :: rest =>
    (readQuoted quote rest).map fun (body, after) => ('\\' :: c :: body, after)
  | c :: rest =>
    if c = '\\' ∨ c = '\n' then none
    else if c = quote then some ([], rest)
    else (readQuoted quote rest).map fun (body, after) => (c :: body, after)

/-- The mark that `c` opens, and the text behind it. -/
def readMark (c : Char) : List Char → Lexeme × List Char
  | [] => (mark [c], [])
  | d :: rest => if (c, d) ∈ doubleMarks then (mark [c, d], rest) else (mark [c], d :: rest)

/-- The lexeme that starts with `c`, and the text behind it. -/
def read (c : Char) (cs : List Char) : Except Unclosed (Lexeme × List Char) :=
  if isBlank c then .ok (blank c, cs)
  else if c = '/' ∧ cs.head? = some '/' then
    .ok (lineComment ((cs.drop 1).takeWhile (· ≠ '\n')), (cs.drop 1).dropWhile (· ≠ '\n'))
  else if c = '/' ∧ cs.head? = some '*' then
    match readComment (cs.drop 1) with
    | none => .error .comment
    | some (body, rest) => .ok (blockComment body, rest)
  else if c = '"' ∨ c = '\'' then
    match readQuoted c cs with
    | none => .error .quote
    | some (body, rest) => .ok (quoted c body, rest)
  else if isWordStart c then .ok (word (c :: cs.takeWhile isWordPart), cs.dropWhile isWordPart)
  else if isDigit c then
    .ok (number (c :: cs.takeWhile isNumberPart), cs.dropWhile isNumberPart)
  else .ok (readMark c cs)

/-! ## Reading moves forward -/

theorem readComment_text {cs body rest : List Char} (h : readComment cs = some (body, rest)) :
    cs = body ++ '*' :: '/' :: rest := by
  fun_induction readComment cs generalizing body with
  | case1 => simp at h
  | case2 r =>
    simp only [Option.some.injEq, Prod.mk.injEq] at h
    obtain ⟨rfl, rfl⟩ := h
    rfl
  | case3 c r _ ih =>
    simp only [Option.map_eq_some_iff, Prod.mk.injEq, Prod.exists] at h
    obtain ⟨body', rest', h', rfl, rfl⟩ := h
    simp [ih h']

theorem readQuoted_text {quote : Char} {cs body rest : List Char}
    (h : readQuoted quote cs = some (body, rest)) : cs = body ++ quote :: rest := by
  fun_induction readQuoted quote cs generalizing body with
  | case1 => simp at h
  | case2 c r ih =>
    simp only [Option.map_eq_some_iff, Prod.mk.injEq, Prod.exists] at h
    obtain ⟨body', rest', h', rfl, rfl⟩ := h
    simp [ih h']
  | case3 => simp at h
  | case4 r _ hc =>
    simp only [Option.some.injEq, Prod.mk.injEq] at h
    obtain ⟨rfl, rfl⟩ := h
    rfl
  | case5 c r _ hc hq ih =>
    simp only [Option.map_eq_some_iff, Prod.mk.injEq, Prod.exists] at h
    obtain ⟨body', rest', h', rfl, rfl⟩ := h
    simp [ih h']

theorem readMark_text (c : Char) (cs : List Char) :
    c :: cs = (readMark c cs).1.text ++ (readMark c cs).2 := by
  cases cs with
  | nil => rfl
  | cons d rest =>
    simp only [readMark]
    split <;> rfl

theorem eq_cons_drop_of_head? {cs : List Char} {c : Char} (h : cs.head? = some c) :
    cs = c :: cs.drop 1 := by
  cases cs with
  | nil => simp at h
  | cons d rest => simp_all

/-- A lexeme and the text behind it are the text that was read. -/
theorem read_text {c : Char} {cs rest : List Char} {l : Lexeme} (h : read c cs = .ok (l, rest)) :
    c :: cs = l.text ++ rest := by
  unfold read at h
  split at h
  · obtain ⟨rfl, rfl⟩ : _ ∧ _ := by simpa using h
    rfl
  split at h
  · rename_i hc
    obtain ⟨rfl, rfl⟩ : _ ∧ _ := by simpa using h
    rw [eq_cons_drop_of_head? hc.2, hc.1]
    simp [text]
  split at h
  · rename_i hc
    split at h
    · simp at h
    · rename_i body rest' hb
      obtain ⟨rfl, rfl⟩ : _ ∧ _ := by simpa using h
      rw [eq_cons_drop_of_head? hc.2, hc.1, readComment_text hb]
      simp [text]
  split at h
  · split at h
    · simp at h
    · rename_i body rest' hb
      obtain ⟨rfl, rfl⟩ : _ ∧ _ := by simpa using h
      rw [readQuoted_text hb]
      simp [text]
  split at h
  · obtain ⟨rfl, rfl⟩ : _ ∧ _ := by simpa using h
    simp [text]
  split at h
  · obtain ⟨rfl, rfl⟩ : _ ∧ _ := by simpa using h
    simp [text]
  · have := readMark_text c cs
    simp only [Except.ok.injEq] at h
    rw [this, h]

theorem text_ne_nil_of_read {c : Char} {cs rest : List Char} {l : Lexeme}
    (h : read c cs = .ok (l, rest)) : l.text ≠ [] := by
  unfold read readMark at h
  repeat' split at h
  all_goals
    first
    | (simp at h; done)
    | (obtain ⟨rfl, rfl⟩ : _ ∧ _ := by simpa using h
       simp [text])

/-- A lexeme takes at least one character. -/
theorem read_length {c : Char} {cs rest : List Char} {l : Lexeme}
    (h : read c cs = .ok (l, rest)) : rest.length < (c :: cs).length := by
  have hpos := List.length_pos_iff.2 (text_ne_nil_of_read h)
  rw [read_text h, List.length_append]
  omega

end Lexeme

/-- The lexemes of a text. If something in it is never closed, they end there, and `failure` says
what was opened. -/
structure Scan where
  lexemes : List Lexeme
  failure : Option Unclosed

/-- The scan with one more lexeme in front. -/
def Scan.push (l : Lexeme) (s : Scan) : Scan := { s with lexemes := l :: s.lexemes }

/-- Reads a text lexeme by lexeme. -/
def Lexeme.scan (cs : List Char) : Scan :=
  match cs with
  | [] => ⟨[], none⟩
  | c :: rest =>
    match _h : Lexeme.read c rest with
    | .error what => ⟨[], some what⟩
    | .ok (l, after) => (Lexeme.scan after).push l
termination_by cs.length
decreasing_by exact Lexeme.read_length _h

end AbiIndex.Source
