import AbiIndex.Source.Token
import Mathlib.Data.List.TakeWhile
import Mathlib.Tactic.ByContra

/-!
# Texts made of separated tokens

Which lexemes can be tokens, and what a text is read as in which white space keeps the tokens apart
that would run into each other. The white space is arbitrary: a layout chooses it for each token by
the place where the token stands, and may choose none.

## Key results

- `read_append_of_isSolid`: a lexeme that the next character does not continue is read as it is
  written
- `read_eq_ok_iff`: the next lexeme of a text is the one that is written as its kind demands and that
  the character behind it does not continue
- `scan_spaced`: a text of separated tokens is read as these tokens
- `tokenize_spell`: the tokens of such a text carry the place, the line and the depths that a
  cursor has when it moves along, and no documentation
-/

namespace AbiIndex.Source

open AbiIndex.Text

namespace Lexeme

/-- Whether the lexeme is written as a token can be: a word, a number, a quoted literal that its
own quote closes, or a mark. -/
def isSolid : Lexeme → Bool
  | word (c :: cs) => isWordStart c && cs.all isWordPart
  | number (c :: cs) => isDigit c && cs.all isNumberPart
  -- an unescaped quote in the body would end the literal early
  | quoted quote body =>
    (quote = '"' || quote = '\'') && readQuoted quote (body ++ [quote]) = some (body, [])
  | mark [c] => !isBlank c && !isWordStart c && !isDigit c && c ≠ '"' && c ≠ '\''
  | mark [c, d] => doubleMarks.contains (c, d)
  | _ => false

/-! ## Classes of characters -/

/-- The codes of white space. -/
def blankCodes : List Nat :=
  [9, 10, 11, 12, 13, 28, 29, 30, 31, 32, 0x85, 0xa0, 0x1680, 0x2000, 0x2001, 0x2002, 0x2003,
   0x2004, 0x2005, 0x2006, 0x2007, 0x2008, 0x2009, 0x200a, 0x2028, 0x2029, 0x202f, 0x205f, 0x3000]

theorem toNat_mem_blankCodes {c : Char} (h : isBlank c) : c.toNat ∈ blankCodes := by
  simp only [isBlank, blanks, CharSet.contains, CharSet.has, Bool.if_false_left, Bool.and_eq_true,
    Bool.or_eq_true, Bool.not_eq_true', decide_eq_false_iff_not, decide_eq_true_eq,
    Bool.false_eq_true, or_false] at h
  simp only [blankCodes, List.mem_cons, List.not_mem_nil, or_false]
  omega

/-- What holds of the few characters of white space holds of every blank. -/
theorem of_isBlank {p : Char → Bool} (hp : ∀ n ∈ blankCodes, p (Char.ofNat n)) {c : Char}
    (h : isBlank c) : p c := by
  rw [← Char.ofNat_toNat c]
  exact hp _ (toNat_mem_blankCodes h)

theorem isNumberPart_eq_false_of_isBlank {c : Char} (h : isBlank c) : isNumberPart c = false := by
  have := of_isBlank (p := fun c => !isNumberPart c) (by decide) h
  simpa using this

theorem isWordPart_eq_false_of_isBlank {c : Char} (h : isBlank c) : isWordPart c = false := by
  have := of_isBlank (p := fun c => !isWordPart c) (by decide) h
  simpa using this

/-- No blank opens a comment behind a slash or is the second half of a mark. -/
theorem ne_of_isBlank {c : Char} (h : isBlank c) :
    c ≠ '/' ∧ c ≠ '*' ∧ ∀ d, (d, c) ∉ doubleMarks := by
  have := of_isBlank
    (p := fun c => c ≠ '/' && c ≠ '*' && doubleMarks.all (fun m => m.2 ≠ c)) (by decide) h
  simp only [ne_eq, decide_not, Bool.and_eq_true, Bool.not_eq_true', decide_eq_false_iff_not,
    List.all_eq_true] at this
  exact ⟨this.1.1, this.1.2, fun d hd => by simpa using this.2 _ hd⟩

/-- A digit is an ASCII digit or lies beyond ASCII. -/
theorem toNat_of_isDigit {c : Char} (h : isDigit c) :
    48 ≤ c.toNat ∧ c.toNat ≤ 57 ∨ 0xb2 ≤ c.toNat := by
  rw [isDigit, CharSet.contains, digits, CharSet.has, CharSet.has] at h
  split at h
  · cases h
  · split at h
    -- the two lowest ranges decide about everything below the third
    · simp only [Bool.or_false, decide_eq_true_eq] at h
      omega
    · omega

/-- No digit is white space. -/
theorem isBlank_eq_false_of_isDigit {c : Char} (h : isDigit c) : isBlank c = false := by
  by_contra hc
  have := of_isBlank (p := fun c => !isDigit c) (by decide) (by simpa using hc)
  simp [h] at this

/-- Words start neither with an ASCII digit nor with a character beyond ASCII. -/
theorem isWordStart_eq_false_of_toNat {c : Char}
    (hcode : 48 ≤ c.toNat ∧ c.toNat ≤ 57 ∨ 0xb2 ≤ c.toNat) : isWordStart c = false := by
  rw [isWordStart, Bool.or_eq_false_iff, Bool.or_eq_false_iff]
  refine ⟨⟨?_, ?_⟩, ?_⟩
  · delta Char.isAlpha Char.isUpper Char.isLower
    simp only [ge_iff_le, Bool.or_eq_false_iff, Bool.and_eq_false_iff, decide_eq_false_iff_not,
      UInt32.le_iff_toNat_le]
    change 48 ≤ c.val.toNat ∧ c.val.toNat ≤ 57 ∨ 178 ≤ c.val.toNat at hcode
    change ¬ (65 ≤ c.val.toNat ∧ c.val.toNat ≤ 90) ∧ (¬ 97 ≤ c.val.toNat ∨ ¬ c.val.toNat ≤ 122)
    omega
  · rw [beq_eq_false_iff_ne]
    rintro rfl
    exact absurd hcode (by decide)
  · rw [beq_eq_false_iff_ne]
    rintro rfl
    exact absurd hcode (by decide)

/-- No digit starts a word. -/
theorem isWordStart_eq_false_of_isDigit {c : Char} (h : isDigit c) : isWordStart c = false :=
  isWordStart_eq_false_of_toNat (toNat_of_isDigit h)

/-! ## Reading a lexeme that ends -/

theorem read_of_isBlank {c : Char} {cs : List Char} (h : isBlank c) :
    read c cs = .ok (blank c, cs) := by
  rw [read, if_pos h]

/-- A quoted literal is closed by its own quote, whatever stands behind it. -/
theorem readQuoted_closed {quote : Char} {cs body rest : List Char}
    (h : readQuoted quote cs = some (body, rest)) (behind : List Char) :
    readQuoted quote (body ++ quote :: behind) = some (body, behind) := by
  fun_induction readQuoted quote cs generalizing body with
  | case1 => cases h
  | case2 c r ih =>
    -- a backslash takes the next character along
    simp only [Option.map_eq_some_iff, Prod.mk.injEq, Prod.exists] at h
    obtain ⟨body', rest', h', rfl, rfl⟩ := h
    rw [List.cons_append, List.cons_append, readQuoted, ih h']
    rfl
  | case3 => cases h
  | case4 r hesc hc =>
    -- the quote that closes the literal
    cases h
    rw [List.nil_append, readQuoted.eq_3 _ _ _ (fun _ _ h => absurd h (not_or.1 hc).1),
      if_neg hc, if_pos rfl]
  | case5 c r hesc hc hq ih =>
    simp only [Option.map_eq_some_iff, Prod.mk.injEq, Prod.exists] at h
    obtain ⟨body', rest', h', rfl, rfl⟩ := h
    rw [List.cons_append, readQuoted.eq_3 _ _ _ (fun _ _ h => absurd h (not_or.1 hc).1),
      if_neg hc, if_neg hq, ih h']
    rfl

theorem takeWhile_append_of_head {p : Char → Bool} {cs rest : List Char} (h : cs.all p)
    (hrest : ∀ d ∈ rest.head?, p d = false) :
    (cs ++ rest).takeWhile p = cs ∧ (cs ++ rest).dropWhile p = rest := by
  rw [List.takeWhile_append_of_pos (List.all_eq_true.1 h),
    List.dropWhile_append_of_pos (List.all_eq_true.1 h)]
  cases rest with
  | nil => exact ⟨List.append_nil cs, rfl⟩
  | cons d rest =>
    have hd := hrest d rfl
    rw [List.takeWhile_cons_of_neg (by simp [hd]), List.dropWhile_cons_of_neg (by simp [hd]),
      List.append_nil]
    exact ⟨rfl, rfl⟩

theorem read_word {c : Char} {cs rest : List Char} (hc : isWordStart c) (hcs : cs.all isWordPart)
    (hrest : ∀ d ∈ rest.head?, isWordPart d = false) :
    read c (cs ++ rest) = .ok (word (c :: cs), rest) := by
  obtain ⟨htake, hdrop⟩ := takeWhile_append_of_head hcs hrest
  -- a character that starts a word starts nothing that is tried before words
  have hpart : isWordPart c := by rw [isWordPart, hc]; rfl
  have hblank : isBlank c = false := by
    by_contra h
    have := isWordPart_eq_false_of_isBlank (by simpa using h : isBlank c)
    rw [hpart] at this
    cases this
  have hslash : c ≠ '/' := by rintro rfl; cases hc
  have hquote : ¬ (c = '"' ∨ c = '\'') := by rintro (rfl | rfl) <;> cases hc
  rw [read, if_neg (by simp [hblank]), if_neg (fun h => hslash h.1), if_neg (fun h => hslash h.1),
    if_neg hquote, if_pos hc, htake, hdrop]

theorem read_number {c : Char} {cs rest : List Char} (hc : isDigit c) (hcs : cs.all isNumberPart)
    (hrest : ∀ d ∈ rest.head?, isNumberPart d = false) :
    read c (cs ++ rest) = .ok (number (c :: cs), rest) := by
  obtain ⟨htake, hdrop⟩ := takeWhile_append_of_head hcs hrest
  have hslash : c ≠ '/' := by rintro rfl; exact absurd hc (by decide)
  have hquote : ¬ (c = '"' ∨ c = '\'') := by rintro (rfl | rfl) <;> exact absurd hc (by decide)
  rw [read, if_neg (by simp [isBlank_eq_false_of_isDigit hc]), if_neg (fun h => hslash h.1),
    if_neg (fun h => hslash h.1), if_neg hquote,
    if_neg (by simp [isWordStart_eq_false_of_isDigit hc]), if_pos hc, htake, hdrop]

theorem read_quoted {quote : Char} {body rest : List Char} (hq : quote = '"' ∨ quote = '\'')
    (hbody : readQuoted quote (body ++ [quote]) = some (body, [])) :
    read quote (body ++ [quote] ++ rest) = .ok (quoted quote body, rest) := by
  have hslash : quote ≠ '/' := by rcases hq with rfl | rfl <;> decide
  have hblank : isBlank quote = false := by rcases hq with rfl | rfl <;> decide
  rw [List.append_assoc, List.singleton_append, read, if_neg (by simp [hblank]),
    if_neg (fun h => hslash h.1), if_neg (fun h => hslash h.1), if_pos hq, readQuoted_closed hbody]

/-- Whether a single mark goes on with the next character: as a mark of two, or as a comment. -/
def joins (c d : Char) : Bool :=
  doubleMarks.contains (c, d) || (c = '/' && (d = '/' || d = '*'))

/-- A character that opens nothing else is a mark of its own if the next one does not join it. -/
theorem read_mark {c : Char} {rest : List Char} (hblank : isBlank c = false)
    (hword : isWordStart c = false) (hdigit : isDigit c = false) (hq : ¬ (c = '"' ∨ c = '\''))
    (hrest : ∀ d ∈ rest.head?, joins c d = false) : read c rest = .ok (mark [c], rest) := by
  simp only [joins, Bool.or_eq_false_iff, Bool.and_eq_false_imp, decide_eq_true_eq,
    decide_eq_false_iff_not] at hrest
  have hslash : ¬ (c = '/' ∧ rest.head? = some '/') := fun h => ((hrest _ h.2).2 h.1).1 rfl
  have hstar : ¬ (c = '/' ∧ rest.head? = some '*') := fun h => ((hrest _ h.2).2 h.1).2 rfl
  rw [read, if_neg (by simp [hblank]), if_neg hslash, if_neg hstar, if_neg hq,
    if_neg (by simp [hword]), if_neg (by simp [hdigit])]
  cases rest with
  | nil => rfl
  | cons d rest =>
    have hdouble : (c, d) ∉ doubleMarks := by
      have := (hrest d rfl).1
      simpa [List.contains_eq_mem] using this
    rw [readMark, if_neg hdouble]

theorem read_doubleMark {c d : Char} {rest : List Char} (h : (c, d) ∈ doubleMarks) :
    read c (d :: rest) = .ok (mark [c, d], rest) := by
  have hall : ∀ m ∈ doubleMarks, isBlank m.1 = false ∧ m.1 ≠ '/' ∧ ¬ (m.1 = '"' ∨ m.1 = '\'') ∧
      isWordStart m.1 = false ∧ isDigit m.1 = false := by decide
  obtain ⟨hblank, hslash, hquote, hword, hdigit⟩ := hall _ h
  rw [read, if_neg (by simp [hblank]), if_neg (fun h => hslash h.1), if_neg (fun h => hslash h.1),
    if_neg hquote, if_neg (by simp [hword]), if_neg (by simp [hdigit]), readMark, if_pos h]

/-- Whether the lexeme ends in front of the given character. Comments in blocks, quoted literals and
marks of two characters end by themselves. -/
def endsBefore : Lexeme → Char → Bool
  | lineComment _, d => d = '\n'
  | word _, d => !isWordPart d
  | number _, d => !isNumberPart d
  | mark [c], d => !joins c d
  | _, _ => true

/-- The lexeme is not continued by the one behind it. -/
def Abuts (l l' : Lexeme) : Prop := ∀ d ∈ l'.text.head?, l.endsBefore d

instance (l l' : Lexeme) : Decidable (l.Abuts l') :=
  decidable_of_iff (l'.text.head?.all l.endsBefore) (Option.all_eq_true _ _)

/-- White space ends everything but a comment. -/
theorem endsBefore_of_isBlank {l : Lexeme} (h : l.isSolid) {b : Char} (hb : isBlank b) :
    l.endsBefore b := by
  obtain ⟨hslash, hstar, hdouble⟩ := ne_of_isBlank hb
  cases l with
  | lineComment body => cases h
  | word text => simp [endsBefore, isWordPart_eq_false_of_isBlank hb]
  | number text => simp [endsBefore, isNumberPart_eq_false_of_isBlank hb]
  | mark text =>
    match text with
    | [] => rfl
    | [c] => simp [endsBefore, joins, hslash, hstar, hdouble c]
    | _ :: _ :: _ => rfl
  | _ => rfl

/-- A lexeme that can be a token is read as it is written where it ends in front of the next
character. -/
theorem read_append_of_isSolid {l : Lexeme} (h : l.isSolid) {rest : List Char}
    (hrest : ∀ d ∈ rest.head?, l.endsBefore d) :
    ∃ c cs, l.text = c :: cs ∧ read c (cs ++ rest) = .ok (l, rest) := by
  cases l with
  | blank c => cases h
  | lineComment body => cases h
  | blockComment body => cases h
  | quoted quote body =>
    simp only [isSolid, Bool.and_eq_true, Bool.or_eq_true, decide_eq_true_eq] at h
    exact ⟨quote, body ++ [quote], rfl, read_quoted h.1 h.2⟩
  | word text =>
    cases text with
    | nil => cases h
    | cons c cs =>
      simp only [isSolid, Bool.and_eq_true] at h
      exact ⟨c, cs, rfl, read_word h.1 h.2 fun d hd => by simpa [endsBefore] using hrest d hd⟩
  | number text =>
    cases text with
    | nil => cases h
    | cons c cs =>
      simp only [isSolid, Bool.and_eq_true] at h
      exact ⟨c, cs, rfl, read_number h.1 h.2 fun d hd => by simpa [endsBefore] using hrest d hd⟩
  | mark text =>
    match text, h, hrest with
    | [c], h, hrest =>
      simp only [isSolid, Bool.and_eq_true, Bool.not_eq_true', decide_eq_true_eq, ne_eq] at h
      obtain ⟨⟨⟨⟨hblank, hword⟩, hdigit⟩, hq⟩, hq'⟩ := h
      exact ⟨c, [], rfl, read_mark hblank hword hdigit (by simp [hq, hq'])
        fun d hd => by simpa [endsBefore] using hrest d hd⟩
    | [c, d], h, _ =>
      simp only [isSolid, List.contains_iff_mem] at h
      exact ⟨c, [d], rfl, read_doubleMark h⟩

/-! ## When a lexeme is read -/

/-- The body of a block comment ends where a star and a slash first stand together. -/
theorem readComment_append {body : List Char} (h : ¬ ['*', '/'] <:+: body ++ ['*'])
    (rest : List Char) : readComment (body ++ '*' :: '/' :: rest) = some (body, rest) := by
  induction body with
  | nil => rfl
  | cons c body ih =>
    have htail : ¬ ['*', '/'] <:+: body ++ ['*'] := fun hin =>
      h (hin.trans (List.suffix_cons c _).isInfix)
    have hopen : ∀ more, c = '*' → body ++ '*' :: '/' :: rest = '/' :: more → False := by
      rintro more rfl heq
      cases body with
      | nil => cases heq
      | cons d body =>
        cases heq
        exact h ⟨[], body ++ ['*'], rfl⟩
    rw [List.cons_append, readComment.eq_3 _ _ hopen, ih htail]
    rfl

theorem not_infix_of_readComment {cs body rest : List Char}
    (h : readComment cs = some (body, rest)) : ¬ ['*', '/'] <:+: body ++ ['*'] := by
  fun_induction readComment cs generalizing body with
  | case1 => cases h
  | case2 r =>
    cases h
    decide
  | case3 c r hopen ih =>
    simp only [Option.map_eq_some_iff, Prod.mk.injEq, Prod.exists] at h
    obtain ⟨body', rest', h', rfl, rfl⟩ := h
    rw [List.cons_append, List.infix_cons_iff, not_or]
    refine ⟨?_, ih h'⟩
    rintro ⟨more, heq⟩
    -- the two characters would have closed the comment here
    have htext := readComment_text h'
    cases body' with
    | nil => cases heq
    | cons d body' =>
      cases heq
      exact hopen _ rfl htext

/-- Whether a lexeme is written as its kind demands. -/
def IsWritten : Lexeme → Prop
  | blank c => isBlank c
  | lineComment body => '\n' ∉ body
  | blockComment body => ¬ ['*', '/'] <:+: body ++ ['*']
  | l => l.isSolid

theorem eq_false_of_mem_head?_dropWhile {p : Char → Bool} {cs : List Char} {d : Char}
    (h : d ∈ (cs.dropWhile p).head?) : p d = false := by
  have := List.head?_dropWhile_not p cs
  rw [Option.mem_def.1 h] at this
  simpa using this

/-- A mark is followed neither by the second character of a double mark nor by one that would open a
comment. -/
theorem isWritten_of_readMark {c : Char} {cs rest : List Char} {l : Lexeme}
    (hsingle : (mark [c]).IsWritten) (hline : ¬ (c = '/' ∧ cs.head? = some '/'))
    (hblock : ¬ (c = '/' ∧ cs.head? = some '*')) (h : readMark c cs = (l, rest)) :
    l.IsWritten ∧ ∀ d ∈ rest.head?, l.endsBefore d := by
  cases cs with
  | nil =>
    cases h
    exact ⟨hsingle, fun d hd => by cases hd⟩
  | cons d more =>
    rw [readMark] at h
    split at h
    · rename_i hdouble
      cases h
      refine ⟨?_, fun _ _ => rfl⟩
      simpa [IsWritten, isSolid, List.contains_iff_mem] using hdouble
    · rename_i hdouble
      cases h
      refine ⟨hsingle, fun d' hd' => ?_⟩
      cases hd'
      simp only [List.head?_cons, Option.some.injEq, not_and] at hline hblock
      simp only [endsBefore, joins, Bool.not_eq_true', Bool.or_eq_false_iff, Bool.and_eq_false_imp,
        decide_eq_true_eq, decide_eq_false_iff_not]
      exact ⟨by simpa [List.contains_iff_mem] using hdouble, fun hc => ⟨hline hc, hblock hc⟩⟩

/-- A lexeme that was read is written as its kind demands, and ends where the rest begins. -/
theorem isWritten_of_read {c : Char} {cs rest : List Char} {l : Lexeme}
    (h : read c cs = .ok (l, rest)) : l.IsWritten ∧ ∀ d ∈ rest.head?, l.endsBefore d := by
  unfold read at h
  split at h
  · rename_i hblank
    cases h
    exact ⟨hblank, fun _ _ => rfl⟩
  rename_i hblank
  split at h
  -- a comment up to the end of its line, which only a line break follows
  · cases h
    constructor
    · intro hmem
      simpa using List.mem_takeWhile_imp hmem
    · intro d hd
      simpa [endsBefore] using eq_false_of_mem_head?_dropWhile hd
  rename_i hline
  split at h
  -- a comment up to its closing mark, which anything may follow
  · split at h
    · cases h
    · rename_i hcomment
      cases h
      exact ⟨not_infix_of_readComment hcomment, fun _ _ => rfl⟩
  rename_i hblock
  split at h
  -- a quoted text, which ends with its quote
  · rename_i hquote
    split at h
    · cases h
    · rename_i hbody
      cases h
      refine ⟨?_, fun _ _ => rfl⟩
      simp only [IsWritten, isSolid, readQuoted_closed hbody [], decide_true, Bool.and_true]
      simpa using hquote
  rename_i hquote
  split at h
  -- words and numbers, which are as long as they can be
  · rename_i hword
    cases h
    constructor
    · simp [IsWritten, isSolid, hword]
    · intro d hd
      simp [endsBefore, eq_false_of_mem_head?_dropWhile hd]
  rename_i hword
  split at h
  · rename_i hdigit
    cases h
    constructor
    · simp [IsWritten, isSolid, hdigit]
    · intro d hd
      simp [endsBefore, eq_false_of_mem_head?_dropWhile hd]
  rename_i hdigit
  have hsingle : (mark [c]).IsWritten := by
    simp only [not_or] at hquote
    simp [IsWritten, isSolid, hblank, hword, hdigit, hquote]
  exact isWritten_of_readMark hsingle hline hblock (Except.ok.inj h)

/-- The next lexeme of a text is the one that is written there and that the character behind it does
not continue. -/
theorem read_eq_ok_iff {c : Char} {cs rest : List Char} {l : Lexeme} :
    read c cs = .ok (l, rest) ↔
      c :: cs = l.text ++ rest ∧ l.IsWritten ∧ ∀ d ∈ rest.head?, l.endsBefore d := by
  refine ⟨fun h => ⟨read_text h, isWritten_of_read h⟩, ?_⟩
  rintro ⟨htext, hwritten, hends⟩
  have hsolid : l.isSolid → read c cs = .ok (l, rest) := by
    intro h
    obtain ⟨c', cs', hl, hread⟩ := read_append_of_isSolid h hends
    rw [hl, List.cons_append] at htext
    cases htext
    exact hread
  cases l with
  | blank b =>
    cases htext
    exact read_of_isBlank hwritten
  | lineComment body =>
    have hcs : cs = '/' :: (body ++ rest) := (List.cons.inj htext).2
    obtain rfl : c = '/' := (List.cons.inj htext).1
    subst hcs
    have hbody : body.all (· ≠ '\n') := by
      rw [List.all_eq_true]
      intro d hd
      rw [decide_eq_true_eq]
      rintro rfl
      exact hwritten hd
    obtain ⟨htake, hdrop⟩ := takeWhile_append_of_head hbody
      (fun d hd => by simpa [endsBefore] using hends d hd)
    rw [read, if_neg (by decide), if_pos ⟨rfl, rfl⟩]
    simp only [List.drop_one, List.tail_cons, htake, hdrop]
  | blockComment body =>
    have hcs : cs = '*' :: (body ++ '*' :: '/' :: rest) := by
      have := (List.cons.inj htext).2
      rw [this]
      simp
    obtain rfl : c = '/' := (List.cons.inj htext).1
    subst hcs
    rw [read, if_neg (by decide), if_neg (by simp), if_pos ⟨rfl, rfl⟩, List.drop_one,
      List.tail_cons, readComment_append hwritten]
  | quoted quote body => exact hsolid hwritten
  | word text => exact hsolid hwritten
  | number text => exact hsolid hwritten
  | mark text => exact hsolid hwritten

/-! ## Scanning -/

theorem scan_of_read {c : Char} {cs rest : List Char} {l : Lexeme}
    (h : read c cs = .ok (l, rest)) : scan (c :: cs) = (scan rest).push l := by
  rw [scan]
  split
  · rename_i heq
    rw [h] at heq
    cases heq
  · rename_i heq
    rw [h] at heq
    cases heq
    rfl

theorem scan_blanks {bs : List Char} (h : bs.all isBlank) (rest : List Char) :
    scan (bs ++ rest) = ⟨bs.map blank ++ (scan rest).lexemes, (scan rest).failure⟩ := by
  induction bs with
  | nil => rfl
  | cons b bs ih =>
    rw [List.all_cons, Bool.and_eq_true] at h
    rw [List.cons_append, scan_of_read (read_of_isBlank h.1), ih h.2]
    rfl

theorem scan_of_isSolid {l : Lexeme} (h : l.isSolid) {rest : List Char}
    (hends : ∀ d ∈ rest.head?, l.endsBefore d) :
    scan (l.text ++ rest) = (scan rest).push l := by
  obtain ⟨c, cs, htext, hread⟩ := read_append_of_isSolid h hends
  rw [htext, List.cons_append]
  exact scan_of_read hread

/-- The kind of the token that the lexeme becomes. -/
def kind : Lexeme → TokenKind
  | word _ => .word
  | number _ => .number
  | mark _ => .mark
  | _ => .quoted

/-- The value of the token that the lexeme becomes. -/
def value : Lexeme → String
  | quoted _ body => String.ofList body
  | word text => String.ofList text
  | number text => String.ofList text
  | mark text => String.ofList text
  | _ => ""

/-- The word with the given text. -/
def term (text : String) : Lexeme := .word text.toList

/-- The mark with the given text. -/
def sign (text : String) : Lexeme := .mark text.toList

@[simp] theorem term_kind (text : String) : (term text).kind = .word := rfl

@[simp] theorem sign_kind (text : String) : (sign text).kind = .mark := rfl

@[simp] theorem number_kind (text : List Char) : (number text).kind = .number := rfl

@[simp] theorem number_value (text : List Char) : (number text).value = String.ofList text := rfl

@[simp] theorem term_value (text : String) : (term text).value = text := String.ofList_toList

@[simp] theorem sign_value (text : String) : (sign text).value = text := String.ofList_toList

@[simp] theorem term_inj {s t : String} : term s = term t ↔ s = t := by
  rw [term, term, word.injEq, String.toList_inj]

@[simp] theorem sign_inj {s t : String} : sign s = sign t ↔ s = t := by
  rw [sign, sign, mark.injEq, String.toList_inj]

@[simp] theorem term_ne_sign (s t : String) : term s ≠ sign t := by
  rw [term, sign]
  exact Lexeme.noConfusion

@[simp] theorem sign_ne_term (s t : String) : sign s ≠ term t := (term_ne_sign t s).symm

theorem token?_of_isSolid {l : Lexeme} (h : l.isSolid) : l.token? = some (l.kind, l.value) := by
  cases l with
  | blank c => cases h
  | lineComment body => cases h
  | blockComment body => cases h
  | quoted quote body => rfl
  | word text => rfl
  | number text => rfl
  | mark text => rfl

end Lexeme

/-! ## Layouts -/

/-- White space behind a token, if there is any. -/
structure Spacing where
  chars : List Char
  blank : chars.all isBlank

/-- The white space behind every token, given the place of the token in the text. -/
abbrev Layout := Nat → Spacing

/-- A single space. -/
def Spacing.space : Spacing := ⟨[' '], by decide⟩

/-- No white space. -/
def Spacing.none : Spacing := ⟨[], rfl⟩

namespace Cursor

/-- The place behind a token and the white space that follows it. -/
def after (layout : Layout) (here : Cursor) (l : Lexeme) : Cursor :=
  { here.past l none with
    offset := here.offset + l.text.length + (layout here.offset).chars.length
    line := here.line + l.text.count '\n' + (layout here.offset).chars.count '\n' }

/-- The place behind some tokens. -/
def through (layout : Layout) (here : Cursor) (ls : List Lexeme) : Cursor :=
  ls.foldl (after layout) here

/-- The token of a lexeme at this place, without documentation. -/
def symbol (here : Cursor) (l : Lexeme) : Token :=
  { here.token l l.kind l.value with doc := none }

end Cursor

/-- The given tokens with the white space behind each of them. -/
def spaced (layout : Layout) : Cursor → List Lexeme → List Lexeme
  | _, [] => []
  | here, l :: ls =>
    l :: ((layout here.offset).chars.map .blank ++ spaced layout (here.after layout l) ls)

/-- The tokens that the lexemes become from a place on. -/
def tokens (layout : Layout) : Cursor → List Lexeme → List Token
  | _, [] => []
  | here, l :: ls => here.symbol l :: tokens layout (here.after layout l) ls

/-- Tokens without white space between them do not run into each other. -/
def Separates (layout : Layout) : Cursor → List Lexeme → Prop
  | here, l :: l' :: ls =>
    ((layout here.offset).chars = [] → l.Abuts l') ∧
      Separates layout (here.after layout l) (l' :: ls)
  | _, _ => True

instance decidableSeparates (layout : Layout) :
    (here : Cursor) → (ls : List Lexeme) → Decidable (Separates layout here ls)
  | _, [] => .isTrue trivial
  | _, [_] => .isTrue trivial
  | here, l :: l' :: ls =>
    let := decidableSeparates layout (here.after layout l) (l' :: ls)
    inferInstanceAs (Decidable (_ ∧ _))

/-- White space everywhere keeps all tokens apart. -/
theorem separates_of_ne_nil {layout : Layout} (h : ∀ n, (layout n).chars ≠ []) (here : Cursor)
    (ls : List Lexeme) : Separates layout here ls := by
  induction ls generalizing here with
  | nil => trivial
  | cons l ls ih =>
    cases ls with
    | nil => trivial
    | cons l' ls => exact ⟨fun hnone => absurd hnone (h _), ih _⟩

/-- What stands behind the first token does not continue it. -/
theorem endsBefore_of_separates {layout : Layout} {here : Cursor} {l : Lexeme} {ls : List Lexeme}
    (hsolid : ∀ l' ∈ l :: ls, l'.isSolid) (h : Separates layout here (l :: ls)) :
    ∀ d ∈ ((layout here.offset).chars ++
      (spaced layout (here.after layout l) ls).flatMap Lexeme.text).head?, l.endsBefore d := by
  intro d hd
  have hblank := (layout here.offset).blank
  cases hchars : (layout here.offset).chars with
  | cons b bs =>
    rw [hchars] at hblank hd
    cases hd
    rw [List.all_cons, Bool.and_eq_true] at hblank
    exact Lexeme.endsBefore_of_isBlank (hsolid l List.mem_cons_self) hblank.1
  | nil =>
    rw [hchars, List.nil_append] at hd
    cases ls with
    | nil => cases hd
    | cons l' ls =>
      obtain ⟨c, cs, htext, -⟩ :=
        Lexeme.read_append_of_isSolid (hsolid l' (by simp)) (show ∀ d ∈ [].head?, _ by simp)
      rw [spaced, List.flatMap_cons, htext] at hd
      exact h.1 hchars d (by rw [htext]; exact hd)

theorem Separates.tail {layout : Layout} {here : Cursor} {l : Lexeme} {ls : List Lexeme}
    (h : Separates layout here (l :: ls)) : Separates layout (here.after layout l) ls := by
  cases ls with
  | nil => trivial
  | cons l' ls => exact h.2

/-- A text of separated tokens is read as what it was made of. -/
theorem scan_spaced {layout : Layout} {here : Cursor} {ls : List Lexeme}
    (h : ∀ l ∈ ls, l.isSolid) (hseparates : Separates layout here ls) :
    Lexeme.scan ((spaced layout here ls).flatMap Lexeme.text) = ⟨spaced layout here ls, none⟩ := by
  induction ls generalizing here with
  | nil =>
    rw [spaced, List.flatMap_nil, Lexeme.scan]
  | cons l ls ih =>
    have hblanks : ∀ bs : List Char, (bs.map Lexeme.blank).flatMap Lexeme.text = bs := by
      intro bs
      induction bs with
      | nil => rfl
      | cons b bs ih => rw [List.map_cons, List.flatMap_cons, ih]; rfl
    have hends := endsBefore_of_separates h hseparates
    rw [spaced, List.flatMap_cons, List.flatMap_append, hblanks,
      Lexeme.scan_of_isSolid (h l List.mem_cons_self) hends,
      Lexeme.scan_blanks (layout here.offset).blank,
      ih (fun l' hl' => h l' (List.mem_cons_of_mem l hl')) hseparates.tail]
    rfl

/-- White space leaves no token and moves the cursor on. -/
theorem tokensFrom_blanks (here : Cursor) (hdoc : here.doc = none) (bs : List Char)
    (rest : List Lexeme) :
    tokensFrom here (bs.map Lexeme.blank ++ rest) =
      tokensFrom { here with
        offset := here.offset + bs.length
        line := here.line + bs.count '\n' } rest := by
  induction bs generalizing here with
  | nil => rfl
  | cons b bs ih =>
    rw [List.map_cons, List.cons_append, tokensFrom]
    -- a blank hands on the documentation, of which there is none
    show tokensFrom (here.past (.blank b) here.doc) _ = _
    rw [hdoc, ih _ rfl]
    congr 1
    obtain ⟨offset, line, depth, parenDepth, doc⟩ := here
    cases hdoc
    simp only [Cursor.past, Lexeme.text, List.length_cons, List.length_nil, List.count_cons,
      List.count_nil, reduceCtorEq, if_false, Cursor.mk.injEq, and_true]
    omega

theorem tokensFrom_spaced (layout : Layout) (here : Cursor) (hdoc : here.doc = none)
    {ls : List Lexeme} (h : ∀ l ∈ ls, l.isSolid) :
    tokensFrom here (spaced layout here ls) = tokens layout here ls := by
  induction ls generalizing here with
  | nil => rfl
  | cons l ls ih =>
    have htoken : here.token l l.kind l.value = here.symbol l := by
      simp [Cursor.symbol, Cursor.token, hdoc]
    rw [spaced, tokensFrom, Lexeme.token?_of_isSolid (h l List.mem_cons_self)]
    dsimp only
    rw [htoken, tokensFrom_blanks _ rfl, tokens]
    exact congrArg _ (ih (here.after layout l) rfl fun l' hl' => h l' (List.mem_cons_of_mem l hl'))

/-- The text of the given tokens. -/
def spell (layout : Layout) (ls : List Lexeme) : List Char :=
  (spaced layout .start ls).flatMap Lexeme.text

/-- The tokens of a text of separated tokens. -/
theorem tokenize_spell {layout : Layout} {ls : List Lexeme} (h : ∀ l ∈ ls, l.isSolid)
    (hseparates : Separates layout .start ls) :
    tokenize (spell layout ls) = .ok (tokens layout .start ls) := by
  rw [tokenize, spell, scan_spaced h hseparates]
  exact congrArg Except.ok (tokensFrom_spaced layout .start rfl h)

/-! ## Texts that can be read -/

theorem tokenize_eq_ok_iff {text : List Char} {ts : List Token} :
    tokenize text = .ok ts ↔ (Lexeme.scan text).failure = none ∧
      tokensFrom .start (Lexeme.scan text).lexemes = ts := by
  rw [tokenize]
  cases (Lexeme.scan text).failure <;> simp

theorem tokenize_eq_error_iff {text : List Char} :
    (∃ e, tokenize text = .error e) ↔ (Lexeme.scan text).failure ≠ none := by
  rw [tokenize]
  cases (Lexeme.scan text).failure <;> simp

end AbiIndex.Source
