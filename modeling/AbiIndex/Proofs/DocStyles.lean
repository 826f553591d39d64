import AbiIndex.Proofs.TokenPlaces
import AbiIndex.Proofs.Trimming
import AbiIndex.Source.Member

/-!
# Two ways to write documentation

Documentation is written as comments of their own, one for each line behind three slashes, or as one
comment whose lines stand behind stars. The first style collects its lines as the text is read, and
compares the lines of the comments; the second takes the lines of the comment, their stars and the
white space around them away at once. Both give the token behind them the same text.

## Key results

- `exists_doc_of_leadsToToken`: a token has the documentation that waits in front of what it follows
- `doc_along_docRun`: behind comments of their own all their lines wait
- `docBlock?_blockDoc`: a comment whose lines stand behind stars documents these lines
- `doc_styles_agree`: the documentation is the same in both styles
-/

namespace AbiIndex.Source

open AbiIndex.Text

/-! ## The two styles -/

/-- Lines that can be written as documentation. The first and the last are not empty, none has white
space at its ends or a line break in it, and none closes a comment. -/
structure IsDocumentation (lines : List (List Char)) : Prop where
  nonempty : lines ≠ []
  first : ∀ l ∈ lines.head?, l ≠ []
  last : ∀ l ∈ lines.getLast?, l ≠ []
  trimmed : ∀ l ∈ lines, trim l = l
  unbroken : ∀ l ∈ lines, ∀ c ∈ l, isLineBreak c = false
  unclosed : ∀ l ∈ lines, ¬ ['*', '/'] <:+: l

/-- White space in front of a line. -/
structure IsIndent (indent : List Char) : Prop where
  blank : ∀ c ∈ indent, isBlank c
  unbroken : ∀ c ∈ indent, isLineBreak c = false

theorem IsDocumentation.not_mem_of_isLineBreak {lines : List (List Char)}
    (h : IsDocumentation lines) {c : Char} (hc : isLineBreak c) : ∀ l ∈ lines, c ∉ l := by
  intro l hl hmem
  rw [h.unbroken l hl c hmem] at hc
  exact Bool.false_ne_true hc

theorem IsIndent.not_mem_of_isLineBreak {indent : List Char} (h : IsIndent indent) {c : Char}
    (hc : isLineBreak c) : c ∉ indent := fun hmem => by
  rw [h.unbroken c hmem] at hc
  exact Bool.false_ne_true hc

/-- A line in a comment of its own, behind three slashes. -/
def docLine (indent l : List Char) : List Char := indent ++ ['/', '/', '/', ' '] ++ l ++ ['\n']

/-- The lines, each in a comment of its own. -/
def docRun (indent : List Char) (lines : List (List Char)) : List Char :=
  lines.flatMap (docLine indent)

/-- A line of a comment, behind a star. -/
def starLine (indent l : List Char) : List Char := indent ++ [' ', '*', ' '] ++ l

/-- The lines in one comment, each behind a star. -/
def docBlock (indent : List Char) (lines : List (List Char)) : List Char :=
  indent ++ ['/', '*', '*'] ++ lines.flatMap (fun l => '\n' :: starLine indent l) ++
    '\n' :: (indent ++ [' ', '*', '/'])

/-- The text of the documentation. -/
def docText (lines : List (List Char)) : String := String.ofList (['\n'].intercalate lines)

theorem intercalate_cons (sep l : List Char) (ls : List (List Char)) :
    sep.intercalate (l :: ls) = l ++ ls.flatMap (sep ++ ·) := by
  induction ls generalizing l with
  | nil => simp
  | cons l' ls ih => rw [List.intercalate_cons_cons, ih, List.flatMap_cons, List.append_assoc,
      List.append_assoc]

/-! ## Documentation that waits -/

/-- A lexeme that becomes no token and documents nothing. -/
structure Lexeme.IsQuiet (l : Lexeme) : Prop where
  token : l.token? = none
  line : l.docLine? = none
  block : l.docBlock? = none

namespace Cursor

/-- The place behind a text. -/
def behind (text : List Char) : Cursor := Cursor.start.along (Lexeme.scan text).lexemes

/-- A documentation in comments of their own goes on if such a comment stands on this line. -/
def InRun (here : Cursor) : Prop := ∃ doc ∈ here.doc, doc.runLine = some (here.line - 1)

theorem along_append (here : Cursor) (xs ys : List Lexeme) :
    here.along (xs ++ ys) = (here.along xs).along ys := List.foldl_append

/-- White space and comments that document nothing leave the documentation as it is. -/
theorem doc_along_of_isQuiet {ls : List Lexeme} (h : ∀ l ∈ ls, l.IsQuiet) (here : Cursor) :
    (here.along ls).doc = here.doc := by
  induction ls generalizing here with
  | nil => rfl
  | cons l ls ih =>
    obtain ⟨hl, hls⟩ := List.forall_mem_cons.1 h
    rw [along_cons, ih hls, next, hl.token, PendingDoc.next, hl.line, hl.block]
    rfl

end Cursor

theorem Lexeme.isQuiet_blank (c : Char) : (Lexeme.blank c).IsQuiet := ⟨rfl, rfl, rfl⟩

/-- In front of the first token of the text stand only white space and comments that document
nothing. The token starts behind the first `n` characters. -/
def LeadsToToken (cs : List Char) (n : Nat) : Prop :=
  ∃ gap l more, (Lexeme.scan cs).lexemes = gap ++ l :: more ∧ (∀ g ∈ gap, g.IsQuiet) ∧
    l.token?.isSome ∧ n = Lexeme.width gap

/-- A token has the documentation that waits in front of the white space and the comments before
it. -/
theorem exists_doc_of_leadsToToken {front rest : List Char} {ls : List Lexeme} {n : Nat}
    {ts : List Token} (hscan : (Lexeme.scan (front ++ rest)).lexemes =
      ls ++ (Lexeme.scan rest).lexemes) (hls : ls.flatMap Lexeme.text = front)
    (hrest : LeadsToToken rest n) (hts : tokenize (front ++ rest) = .ok ts) :
    ∃ t ∈ ts, t.start = front.length + n ∧ t.doc = (Cursor.start.along ls).doc.map (·.text) := by
  obtain ⟨gap, l, more, hlexemes, hquiet, htoken, rfl⟩ := hrest
  obtain ⟨⟨kind, value⟩, htoken⟩ := Option.isSome_iff_exists.1 htoken
  obtain ⟨-, rfl⟩ := tokenize_eq_ok_iff.1 hts
  refine ⟨(Cursor.start.along (ls ++ gap)).token l kind value, ?_, ?_, ?_⟩
  · rw [mem_tokensFrom_iff, hscan, hlexemes, ← List.append_assoc]
    exact ⟨ls ++ gap, l, more, kind, value, rfl, htoken, rfl⟩
  · have hoffset := Cursor.offset_along .start (ls ++ gap)
    rw [Lexeme.width_append, Lexeme.width, hls] at hoffset
    exact hoffset.trans (Nat.zero_add _)
  · rw [Cursor.along_append, ← Cursor.doc_along_of_isQuiet hquiet]
    rfl

/-! ## A comment for each line -/

/-- The comment that holds a line. -/
def lineDoc (l : List Char) : Lexeme := .lineComment ('/' :: ' ' :: l)

/-- The lexemes of a line in a comment of its own. -/
def docLineLexemes (indent l : List Char) : List Lexeme :=
  indent.map .blank ++ [lineDoc l, .blank '\n']

theorem flatMap_text_blanks (bs : List Char) : (bs.map Lexeme.blank).flatMap Lexeme.text = bs := by
  induction bs with
  | nil => rfl
  | cons b bs ih =>
    rw [List.map_cons, List.flatMap_cons, ih]
    rfl

theorem flatMap_text_docLineLexemes (indent l : List Char) :
    (docLineLexemes indent l).flatMap Lexeme.text = docLine indent l := by
  rw [docLineLexemes, List.flatMap_append, flatMap_text_blanks]
  simp [docLine, lineDoc, Lexeme.text]

theorem Lexeme.Legible.blanks {bs : List Char} {ls : List Lexeme} (hbs : ∀ b ∈ bs, isBlank b)
    (h : Legible ls) : Legible (bs.map .blank ++ ls) := by
  induction bs with
  | nil => exact h
  | cons b bs ih =>
    obtain ⟨hb, hbs⟩ := List.forall_mem_cons.1 hbs
    exact .cons hb (ih hbs) fun x _ => abuts_of_blank b x

section Run

variable {indent : List Char} {lines : List (List Char)}

theorem legible_docRun (hindent : IsIndent indent) (h : ∀ l ∈ lines, '\n' ∉ l) :
    Lexeme.Legible (lines.flatMap (docLineLexemes indent)) := by
  induction lines with
  | nil => exact .nil
  | cons l lines ih =>
    obtain ⟨hl, hlines⟩ := List.forall_mem_cons.1 h
    rw [List.flatMap_cons, docLineLexemes, List.append_assoc]
    have hbreak : Lexeme.Legible (.blank '\n' :: lines.flatMap (docLineLexemes indent)) :=
      .cons rfl (ih hlines) fun x _ => Lexeme.abuts_of_blank '\n' x
    refine .blanks hindent.blank (.cons ?_ hbreak ?_)
    · simpa [lineDoc, Lexeme.IsWritten] using hl
    · intro x hx d hd
      cases hx
      cases hd
      rfl

theorem getLast?_docRun (hlines : lines ≠ []) :
    (lines.flatMap (docLineLexemes indent)).getLast? = some (.blank '\n') := by
  obtain ⟨ls, l, rfl⟩ := (List.eq_nil_or_concat' lines).resolve_left hlines
  simp [docLineLexemes]

theorem docLine?_lineDoc {l : List Char} (hl : trim l = l) : (lineDoc l).docLine? = some l := by
  have htrim : trim ([' '] ++ l ++ []) = l :=
    trim_append (by simp; decide) (trim_eq_self_iff.1 hl) (by simp)
  rw [List.append_nil] at htrim
  exact congrArg some htrim

/-- A line comment continues the run that ended on the line before. -/
theorem next_lineDoc {l : List Char} (hl : trim l = l) (text : List Char) (line : Nat) :
    PendingDoc.next line (some ⟨String.ofList text, some (line - 1)⟩) (lineDoc l) =
      some ⟨String.ofList (text ++ '\n' :: l), some line⟩ := by
  rw [PendingDoc.next, docLine?_lineDoc hl]
  dsimp only
  rw [if_pos rfl, ← List.singleton_append, ← List.append_assoc, String.ofList_append,
    String.ofList_append]

/-- A line comment starts a run if none goes on. -/
theorem next_lineDoc_of_not_inRun {here : Cursor} {l : List Char} (hl : trim l = l)
    (h : ¬ here.InRun) :
    PendingDoc.next here.line here.doc (lineDoc l) = some ⟨String.ofList l, some here.line⟩ := by
  rw [PendingDoc.next, docLine?_lineDoc hl]
  cases hdoc : here.doc with
  | none => rfl
  | some doc =>
    dsimp only
    rw [if_neg fun hrun => h ⟨doc, hdoc, hrun⟩]

/-- The documentation behind a line comment waits on the next line. -/
theorem along_docLineLexemes (hindent : IsIndent indent) {l : List Char} (hl : '\n' ∉ l)
    (here : Cursor) :
    (here.along (docLineLexemes indent l)).line = here.line + 1 ∧
      (here.along (docLineLexemes indent l)).doc =
        PendingDoc.next here.line here.doc (lineDoc l) := by
  have hbreak : '\n' ∉ indent := hindent.not_mem_of_isLineBreak (by decide)
  constructor
  · rw [Cursor.line_along, flatMap_text_docLineLexemes, docLine]
    simp [List.count_eq_zero.2 hbreak, List.count_eq_zero.2 hl]
  · have hline := Cursor.line_along here (indent.map .blank)
    rw [flatMap_text_blanks, List.count_eq_zero.2 hbreak, Nat.add_zero] at hline
    have hdoc : (here.along (indent.map .blank)).doc = here.doc := by
      apply Cursor.doc_along_of_isQuiet
      intro l' hl'
      obtain ⟨c, -, rfl⟩ := List.mem_map.1 hl'
      exact Lexeme.isQuiet_blank c
    rw [docLineLexemes, Cursor.along_append, ← hline, ← hdoc]
    rfl

/-- Each further comment of a run adds its line. -/
theorem doc_along_further (hindent : IsIndent indent) (hlines : ∀ l ∈ lines, trim l = l ∧ '\n' ∉ l)
    {here : Cursor} {text : List Char}
    (hdoc : here.doc = some ⟨String.ofList text, some (here.line - 1)⟩) :
    (here.along (lines.flatMap (docLineLexemes indent))).doc.map (·.text) =
      some (String.ofList (text ++ lines.flatMap ('\n' :: ·))) := by
  -- on the lines: behind each comment the run has ended on the line before
  induction lines generalizing here text with
  | nil => simp [Cursor.along, hdoc]
  | cons l lines ih =>
    obtain ⟨⟨htrim, hl⟩, hlines⟩ := List.forall_mem_cons.1 hlines
    obtain ⟨hline, hnext⟩ := along_docLineLexemes hindent hl here
    rw [hdoc, next_lineDoc htrim] at hnext
    rw [List.flatMap_cons, Cursor.along_append, List.flatMap_cons, ← List.append_assoc]
    exact ih hlines (by rw [hnext, hline, Nat.add_sub_cancel])

/-- Behind the comments of a run all their lines wait. -/
theorem doc_along_docRun (hindent : IsIndent indent) (h : IsDocumentation lines) {here : Cursor}
    (hstart : ¬ here.InRun) :
    (here.along (lines.flatMap (docLineLexemes indent))).doc.map (·.text) =
      some (docText lines) := by
  have hlines : ∀ l ∈ lines, trim l = l ∧ '\n' ∉ l := fun l hl =>
    ⟨h.trimmed l hl, h.not_mem_of_isLineBreak (by decide) l hl⟩
  cases lines with
  | nil => exact absurd rfl h.nonempty
  | cons l lines =>
    obtain ⟨⟨htrim, hl⟩, hlines⟩ := List.forall_mem_cons.1 hlines
    obtain ⟨hline, hnext⟩ := along_docLineLexemes hindent hl here
    rw [next_lineDoc_of_not_inRun htrim hstart] at hnext
    rw [List.flatMap_cons, Cursor.along_append, docText, intercalate_cons]
    exact doc_along_further hindent hlines (by rw [hnext, hline, Nat.add_sub_cancel])

end Run

/-! ## One comment for all lines -/

/-- What stands in a comment behind its first star. -/
def blockInside (indent : List Char) (lines : List (List Char)) : List Char :=
  lines.flatMap (fun l => '\n' :: starLine indent l) ++ '\n' :: (indent ++ [' '])

/-- The comment that holds the lines. -/
def blockDoc (indent : List Char) (lines : List (List Char)) : Lexeme :=
  .blockComment ('*' :: blockInside indent lines)

/-- The lexemes of the lines in one comment. -/
def docBlockLexemes (indent : List Char) (lines : List (List Char)) : List Lexeme :=
  indent.map .blank ++ [blockDoc indent lines]

theorem joinCrLf_of_not_mem {cs : List Char} (h : '\r' ∉ cs) : joinCrLf cs = cs := by
  fun_induction joinCrLf cs with
  | case1 => rfl
  | case2 rest => simp at h
  | case3 c rest _ ih => rw [ih fun hmem => h (List.mem_cons_of_mem c hmem)]

/-- Two characters that stand next to each other do so in front of or behind any other one. -/
theorem not_pair_infix_append_cons {a b c : Char} (ha : c ≠ a) (hb : c ≠ b) {xs ys : List Char}
    (hxs : ¬ [a, b] <:+: xs) (hys : ¬ [a, b] <:+: ys) : ¬ [a, b] <:+: xs ++ c :: ys := by
  induction xs with
  | nil =>
    rw [List.nil_append, List.infix_cons_iff, not_or]
    exact ⟨fun hprefix => ha (List.cons_prefix_cons.1 hprefix).1.symm, hys⟩
  | cons x xs ih =>
    rw [List.infix_cons_iff, not_or] at hxs
    rw [List.cons_append, List.infix_cons_iff, not_or]
    refine ⟨fun hprefix => ?_, ih hxs.2⟩
    obtain ⟨rfl, htail⟩ := List.cons_prefix_cons.1 hprefix
    cases xs with
    | nil => exact hb (List.cons_prefix_cons.1 htail).1.symm
    | cons y xs =>
      obtain ⟨rfl, -⟩ := List.cons_prefix_cons.1 htail
      exact hxs.1 (by simp)

theorem not_pair_infix_of_not_mem {a b : Char} {cs : List Char} (h : b ∉ cs) :
    ¬ [a, b] <:+: cs := fun hpair => h (hpair.subset (by simp))

section Block

variable {indent : List Char} {lines : List (List Char)}

theorem flatMap_text_docBlockLexemes (indent : List Char) (lines : List (List Char)) :
    (docBlockLexemes indent lines).flatMap Lexeme.text = docBlock indent lines := by
  rw [docBlockLexemes, List.flatMap_append, flatMap_text_blanks]
  simp [docBlock, blockDoc, blockInside, Lexeme.text]

theorem IsIndent.not_mem_slash (hindent : IsIndent indent) : '/' ∉ indent := fun hmem =>
  (Lexeme.ne_of_isBlank (hindent.blank _ hmem)).1 rfl

/-- Nothing in the lines closes the comment. -/
theorem unclosed_blockInside (hindent : IsIndent indent)
    (h : ∀ l ∈ lines, ¬ ['*', '/'] <:+: l) {front : List Char} (hfront : ¬ ['*', '/'] <:+: front) :
    ¬ ['*', '/'] <:+: front ++ (blockInside indent lines ++ ['*']) := by
  -- on the lines: each one is moved to the front, with the line break and the star before it
  induction lines generalizing front with
  | nil =>
    refine not_pair_infix_append_cons (by decide) (by decide) hfront ?_
    exact not_pair_infix_of_not_mem (by simp [hindent.not_mem_slash])
  | cons l lines ih =>
    obtain ⟨hl, hlines⟩ := List.forall_mem_cons.1 h
    have hline : ¬ ['*', '/'] <:+: (indent ++ [' ', '*']) ++ ' ' :: l := by
      refine not_pair_infix_append_cons (by decide) (by decide) ?_ hl
      exact not_pair_infix_of_not_mem (by simp [hindent.not_mem_slash])
    have hfirst : ¬ ['*', '/'] <:+: front ++ '\n' :: ((indent ++ [' ', '*']) ++ ' ' :: l) :=
      not_pair_infix_append_cons (by decide) (by decide) hfront hline
    have hall := ih hlines hfirst
    simpa [blockInside, starLine] using hall

theorem legible_docBlock (hindent : IsIndent indent) (h : IsDocumentation lines) :
    Lexeme.Legible (docBlockLexemes indent lines) := by
  refine .blanks hindent.blank (.cons ?_ .nil (by simp))
  have := unclosed_blockInside hindent h.unclosed (show ¬ ['*', '/'] <:+: ['*'] by decide)
  exact this

/-- A text with a line break behind every part of it has these parts as its lines. -/
theorem pieces_append_flatMap {f : List Char → List Char}
    (h : ∀ l ∈ lines, ∀ c ∈ f l, isLineBreak c = false) {front back : List Char}
    (hfront : ∀ c ∈ front, isLineBreak c = false) (hback : ∀ c ∈ back, isLineBreak c = false) :
    pieces isLineBreak (front ++ (lines.flatMap (fun l => '\n' :: f l) ++ '\n' :: back)) =
      front :: (lines.map f ++ [back]) := by
  have hbreak : isLineBreak '\n' := by decide
  rw [pieces_eq_splitOnP]
  induction lines generalizing front with
  | nil =>
    rw [List.flatMap_nil, List.nil_append,
      List.splitOnP_append_cons_of_forall_mem hfront _ hbreak, List.splitOnP_eq_singleton hback]
    rfl
  | cons l lines ih =>
    obtain ⟨hl, hlines⟩ := List.forall_mem_cons.1 h
    rw [List.flatMap_cons, List.cons_append, List.cons_append,
      List.splitOnP_append_cons_of_forall_mem hfront _ hbreak, List.append_assoc, ih hlines hl]
    rfl

/-- The lines of the comment. -/
theorem splitLines_blockInside (hindent : IsIndent indent) (h : IsDocumentation lines) :
    splitLines (blockInside indent lines) =
      [] :: (lines.map (starLine indent) ++ [indent ++ [' ']]) := by
  have hline : ∀ l ∈ lines, ∀ c ∈ starLine indent l, isLineBreak c = false := by
    intro l hl c hc
    rw [starLine, List.mem_append, List.mem_append] at hc
    obtain (hc | hc) | hc := hc
    · exact hindent.unbroken c hc
    · have hstar : [' ', '*', ' '].all (!isLineBreak ·) := by decide
      simpa using List.all_eq_true.1 hstar c hc
    · exact h.unbroken l hl c hc
  have hlast : ∀ c ∈ indent ++ [' '], isLineBreak c = false := by
    intro c hc
    obtain hc | hc := List.mem_append.1 hc
    · exact hindent.unbroken c hc
    · rw [List.mem_singleton.1 hc]
      decide
  have hreturn : '\r' ∉ blockInside indent lines := by
    -- a carriage return is a line break, and the only breaks are line feeds
    intro hmem
    have hbreak : isLineBreak '\r' = true := by decide
    rw [blockInside, List.mem_append, List.mem_flatMap] at hmem
    obtain ⟨l, hl, hmem⟩ | hmem := hmem
    · obtain heq | hmem := List.mem_cons.1 hmem
      · exact absurd heq (by decide)
      · exact absurd hbreak (by simp [hline l hl _ hmem])
    · obtain heq | hmem := List.mem_cons.1 hmem
      · exact absurd heq (by decide)
      · exact absurd hbreak (by simp [hlast _ hmem])
  have hpieces := pieces_append_flatMap hline (show ∀ c ∈ [], isLineBreak c = false by simp) hlast
  rw [List.nil_append] at hpieces
  rw [splitLines, joinCrLf_of_not_mem hreturn, blockInside, hpieces]
  rw [if_neg]
  rw [← List.cons_append, List.getLast?_concat]
  simp

theorem IsIndent.blank_append (hindent : IsIndent indent) : ∀ c ∈ indent ++ [' '], isBlank c := by
  intro c hc
  obtain hc | hc := List.mem_append.1 hc
  · exact hindent.blank c hc
  · rw [List.mem_singleton.1 hc]
    decide

/-- What a line of a block says: what stands between the white space at its ends, without a star in
front and one space right behind the star. -/
inductive LineOfBlock : List Char → List Char → Prop
  | plain {front text back : List Char} (hfront : ∀ c ∈ front, isBlank c)
      (hback : ∀ c ∈ back, isBlank c) (htext : IsTrimmed text) (hstar : text.head? ≠ some '*') :
      LineOfBlock (front ++ text ++ back) text
  | starred {front space text back : List Char} (hfront : ∀ c ∈ front, isBlank c)
      (hback : ∀ c ∈ back, isBlank c)
      (hspace : space = [' '] ∨ space = [] ∧ text.head? ≠ some ' ')
      (hlast : ∀ c ∈ text.getLast?, isBlank c = false) :
      LineOfBlock (front ++ '*' :: (space ++ text) ++ back) text

/-- The star and the space behind it are looked for where the white space in front ends. -/
theorem dropStar_cases (line : List Char) :
    (∃ text, trim line = '*' :: ' ' :: text ∧ Lexeme.dropStar line = trimEnd text) ∨
    (∃ text, trim line = '*' :: text ∧ text.head? ≠ some ' ' ∧
      Lexeme.dropStar line = trimEnd text) ∨
    (trim line).head? ≠ some '*' ∧ Lexeme.dropStar line = trimEnd (trim line) := by
  rw [Lexeme.dropStar]
  split
  · rename_i text heq
    exact .inl ⟨text, heq, rfl⟩
  · rename_i text hspace heq
    refine .inr (.inl ⟨text, heq, fun hhead => ?_, rfl⟩)
    exact hspace _ (List.cons_head?_tail hhead).symm
  · rename_i hstar
    refine .inr (.inr ⟨fun hhead => ?_, rfl⟩)
    exact hstar _ (List.cons_head?_tail hhead).symm

/-- What is left of a line is what stands behind its star and the space there. -/
theorem dropStar_of_star {line space text : List Char}
    (hspace : space = [' '] ∨ space = [] ∧ text.head? ≠ some ' ')
    (h : trim line = '*' :: (space ++ text)) : Lexeme.dropStar line = trimEnd text := by
  obtain rfl | ⟨rfl, hhead⟩ := hspace
  · rw [Lexeme.dropStar, h]
    rfl
  · obtain ⟨_, heq, -⟩ | ⟨_, heq, -, hdrop⟩ | ⟨hstar, -⟩ := dropStar_cases line
    · rw [h, List.nil_append, List.cons.injEq] at heq
      exact absurd (heq.2 ▸ rfl) hhead
    · rw [h, List.nil_append, List.cons.injEq] at heq
      rw [hdrop, heq.2]
    · exact absurd (h ▸ rfl) hstar

/-- A line is read as what it says. -/
theorem dropStar_eq_iff {line text : List Char} :
    Lexeme.dropStar line = text ↔ LineOfBlock line text := by
  constructor
  · rintro rfl
    obtain ⟨htrimmed, front, back, hfront, hback, hline⟩ := trim_eq_iff.1 (@rfl _ (trim line))
    -- what is behind the star ends where the line ends
    have hlast {pre text : List Char} (heq : trim line = pre ++ text) :
        ∀ c ∈ text.getLast?, isBlank c = false := fun c hc =>
      htrimmed.last c (heq ▸ List.mem_getLast?_append_of_mem_getLast? hc)
    obtain ⟨text, heq, hdrop⟩ | ⟨text, heq, hspace, hdrop⟩ | ⟨hstar, hdrop⟩ := dropStar_cases line
    · have htext := hlast (show trim line = ['*', ' '] ++ text from heq)
      rw [hdrop, trimEnd_of_getLast? htext, hline, heq]
      exact .starred hfront hback (.inl rfl) htext
    · have htext := hlast (show trim line = ['*'] ++ text from heq)
      rw [hdrop, trimEnd_of_getLast? htext, hline, heq]
      exact @LineOfBlock.starred front [] text back hfront hback (.inr ⟨rfl, hspace⟩) htext
    · rw [hdrop, htrimmed.trimEnd]
      conv_lhs => rw [hline]
      exact .plain hfront hback htrimmed hstar
  · rintro (⟨hfront, hback, htext, hstar⟩ | @⟨front, space, text, back, hfront, hback, hspace, hlast⟩)
    · have htrim := trim_append hfront htext hback
      obtain ⟨_, heq, -⟩ | ⟨_, heq, -⟩ | ⟨-, hdrop⟩ := dropStar_cases _
      · rw [htrim] at heq
        exact absurd (heq ▸ rfl) hstar
      · rw [htrim] at heq
        exact absurd (heq ▸ rfl) hstar
      · rw [hdrop, htrim, htext.trimEnd]
    · cases text with
      | nil =>
        -- the space behind the star goes with the end of the line
        have hend : ∀ c ∈ space ++ back, isBlank c := by
          obtain rfl | ⟨rfl, -⟩ := hspace
          · exact List.forall_mem_cons.2 ⟨by decide, hback⟩
          · exact hback
        have htrim : trim (front ++ ['*'] ++ (space ++ back)) = ['*'] :=
          trim_append hfront ⟨by simp; decide, by simp; decide⟩ hend
        rw [List.append_nil, List.append_assoc, List.cons_append, ← List.singleton_append,
          ← List.append_assoc]
        exact dropStar_of_star (.inr ⟨rfl, by simp⟩) htrim
      | cons c text =>
        have htrimmed : IsTrimmed ('*' :: space ++ c :: text) := by
          refine ⟨by simp; decide, fun d hd => hlast d ?_⟩
          rwa [List.getLast?_append_of_ne_nil _ (List.cons_ne_nil c text)] at hd
        rw [dropStar_of_star hspace (trim_append hfront htrimmed hback), trimEnd_of_getLast? hlast]

theorem map_dropStar_eq_iff {lines texts : List (List Char)} :
    lines.map Lexeme.dropStar = texts ↔ List.Forall₂ LineOfBlock lines texts := by
  have hline : LineOfBlock = fun line text => Lexeme.dropStar line = text := by
    funext line text
    exact propext dropStar_eq_iff.symm
  rw [hline, ← List.forall₂_map_left_iff, List.forall₂_eq_eq_eq]

/-- A line without its star. -/
theorem dropStar_starLine (hindent : IsIndent indent) {l : List Char} (hl : trim l = l) :
    Lexeme.dropStar (starLine indent l) = l := by
  rw [dropStar_eq_iff, show starLine indent l = indent ++ [' '] ++ '*' :: ([' '] ++ l) ++ [] by
    simp [starLine]]
  exact .starred hindent.blank_append (by simp) (.inl rfl) (trim_eq_self_iff.1 hl).last

/-- The lines with line breaks in between have no white space at their ends. -/
theorem isTrimmed_intercalate (h : IsDocumentation lines) :
    IsTrimmed (['\n'].intercalate lines) := by
  have htrimmed (l : List Char) (hl : l ∈ lines) : IsTrimmed l :=
    trim_eq_self_iff.1 (h.trimmed l hl)
  constructor
  · obtain ⟨l, ls, rfl⟩ := List.exists_cons_of_ne_nil h.nonempty
    rw [intercalate_cons, List.head?_append_of_ne_nil _ (h.first l rfl)]
    exact (htrimmed l List.mem_cons_self).head
  · obtain ⟨ls, l, rfl⟩ := (List.eq_nil_or_concat' lines).resolve_left h.nonempty
    have hl : l ≠ [] := h.last l (by simp)
    have hlast : (['\n'].intercalate (ls ++ [l])).getLast? = l.getLast? := by
      cases ls with
      | nil => simp
      | cons l' ls =>
        rw [List.cons_append, intercalate_cons, List.flatMap_append, List.flatMap_singleton,
          ← List.append_assoc, ← List.append_assoc, List.getLast?_append_of_ne_nil _ hl]
    rw [hlast]
    exact (htrimmed l (by simp)).last

/-- The block documents its lines. -/
theorem docBlock?_blockDoc (hindent : IsIndent indent) (h : IsDocumentation lines) :
    (blockDoc indent lines).docBlock? = some (['\n'].intercalate lines) := by
  have hlines : (lines.map (starLine indent)).map Lexeme.dropStar = lines := by
    rw [List.map_map]
    conv_rhs => rw [← List.map_id lines]
    exact List.map_congr_left fun l hl => dropStar_starLine hindent (h.trimmed l hl)
  have hend : Lexeme.dropStar (indent ++ [' ']) = [] := by
    rw [Lexeme.dropStar, trim_of_blank hindent.blank_append]
    rfl
  have hjoin : ['\n'].intercalate ([] :: (lines ++ [[]])) =
      ['\n'] ++ ['\n'].intercalate lines ++ ['\n'] := by
    obtain ⟨l, ls, rfl⟩ := List.exists_cons_of_ne_nil h.nonempty
    simp [intercalate_cons]
  have htrim : trim (['\n'] ++ ['\n'].intercalate lines ++ ['\n']) = ['\n'].intercalate lines :=
    trim_append (by simp; decide) (isTrimmed_intercalate h) (by simp; decide)
  have hinside : ∃ body, blockInside indent lines = '\n' :: body := by
    obtain ⟨l, ls, rfl⟩ := List.exists_cons_of_ne_nil h.nonempty
    exact ⟨_, rfl⟩
  obtain ⟨body, hbody⟩ := hinside
  have hstar : '\n' ≠ '*' := by decide
  rw [blockDoc, hbody, Lexeme.docBlock?, if_neg hstar, ← hbody, splitLines_blockInside hindent h,
    List.map_cons, List.map_append, hlines, List.map_singleton, hend, ← htrim, ← hjoin]
  rfl

/-- Behind the comment its lines wait. -/
theorem doc_along_docBlock (hindent : IsIndent indent) (h : IsDocumentation lines) (here : Cursor) :
    (here.along (docBlockLexemes indent lines)).doc.map (·.text) = some (docText lines) := by
  have hnext (line : Nat) (doc : Option PendingDoc) :
      PendingDoc.next line doc (blockDoc indent lines) = some ⟨docText lines, none⟩ := by
    rw [PendingDoc.next, docBlock?_blockDoc hindent h]
    rfl
  rw [docBlockLexemes, Cursor.along_append]
  exact congrArg (Option.map (·.text)) (hnext _ _)

end Block

/-! ## The two styles agree -/

/-- The token behind lexemes that start with white space or a slash has the documentation that
waits behind them. -/
theorem exists_token_behind {front indent body rest : List Char} {ls : List Lexeme} {n : Nat}
    {us : List Token} (hfront : Lexeme.Visits (front ++ ['/']) front.length)
    (hindent : IsIndent indent) (htext : ls.flatMap Lexeme.text = indent ++ '/' :: body)
    (hlegible : Lexeme.Legible ls) (hlast : ∀ l ∈ ls.getLast?, ∀ d ∈ rest.head?, l.endsBefore d)
    (hrest : LeadsToToken rest n) (hus : tokenize rest = .ok us) :
    ∃ ts, tokenize (front ++ (indent ++ '/' :: body) ++ rest) = .ok ts ∧
      ∃ t ∈ ts, t.start = (front ++ (indent ++ '/' :: body)).length + n ∧
        t.doc = ((Cursor.behind front).along ls).doc.map (·.text) := by
  obtain ⟨fs, hfs, hfstext, hfslast⟩ := Lexeme.exists_legible_of_visits hfront
  rw [List.take_left] at hfstext
  rw [List.drop_left] at hfslast
  have hhead : ∀ l ∈ fs.getLast?, ∀ d ∈ (ls.flatMap Lexeme.text ++ rest).head?, l.endsBefore d := by
    -- what ends before the slash ends before white space, too
    intro l hl d hd
    have hslash : l.endsBefore '/' := hfslast l hl '/' rfl
    rw [htext] at hd
    cases hcs : indent with
    | nil =>
      rw [hcs] at hd
      cases hd
      exact hslash
    | cons c cs =>
      have hc : isBlank c := hindent.blank c (by simp [hcs])
      rw [hcs] at hd
      cases hd
      exact Lexeme.endsBefore_blank_of_slash (hfs.written l (List.mem_of_getLast? hl)) hslash hc
  have hscan : Lexeme.scan (front ++ (indent ++ '/' :: body) ++ rest) =
      ⟨(fs ++ ls) ++ (Lexeme.scan rest).lexemes, (Lexeme.scan rest).failure⟩ := by
    rw [← htext, ← hfstext, List.append_assoc, Lexeme.scan_append hfs hhead,
      Lexeme.scan_append hlegible hlast, List.append_assoc]
  have hfailure := (tokenize_eq_ok_iff.1 hus).1
  have hts := tokenize_eq_ok_iff.2 ⟨(congrArg Scan.failure hscan).trans hfailure, rfl⟩
  refine ⟨_, hts, ?_⟩
  have hbehind : Cursor.behind front = Cursor.start.along fs := by
    rw [Cursor.behind, Lexeme.scan_eq_ok_iff.2 ⟨hfstext, hfs⟩]
  rw [hbehind, ← Cursor.along_append]
  refine exists_doc_of_leadsToToken (congrArg Scan.lexemes hscan) ?_ hrest hts
  rw [List.flatMap_append, hfstext, htext]

/-- Documentation has the same text in both styles. Where lines are written as comments of their own
in front of a text that is read, which continue no earlier ones, or as one comment, the next token
has the lines with line breaks in between as its documentation, and the same fields are read from
it. -/
theorem doc_styles_agree {lines : List (List Char)} (h : IsDocumentation lines)
    {indent indent' : List Char} (hindent : IsIndent indent)
    (hindent' : IsIndent indent')
    {front rest front' rest' : List Char} {n n' : Nat} {us us' : List Token}
    (hfront : Lexeme.Visits (front ++ ['/']) front.length)
    (hfront' : Lexeme.Visits (front' ++ ['/']) front'.length)
    (hstart : ¬ (Cursor.behind front).InRun)
    (hrest : LeadsToToken rest n) (hus : tokenize rest = .ok us)
    (hrest' : LeadsToToken rest' n') (hus' : tokenize rest' = .ok us') :
    ∃ ts ts', tokenize (front ++ docRun indent lines ++ rest) = .ok ts ∧
      tokenize (front' ++ docBlock indent' lines ++ rest') = .ok ts' ∧
      ∃ t ∈ ts, ∃ t' ∈ ts', t.start = (front ++ docRun indent lines).length + n ∧
        t'.start = (front' ++ docBlock indent' lines).length + n' ∧
        t.doc = some (docText lines) ∧ t'.doc = some (docText lines) ∧
        Member.documentation t = Natspec.parse (docText lines) ∧
        Member.documentation t' = Natspec.parse (docText lines) := by
  -- the fields are read from the text alone
  have hdocumentation {t : Token} (ht : t.doc = some (docText lines)) :
      Member.documentation t = Natspec.parse (docText lines) := by
    rw [Member.documentation, ht]
    rfl
  have hrun : ∃ body, docRun indent lines = indent ++ '/' :: body := by
    obtain ⟨l, ls, rfl⟩ := List.exists_cons_of_ne_nil h.nonempty
    simp [docRun, docLine]
  obtain ⟨body, hrun⟩ := hrun
  have hblock : ∃ body, docBlock indent' lines = indent' ++ '/' :: body := by
    simp [docBlock]
  obtain ⟨body', hblock⟩ := hblock
  have hrunText : (lines.flatMap (docLineLexemes indent)).flatMap Lexeme.text =
      docRun indent lines := by
    rw [List.flatMap_assoc]
    exact List.flatMap_congr fun l _ => flatMap_text_docLineLexemes indent l
  obtain ⟨ts, hts, t, ht, htstart, htdoc⟩ := exists_token_behind hfront hindent
    (hrunText.trans hrun) (legible_docRun hindent (h.not_mem_of_isLineBreak (by decide)))
    (by simp [getLast?_docRun h.nonempty, Lexeme.endsBefore]) hrest hus
  obtain ⟨ts', hts', t', ht', htstart', htdoc'⟩ := exists_token_behind hfront' hindent'
    ((flatMap_text_docBlockLexemes indent' lines).trans hblock) (legible_docBlock hindent' h)
    (by simp [docBlockLexemes, blockDoc, Lexeme.endsBefore]) hrest' hus'
  rw [doc_along_docRun hindent h hstart] at htdoc
  rw [doc_along_docBlock hindent' h] at htdoc'
  rw [hrun, hblock]
  exact ⟨ts, ts', hts, hts', t, ht, t', ht', htstart, htstart', htdoc, htdoc',
    hdocumentation htdoc, hdocumentation htdoc'⟩

/-- The first line starts with a star, the second is empty and the third starts with a slash. The
comments stand behind a statement, the block at the beginning of the text. -/
theorem doc_styles_agree_starLine :
    let lines := [['*', ' ', 'a'], [], ['/', 'b']]
    let front := ['x', ';', '\n']
    IsDocumentation lines ∧ IsIndent [' ', '\t'] ∧ IsIndent [] ∧
      Lexeme.Visits (front ++ ['/']) front.length ∧ Lexeme.Visits ([] ++ ['/']) 0 ∧
      ¬ (Cursor.behind front).InRun ∧
      LeadsToToken ['f'] 0 ∧ (∃ us, tokenize ['f'] = .ok us) ∧
      LeadsToToken ['\n', 'f'] 1 ∧ (∃ us, tokenize ['\n', 'f'] = .ok us) ∧
      ∃ ts ts', tokenize (front ++ docRun [' ', '\t'] lines ++ ['f']) = .ok ts ∧
        tokenize ([] ++ docBlock [] lines ++ ['\n', 'f']) = .ok ts' ∧
        ∃ t ∈ ts, ∃ t' ∈ ts', t.start = 29 ∧ t'.start = 25 ∧
          t.doc = some "* a\n\n/b" ∧ t'.doc = some "* a\n\n/b" ∧
          Member.documentation t = Member.documentation t' := by
  intro lines front
  have h : IsDocumentation lines :=
    ⟨by decide, by decide, by decide, by decide, by simp [lines]; decide, by decide⟩
  have hindent : IsIndent [' ', '\t'] := ⟨by simp; decide, by simp; decide⟩
  have hindent' : IsIndent [] := ⟨by simp, by simp⟩
  have hfront : Lexeme.Visits (front ++ ['/']) front.length := by
    have hword : Lexeme.read 'x' [';', '\n', '/'] = .ok (.word ['x'], [';', '\n', '/']) := rfl
    have hmark : Lexeme.read ';' ['\n', '/'] = .ok (.mark [';'], ['\n', '/']) := rfl
    have hblank : Lexeme.read '\n' ['/'] = .ok (.blank '\n', ['/']) := rfl
    exact .step hword (.step hmark (.step hblank (.start _)))
  have hfront' : Lexeme.Visits ([] ++ ['/']) ([] : List Char).length := .start _
  have hstart : ¬ (Cursor.behind front).InRun := by
    have hdoc : (Cursor.behind front).doc.isNone := by decide +kernel
    rintro ⟨doc, hmem, -⟩
    rw [Option.mem_def.1 hmem] at hdoc
    exact Bool.false_ne_true hdoc
  have hrest : LeadsToToken ['f'] 0 := ⟨[], .word ['f'], [], by decide +kernel, by simp, rfl, rfl⟩
  have hrest' : LeadsToToken ['\n', 'f'] 1 :=
    ⟨[.blank '\n'], .word ['f'], [], by decide +kernel, by simp [Lexeme.isQuiet_blank], rfl, rfl⟩
  have hus : ∃ us, tokenize ['f'] = .ok us := ⟨_, tokenize_eq_ok_iff.2 ⟨by decide +kernel, rfl⟩⟩
  have hus' : ∃ us, tokenize ['\n', 'f'] = .ok us :=
    ⟨_, tokenize_eq_ok_iff.2 ⟨by decide +kernel, rfl⟩⟩
  obtain ⟨us, hus⟩ := hus
  obtain ⟨us', hus'⟩ := hus'
  obtain ⟨ts, ts', hts, hts', t, ht, t', ht', htstart, htstart', hdoc, hdoc', hfields, hfields'⟩ :=
    doc_styles_agree h hindent hindent' hfront hfront' hstart hrest hus hrest' hus'
  exact ⟨h, hindent, hindent', hfront, hfront', hstart, hrest, ⟨us, hus⟩, hrest', ⟨us', hus'⟩,
    ts, ts', hts, hts', t, ht, t', ht', htstart, htstart', hdoc, hdoc',
    hfields.trans hfields'.symm⟩

end AbiIndex.Source
