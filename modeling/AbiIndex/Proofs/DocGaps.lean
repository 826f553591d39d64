import AbiIndex.Proofs.DocStyles

/-!
# Documentation in gaps

Between two tokens stand white space and comments, and a token takes its documentation from the gap
in front of it alone. The comments behind the last token decide: where the last of those that
document something is a block, its text is the documentation, and where it is a line comment, its
line is put together with those of the comments on the lines right before it.

## Key results

- `ofLexeme?_eq_some_iff`: which pieces of a text are comments that document something
- `mem_inText_iff`: the comments in a text, told from the marks around them
- `LastDoc.unique`: what some comments document
- `Waits.along`: while lexemes without tokens are read, what waits is what their comments document
- `exists_gap_of_tokensFrom`: the gap in front of a token
- `doc_of_gap`: a token has the documentation that its gap has alone
-/

namespace AbiIndex.Source

open AbiIndex.Text

/-! ## Comments that document something -/

/-- A comment that documents something: a line comment, on its line, or a block. -/
inductive DocComment where
  | line (number : Nat) (text : List Char)
  | block (text : List Char)
deriving DecidableEq

namespace DocComment

/-- What a comment documents. -/
def text : DocComment → List Char
  | line _ text => text
  | block text => text

/-- The line of a line comment. -/
def line? : DocComment → Option Nat
  | line number _ => some number
  | block _ => none

/-- The comment some lines further down. -/
def below (lines : Nat) : DocComment → DocComment
  | line number text => line (number + lines) text
  | block text => block text

/-- The comment that a lexeme on the given line is, if it documents something. -/
def ofLexeme? (number : Nat) (l : Lexeme) : Option DocComment :=
  match l.docLine?, l.docBlock? with
  | some text, _ => some (line number text)
  | none, some text => some (block text)
  | none, none => none

/-! ## Comments that document something, told from their marks -/

/-- The comment that some characters are, if they stand on the given line and document something. A
line comment has exactly three slashes, and documents what stands behind them. A block has a slash
and exactly two stars in front, and a star and a slash of its own at its end, so the shortest comment
is no block; it documents what its lines say. -/
inductive Documents (number : Nat) (cs : List Char) : DocComment → Prop
  | line {body : List Char} (htext : cs = ['/', '/', '/'] ++ body)
      (hslashes : ¬ ['/', '/', '/', '/'] <+: cs) : Documents number cs (.line number (trim body))
  | block {body : List Char} {texts : List (List Char)}
      (htext : cs = ['/', '*', '*'] ++ body ++ ['*', '/'])
      (hstars : ¬ ['/', '*', '*', '*'] <+: cs)
      (hlines : List.Forall₂ LineOfBlock (splitLines body) texts) :
      Documents number cs (.block (trim (['\n'].intercalate texts)))

/-- Two slashes open a line comment. -/
theorem eq_lineComment_of_text {l : Lexeme} (h : l.IsWritten) {body : List Char}
    (htext : l.text = '/' :: '/' :: body) : l = .lineComment body := by
  have hread : Lexeme.read '/' ('/' :: body) = .ok (l, []) :=
    Lexeme.read_eq_ok_iff.2 ⟨by rw [List.append_nil, htext], h, by simp⟩
  rw [Lexeme.read, if_neg (by decide), if_pos ⟨rfl, rfl⟩] at hread
  obtain ⟨rfl, -⟩ := Prod.mk.inj (Except.ok.inj hread)
  rw [(List.cons.inj (List.cons.inj htext).2).2]

/-- A slash and a star open a block comment, which ends in a mark of its own. -/
theorem eq_blockComment_of_text {l : Lexeme} (h : l.IsWritten) {body : List Char}
    (htext : l.text = '/' :: '*' :: (body ++ ['*', '/'])) : l = .blockComment body := by
  have hread : Lexeme.read '/' ('*' :: (body ++ ['*', '/'])) = .ok (l, []) :=
    Lexeme.read_eq_ok_iff.2 ⟨by rw [List.append_nil, htext], h, by simp⟩
  rw [Lexeme.read, if_neg (by decide), if_neg (by simp), if_pos ⟨rfl, rfl⟩] at hread
  split at hread
  · cases hread
  · obtain ⟨rfl, -⟩ := Prod.mk.inj (Except.ok.inj hread)
    rw [List.append_cancel_right (List.cons.inj (List.cons.inj htext).2).2]

theorem docLine?_eq_some_iff {l : Lexeme} {text : List Char} : l.docLine? = some text ↔
    ∃ body, l = .lineComment ('/' :: body) ∧ body.head? ≠ some '/' ∧ text = trim body := by
  constructor
  · intro h
    rw [Lexeme.docLine?.eq_def] at h
    split at h
    · cases h
    · rename_i body hslash
      cases h
      exact ⟨body, rfl, fun hhead => hslash _ (List.cons_head?_tail hhead).symm, rfl⟩
    · cases h
  · rintro ⟨body, rfl, hslash, rfl⟩
    cases body with
    | nil => rfl
    | cons c body =>
      rw [Lexeme.docLine?]
      rintro rest ⟨⟩
      exact hslash rfl

theorem docBlock?_eq_some_iff {l : Lexeme} {text : List Char} : l.docBlock? = some text ↔
    ∃ body texts, l = .blockComment ('*' :: body) ∧ (∃ c ∈ body.head?, c ≠ '*') ∧
      List.Forall₂ LineOfBlock (splitLines body) texts ∧
      text = trim (['\n'].intercalate texts) := by
  constructor
  · intro h
    rw [Lexeme.docBlock?.eq_def] at h
    split at h
    · rename_i c body
      split at h
      · cases h
      · rename_i hstar
        cases h
        exact ⟨c :: body, _, rfl, ⟨c, rfl, hstar⟩, map_dropStar_eq_iff.1 rfl, rfl⟩
    · cases h
  · rintro ⟨body, texts, rfl, ⟨c, hhead, hstar⟩, hlines, rfl⟩
    obtain ⟨body, rfl⟩ : ∃ more, body = c :: more := ⟨_, (List.cons_head?_tail hhead).symm⟩
    rw [Lexeme.docBlock?, if_neg hstar, map_dropStar_eq_iff.2 hlines]

/-- A lexeme is read as the comment that its characters are. -/
theorem ofLexeme?_eq_some_iff {number : Nat} {l : Lexeme} {c : DocComment} (h : l.IsWritten) :
    ofLexeme? number l = some c ↔ Documents number l.text c := by
  constructor
  · rw [ofLexeme?]
    cases hline : l.docLine? with
    | some text =>
      rintro ⟨⟩
      obtain ⟨body, rfl, hslash, rfl⟩ := docLine?_eq_some_iff.1 hline
      refine .line rfl ?_
      rintro ⟨rest, hrest⟩
      cases hrest
      exact hslash rfl
    | none =>
      cases hblock : l.docBlock? with
      | none => rintro ⟨⟩
      | some text =>
        rintro ⟨⟩
        obtain ⟨body, texts, rfl, ⟨d, hhead, hstar⟩, hlines, rfl⟩ := docBlock?_eq_some_iff.1 hblock
        refine .block rfl ?_ hlines
        obtain ⟨body, rfl⟩ : ∃ more, body = d :: more := ⟨_, (List.cons_head?_tail hhead).symm⟩
        rintro ⟨rest, hrest⟩
        cases hrest
        exact hstar rfl
  · intro hdoc
    cases hdoc with
    | @line body htext hslashes =>
      obtain rfl := @eq_lineComment_of_text l h ('/' :: body) htext
      have hslash : body.head? ≠ some '/' := fun hhead =>
        hslashes ⟨body.tail, by rw [htext, ← List.cons_head?_tail hhead]; rfl⟩
      rw [ofLexeme?, docLine?_eq_some_iff.2 ⟨body, rfl, hslash, rfl⟩]
    | @block body texts htext hstars hlines =>
      obtain rfl := @eq_blockComment_of_text l h ('*' :: body) htext
      have hstar : ∃ d ∈ body.head?, d ≠ '*' := by
        cases body with
        | nil => exact absurd ⟨['/'], rfl⟩ hstars
        | cons d body =>
          refine ⟨d, rfl, ?_⟩
          rintro rfl
          exact hstars ⟨body ++ ['*', '/'], rfl⟩
      rw [ofLexeme?, docBlock?_eq_some_iff.2 ⟨body, texts, rfl, hstar, hlines, rfl⟩]
      rfl

/-- The comments among some lexemes that start on the given line. -/
def ofLexemes : Nat → List Lexeme → List DocComment
  | _, [] => []
  | number, l :: ls => (ofLexeme? number l).toList ++ ofLexemes (number + l.text.count '\n') ls

/-- The comments in a text. -/
def inText (text : List Char) : List DocComment := ofLexemes 1 (Lexeme.scan text).lexemes

theorem mem_ofLexemes_iff {number : Nat} {ls : List Lexeme} (hls : ∀ l ∈ ls, l.IsWritten)
    {c : DocComment} : c ∈ ofLexemes number ls ↔ ∃ front l back, ls = front ++ l :: back ∧
      Documents (number + (front.flatMap Lexeme.text).count '\n') l.text c := by
  induction ls generalizing number with
  | nil => simp [ofLexemes]
  | cons l ls ih =>
    obtain ⟨hl, hls⟩ := List.forall_mem_cons.1 hls
    rw [ofLexemes, List.mem_append, Option.mem_toList, ofLexeme?_eq_some_iff hl, ih hls]
    constructor
    · rintro (h | ⟨front, l', back, rfl, h⟩)
      · exact ⟨[], l, ls, rfl, h⟩
      · refine ⟨l :: front, l', back, rfl, ?_⟩
        rwa [List.flatMap_cons, List.count_append, ← Nat.add_assoc]
    · rintro ⟨front, l', back, heq, h⟩
      cases front with
      | nil =>
        cases heq
        exact .inl h
      | cons first front =>
        cases heq
        rw [List.flatMap_cons, List.count_append, ← Nat.add_assoc] at h
        exact .inr ⟨front, l', back, rfl, h⟩

/-- The comments in a text are its pieces that document something, on the lines where they begin. -/
theorem mem_inText_iff {text : List Char} {ts : List Token} (h : tokenize text = .ok ts)
    {c : DocComment} : c ∈ inText text ↔ ∃ front l back,
      (Lexeme.scan text).lexemes = front ++ l :: back ∧
      Documents (1 + (front.flatMap Lexeme.text).count '\n') l.text c := by
  have hscan : Lexeme.scan text = ⟨(Lexeme.scan text).lexemes, none⟩ := by
    rw [← (tokenize_eq_ok_iff.1 h).1]
  exact mem_ofLexemes_iff (Lexeme.scan_eq_ok_iff.1 hscan).2.written

/-- Line comments on consecutive lines. -/
def run : Nat → List (List Char) → List DocComment
  | _, [] => []
  | first, text :: texts => line first text :: run (first + 1) texts

/-- The line of the last comment, if that is a line comment. -/
def lastLine? (cs : List DocComment) : Option Nat := cs.getLast?.bind line?

@[simp] theorem map_text_run (first : Nat) (texts : List (List Char)) :
    (run first texts).map text = texts := by
  induction texts generalizing first with
  | nil => rfl
  | cons text texts ih => rw [run, List.map_cons, ih, DocComment.text]

theorem run_ne_nil {first : Nat} {texts : List (List Char)} (h : texts ≠ []) :
    run first texts ≠ [] := by
  intro hnil
  rw [← map_text_run first texts, hnil] at h
  exact h rfl

theorem run_append (first : Nat) (texts more : List (List Char)) :
    run first (texts ++ more) = run first texts ++ run (first + texts.length) more := by
  induction texts generalizing first with
  | nil => rfl
  | cons text texts ih =>
    rw [List.cons_append, run, ih, run, List.cons_append, List.length_cons, Nat.add_assoc,
      Nat.add_comm 1]

/-- The parts of a run are runs. -/
theorem exists_of_run_eq_append {first : Nat} {texts : List (List Char)} {xs ys : List DocComment}
    (h : run first texts = xs ++ ys) : ∃ as bs, texts = as ++ bs ∧ xs = run first as ∧
      ys = run (first + as.length) bs := by
  have hsplit := map_text_run first texts
  rw [h, List.map_append] at hsplit
  rw [← hsplit, run_append] at h
  have hlength : (run first (xs.map text)).length = xs.length := by
    rw [← List.length_map text, map_text_run, List.length_map]
  obtain ⟨hxs, hys⟩ := List.append_inj h hlength
  exact ⟨_, _, hsplit.symm, hxs.symm, hys.symm⟩

theorem lastLine?_append_run (cs : List DocComment) (first : Nat) {texts : List (List Char)}
    (h : texts ≠ []) : lastLine? (cs ++ run first texts) = some (first + texts.length - 1) := by
  obtain ⟨texts, text, rfl⟩ := (List.eq_nil_or_concat' texts).resolve_left h
  rw [run_append, ← List.append_assoc, lastLine?, run, run, List.getLast?_concat,
    List.length_append]
  rfl

@[simp] theorem lastLine?_append_block (cs : List DocComment) (text : List Char) :
    lastLine? (cs ++ [block text]) = none := by
  rw [lastLine?, List.getLast?_concat]
  rfl

/-- A block is not the end of a run. -/
theorem append_block_ne_append_run {cs cs' : List DocComment} {text : List Char} {first : Nat}
    {texts : List (List Char)} (h : texts ≠ []) : cs ++ [block text] ≠ cs' ++ run first texts := by
  intro heq
  have hline := congrArg lastLine? heq
  rw [lastLine?_append_block, lastLine?_append_run cs' first h] at hline
  cases hline

theorem lastLine?_map_below (lines : Nat) (cs : List DocComment) :
    lastLine? (cs.map (below lines)) = (lastLine? cs).map (· + lines) := by
  rw [lastLine?, lastLine?, List.getLast?_map]
  cases cs.getLast? with
  | none => rfl
  | some c => cases c <;> rfl

theorem map_below_run (lines first : Nat) (texts : List (List Char)) :
    (run first texts).map (below lines) = run (first + lines) texts := by
  induction texts generalizing first with
  | nil => rfl
  | cons text texts ih =>
    rw [run, List.map_cons, ih, run, below, Nat.add_right_comm]

/-- Further down a text has the same comments. -/
theorem ofLexemes_add (number lines : Nat) (ls : List Lexeme) :
    ofLexemes (number + lines) ls = (ofLexemes number ls).map (below lines) := by
  induction ls generalizing number with
  | nil => rfl
  | cons l ls ih =>
    have hfirst : ofLexeme? (number + lines) l = (ofLexeme? number l).map (below lines) := by
      rw [ofLexeme?, ofLexeme?]
      cases l.docLine? with
      | some text => rfl
      | none => cases l.docBlock? <;> rfl
    rw [ofLexemes, ofLexemes, hfirst, List.map_append, ← ih, Nat.add_right_comm]
    cases ofLexeme? number l <;> rfl

end DocComment

open DocComment

/-- A further line of a documentation. -/
theorem docText_concat {lines : List (List Char)} (h : lines ≠ []) (l : List Char) :
    docText (lines ++ [l]) = docText lines ++ "\n" ++ String.ofList l := by
  obtain ⟨first, lines, rfl⟩ := List.exists_cons_of_ne_nil h
  have htext : ['\n'].intercalate (first :: lines ++ [l]) =
      ['\n'].intercalate (first :: lines) ++ ['\n'] ++ l := by
    rw [List.cons_append, intercalate_cons, intercalate_cons, List.flatMap_append,
      List.flatMap_singleton, List.append_assoc, List.append_assoc]
  rw [docText, htext, String.ofList_append, String.ofList_append]
  rfl

/-- What a sequence of comments documents: nothing if there are none, the text of the last comment
if it is a block, and else the lines of the last run, which is not continued to the front. A block
separates the line comments before it from those behind it. -/
inductive LastDoc : List DocComment → Option String → Prop
  | none : LastDoc [] none
  | block (cs : List DocComment) (text : List Char) :
      LastDoc (cs ++ [.block text]) (some (String.ofList text))
  | run {cs : List DocComment} {first : Nat} {texts : List (List Char)} (hne : texts ≠ [])
      (hstart : ∀ number ∈ lastLine? cs, number + 1 ≠ first) :
      LastDoc (cs ++ run first texts) (some (docText texts))

namespace LastDoc

variable {cs : List DocComment} {doc doc' : Option String}

/-- No comments document nothing, and only these do. -/
theorem eq_none_iff (h : LastDoc cs doc) : doc = Option.none ↔ cs = [] := by
  cases h with
  | none => simp
  | block cs text => simp
  | run hne => simp [run_ne_nil hne]

/-- Of two runs at the end of the same comments, neither of them continued to the front, the second
is not a part of the first. -/
theorem texts_eq_of_append {cs mid : List DocComment} {first first' : Nat}
    {texts texts' : List (List Char)} (hne : texts' ≠ [])
    (hstart : ∀ number ∈ lastLine? (cs ++ mid), number + 1 ≠ first')
    (h : DocComment.run first texts = mid ++ DocComment.run first' texts') : texts = texts' := by
  obtain ⟨as, bs, rfl, rfl, hrest⟩ := exists_of_run_eq_append h
  have hbs : texts' = bs := by
    rw [← map_text_run first' texts', hrest, map_text_run]
  subst hbs
  have hfirst : first' = first + as.length := by
    obtain ⟨text, texts, rfl⟩ := List.exists_cons_of_ne_nil hne
    cases hrest
    rfl
  -- a comment of the first run in front of the second would stand on the line before it
  by_cases has : as = []
  · rw [has, List.nil_append]
  · have hpos := List.length_pos_iff.2 has
    exact absurd (by omega) (hstart _ (lastLine?_append_run cs first has))

/-- Comments document one thing only. -/
theorem unique (h : LastDoc cs doc) (h' : LastDoc cs doc') : doc = doc' := by
  cases h with
  | none => exact (h'.eq_none_iff.2 rfl).symm
  | block cs text =>
    generalize heq : cs ++ [DocComment.block text] = all at h'
    cases h' with
    | none => simp at heq
    | block cs' text' =>
      obtain ⟨-, hlast⟩ := List.append_inj' heq rfl
      cases hlast
      rfl
    | run hne => exact absurd heq (append_block_ne_append_run hne)
  | @run cs first texts hne hstart =>
    generalize heq : cs ++ DocComment.run first texts = all at h'
    cases h' with
    | none => exact absurd (List.append_eq_nil_iff.1 heq).2 (run_ne_nil hne)
    | block cs' text' => exact absurd heq.symm (append_block_ne_append_run hne)
    | @run cs' first' texts' hne' hstart' =>
      obtain ⟨mid, rfl, hmid⟩ | ⟨mid, rfl, hmid⟩ := List.append_eq_append_iff.1 heq
      · rw [texts_eq_of_append hne' hstart' hmid]
      · rw [texts_eq_of_append hne hstart hmid]

/-- A comment on the line behind a run continues it. -/
theorem extend {old : String} {number : Nat} (h : LastDoc cs (some old))
    (hline : lastLine? cs = some number) (text : List Char) :
    LastDoc (cs ++ [.line (number + 1) text]) (some (old ++ "\n" ++ String.ofList text)) := by
  generalize hdoc : some old = doc at h
  cases h with
  | none => cases hdoc
  | block cs text' =>
    rw [lastLine?_append_block] at hline
    cases hline
  | @run cs first texts hne hstart =>
    cases hdoc
    rw [lastLine?_append_run cs first hne, Option.some.injEq] at hline
    have hpos := List.length_pos_iff.2 hne
    have hnumber : number + 1 = first + texts.length := by omega
    have hrun : [DocComment.line (number + 1) text] =
        DocComment.run (first + texts.length) [text] := by
      rw [hnumber]
      rfl
    rw [hrun, List.append_assoc, ← run_append, ← docText_concat hne]
    exact .run (by simp) hstart

/-- A line comment that continues no run starts one. -/
theorem restart {number : Nat} (h : ∀ last ∈ lastLine? cs, last + 1 ≠ number) (text : List Char) :
    LastDoc (cs ++ [.line number text]) (some (String.ofList text)) := by
  have htext : docText [text] = String.ofList text := by
    rw [docText, List.intercalate_singleton]
  rw [← htext]
  exact @LastDoc.run cs number [text] (by simp) h

/-- Only the distances between lines count. -/
theorem map_below (h : LastDoc cs doc) (lines : Nat) : LastDoc (cs.map (below lines)) doc := by
  cases h with
  | none => exact .none
  | block cs text =>
    rw [List.map_append]
    exact .block _ text
  | @run cs first texts hne hstart =>
    rw [List.map_append, map_below_run]
    refine .run hne fun number hnumber => ?_
    rw [lastLine?_map_below] at hnumber
    obtain ⟨last, hlast, rfl⟩ := Option.map_eq_some_iff.1 hnumber
    have := hstart last hlast
    omega

end LastDoc

/-! ## What waits behind comments -/

/-- What waits is what the comments document, and a line comment right below the last of them
continues it. -/
structure Waits (cs : List DocComment) (pending : Option PendingDoc) : Prop where
  doc : LastDoc cs (pending.map (·.text))
  line : ∀ doc ∈ pending, doc.runLine = lastLine? cs

namespace Waits

theorem empty : Waits [] none := ⟨.none, by simp⟩

theorem of_lastDoc {cs : List DocComment} {doc : PendingDoc} (h : LastDoc cs (some doc.text))
    (hline : lastLine? cs = doc.runLine) : Waits cs (some doc) where
  doc := h
  line found hfound := by
    cases hfound
    exact hline.symm

/-- A lexeme adds its comment to those read so far. -/
theorem next {cs : List DocComment} {pending : Option PendingDoc} (h : Waits cs pending)
    {number : Nat} (hnumber : 0 < number) (l : Lexeme) :
    Waits (cs ++ (ofLexeme? number l).toList) (PendingDoc.next number pending l) := by
  rw [PendingDoc.next, ofLexeme?]
  cases l.docLine? with
  | some text =>
    have hline : lastLine? (cs ++ [.line number text]) = some number := by
      rw [lastLine?, List.getLast?_concat]
      rfl
    cases pending with
    | none =>
      have hcs : cs = [] := h.doc.eq_none_iff.1 rfl
      exact .of_lastDoc (.restart (by simp [hcs, lastLine?]) text) hline
    | some doc =>
      have hlast : doc.runLine = lastLine? cs := h.line doc rfl
      dsimp only
      split
      · -- the run goes on
        rename_i hrun
        have hextend := h.doc.extend (hlast.symm.trans hrun) text
        rw [Nat.sub_add_cancel hnumber] at hextend
        exact .of_lastDoc hextend hline
      · rename_i hrun
        refine .of_lastDoc (.restart (fun last hmem heq => hrun ?_) text) hline
        rw [hlast, Option.mem_def.1 hmem, ← heq, Nat.add_sub_cancel]
  | none =>
    cases l.docBlock? with
    | some text => exact .of_lastDoc (.block cs text) (lastLine?_append_block cs text)
    | none =>
      dsimp only [Option.toList_none]
      rwa [List.append_nil]

/-- What waits behind lexemes that become no tokens. -/
theorem along {ls : List Lexeme} (hls : ∀ l ∈ ls, l.token? = none)
    {cs : List DocComment} {here : Cursor} (h : Waits cs here.doc) (hline : 0 < here.line) :
    Waits (cs ++ ofLexemes here.line ls) (here.along ls).doc := by
  induction ls generalizing cs here with
  | nil =>
    rw [ofLexemes, List.append_nil]
    exact h
  | cons l ls ih =>
    obtain ⟨hl, hls⟩ := List.forall_mem_cons.1 hls
    have hdoc : (here.next l).doc = PendingDoc.next here.line here.doc l := by
      rw [Cursor.next, hl]
      rfl
    have hnext := h.next hline l
    rw [← hdoc] at hnext
    rw [ofLexemes, ← List.append_assoc, Cursor.along_cons]
    exact ih hls hnext (Nat.add_pos_left hline _)

end Waits

section Alone

variable {ls : List Lexeme} (hls : ∀ l ∈ ls, l.token? = none)

include hls

/-- At the beginning of a text waits what the comments document. -/
theorem lastDoc_along_start :
    LastDoc (ofLexemes 1 ls) ((Cursor.start.along ls).doc.map (·.text)) :=
  (Waits.along hls (show Waits [] Cursor.start.doc from .empty) Nat.one_pos).doc

/-- Where nothing waits in front of the lexemes, what waits behind them is what would wait there at
the beginning of a text. -/
theorem doc_along_eq {here : Cursor} (hdoc : here.doc = none) (hline : 0 < here.line) :
    (here.along ls).doc.map (·.text) = (Cursor.start.along ls).doc.map (·.text) := by
  have hhere := (Waits.along hls (hdoc ▸ Waits.empty) hline).doc
  obtain ⟨lines, hlines⟩ : ∃ lines, here.line = 1 + lines := ⟨here.line - 1, by omega⟩
  rw [hlines, ofLexemes_add] at hhere
  exact hhere.unique ((lastDoc_along_start hls).map_below lines)

end Alone

/-! ## Gaps -/

theorem tokensFrom_append (here : Cursor) (xs ys : List Lexeme) :
    tokensFrom here (xs ++ ys) = tokensFrom here xs ++ tokensFrom (here.along xs) ys := by
  induction xs generalizing here with
  | nil => rfl
  | cons l xs ih =>
    rw [List.cons_append, Cursor.along_cons]
    cases htoken : l.token? with
    | none => rw [tokensFrom_cons_of_none htoken, tokensFrom_cons_of_none htoken, ih]
    | some found =>
      obtain ⟨kind, value⟩ := found
      rw [tokensFrom_cons_of_some htoken, tokensFrom_cons_of_some htoken, ih, List.cons_append]

theorem tokensFrom_eq_nil_iff {here : Cursor} {ls : List Lexeme} :
    tokensFrom here ls = [] ↔ ∀ l ∈ ls, l.token? = none := by
  induction ls generalizing here with
  | nil => simp [tokensFrom]
  | cons l ls ih =>
    cases htoken : l.token? with
    | none => simp [tokensFrom_cons_of_none htoken, htoken, ih]
    | some found =>
      obtain ⟨kind, value⟩ := found
      simp [tokensFrom_cons_of_some htoken, htoken]

/-- A token stands at its lexeme, behind those of the tokens in front of it. -/
theorem exists_lexeme_of_tokensFrom {here : Cursor} {ls : List Lexeme} {before after : List Token}
    {t : Token} (h : tokensFrom here ls = before ++ t :: after) :
    ∃ front l back kind value, ls = front ++ l :: back ∧ l.token? = some (kind, value) ∧
      tokensFrom here front = before ∧ t = (here.along front).token l kind value := by
  induction ls generalizing here before with
  | nil => simp [tokensFrom] at h
  | cons l ls ih =>
    cases htoken : l.token? with
    | none =>
      rw [tokensFrom_cons_of_none htoken] at h
      obtain ⟨front, l', back, kind, value, rfl, htoken', rfl, rfl⟩ := ih h
      exact ⟨l :: front, l', back, kind, value, rfl, htoken',
        tokensFrom_cons_of_none htoken _ _, rfl⟩
    | some found =>
      obtain ⟨kind, value⟩ := found
      rw [tokensFrom_cons_of_some htoken] at h
      cases before with
      | nil =>
        cases h
        exact ⟨[], l, ls, kind, value, rfl, htoken, rfl, rfl⟩
      | cons first before =>
        obtain ⟨rfl, hrest⟩ := List.cons_eq_cons.1 h
        obtain ⟨front, l', back, kind', value', rfl, htoken', rfl, rfl⟩ := ih hrest
        exact ⟨l :: front, l', back, kind', value', rfl, htoken',
          tokensFrom_cons_of_some htoken _ _, rfl⟩

/-- Where the last of some tokens ends. -/
def stopOf (before : List Token) : Nat := (before.getLast?.map (·.stop)).getD 0

/-- What stands in a text between the tokens `before` and the token `t`. -/
def gapBefore (text : List Char) (before : List Token) (t : Token) : List Char :=
  slice text (stopOf before) t.start

/-- Behind the last token of some lexemes is a gap, in front of which no documentation waits. -/
theorem exists_gap_of_tokensFrom {ls : List Lexeme} {before : List Token}
    (h : tokensFrom .start ls = before) : ∃ front gap, ls = front ++ gap ∧
      (∀ l ∈ gap, l.token? = none) ∧ stopOf before = Lexeme.width front ∧
      (Cursor.start.along front).doc = none := by
  obtain rfl | ⟨before, u, rfl⟩ := List.eq_nil_or_concat' before
  · exact ⟨[], ls, rfl, tokensFrom_eq_nil_iff.1 h, rfl, rfl⟩
  · obtain ⟨front, l, gap, kind, value, rfl, htoken, hbefore, rfl⟩ := exists_lexeme_of_tokensFrom h
    have hgap : tokensFrom ((Cursor.start.along front).next l) gap = [] := by
      rw [tokensFrom_append, hbefore, tokensFrom_cons_of_some htoken] at h
      simpa using h
    have hoffset := Cursor.offset_along .start (front ++ [l])
    rw [Cursor.along_append, show Cursor.start.offset = 0 from rfl, Nat.zero_add] at hoffset
    refine ⟨front ++ [l], gap, by simp, tokensFrom_eq_nil_iff.1 hgap, ?_, ?_⟩
    · rw [stopOf, List.getLast?_concat, ← hoffset]
      rfl
    · rw [Cursor.along_append, Cursor.along_cons, Cursor.next, htoken]
      rfl

/-- In front of the lexeme of a token stand those of its gap, at a place where no documentation
waits. -/
theorem exists_gap_of_tokenize {text : List Char} {ts before after : List Token} {t : Token}
    (htokens : tokenize text = .ok ts) (hsplit : ts = before ++ t :: after) :
    ∃ gap l, ∃ here : Cursor, Lexeme.Legible (gap ++ [l]) ∧ (∀ g ∈ gap, g.token? = none) ∧
      l.token? = some (t.kind, t.value) ∧ gap.flatMap Lexeme.text = gapBefore text before t ∧
      l.text = slice text t.start t.stop ∧ here.doc = none ∧ 0 < here.line ∧
      t.doc = (here.along gap).doc.map (·.text) := by
  obtain ⟨ls, hlegible, rfl, hts⟩ := exists_legible_of_tokenize htokens
  obtain ⟨front, l, back, kind, value, rfl, htoken, hbefore, rfl⟩ :=
    exists_lexeme_of_tokensFrom (hts.symm.trans hsplit)
  obtain ⟨front, gap, rfl, hgap, hstop, hdoc⟩ := exists_gap_of_tokensFrom hbefore
  have hstart := Cursor.offset_along .start (front ++ gap)
  rw [show Cursor.start.offset = 0 from rfl, Nat.zero_add] at hstart
  refine ⟨gap, l, Cursor.start.along front, hlegible.of_infix ⟨front, back, by simp⟩, hgap, htoken,
    ?_, ?_, hdoc, ?_, ?_⟩
  · rw [gapBefore, hstop, Cursor.token, hstart, Lexeme.width_append, List.flatMap_append,
      List.flatMap_append]
    exact (slice_append _ _ _).symm
  · rw [Cursor.token, hstart]
    exact (Lexeme.slice_of_split rfl).symm
  · rw [Cursor.line_along]
    exact Nat.add_pos_left Nat.one_pos _
  · rw [← Cursor.along_append]
    rfl

/-- **Documentation does not leave its gap.** A token of a text has the documentation that waits
behind the gap in front of it, from the end of the token before it or the beginning of the text, if
that is read alone: what the last comments in the gap document, and none if there are no comments
that document something. So the token has the same documentation if only the gap stands in front of
it. -/
theorem doc_of_gap {text : List Char} {ts before after : List Token} {t : Token}
    (htokens : tokenize text = .ok ts) (hsplit : ts = before ++ t :: after) :
    let gap := gapBefore text before t
    tokenize gap = .ok [] ∧
    t.doc = (Cursor.behind gap).doc.map (·.text) ∧
    (∀ doc, LastDoc (DocComment.inText gap) doc ↔ doc = t.doc) ∧
    (t.doc = none ↔ DocComment.inText gap = []) ∧
    ∃ u, tokenize (gap ++ slice text t.start t.stop) = .ok [u] ∧ u.kind = t.kind ∧
      u.value = t.value ∧ u.doc = t.doc := by
  intro gap
  obtain ⟨ls, l, here, hlegible, hgap, htoken, htext, hvalue, hdoc, hline, ht⟩ :=
    exists_gap_of_tokenize htokens hsplit
  have hscan : Lexeme.scan (ls.flatMap Lexeme.text) = ⟨ls, none⟩ :=
    Lexeme.scan_eq_ok_iff.2 ⟨rfl, hlegible.of_infix (List.prefix_append ls [l]).isInfix⟩
  have hscan' : Lexeme.scan (ls.flatMap Lexeme.text ++ l.text) = ⟨ls ++ [l], none⟩ :=
    Lexeme.scan_eq_ok_iff.2 ⟨by simp, hlegible⟩
  have hlast := lastDoc_along_start hgap
  rw [doc_along_eq hgap hdoc hline] at ht
  rw [show gap = _ from htext.symm, ← hvalue, ht, Cursor.behind, inText, hscan]
  refine ⟨?_, rfl, fun doc => ⟨fun h => h.unique hlast, ?_⟩, hlast.eq_none_iff,
    (Cursor.start.along ls).token l t.kind t.value, ?_, rfl, rfl, rfl⟩
  · exact tokenize_eq_ok_iff.2 ⟨by rw [hscan], by rw [hscan, tokensFrom_eq_nil_iff.2 hgap]⟩
  · rintro rfl
    exact hlast
  · refine tokenize_eq_ok_iff.2 ⟨by rw [hscan'], ?_⟩
    rw [hscan', tokensFrom_append, tokensFrom_eq_nil_iff.2 hgap, tokensFrom_cons_of_some htoken]
    rfl

/-- In the first gap a block comes behind a line comment, and its lines are the documentation. In the
second one stand two comments of one run, with a block in front of the second of them that documents
nothing; what the first gap documents belongs to the token between the gaps. -/
theorem doc_of_gap_besideToken :
    let text := "/// z\n/** v\n * w */;/** y */ /// a\n/* */ /// b\n\n// c\nf".toList
    let gap := "/** y */ /// a\n/* */ /// b\n\n// c\n".toList
    ∃ t u, tokenize text = .ok [t, u] ∧
      gapBefore text [] t = "/// z\n/** v\n * w */".toList ∧ t.doc = some "v\nw" ∧
      gapBefore text [t] u = gap ∧ u.doc = some "a\nb" ∧
      tokenize gap = .ok [] ∧ ∃ v, tokenize (gap ++ ['f']) = .ok [v] ∧ v.doc = some "a\nb" := by
  intro text gap
  have htokens := tokenize_eq_ok_iff.2
    ⟨show (Lexeme.scan text).failure = none by decide +kernel, rfl⟩
  have hplaces : (tokensFrom .start (Lexeme.scan text).lexemes).map (fun t => (t.start, t.stop)) =
      [(19, 20), (53, 54)] := by decide +kernel
  obtain ⟨t, us, hts, ht, hus⟩ := List.map_eq_cons_iff.1 hplaces
  obtain ⟨u, us, rfl, hu, hnil⟩ := List.map_eq_cons_iff.1 hus
  obtain rfl := List.map_eq_nil_iff.1 hnil
  obtain ⟨htstart, htstop⟩ := Prod.mk.inj ht
  obtain ⟨hustart, hustop⟩ := Prod.mk.inj hu
  rw [hts] at htokens
  have hfirst : gapBefore text [] t = "/// z\n/** v\n * w */".toList := by
    rw [gapBefore, htstart]
    decide +kernel
  have hgap : gapBefore text [t] u = gap := by
    rw [gapBefore, hustart, stopOf, List.getLast?_singleton, Option.map_some, htstop]
    decide +kernel
  have hf : slice text u.start u.stop = ['f'] := by
    rw [hustart, hustop]
    decide +kernel
  obtain ⟨-, -, hlast, -⟩ := doc_of_gap htokens (List.nil_append _).symm
  obtain ⟨hempty, -, hlast', -, v, hv, -, -, hvdoc⟩ :=
    doc_of_gap htokens (show [t, u] = [t] ++ u :: [] from rfl)
  rw [hfirst] at hlast
  rw [hgap] at hempty hlast' hv
  rw [hf] at hv
  have hblock : LastDoc (DocComment.inText "/// z\n/** v\n * w */".toList) (some "v\nw") := by
    have hcomments : DocComment.inText "/// z\n/** v\n * w */".toList =
        [.line 1 ['z']] ++ [.block ['v', '\n', 'w']] := by decide +kernel
    rw [hcomments]
    exact .block _ _
  have hab : LastDoc (DocComment.inText gap) (some "a\nb") := by
    have hcomments : DocComment.inText gap = [.block ['y']] ++ run 1 [['a'], ['b']] := by
      decide +kernel
    rw [hcomments]
    exact .run (by decide) (by decide)
  have hudoc := ((hlast' _).1 hab).symm
  exact ⟨t, u, htokens, hfirst, ((hlast _).1 hblock).symm, hgap, hudoc, hempty, v, hv,
    hvdoc.trans hudoc⟩

end AbiIndex.Source
