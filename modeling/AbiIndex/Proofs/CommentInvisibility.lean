import AbiIndex.Proofs.Legible
import AbiIndex.Proofs.PlaceErasure
import Mathlib.Data.List.Forall2

/-!
# Comments do not change what is declared

A comment that stands where a lexeme may begin can be replaced by white space: the text is read in
the same way before and behind it, the same tokens are found, and so are the same declarations. The
comment may hold anything, such as quotes, braces or the beginning of another comment.

## Key results

- `scan_swap`: what is read in front of a comment is read in front of white space, too
- `map_bare_tokensFrom`: apart from their places, tokens depend only on the lexemes that become tokens
- `comment_invisible`: a text with a comment and the text with white space in its place have the
  same tokens and the same declarations
-/

namespace AbiIndex.Source

open AbiIndex.Text

theorem foldr_push (ls : List Lexeme) (s : Scan) :
    ls.foldr Scan.push s = ⟨ls ++ s.lexemes, s.failure⟩ := by
  induction ls with
  | nil => rfl
  | cons l ls ih =>
    rw [List.foldr_cons, ih]
    rfl

namespace Lexeme

/-! ## The places where lexemes begin -/

/-- White space ends what a slash ends: only a comment in a line goes on. -/
theorem endsBefore_blank_of_slash {l : Lexeme} (hl : l.IsWritten) (h : l.endsBefore '/') {b : Char}
    (hb : isBlank b) : l.endsBefore b := by
  cases l with
  | blank c => rfl
  | lineComment body => exact absurd h (by simp [endsBefore])
  | blockComment body => rfl
  | quoted quote body => rfl
  | word text => exact endsBefore_of_isBlank hl hb
  | number text => exact endsBefore_of_isBlank hl hb
  | mark text => exact endsBefore_of_isBlank hl hb

/-- What is read up to a place where a slash stands is read in the same way if white space stands
there. -/
theorem scan_swap {p tail tail' : List Char} (h : Visits (p ++ tail) p.length)
    (hslash : tail.head? = some '/') {b : Char} (hblank : tail'.head? = some b)
    (hb : isBlank b) : ∃ ls : List Lexeme,
      scan (p ++ tail) = ls.foldr Scan.push (scan tail) ∧
      scan (p ++ tail') = ls.foldr Scan.push (scan tail') := by
  obtain ⟨ls, hlegible, htext, hlast⟩ := exists_legible_of_visits h
  rw [List.take_left] at htext
  rw [List.drop_left] at hlast
  -- what may stand before a slash may stand before white space
  have hlast' : ∀ l ∈ ls.getLast?, ∀ d ∈ tail'.head?, l.endsBefore d := by
    intro l hl d hd
    rw [hblank] at hd
    cases hd
    exact endsBefore_blank_of_slash (hlegible.written l (List.mem_of_getLast? hl))
      (hlast l hl '/' hslash) hb
  rw [← htext]
  exact ⟨ls, by rw [scan_append hlegible hlast, foldr_push],
    by rw [scan_append hlegible hlast', foldr_push]⟩

end Lexeme

/-! ## The tokens of a scan -/

/-- A lexeme that becomes no token leaves the depths as they are. -/
theorem Cursor.past_depth_of_token?_eq_none {l : Lexeme} (h : l.token? = none) (here : Cursor)
    (doc : Option PendingDoc) :
    (here.past l doc).depth = here.depth ∧ (here.past l doc).parenDepth = here.parenDepth := by
  cases l with
  | mark text => cases h
  | _ => exact ⟨rfl, rfl⟩

/-- Apart from their places, tokens depend only on the depths at the beginning and on the lexemes
that become tokens. -/
theorem map_bare_tokensFrom {here here' : Cursor} (hdepth : here.depth = here'.depth)
    (hparen : here.parenDepth = here'.parenDepth) (ls : List Lexeme) :
    (tokensFrom here ls).map Token.bare =
      (tokensFrom here' (ls.filter (·.token?.isSome))).map Token.bare := by
  induction ls generalizing here here' with
  | nil => rfl
  | cons l ls ih =>
    cases htoken : l.token? with
    | none =>
      rw [List.filter_cons_of_neg (by simp [htoken]), tokensFrom, htoken]
      obtain ⟨hd, hp⟩ := Cursor.past_depth_of_token?_eq_none htoken here
        (PendingDoc.next here.line here.doc l)
      exact ih (hd.trans hdepth) (hp.trans hparen)
    | some found =>
      obtain ⟨kind, value⟩ := found
      rw [List.filter_cons_of_pos (by simp [htoken]), tokensFrom, tokensFrom, htoken]
      simp only [List.map_cons]
      congr 1
      · simp only [Token.bare, Cursor.token, hdepth, hparen]
      · exact ih (by simp only [Cursor.past, hdepth]) (by simp only [Cursor.past, hparen])

/-- Equal bare tokens are of the same kind, with the same value and at the same depths. -/
theorem forall₂_of_map_bare_eq {ts ts' : List Token} (h : ts.map Token.bare = ts'.map Token.bare) :
    List.Forall₂ (fun t t' => t.kind = t'.kind ∧ t.value = t'.value ∧ t.depth = t'.depth ∧
      t.parenDepth = t'.parenDepth) ts ts' := by
  rw [← List.forall₂_eq_eq_eq, List.forall₂_map_left_iff, List.forall₂_map_right_iff] at h
  refine h.imp fun t t' heq => ?_
  rw [Token.bare, Token.bare, Token.mk.injEq] at heq
  exact ⟨heq.1, heq.2.1, heq.2.2.2.2.2.1, heq.2.2.2.2.2.2.1⟩

/-! ## Replacing a comment -/

/-- The comments, each with the white space that can take its place: one space for a block comment,
which its first closing mark ends, and the line break for a comment up to the end of its line. -/
inductive IsComment : List Char → List Char → Prop
  | block (body : List Char) (h : ¬ ['*', '/'] <:+: body ++ ['*']) :
      IsComment ('/' :: '*' :: (body ++ ['*', '/'])) [' ']
  | line (body : List Char) (h : '\n' ∉ body) :
      IsComment ('/' :: '/' :: (body ++ ['\n'])) ['\n']

namespace IsComment

variable {comment space : List Char}

theorem head? (h : IsComment comment space) (s : List Char) :
    (comment ++ s).head? = some '/' ∧ ∃ b, (space ++ s).head? = some b ∧ isBlank b := by
  cases h with
  | block body _ => exact ⟨rfl, ' ', rfl, by decide⟩
  | line body _ => exact ⟨rfl, '\n', rfl, by decide⟩

/-- A comment and the white space in its place are lexemes that become no token. -/
theorem scan_append (h : IsComment comment space) (s : List Char) :
    ∃ ls ls' : List Lexeme, ls.filter (·.token?.isSome) = [] ∧ ls'.filter (·.token?.isSome) = [] ∧
      Lexeme.scan (comment ++ s) = ls.foldr Scan.push (Lexeme.scan s) ∧
      Lexeme.scan (space ++ s) = ls'.foldr Scan.push (Lexeme.scan s) := by
  have hspace : ∀ b, isBlank b → Lexeme.scan ([b] ++ s) = (Lexeme.scan s).push (.blank b) :=
    fun b hb => Lexeme.scan_of_read (Lexeme.read_of_isBlank hb)
  cases h with
  | block body hbody =>
    refine ⟨[.blockComment body], [.blank ' '], rfl, rfl, ?_, hspace ' ' (by decide)⟩
    exact Lexeme.scan_of_read (Lexeme.read_eq_ok_iff.2 ⟨rfl, hbody, fun _ _ => rfl⟩)
  | line body hbody =>
    refine ⟨[.lineComment body, .blank '\n'], [.blank '\n'], rfl, rfl, ?_, hspace '\n' (by decide)⟩
    -- the line break is no part of the comment
    have hread : Lexeme.read '/' ('/' :: (body ++ ['\n'] ++ s)) =
        .ok (.lineComment body, '\n' :: s) := by
      refine Lexeme.read_eq_ok_iff.2 ⟨?_, hbody, ?_⟩
      · simp [Lexeme.text]
      · intro d hd
        cases hd
        rfl
    rw [List.foldr_cons, List.foldr_cons, List.foldr_nil, ← hspace '\n' (by decide)]
    exact Lexeme.scan_of_read hread

/-- The lexemes of the two texts that become tokens are the same, and so is what stays open. -/
theorem scan_eq (h : IsComment comment space) {p s : List Char}
    (hp : Lexeme.Visits (p ++ comment ++ s) p.length) :
    (Lexeme.scan (p ++ comment ++ s)).failure = (Lexeme.scan (p ++ space ++ s)).failure ∧
    (Lexeme.scan (p ++ comment ++ s)).lexemes.filter (·.token?.isSome) =
      (Lexeme.scan (p ++ space ++ s)).lexemes.filter (·.token?.isSome) := by
  rw [List.append_assoc] at hp ⊢
  rw [List.append_assoc]
  obtain ⟨hslash, b, hblank, hb⟩ := h.head? s
  obtain ⟨front, hfront, hfront'⟩ := Lexeme.scan_swap hp hslash hblank hb
  obtain ⟨ls, ls', hls, hls', hscan, hscan'⟩ := h.scan_append s
  rw [hfront, hfront', hscan, hscan']
  simp only [foldr_push, List.filter_append, hls, hls', true_and]

end IsComment

/-- A comment where a lexeme may begin does not change what is declared. With white space in its
place the text is closed or not as before, its tokens are of the same kinds, with the same values
and at the same depths, and its declarations differ only in lines, documentation and the text of the
pragma. -/
theorem comment_invisible (p s comment space : List Char) (hc : IsComment comment space)
    (hp : Lexeme.Visits (p ++ comment ++ s) p.length) :
    ((∃ e, tokenize (p ++ comment ++ s) = .error e) ↔ ∃ e, tokenize (p ++ space ++ s) = .error e) ∧
    (∀ ts ts', tokenize (p ++ comment ++ s) = .ok ts → tokenize (p ++ space ++ s) = .ok ts' →
      List.Forall₂ (fun t t' => t.kind = t'.kind ∧ t.value = t'.value ∧ t.depth = t'.depth ∧
        t.parenDepth = t'.parenDepth) ts ts') ∧
    ∀ category path unit unit',
      SourceUnit.extractAs category (p ++ comment ++ s) path = .ok unit →
      SourceUnit.extractAs category (p ++ space ++ s) path = .ok unit' → unit.bare = unit'.bare := by
  obtain ⟨hfailure, hlexemes⟩ := hc.scan_eq hp
  have htokens : ∀ ts ts', tokenize (p ++ comment ++ s) = .ok ts →
      tokenize (p ++ space ++ s) = .ok ts' → ts.map Token.bare = ts'.map Token.bare := by
    intro ts ts' h h'
    obtain ⟨-, rfl⟩ := tokenize_eq_ok_iff.1 h
    obtain ⟨-, rfl⟩ := tokenize_eq_ok_iff.1 h'
    calc (tokensFrom .start (Lexeme.scan (p ++ comment ++ s)).lexemes).map Token.bare
        = _ := map_bare_tokensFrom rfl rfl _
      _ = _ := by rw [hlexemes]
      _ = _ := (map_bare_tokensFrom rfl rfl _).symm
  refine ⟨?_, fun ts ts' h h' => forall₂_of_map_bare_eq (htokens ts ts' h h'), ?_⟩
  · rw [tokenize_eq_error_iff, tokenize_eq_error_iff, hfailure]
  · intro category path unit unit' h h'
    obtain ⟨ts, hts, rfl⟩ := SourceUnit.extractAs_eq_ok_iff.1 h
    obtain ⟨ts', hts', rfl⟩ := SourceUnit.extractAs_eq_ok_iff.1 h'
    exact SourceUnit.ofTokens_bare_eq path category _ _ (htokens ts ts' hts hts')

/-- The comment holds a quote and the beginning of another comment, and parts two words that would be
one without it. -/
theorem comment_invisible_between_words :
    let p := ['e', 'r', 'r', 'o', 'r']
    let comment := ['/', '*', '"', '/', '/', '*', '/']
    let s := ['E', '(', ')', ';']
    IsComment comment [' '] ∧ Lexeme.Visits (p ++ comment ++ s) p.length ∧
    ∃ unit unit', SourceUnit.extractAs .contracts (p ++ comment ++ s) "A.sol" = .ok unit ∧
      SourceUnit.extractAs .contracts (p ++ [' '] ++ s) "A.sol" = .ok unit' ∧
      unit.bare = unit'.bare := by
  intro p comment s
  have hc : IsComment comment [' '] := .block ['"', '/', '/'] (by decide)
  have hread : Lexeme.read 'e' (['r', 'r', 'o', 'r'] ++ comment ++ s) =
      .ok (.word p, comment ++ s) := rfl
  have hp : Lexeme.Visits (p ++ comment ++ s) p.length := .step hread (.start _)
  have hclosed : (Lexeme.scan (p ++ comment ++ s)).failure = none := by decide +kernel
  have hclosed' := (hc.scan_eq hp).1.symm.trans hclosed
  obtain ⟨-, -, hunits⟩ := comment_invisible p s comment [' '] hc hp
  have hextract : ∀ text, (Lexeme.scan text).failure = none →
      ∃ unit, SourceUnit.extractAs .contracts text "A.sol" = .ok unit := fun text h =>
    ⟨_, SourceUnit.extractAs_eq_ok_iff.2 ⟨_, tokenize_eq_ok_iff.2 ⟨h, rfl⟩, rfl⟩⟩
  obtain ⟨unit, h⟩ := hextract _ hclosed
  obtain ⟨unit', h'⟩ := hextract _ hclosed'
  exact ⟨hc, hp, unit, unit', h, h', hunits .contracts "A.sol" _ _ h h'⟩

end AbiIndex.Source
