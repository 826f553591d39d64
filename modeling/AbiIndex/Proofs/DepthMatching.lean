import AbiIndex.Proofs.Delimiting

/-!
# Delimiters by their depth

Every token carries the numbers of braces and of parentheses that are open around it. In the tokens
of a text these numbers follow the delimiters, whatever comments stand between them and even if
some closing delimiters have no partner. So the closing delimiter with the number of an opening one
is the one that counting finds.

## Key results

- `Gauge.marked_of_tokenize`: the numbers of the tokens of a text follow its delimiters
- `Gauge.Marked.of_closes`: behind a balanced sequence as many delimiters are open as before it
- `closeBrace_of_marked`, `closeParen_of_marked`, `closeParenInStatement_of_marked`: the number
  finds the delimiter that closes a balanced part
- `closeBrace_tokens`, `closeParen_tokens`: so it does among written tokens
-/

namespace AbiIndex.Source

open Lexeme (sign term)

theorem isMark_token_iff {here : Cursor} {l : Lexeme} {kind : TokenKind} {value : String}
    (h : l.token? = some (kind, value)) (text : String) :
    (here.token l kind value).isMark text ↔ l = sign text := by
  cases l with
  | mark cs =>
    cases h
    simp [Token.isMark, Cursor.token, sign, String.ext_iff]
  | _ => cases h <;> simp [Token.isMark, Cursor.token, sign]

/-! ## Open delimiters -/

/-- A pair of delimiters, how many pairs are open at a place, and the number that a token carries
for them. -/
structure Gauge where
  opener : String
  closer : String
  opens : Cursor → Nat
  mark : Token → Nat
  distinct : closer ≠ opener
  opens_start : opens .start = 0
  opens_past : ∀ here l doc, opens (here.past l doc) =
    if l = sign opener then opens here + 1
    else if l = sign closer then opens here - 1 else opens here
  mark_token : ∀ here l kind value,
    mark (here.token l kind value) = if l = sign closer then opens here - 1 else opens here
  opens_after : ∀ layout here l, opens (here.after layout l) =
    if l = sign opener then opens here + 1
    else if l = sign closer then opens here - 1 else opens here
  mark_symbol : ∀ here l,
    mark (here.symbol l) = if l = sign closer then opens here - 1 else opens here

namespace Gauge

/-- Braces. -/
def braces : Gauge where
  opener := blockOpen
  closer := blockClose
  opens := Cursor.depth
  mark := Token.depth
  distinct := by decide
  opens_start := rfl
  opens_past _ _ _ := rfl
  mark_token _ _ _ _ := rfl
  opens_after _ _ _ := rfl
  mark_symbol _ _ := rfl

/-- Parentheses. -/
def parens : Gauge where
  opener := "("
  closer := ")"
  opens := Cursor.parenDepth
  mark := Token.parenDepth
  distinct := by decide
  opens_start := rfl
  opens_past _ _ _ := rfl
  mark_token _ _ _ _ := rfl
  opens_after _ _ _ := rfl
  mark_symbol _ _ := rfl

variable (g : Gauge)

/-- How many delimiters are open behind a token, if `level` were open in front of it. -/
def past (level : Nat) (t : Token) : Nat :=
  if t.isMark g.opener then level + 1 else if t.isMark g.closer then level - 1 else level

/-- The numbers that the tokens carry follow their delimiters, where `level` are open at first. A
closing delimiter has the number of the one that it closes. -/
def Marked : Nat → List Token → Prop
  | _, [] => True
  | level, t :: ts =>
    g.mark t = (if t.isMark g.closer then level - 1 else level) ∧ Marked (g.past level t) ts

variable {g}

theorem marked_append {level : Nat} {xs ys : List Token} :
    g.Marked level (xs ++ ys) ↔ g.Marked level xs ∧ g.Marked (xs.foldl g.past level) ys := by
  induction xs generalizing level with
  | nil => simp [Marked]
  | cons t xs ih => simp only [List.cons_append, Marked, ih, List.foldl_cons, and_assoc]

/-- Tokens are cut out of their surroundings together with their level. -/
theorem Marked.of_isInfix {level : Nat} {ts part : List Token} (h : g.Marked level ts)
    (hpart : part <:+: ts) : ∃ level', g.Marked level' part := by
  obtain ⟨front, back, rfl⟩ := hpart
  exact ⟨_, (marked_append.1 (marked_append.1 h).1).2⟩

variable (g)

theorem marked_tokensFrom (here : Cursor) (ls : List Lexeme) :
    g.Marked (g.opens here) (tokensFrom here ls) := by
  induction ls generalizing here with
  | nil => trivial
  | cons l ls ih =>
    rw [tokensFrom]
    split
    · rename_i kind value htoken
      have hopen : (here.token l kind value).isMark g.opener ↔ _ := isMark_token_iff htoken _
      have hclose : (here.token l kind value).isMark g.closer ↔ _ := isMark_token_iff htoken _
      refine ⟨?_, ?_⟩
      · simp only [hclose]
        exact g.mark_token here l kind value
      · have hlevel : g.past (g.opens here) (here.token l kind value) =
            g.opens (here.past l none) := by
          simp only [past, hopen, hclose]
          exact (g.opens_past here l none).symm
        rw [hlevel]
        exact ih _
    · rename_i htoken
      -- what becomes no token is no delimiter
      have hsign : ∀ v, l ≠ sign v := by
        rintro v rfl
        cases htoken
      have hlevel (doc : Option PendingDoc) : g.opens (here.past l doc) = g.opens here := by
        rw [g.opens_past, if_neg (hsign _), if_neg (hsign _)]
      rw [← hlevel]
      exact ih _

/-- Nothing is open where a text begins. -/
theorem marked_of_tokenize {text : List Char} {ts : List Token} (h : tokenize text = .ok ts) :
    g.Marked 0 ts := by
  obtain ⟨-, rfl⟩ := tokenize_eq_ok_iff.1 h
  have := g.marked_tokensFrom .start (Lexeme.scan text).lexemes
  rwa [g.opens_start] at this

/-- So they do among written tokens, and what is open behind the last of them is known. -/
theorem marked_tokens (layout : Layout) (here : Cursor) (ls : List Lexeme) :
    g.Marked (g.opens here) (tokens layout here ls) ∧
      (tokens layout here ls).foldl g.past (g.opens here) = g.opens (here.through layout ls) := by
  induction ls generalizing here with
  | nil => exact ⟨trivial, rfl⟩
  | cons l ls ih =>
    have hpast : g.past (g.opens here) (here.symbol l) = g.opens (here.after layout l) := by
      rw [past, g.opens_after]
      simp
    obtain ⟨hmarked, hthrough⟩ := ih (here.after layout l)
    rw [tokens_cons, Marked, List.foldl_cons, hpast, Cursor.through_cons]
    exact ⟨⟨by rw [g.mark_symbol]; simp, hmarked⟩, hthrough⟩

variable {g}

/-- A balanced sequence ends at the level where it began, and closes nothing that was open before
it. -/
theorem Marked.of_closes {level nesting : Nat} {ts : List Token} (h : g.Marked (level + nesting) ts)
    (hcloses : closes (sign g.opener) (sign g.closer) nesting (ts.map Token.lexeme)) :
    ts.foldl g.past (level + nesting) = level ∧
      ∀ t ∈ ts, t.isMark g.closer → level ≤ g.mark t := by
  induction ts generalizing nesting with
  | nil =>
    rw [List.map_nil, closes, decide_eq_true_eq] at hcloses
    subst hcloses
    exact ⟨rfl, fun t ht => by cases ht⟩
  | cons t ts ih =>
    obtain ⟨hmark, hts⟩ := h
    -- how the rest goes on from behind the first token, by what this token is
    have hrest : ∃ n, closes (sign g.opener) (sign g.closer) n (ts.map Token.lexeme) ∧
        g.past (level + nesting) t = level + n ∧ (t.isMark g.closer → level ≤ g.mark t) := by
      rw [List.map_cons, closes] at hcloses
      simp only [Token.lexeme_eq_sign_iff] at hcloses
      rw [past]
      split at hcloses
      · rename_i hopen
        refine ⟨nesting + 1, hcloses, by rw [if_pos hopen, Nat.add_assoc], fun hclose => ?_⟩
        rw [if_pos hclose] at hmark
        have := Token.isMark_eq_false_of_ne hopen g.distinct.symm
        rw [hclose] at this
        cases this
      rename_i hopen
      rw [if_neg hopen]
      split at hcloses
      · rename_i hclose
        rw [Bool.and_eq_true, decide_eq_true_eq] at hcloses
        rw [if_pos hclose] at hmark ⊢
        exact ⟨nesting - 1, hcloses.2, by omega, fun _ => by omega⟩
      · rename_i hclose
        rw [if_neg hclose]
        exact ⟨nesting, hcloses, rfl, fun hc => absurd hc hclose⟩
    obtain ⟨n, hn, hpast, hfirst⟩ := hrest
    rw [hpast] at hts
    obtain ⟨hend, hinside⟩ := ih hts hn
    rw [List.foldl_cons, hpast]
    exact ⟨hend, List.forall_mem_cons.2 ⟨hfirst, hinside⟩⟩

/-- Between two delimiters that close each other no token has the number of the first, and the
second has. -/
theorem Marked.closing {level : Nat} {opening closing : Token} {inside : List Token}
    (h : g.Marked level (opening :: (inside ++ [closing])))
    (hopening : opening.isMark g.opener) (hclosing : closing.isMark g.closer)
    (hinside : closes (sign g.opener) (sign g.closer) 0 (inside.map Token.lexeme)) :
    (∀ t ∈ inside, (t.isMark g.closer && g.mark t = g.mark opening) = false) ∧
      g.mark closing = g.mark opening := by
  obtain ⟨hmark, h⟩ := h
  have hnot : opening.isMark g.closer = false :=
    Token.isMark_eq_false_of_ne hopening g.distinct.symm
  rw [hnot, if_neg Bool.false_ne_true] at hmark
  rw [past, if_pos hopening, marked_append] at h
  obtain ⟨hts, hclose⟩ := h
  -- inside, one more is open than around the part
  obtain ⟨hend, hdeeper⟩ := @Marked.of_closes g (level + 1) 0 _ hts hinside
  constructor
  · intro t ht
    rw [Bool.and_eq_false_imp]
    intro hcloser
    have := hdeeper t ht hcloser
    rw [decide_eq_false_iff_not]
    omega
  · have hmark' := hclose.1
    rw [if_pos hclosing, ← Nat.add_zero (level + 1), hend] at hmark'
    omega

/-- So the second is found by its number, if nothing stops the search before. -/
theorem Marked.cutWhere_closing {level : Nat} {opening closing : Token} {inside : List Token}
    (h : g.Marked level (opening :: (inside ++ [closing])))
    (hopening : opening.isMark g.opener) (hclosing : closing.isMark g.closer)
    (hinside : closes (sign g.opener) (sign g.closer) 0 (inside.map Token.lexeme))
    {stop : Token → Bool} (hstop : ∀ t ∈ inside, stop t = false) (rest : List Token) :
    cutWhere (fun t => t.isMark g.closer && g.mark t = g.mark opening) stop
      (inside ++ closing :: rest) = some ⟨inside, closing, rest⟩ := by
  obtain ⟨hbefore, hnumber⟩ := h.closing hopening hclosing hinside
  apply cutWhere_append
  · exact fun t ht => ⟨hbefore t ht, hstop t ht⟩
  · rw [Bool.and_eq_true, decide_eq_true_eq]
    exact ⟨hclosing, hnumber⟩

end Gauge

/-! ## Cuts by depth -/

section Marked

variable {level : Nat} {opening closing : Token} {inside : List Token}

/-- A block ends at the brace that counting finds. -/
theorem closeBrace_of_marked (h : Gauge.braces.Marked level (opening :: (inside ++ [closing])))
    (hopening : opening.isMark blockOpen) (hclosing : closing.isMark blockClose)
    (hinside : bracesMatch (inside.map Token.lexeme)) (rest : List Token) :
    closeBrace opening (inside ++ closing :: rest) = some ⟨inside, closing, rest⟩ :=
  h.cutWhere_closing hopening hclosing hinside (fun _ _ => rfl) rest

/-- A part in parentheses ends at the parenthesis that counting finds. -/
theorem closeParen_of_marked (h : Gauge.parens.Marked level (opening :: (inside ++ [closing])))
    (hopening : opening.isMark "(") (hclosing : closing.isMark ")")
    (hinside : parensMatch (inside.map Token.lexeme)) (rest : List Token) :
    closeParen opening (inside ++ closing :: rest) = some ⟨inside, closing, rest⟩ :=
  h.cutWhere_closing hopening hclosing hinside (fun _ _ => rfl) rest

/-- So it does if all of the part lies within one statement. -/
theorem closeParenInStatement_of_marked
    (h : Gauge.parens.Marked level (opening :: (inside ++ [closing])))
    (hopening : opening.isMark "(") (hclosing : closing.isMark ")")
    (hinside : parensMatch (inside.map Token.lexeme))
    (hstatement : ∀ t ∈ inside, t.endsStatement = false) (rest : List Token) :
    closeParenInStatement opening (inside ++ closing :: rest) = some ⟨inside, closing, rest⟩ :=
  h.cutWhere_closing hopening hclosing hinside hstatement rest

end Marked

/-! ## Written tokens -/

section Written

variable (layout : Layout) (here : Cursor) {ls : List Lexeme}

/-- A sequence is balanced if its tokens are. -/
theorem closes_tokens (o c : String) (nesting : Nat) (ls : List Lexeme) :
    closes (sign o) (sign c) nesting ((tokens layout here ls).map Token.lexeme) =
      closes (sign o) (sign c) nesting ls := by
  induction ls generalizing here nesting with
  | nil => rfl
  | cons l ls ih =>
    have hsign : ∀ v, (here.symbol l).lexeme = sign v ↔ l = sign v := by
      intro v
      rw [Token.lexeme_eq_sign_iff, Cursor.symbol_isMark, decide_eq_true_eq]
    rw [tokens_cons, List.map_cons, closes, closes]
    simp only [hsign, ih]

/-- Behind a balanced sequence as many delimiters are open as before it. -/
theorem Gauge.opens_through (g : Gauge) {here : Cursor}
    (h : closes (sign g.opener) (sign g.closer) 0 ls) :
    g.opens (here.through layout ls) = g.opens here := by
  obtain ⟨hmarked, hthrough⟩ := g.marked_tokens layout here ls
  rw [← closes_tokens layout here] at h
  rw [← hthrough]
  exact (@Gauge.Marked.of_closes g (g.opens here) 0 _ hmarked h).1

variable (rest : List Token)

/-- A block ends at its brace. -/
theorem closeBrace_tokens (h : bracesMatch ls) :
    closeBrace (here.symbol (sign blockOpen))
      (tokens layout (here.after layout (sign blockOpen)) (ls ++ [sign blockClose]) ++ rest) =
    some ⟨tokens layout (here.after layout (sign blockOpen)) ls,
      ((here.after layout (sign blockOpen)).through layout ls).symbol (sign blockClose), rest⟩ := by
  have hmarked := (Gauge.braces.marked_tokens layout here (inBraces ls)).1
  rw [inBraces, tokens_cons, tokens_append] at hmarked
  rw [tokens_append, List.append_assoc]
  refine closeBrace_of_marked hmarked (by simp) (by simp) ?_ rest
  rwa [bracesMatch, closes_tokens]

/-- A part in parentheses ends at its parenthesis. -/
theorem closeParen_tokens (h : parensMatch ls) :
    closeParen (here.symbol (sign "("))
      (tokens layout (here.after layout (sign "(")) (ls ++ [sign ")"]) ++ rest) =
    some ⟨tokens layout (here.after layout (sign "(")) ls,
      ((here.after layout (sign "(")).through layout ls).symbol (sign ")"), rest⟩ := by
  have hmarked := (Gauge.parens.marked_tokens layout here (inParens ls)).1
  rw [inParens, tokens_cons, tokens_append] at hmarked
  rw [tokens_append, List.append_assoc]
  refine closeParen_of_marked hmarked (by simp) (by simp) ?_ rest
  rwa [parensMatch, closes_tokens]

theorem endsStatement_eq_false_of_staysInStatement (h : staysInStatement ls) :
    ∀ t ∈ tokens layout here ls, t.endsStatement = false :=
  fun _ ht => stop_eq_false_of_staysInStatement h ht fun _ h => h

end Written

end AbiIndex.Source
