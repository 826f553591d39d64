import AbiIndex.Proofs.Lexing
import AbiIndex.Source.Delimited

/-!
# Delimiters among written tokens

Between two delimiters of a pair stands a sequence of lexemes in which the delimiters are balanced.
The lemmas say that each way of cutting a token sequence then stops at the closing delimiter, and
not before it.

## Key results

- `cutWhere_append`: a cut stops at the first hit that nothing in front of it prevents
- `closeNested_tokens`: a delimited part ends at the delimiter that closes it
- `cutAtMark_tokens`: a statement ends at the mark that ends it
- `closes_of_closeNested`: counting delimiters stops only behind a balanced sequence
-/

namespace AbiIndex.Source

open Lexeme (sign term)

/-- Whether the closing marks of the sequence close its opening ones and `nesting` more. -/
def closes (opener closer : Lexeme) : Nat → List Lexeme → Bool
  | nesting, [] => nesting = 0
  | nesting, l :: ls =>
    if l = opener then closes opener closer (nesting + 1) ls
    else if l = closer then 0 < nesting && closes opener closer (nesting - 1) ls
    else closes opener closer nesting ls

/-- Whether every brace of the sequence has its partner in it. -/
def bracesMatch (ls : List Lexeme) : Bool := closes (sign blockOpen) (sign blockClose) 0 ls

/-- Whether every parenthesis of the sequence has its partner in it. -/
def parensMatch (ls : List Lexeme) : Bool := closes (sign "(") (sign ")") 0 ls

/-- Whether every bracket of the sequence has its partner in it. -/
def bracketsMatch (ls : List Lexeme) : Bool := closes (sign "[") (sign "]") 0 ls

/-- The marks that end a statement. -/
def statementEnds : List String := [blockOpen, blockClose, ";"]

/-- Whether the sequence lies within one statement. -/
def staysInStatement (ls : List Lexeme) : Bool := ls.all fun l => l ∉ statementEnds.map sign

/-! ## Balanced sequences -/

section Balanced

variable {opener closer : Lexeme}

theorem closes_append {m n : Nat} {xs ys : List Lexeme} (hx : closes opener closer m xs)
    (hy : closes opener closer n ys) : closes opener closer (m + n) (xs ++ ys) := by
  induction xs generalizing m with
  | nil =>
    rw [closes, decide_eq_true_eq] at hx
    rwa [hx, Nat.zero_add]
  | cons l xs ih =>
    rw [closes] at hx
    rw [List.cons_append, closes]
    split at hx
    -- an opening, a closing and any other lexeme in turn
    · rw [if_pos ‹_›, Nat.add_right_comm]
      exact ih hx
    · rw [if_neg ‹_›]
      split at hx
      · rw [if_pos ‹_›]
        rw [Bool.and_eq_true, decide_eq_true_eq] at hx ⊢
        refine ⟨by omega, ?_⟩
        rw [show m + n - 1 = m - 1 + n by omega]
        exact ih hx.2
      · rw [if_neg ‹_›]
        exact ih hx

/-- A lexeme that is neither of the two delimiters changes nothing. -/
theorem closes_cons {l : Lexeme} {ls : List Lexeme} (ho : l ≠ opener) (hc : l ≠ closer)
    (h : closes opener closer 0 ls) : closes opener closer 0 (l :: ls) := by
  rwa [closes, if_neg ho, if_neg hc]

theorem closes_append_zero {xs ys : List Lexeme} (hx : closes opener closer 0 xs)
    (hy : closes opener closer 0 ys) : closes opener closer 0 (xs ++ ys) :=
  closes_append hx hy

/-- A balanced sequence between two delimiters is balanced. -/
theorem closes_wrap (hne : closer ≠ opener) {ls : List Lexeme} (h : closes opener closer 0 ls) :
    closes opener closer 0 (opener :: (ls ++ [closer])) := by
  rw [closes, if_pos rfl]
  apply closes_append h
  rw [closes, if_neg hne, if_pos rfl]
  rfl

theorem closes_flatMap {α : Type} {f : α → List Lexeme} {xs : List α}
    (h : ∀ x ∈ xs, closes opener closer 0 (f x)) : closes opener closer 0 (xs.flatMap f) := by
  induction xs with
  | nil => rfl
  | cons x xs ih =>
    rw [List.flatMap_cons]
    apply closes_append_zero (h x List.mem_cons_self)
    exact ih fun y hy => h y (List.mem_cons_of_mem x hy)

end Balanced

/-! ## Phrases and blocks -/

/-- The sequence between parentheses. -/
def inParens (ls : List Lexeme) : List Lexeme := sign "(" :: (ls ++ [sign ")"])

/-- The sequence between braces. -/
def inBraces (ls : List Lexeme) : List Lexeme := sign blockOpen :: (ls ++ [sign blockClose])

/-- Tokens within one statement whose parentheses are balanced. -/
structure Phrase (ls : List Lexeme) : Prop where
  solid : ∀ l ∈ ls, l.isSolid
  parens : parensMatch ls
  statement : staysInStatement ls

/-- Tokens whose braces are balanced. -/
structure Block (ls : List Lexeme) : Prop where
  solid : ∀ l ∈ ls, l.isSolid
  braces : bracesMatch ls

namespace Phrase

variable {xs ys : List Lexeme}

theorem nil : Phrase [] := ⟨by simp, rfl, rfl⟩

theorem append (hx : Phrase xs) (hy : Phrase ys) : Phrase (xs ++ ys) where
  solid l hl := (List.mem_append.1 hl).elim (hx.solid l) (hy.solid l)
  parens := closes_append_zero hx.parens hy.parens
  statement := by
    rw [staysInStatement, List.all_append, Bool.and_eq_true]
    exact ⟨hx.statement, hy.statement⟩

theorem cons {l : Lexeme} (hl : Phrase [l]) (h : Phrase xs) : Phrase (l :: xs) := hl.append h

instance (ls : List Lexeme) : Decidable (Phrase ls) :=
  decidable_of_iff ((∀ l ∈ ls, l.isSolid) ∧ parensMatch ls ∧ staysInStatement ls)
    ⟨fun ⟨h₁, h₂, h₃⟩ => ⟨h₁, h₂, h₃⟩, fun ⟨h₁, h₂, h₃⟩ => ⟨h₁, h₂, h₃⟩⟩

/-- Every word that can be a token is a phrase. -/
theorem word {text : String} (h : (term text).isSolid) : Phrase [term text] where
  solid l hl := by
    rw [List.mem_singleton] at hl
    rwa [hl]
  parens := closes_cons (Lexeme.term_ne_sign _ _) (Lexeme.term_ne_sign _ _) rfl
  statement := by simp [staysInStatement, statementEnds]

theorem flatMap {α : Type} {f : α → List Lexeme} {as : List α} (h : ∀ a ∈ as, Phrase (f a)) :
    Phrase (as.flatMap f) := by
  induction as with
  | nil => exact nil
  | cons a as ih =>
    rw [List.flatMap_cons]
    exact (h a List.mem_cons_self).append (ih fun b hb => h b (List.mem_cons_of_mem a hb))

theorem inParens (h : Phrase xs) : Phrase (inParens xs) where
  solid l hl := by
    rw [Source.inParens, List.mem_cons, List.mem_append, List.mem_singleton] at hl
    rcases hl with rfl | hl | rfl
    · decide
    · exact h.solid l hl
    · decide
  parens := closes_wrap (by decide) h.parens
  statement := by
    have hends : staysInStatement [sign "("] ∧ staysInStatement [sign ")"] := by decide
    have := h.statement
    simp only [staysInStatement, Source.inParens, List.all_cons, List.all_append, List.all_nil,
      Bool.and_true, Bool.and_eq_true] at hends this ⊢
    exact ⟨hends.1, this, hends.2⟩

/-- A phrase has no brace at all. -/
theorem block (h : Phrase xs) : Block xs := by
  refine ⟨h.solid, ?_⟩
  have hs := h.statement
  clear h
  induction xs with
  | nil => rfl
  | cons l xs ih =>
    rw [staysInStatement, List.all_cons, Bool.and_eq_true, decide_eq_true_eq] at hs
    have hne : ∀ v ∈ statementEnds, l ≠ sign v := by
      rintro v hv rfl
      exact hs.1 (List.mem_map_of_mem hv)
    exact closes_cons (hne _ (by decide)) (hne _ (by decide)) (ih hs.2)

end Phrase

namespace Block

variable {xs ys : List Lexeme}

theorem nil : Block [] := Phrase.nil.block

theorem append (hx : Block xs) (hy : Block ys) : Block (xs ++ ys) where
  solid l hl := (List.mem_append.1 hl).elim (hx.solid l) (hy.solid l)
  braces := closes_append_zero hx.braces hy.braces

theorem flatMap {α : Type} {f : α → List Lexeme} {as : List α} (h : ∀ a ∈ as, Block (f a)) :
    Block (as.flatMap f) := by
  induction as with
  | nil => exact nil
  | cons a as ih =>
    rw [List.flatMap_cons]
    exact (h a List.mem_cons_self).append (ih fun b hb => h b (List.mem_cons_of_mem a hb))

theorem semicolon : Block [sign ";"] := ⟨by decide, by decide⟩

theorem inBraces (h : Block xs) : Block (inBraces xs) where
  solid l hl := by
    rw [Source.inBraces, List.mem_cons, List.mem_append, List.mem_singleton] at hl
    rcases hl with rfl | hl | rfl
    · decide
    · exact h.solid l hl
    · decide
  braces := closes_wrap (by decide) h.braces

end Block

/-! ## Tokens -/

section Tokens

variable (layout : Layout)

@[simp] theorem tokens_nil (here : Cursor) : tokens layout here [] = [] := rfl

@[simp] theorem tokens_cons (here : Cursor) (l : Lexeme) (ls : List Lexeme) :
    tokens layout here (l :: ls) = here.symbol l :: tokens layout (here.after layout l) ls := rfl

@[simp] theorem Cursor.through_nil (here : Cursor) : here.through layout [] = here := rfl

@[simp] theorem Cursor.through_cons (here : Cursor) (l : Lexeme) (ls : List Lexeme) :
    here.through layout (l :: ls) = (here.after layout l).through layout ls := rfl

@[simp] theorem Cursor.through_append (here : Cursor) (xs ys : List Lexeme) :
    here.through layout (xs ++ ys) = (here.through layout xs).through layout ys :=
  List.foldl_append

@[simp] theorem tokens_append (here : Cursor) (xs ys : List Lexeme) :
    tokens layout here (xs ++ ys) =
      tokens layout here xs ++ tokens layout (here.through layout xs) ys := by
  induction xs generalizing here with
  | nil => rfl
  | cons l xs ih =>
    rw [List.cons_append, tokens, ih, tokens, List.cons_append]
    rfl

/-- Each token belongs to a lexeme. -/
theorem exists_of_mem_tokens {here : Cursor} {ls : List Lexeme} {t : Token}
    (h : t ∈ tokens layout here ls) : ∃ l ∈ ls, ∃ place : Cursor, t = place.symbol l := by
  induction ls generalizing here with
  | nil => cases h
  | cons l ls ih =>
    rw [tokens, List.mem_cons] at h
    rcases h with rfl | h
    · exact ⟨l, List.mem_cons_self, here, rfl⟩
    · obtain ⟨l', hl', place, rfl⟩ := ih h
      exact ⟨l', List.mem_cons_of_mem l hl', place, rfl⟩

end Tokens

namespace Cursor

@[simp] theorem symbol_kind (here : Cursor) (l : Lexeme) : (here.symbol l).kind = l.kind := rfl

@[simp] theorem symbol_value (here : Cursor) (l : Lexeme) : (here.symbol l).value = l.value := rfl

@[simp] theorem symbol_line (here : Cursor) (l : Lexeme) : (here.symbol l).line = here.line := rfl

/-- A token is a mark if its lexeme is. -/
@[simp] theorem symbol_isMark (here : Cursor) (l : Lexeme) (v : String) :
    (here.symbol l).isMark v = decide (l = sign v) := by
  rw [Token.isMark, symbol_kind, symbol_value, Bool.eq_iff_iff]
  cases l with
  | mark text => simp [Lexeme.kind, Lexeme.value, sign, String.ext_iff]
  | _ => simp [Lexeme.kind, sign]

/-- A token is a word if its lexeme is. -/
@[simp] theorem symbol_isWord (here : Cursor) (l : Lexeme) (v : String) :
    (here.symbol l).isWord v = decide (l = term v) := by
  rw [Token.isWord, symbol_kind, symbol_value, Bool.eq_iff_iff]
  cases l with
  | word text => simp [Lexeme.kind, Lexeme.value, term, String.ext_iff]
  | _ => simp [Lexeme.kind, term]

end Cursor

/-! ## Lexemes of tokens -/

/-- The lexeme of a token. How a quoted text was written is not known from its token. -/
def Token.lexeme (t : Token) : Lexeme :=
  match t.kind with
  | .word => .word t.value.toList
  | .number => .number t.value.toList
  | .quoted => .quoted '"' t.value.toList
  | .mark => .mark t.value.toList

namespace Token

@[simp] theorem lexeme_value (t : Token) : t.lexeme.value = t.value := by
  rw [lexeme]
  split <;> exact String.ofList_toList

theorem lexeme_eq_sign_iff {t : Token} {v : String} : t.lexeme = .sign v ↔ t.isMark v := by
  rw [lexeme, Token.isMark]
  split <;> simp_all [Lexeme.sign, String.toList_inj]

theorem lexeme_eq_term_iff {t : Token} {v : String} : t.lexeme = .term v ↔ t.isWord v := by
  rw [lexeme, Token.isWord]
  split <;> simp_all [Lexeme.term, String.toList_inj]

/-- A token is one mark at most. -/
theorem isMark_eq_false_of_ne {t : Token} {v w : String} (h : t.isMark v) (hne : v ≠ w) :
    t.isMark w = false := by
  simp only [isMark, Bool.and_eq_true, decide_eq_true_eq] at h
  simp [isMark, h.2, hne]

theorem isMark_eq_false_of_word {t : Token} (h : t.kind = .word) (v : String) :
    t.isMark v = false := by
  simp [isMark, h]

/-- Whether a token ends a statement, or begins or ends a block. -/
def endsStatement (t : Token) : Bool := t.kind = .mark && t.value ∈ statementEnds

theorem endsStatement_iff {t : Token} : t.endsStatement ↔
    t.isMark blockOpen ∨ t.isMark blockClose ∨ t.isMark ";" := by
  simp only [endsStatement, isMark, statementEnds, Bool.and_eq_true, decide_eq_true_eq,
    List.mem_cons, List.not_mem_nil, or_false, and_or_left]

theorem endsStatement_eq_false_of_word {t : Token} (h : t.kind = .word) :
    t.endsStatement = false := by
  simp [endsStatement, h]

theorem endsStatement_eq_false_of_isMark {t : Token} {value : String} (h : t.isMark value)
    (hvalue : value ∉ statementEnds) : t.endsStatement = false := by
  simp only [isMark, Bool.and_eq_true, decide_eq_true_eq] at h
  simp [endsStatement, h.2, hvalue]

end Token

/-! ## Cuts -/

theorem cutWhere_append {hit stop : Token → Bool} {before after : List Token} {t : Token}
    (h : ∀ u ∈ before, hit u = false ∧ stop u = false) (ht : hit t) :
    cutWhere hit stop (before ++ t :: after) = some ⟨before, t, after⟩ := by
  induction before with
  | nil => rw [List.nil_append, cutWhere, if_pos ht]
  | cons u before ih =>
    obtain ⟨hhit, hstop⟩ := h u List.mem_cons_self
    rw [List.cons_append, cutWhere, if_neg (by simp [hhit]), if_neg (by simp [hstop]),
      ih fun v hv => h v (List.mem_cons_of_mem u hv)]
    rfl

section Cuts

variable (layout : Layout) (here : Cursor) {ls : List Lexeme} (rest : List Token)

/-- No token of a sequence within one statement is one of the marks that end it. -/
theorem isMark_eq_false_of_staysInStatement {layout : Layout} {here : Cursor}
    (h : staysInStatement ls) {t : Token} (ht : t ∈ tokens layout here ls) :
    ∀ v ∈ statementEnds, t.isMark v = false := by
  intro v hv
  obtain ⟨l, hl, place, rfl⟩ := exists_of_mem_tokens layout ht
  have hnot := List.all_eq_true.1 h l hl
  rw [decide_eq_true_eq] at hnot
  rw [Cursor.symbol_isMark, decide_eq_false_iff_not]
  rintro rfl
  exact hnot (List.mem_map_of_mem hv)

theorem stop_eq_false_of_staysInStatement {layout : Layout} {here : Cursor}
    (h : staysInStatement ls) {t : Token} (ht : t ∈ tokens layout here ls) {stops : List String}
    (hstops : ∀ v ∈ stops, v ∈ statementEnds) : (t.kind = .mark && t.value ∈ stops) = false := by
  rw [Bool.and_eq_false_imp]
  intro hkind
  rw [decide_eq_false_iff_not]
  intro hvalue
  have := isMark_eq_false_of_staysInStatement h ht t.value (hstops _ hvalue)
  rw [Token.isMark, hkind, decide_eq_true rfl] at this
  cases this

/-- A statement is cut at the mark that ends it. -/
theorem cutAtMark_tokens {value : String} {stops : List String} (hvalue : value ∈ statementEnds)
    (hstops : ∀ v ∈ stops, v ∈ statementEnds) (hs : staysInStatement ls) (place : Cursor) :
    cutAtMark value stops (tokens layout here ls ++ place.symbol (sign value) :: rest) =
      some ⟨tokens layout here ls, place.symbol (sign value), rest⟩ := by
  apply cutWhere_append
  · intro t ht
    exact ⟨isMark_eq_false_of_staysInStatement hs ht _ hvalue,
      stop_eq_false_of_staysInStatement hs ht hstops⟩
  · simp

end Cuts

/-- Counting delimiters finds the one behind a balanced sequence. -/
theorem closeNested_of_closes {opener closer : String} (hne : closer ≠ opener)
    {ts rest : List Token} {hit : Token} {nesting : Nat}
    (h : closes (.sign opener) (.sign closer) nesting (ts.map Token.lexeme))
    (hhit : hit.isMark closer) :
    closeNested opener closer nesting (ts ++ hit :: rest) = some ⟨ts, hit, rest⟩ := by
  induction ts generalizing nesting with
  | nil =>
    rw [List.map_nil, closes, decide_eq_true_eq] at h
    subst h
    simp [closeNested, hhit, Token.isMark_eq_false_of_ne hhit hne]
  | cons t ts ih =>
    rw [List.map_cons, closes] at h
    simp only [Token.lexeme_eq_sign_iff] at h
    rw [List.cons_append]
    unfold closeNested
    split at h
    · rw [if_pos ‹_›, ih h]
      rfl
    · rw [if_neg ‹_›]
      split at h
      · rw [Bool.and_eq_true, decide_eq_true_eq] at h
        -- a delimiter inside closes an inner pair
        obtain ⟨n, rfl⟩ : ∃ n, nesting = n + 1 := ⟨nesting - 1, by omega⟩
        rw [Nat.add_sub_cancel] at h
        rw [if_pos ‹_›]
        dsimp only
        rw [ih h.2]
        rfl
      · rw [if_neg ‹_›, ih h]
        rfl

theorem closes_map_lexeme_tokens {opener closer : String} (layout : Layout) (here : Cursor)
    (nesting : Nat) (ls : List Lexeme) :
    closes (sign opener) (sign closer) nesting ((tokens layout here ls).map Token.lexeme) =
      closes (sign opener) (sign closer) nesting ls := by
  induction ls generalizing here nesting with
  | nil => rfl
  | cons l ls ih =>
    simp only [tokens_cons, List.map_cons, closes, Token.lexeme_eq_sign_iff, Cursor.symbol_isMark,
      decide_eq_true_eq, ih]

/-- Counting delimiters finds the closing one, too. -/
theorem closeNested_tokens {opener closer : String} (hne : closer ≠ opener) (layout : Layout)
    (here : Cursor) {ls : List Lexeme} {nesting : Nat}
    (h : closes (sign opener) (sign closer) nesting ls) {place : Cursor} (rest : List Token) :
    closeNested opener closer nesting
      (tokens layout here ls ++ place.symbol (sign closer) :: rest) =
    some ⟨tokens layout here ls, place.symbol (sign closer), rest⟩ :=
  closeNested_of_closes hne (by rwa [closes_map_lexeme_tokens]) (by simp)

/-- Counting delimiters stops behind a balanced sequence. -/
theorem closes_of_closeNested {opener closer : String} {nesting : Nat} {ts : List Token} {c : Cut}
    (h : closeNested opener closer nesting ts = some c) :
    closes (.sign opener) (.sign closer) nesting (c.before.map Token.lexeme) ∧
      c.hit.isMark closer := by
  induction ts generalizing nesting c with
  | nil => cases h
  | cons t ts ih =>
    rw [closeNested.eq_def] at h
    dsimp only at h
    split at h
    · rename_i hopen
      obtain ⟨c', hc, rfl⟩ := Option.map_eq_some_iff.1 h
      refine ⟨?_, (ih hc).2⟩
      rw [List.map_cons, closes, if_pos (Token.lexeme_eq_sign_iff.2 hopen)]
      exact (ih hc).1
    rename_i hopen
    split at h
    · rename_i hclose
      cases nesting with
      | zero =>
        cases h
        exact ⟨rfl, hclose⟩
      | succ n =>
        obtain ⟨c', hc, rfl⟩ := Option.map_eq_some_iff.1 h
        refine ⟨?_, (ih hc).2⟩
        rw [List.map_cons, closes, if_neg (mt Token.lexeme_eq_sign_iff.1 hopen),
          if_pos (Token.lexeme_eq_sign_iff.2 hclose), Bool.and_eq_true]
        exact ⟨by simp, (ih hc).1⟩
    · rename_i hclose
      obtain ⟨c', hc, rfl⟩ := Option.map_eq_some_iff.1 h
      refine ⟨?_, (ih hc).2⟩
      rw [List.map_cons, closes, if_neg (mt Token.lexeme_eq_sign_iff.1 hopen),
        if_neg (mt Token.lexeme_eq_sign_iff.1 hclose)]
      exact (ih hc).1

end AbiIndex.Source
