import AbiIndex.Proofs.FunctionParts

/-!
# Reading written parameters and function headers

## Key results

- `ParameterExpr.read_tokens`: a parameter is read back
- `readParenthesised_tokens`: a list of parameters is read up to its parenthesis
- `SpecifierExpr.isSpecifier_tokens`: a specifier states what it was written for
-/

namespace AbiIndex.Grammar

open AbiIndex.Source
open Lexeme (sign term)

/-! ## Commas -/

/-- Whether the sequence closes the parentheses and brackets that it opens and `nesting` more, and
has no comma outside all of them. -/
def seals : Nat → List Lexeme → Bool
  | nesting, [] => nesting = 0
  | nesting, l :: ls =>
    if l = sign "(" ∨ l = sign "[" then seals (nesting + 1) ls
    else if l = sign ")" ∨ l = sign "]" then 0 < nesting && seals (nesting - 1) ls
    else (l ≠ sign "," || 0 < nesting) && seals nesting ls

theorem seals_append {m n : Nat} {xs ys : List Lexeme} (hx : seals m xs) (hy : seals n ys) :
    seals (m + n) (xs ++ ys) := by
  induction xs generalizing m with
  | nil =>
    rw [seals, decide_eq_true_eq] at hx
    rwa [hx, Nat.zero_add]
  | cons l xs ih =>
    rw [seals] at hx
    rw [List.cons_append, seals]
    split at hx
    · rw [if_pos ‹_›, Nat.add_right_comm]
      exact ih hx
    · rw [if_neg ‹_›]
      split at hx
      · rw [if_pos ‹_›]
        rw [Bool.and_eq_true, decide_eq_true_eq] at hx ⊢
        refine ⟨by omega, ?_⟩
        rw [show m + n - 1 = m - 1 + n by omega]
        exact ih hx.2
      · rw [if_neg ‹_›]
        rw [Bool.and_eq_true, Bool.or_eq_true, decide_eq_true_eq, decide_eq_true_eq] at hx ⊢
        exact ⟨hx.1.imp_right fun h => by omega, ih hx.2⟩

/-- Words have no commas. -/
theorem seals_cons_term {text : String} {ls : List Lexeme} (h : seals 0 ls) :
    seals 0 (term text :: ls) := by
  simp [seals, h]

theorem seals_wrap {ls : List Lexeme} (h : seals 0 ls) : seals 0 (inParens ls) := by
  rw [inParens, seals, if_pos (.inl rfl)]
  exact seals_append h (by decide : seals 1 [sign ")"])

/-- Where parentheses and brackets are balanced, commas between parentheses do no harm. -/
theorem seals_of_closes {ls : List Lexeme} {p b : Nat} (hp : closes (sign "(") (sign ")") p ls)
    (hb : closes (sign "[") (sign "]") b ls) : seals (p + b + 1) (ls ++ [sign ")"]) := by
  induction ls generalizing p b with
  | nil =>
    rw [closes, decide_eq_true_eq] at hp hb
    subst hp hb
    decide
  | cons l ls ih =>
    -- each delimiter changes one of the two counts, and their sum in the same way
    rw [closes] at hp hb
    rw [List.cons_append, seals]
    by_cases hparen : l = sign "("
    · subst hparen
      rw [if_pos rfl] at hp
      rw [if_neg (by decide), if_neg (by decide)] at hb
      rw [if_pos (.inl rfl), show p + b + 1 + 1 = p + 1 + b + 1 by omega]
      exact ih hp hb
    rw [if_neg hparen] at hp
    by_cases hclose : l = sign ")"
    · subst hclose
      rw [if_pos rfl, Bool.and_eq_true, decide_eq_true_eq] at hp
      rw [if_neg (by decide), if_neg (by decide)] at hb
      rw [if_neg (by decide), if_pos (.inl rfl), Bool.and_eq_true, decide_eq_true_eq]
      refine ⟨by omega, ?_⟩
      rw [show p + b + 1 - 1 = p - 1 + b + 1 by omega]
      exact ih hp.2 hb
    rw [if_neg hclose] at hp
    by_cases hbracket : l = sign "["
    · subst hbracket
      rw [if_pos rfl] at hb
      rw [if_pos (.inr rfl), show p + b + 1 + 1 = p + (b + 1) + 1 by omega]
      exact ih hp hb
    rw [if_neg hbracket] at hb
    by_cases hend : l = sign "]"
    · subst hend
      rw [if_pos rfl, Bool.and_eq_true, decide_eq_true_eq] at hb
      rw [if_neg (by decide), if_pos (.inr rfl), Bool.and_eq_true, decide_eq_true_eq]
      refine ⟨by omega, ?_⟩
      rw [show p + b + 1 - 1 = p + (b - 1) + 1 by omega]
      exact ih hp hb.2
    rw [if_neg hend] at hb
    rw [if_neg (by simp [hparen, hbracket]), if_neg (by simp [hclose, hend]), Bool.and_eq_true]
    exact ⟨by simp, ih hp hb⟩

theorem TypeArguments.seals (arguments : TypeArguments) :
    seals 0 (inParens arguments.lexemes) := by
  rw [inParens, Grammar.seals, if_pos (.inl rfl)]
  exact seals_of_closes arguments.phrase.parens arguments.brackets

theorem seals_flatMap {α : Type} {f : α → List Lexeme} {as : List α}
    (h : ∀ a ∈ as, seals 0 (f a)) : seals 0 (as.flatMap f) := by
  induction as with
  | nil => rfl
  | cons a as ih =>
    rw [List.flatMap_cons]
    exact seals_append (h a List.mem_cons_self) (ih fun b hb => h b (List.mem_cons_of_mem a hb))

theorem Dotted.seals (path : Dotted) : seals 0 path.lexemes := by
  apply seals_cons_term
  apply seals_flatMap
  intro n _
  exact seals_append (m := 0) (n := 0) (by decide : Grammar.seals 0 [sign "."]) (seals_cons_term rfl)

theorem NamedType.seals (type : NamedType) : seals 0 type.lexemes := by
  cases type with
  | elementary name known => exact seals_cons_term rfl
  | addressPayable => exact seals_cons_term (seals_cons_term rfl)
  | user path free => exact path.seals

/-- A type has no comma outside its parentheses. -/
theorem TypeExpr.seals (type : TypeExpr) : seals 0 type.lexemes := by
  induction type with
  | named type => exact type.seals
  | mapping key value ih =>
    apply seals_cons_term
    apply seals_wrap
    apply seals_append (m := 0) (n := 0) key.seals
    exact seals_append (m := 0) (n := 0) (by decide : Grammar.seals 0 [sign "=>"]) ih
  | function parameters suffixes =>
    apply seals_cons_term
    apply seals_append (m := 0) (n := 0) parameters.seals
    apply seals_flatMap
    intro s _
    cases s with
    | word text known => exact seals_cons_term rfl
    | returns values => exact seals_cons_term values.seals
  | array base length ih =>
    apply seals_append (m := 0) (n := 0) ih
    have hlength : Grammar.seals 0 length.lexemes := by
      cases length with
      | unstated => rfl
      | literal digits solid => simp [Length.lexemes, Grammar.seals, sign]
      | constant path => exact path.seals
    rw [Grammar.seals, if_pos (.inr rfl)]
    exact seals_append hlength (by decide : Grammar.seals 1 [sign "]"])

theorem ParameterExpr.seals {allowIndexed : Bool} (p : ParameterExpr allowIndexed) :
    seals 0 p.lexemes := by
  apply seals_append (m := 0) (n := 0) p.type.seals
  rw [List.map_eq_flatMap]
  exact seals_flatMap fun w _ => seals_cons_term rfl

variable (layout : Layout) (here : Cursor)

/-- A sealed sequence belongs to one part of a list. -/
theorem splitAtCommas_tokens {ls : List Lexeme} {nesting : Nat} (h : seals nesting ls)
    {rest part : List Token} {parts : List (List Token)}
    (hrest : Parameter.splitAtCommas 0 rest = part :: parts) :
    Parameter.splitAtCommas nesting (tokens layout here ls ++ rest) =
      (tokens layout here ls ++ part) :: parts := by
  induction ls generalizing here nesting with
  | nil =>
    rw [seals, decide_eq_true_eq] at h
    subst h
    exact hrest
  | cons l ls ih =>
    -- how the nesting goes on, and that the first token is no separator
    have hstep : ∃ n : Nat, seals n ls ∧
        (nesting : Int) + Parameter.nestingStep (here.symbol l) = n ∧ (l = sign "," → n ≠ 0) := by
      rw [Parameter.nestingStep]
      simp only [Cursor.symbol_isMark, decide_eq_true_eq]
      rw [seals] at h
      split at h
      · rename_i hl
        exact ⟨nesting + 1, h, by rw [if_pos hl]; omega, fun _ => by omega⟩
      · rename_i hl
        rw [if_neg hl]
        split at h
        · rename_i hl
          rw [Bool.and_eq_true, decide_eq_true_eq] at h
          refine ⟨nesting - 1, h.2, by rw [if_pos hl]; omega, ?_⟩
          rintro rfl
          exact absurd hl (by decide)
        · rename_i hl
          rw [Bool.and_eq_true, Bool.or_eq_true, decide_eq_true_eq, decide_eq_true_eq] at h
          refine ⟨nesting, h.2, by rw [if_neg hl]; omega, fun hcomma => ?_⟩
          rcases h.1 with hne | hpos
          · exact absurd hcomma hne
          · omega
    obtain ⟨n, hseals, hn, hcomma⟩ := hstep
    rw [tokens_cons, List.cons_append, Parameter.splitAtCommas, hn, ih _ hseals, if_neg]
    · rfl
    · rw [Cursor.symbol_isMark, decide_eq_true_eq]
      exact fun ⟨hl, hzero⟩ => hcomma hl (by omega)

/-! ## Parameters -/

section Words

variable {allowIndexed : Bool} {within : String} {p : Parameter} {rest : List Token}

theorem readWords_indexed (hallowed : allowIndexed) (hp : p.name = "") :
    Parameter.readWords allowIndexed within p (here.symbol (term "indexed") :: rest) =
      Parameter.readWords allowIndexed within { p with indexed := true } rest := by
  rw [Parameter.readWords, if_neg (by simp), if_neg (by simp; decide),
    if_pos ⟨by simp, hallowed, hp⟩]

theorem readWords_location {w : String} (hw : w ∈ Parameter.dataLocations) :
    Parameter.readWords allowIndexed within p (here.symbol (term w) :: rest) =
      Parameter.readWords allowIndexed within p rest := by
  rw [Parameter.readWords, if_neg (by simp), if_pos (by simpa using hw)]

theorem readWords_name {w : String} (hw : w ∉ Parameter.dataLocations)
    (hindexed : allowIndexed → w ≠ "indexed") (hp : p.name = "") :
    Parameter.readWords allowIndexed within p (here.symbol (term w) :: rest) =
      Parameter.readWords allowIndexed within { p with name := w } rest := by
  rw [Parameter.readWords, if_neg (by simp), if_neg (by simpa using hw), if_neg, if_neg (by simp [hp])]
  · simp
  · rw [Cursor.symbol_value, Lexeme.term_value]
    exact fun h => hindexed h.2.1 h.1

end Words

namespace ParameterExpr

variable {allowIndexed : Bool} (p : ParameterExpr allowIndexed) (within : String)

theorem readWords_tokens :
    Parameter.readWords allowIndexed within ⟨"", p.type.ref, false⟩
      (tokens layout here (p.words.map term)) = .ok p.parameter := by
  obtain ⟨type, indexed, location, name, hallowed, hfree, hends⟩ := p
  -- the name comes last, whatever has been read before it
  have hname : ∀ here, Parameter.readWords allowIndexed within ⟨"", type.ref, indexed⟩
      (tokens layout here (name.toList.map fun n => term n.text)) =
      .ok ⟨(name.map (·.text)).getD "", type.ref, indexed⟩ := by
    intro here
    cases name with
    | none => rfl
    | some n =>
      obtain ⟨hlocation, hindexed⟩ := hfree n rfl
      rw [Option.toList_some, List.map_singleton, tokens_cons, readWords_name _ hlocation hindexed rfl]
      rfl
  have hlocation : ∀ here, Parameter.readWords allowIndexed within ⟨"", type.ref, indexed⟩
      (tokens layout here ((location.toList.map fun w => term w.val) ++
        name.toList.map fun n => term n.text)) =
      .ok ⟨(name.map (·.text)).getD "", type.ref, indexed⟩ := by
    intro here
    cases location with
    | none => exact hname here
    | some w =>
      rw [Option.toList_some, List.map_singleton, List.singleton_append, tokens_cons,
        readWords_location _ w.property]
      exact hname _
  simp only [words, parameterWords, parameter, List.map_append, List.map_map, List.append_assoc,
    Function.comp_def]
  cases indexed with
  | false => exact hlocation here
  | true =>
    rw [if_pos rfl, List.map_singleton, List.singleton_append, tokens_cons,
      readWords_indexed _ (hallowed rfl) rfl]
    exact hlocation _

/-- The words of a parameter do not belong to its type. -/
theorem follows : Follows p.type.absorbs (tokens layout here (p.words.map term)) := by
  intro t more h
  cases hwords : p.words with
  | nil =>
    rw [hwords] at h
    cases h
  | cons w ws =>
    rw [hwords, List.map_cons, tokens_cons] at h
    cases h
    refine ⟨by simp, fun _ => ⟨?_, ?_⟩⟩
    · rw [Cursor.symbol_value, Lexeme.term_value]
      apply p.type_ends
      rw [show parameterWords p.indexed p.location p.name = w :: ws from hwords]
      rfl
    · intro u hu
      cases ws with
      | nil => cases hu
      | cons w' ws =>
        cases hu
        simp

/-- A parameter is read back. -/
theorem read_tokens :
    Parameter.read allowIndexed within (tokens layout here p.lexemes) = .ok p.parameter := by
  have hwords := p.readWords_tokens layout (here.through layout p.type.lexemes) within
  have hfollows := p.follows layout (here.through layout p.type.lexemes)
  have hread := p.type.read_tokens layout here within hfollows
  have hbrackets : TypeRef.readBrackets within p.type.ref
      (tokens layout (here.through layout p.type.lexemes) (p.words.map term)) =
      .ok (p.type.ref,
        tokens layout (here.through layout p.type.lexemes) (p.words.map term)) := by
    cases p.words with
    | nil => rw [List.map_nil, tokens_nil, TypeRef.readBrackets]
    | cons w ws => rw [List.map_cons, tokens_cons, TypeRef.readBrackets, if_neg (by simp)]
  rw [lexemes, tokens_append, Parameter.read, if_neg, hread, hbrackets]
  · exact hwords
  · -- without a token there would be no type
    intro hnil
    rw [hnil, TypeRef.read, hbrackets] at hread
    cases hread

end ParameterExpr

/-- One part of a list of parameters. -/
theorem ParameterExpr.splitAtCommas_tokens {allowIndexed : Bool} (p : ParameterExpr allowIndexed)
    {rest part : List Token} {parts : List (List Token)}
    (hrest : Parameter.splitAtCommas 0 rest = part :: parts) :
    Parameter.splitAtCommas 0 (tokens layout here p.lexemes ++ rest) =
      (tokens layout here p.lexemes ++ part) :: parts :=
  Grammar.splitAtCommas_tokens layout here p.seals hrest

theorem mapM_read_tokens {allowIndexed : Bool} (within : String) (p : ParameterExpr allowIndexed)
    (ps : List (ParameterExpr allowIndexed)) :
    (Parameter.splitAtCommas 0 (tokens layout here (listed ((p :: ps).map (·.lexemes))))).mapM
      (Parameter.read allowIndexed within) = .ok ((p :: ps).map (·.parameter)) := by
  induction ps generalizing here p with
  | nil =>
    have hnil : Parameter.splitAtCommas 0 [] = [] :: [] := rfl
    have hsplit := p.splitAtCommas_tokens layout here hnil
    rw [List.append_nil] at hsplit
    rw [List.map_singleton, listed, List.flatMap_nil, List.append_nil, hsplit, List.mapM_cons,
      p.read_tokens]
    rfl
  | cons q ps ih =>
    -- the comma ends the parameter in front of it
    have hcomma : Parameter.splitAtCommas 0 (tokens layout (here.through layout p.lexemes)
        (sign "," :: listed ((q :: ps).map (·.lexemes)))) =
        [] :: Parameter.splitAtCommas 0 (tokens layout
          ((here.through layout p.lexemes).after layout (sign ","))
          (listed ((q :: ps).map (·.lexemes)))) := by
      have hstep : ∀ place : Cursor, Parameter.nestingStep (place.symbol (sign ",")) = 0 := by
        intro place
        simp [Parameter.nestingStep]
      rw [tokens_cons, Parameter.splitAtCommas, hstep, if_pos ⟨by simp, rfl⟩]
      rfl
    have hlisted : listed ((p :: q :: ps).map (·.lexemes)) =
        p.lexemes ++ sign "," :: listed ((q :: ps).map (·.lexemes)) := by
      simp [listed]
    rw [hlisted, tokens_append, p.splitAtCommas_tokens layout here hcomma, List.append_nil,
      List.mapM_cons, p.read_tokens, ih]
    rfl

theorem readList_tokens {allowIndexed : Bool} (ps : List (ParameterExpr allowIndexed)) :
    Parameter.readList allowIndexed (tokens layout here (listed (ps.map (·.lexemes)))) =
      .ok (ps.map (·.parameter)) := by
  cases ps with
  | nil => rfl
  | cons p ps =>
    rw [Parameter.readList, if_neg, mapM_read_tokens]
    -- a list without tokens would be read as one parameter without a type
    intro hnil
    have := mapM_read_tokens layout here "" p ps
    rw [hnil] at this
    cases this

/-! ## Parts in parentheses -/

/-- A phrase in parentheses is cut as a whole. -/
theorem enclosed_tokens {ls : List Lexeme} (h : Phrase ls) :
    Enclosed (tokens layout (here.after layout (sign "(")) ls)
      (tokens layout here (inParens ls)) := by
  rw [inParens, tokens_cons, tokens_append]
  refine .intro (by simp) (by simp) ?_
    (endsStatement_eq_false_of_staysInStatement layout _ h.statement)
  rw [parensMatch, closes_tokens]
  exact h.parens

theorem optionalList_tokens (arguments : Option Arguments) :
    OptionalList (tokens layout here (arguments.toList.flatMap fun a => inParens a.lexemes)) := by
  cases arguments with
  | none => exact .absent
  | some a =>
    rw [Option.toList_some, List.flatMap_singleton]
    exact .present (enclosed_tokens layout here a.phrase)

/-- A list of parameters is read up to its parenthesis. -/
theorem readParenthesised_tokens {allowIndexed : Bool} (within : String)
    (ps : List (ParameterExpr allowIndexed)) (rest : List Token) :
    Parameter.readParenthesised allowIndexed within
      (tokens layout here (parameterList ps) ++ rest) = .ok (ps.map (·.parameter), rest) :=
  (enclosed_tokens layout here (phrase_parameterList ps)).readParenthesised
    (readList_tokens layout _ ps) (Gauge.parens.marked_tokens layout here _).1 within rest

/-! ## Specifiers -/

theorem Dotted.dottedTokens (path : Dotted) :
    DottedTokens (tokens layout here path.lexemes) path.names := by
  obtain ⟨first, more⟩ := path
  induction more generalizing here first with
  | nil => exact .single (by simp)
  | cons n more ih => exact .cons (by simp) (by simp) (ih _ n)

/-- A written specifier states what it was written for. -/
theorem SpecifierExpr.isSpecifier_tokens (s : SpecifierExpr) :
    IsSpecifier (tokens layout here s.lexemes) s.specifier := by
  cases s with
  | visibility v => exact .visibility v (by simp)
  | mutability m => exact .mutability m (by simp)
  | virtual => exact .virtual (by simp)
  | override bases => exact .override (by simp) (optionalList_tokens layout _ bases)
  | modifier i free =>
    rw [lexemes, Invocation.lexemes, tokens_append]
    refine .modifier (i.path.dottedTokens layout here) ?_ (optionalList_tokens layout _ i.arguments)
    intro w hw
    cases hw
    exact free
  | returns values =>
    exact .returns (by simp) (enclosed_tokens layout _ (phrase_parameterList values))
      (readList_tokens layout _ values)

/-- The parts of a written header. -/
theorem exists_specified (specifiers : List SpecifierExpr) : ∃ header : List (List Token),
    header.flatten = tokens layout here (specifiers.flatMap SpecifierExpr.lexemes) ∧
      List.Forall₂ IsSpecifier header (specifiers.map SpecifierExpr.specifier) := by
  induction specifiers generalizing here with
  | nil => exact ⟨[], rfl, .nil⟩
  | cons s specifiers ih =>
    obtain ⟨header, hflatten, hheader⟩ := ih (here.through layout s.lexemes)
    refine ⟨tokens layout here s.lexemes :: header, ?_,
      .cons (s.isSpecifier_tokens layout here) hheader⟩
    rw [List.flatten_cons, hflatten, List.flatMap_cons, tokens_append]

end AbiIndex.Grammar
