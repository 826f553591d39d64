import AbiIndex.Proofs.Grammar
import AbiIndex.Proofs.ReaderEquations

/-!
# Reading written types

A type that is written is read back, up to the place where it ends.

## Key results

- `readDotted_tokens`: a dotted name is read up to its last part
- `TypeExpr.read_tokens`: a type is read back, whatever follows it that does not belong to it
-/

namespace AbiIndex.Grammar

open AbiIndex.Source
open Lexeme (sign term)

/-- The tokens are not part of a name or a type in front of them, where the type would take the
given words. -/
def Follows (absorbed : List String) (rest : List Token) : Prop :=
  ∀ t more, rest = t :: more → t.isMark "." = false ∧
    (t.kind = .word → t.value ∉ absorbed ∧ ∀ u ∈ more.head?, u.isMark "(" = false)

theorem Follows.nil (absorbed : List String) : Follows absorbed [] := by
  intro t more h
  cases h

theorem Follows.not_dot {absorbed : List String} {rest : List Token} (h : Follows absorbed rest) :
    ∀ t ∈ rest.head?, t.isMark "." = false := by
  intro t ht
  cases rest with
  | nil => cases ht
  | cons u more =>
    cases ht
    exact (h t more rfl).1

/-- A mark other than a point ends every type. -/
theorem Follows.sign {absorbed : List String} {here : Cursor} {v : String} (hv : v ≠ ".")
    (rest : List Token) : Follows absorbed (here.symbol (sign v) :: rest) := by
  intro t more h
  cases h
  refine ⟨by simpa using hv, fun hword => ?_⟩
  rw [Cursor.symbol_kind, Lexeme.sign_kind] at hword
  cases hword

variable (layout : Layout) (here : Cursor)

/-! ## Names -/

theorem readDotted_of_not_dot {rest : List Token}
    (h : ∀ t ∈ rest.head?, t.isMark "." = false) : readDotted rest = ([], rest) := by
  match rest, h with
  | [], _ => rfl
  | [t], _ => rfl
  | t :: u :: more, h =>
    have hdot := h t rfl
    rw [readDotted, if_neg]
    rw [hdot]
    exact fun hp => Bool.false_ne_true hp.1

/-- The parts of a name behind its first one. -/
theorem readDotted_tokens (names : List Ident) {rest : List Token}
    (h : ∀ t ∈ rest.head?, t.isMark "." = false) :
    readDotted (tokens layout here (names.flatMap fun n => [sign ".", term n.text]) ++ rest) =
      (names.map (·.text), rest) := by
  induction names generalizing here with
  | nil => exact readDotted_of_not_dot h
  | cons n names ih =>
    rw [List.flatMap_cons]
    simp only [tokens_cons, List.cons_append, List.nil_append]
    rw [readDotted, if_pos ⟨by simp, by simp⟩, ih]
    simp

theorem map_value_tokens (ls : List Lexeme) :
    (tokens layout here ls).map (·.value) = ls.map Lexeme.value := by
  induction ls generalizing here with
  | nil => rfl
  | cons l ls ih => rw [tokens_cons, List.map_cons, List.map_cons, ih, Cursor.symbol_value]

theorem Ident.text_ne_empty (n : Ident) : n.text ≠ "" := by
  intro h
  have := n.solid
  rw [h] at this
  exact absurd this (by decide)

theorem Dotted.bracketsMatch (path : Dotted) : bracketsMatch path.lexemes := by
  apply closes_cons (Lexeme.term_ne_sign _ _) (Lexeme.term_ne_sign _ _)
  apply closes_flatMap
  intro n _
  exact closes_cons (by decide) (by decide)
    (closes_cons (Lexeme.term_ne_sign _ _) (Lexeme.term_ne_sign _ _) rfl)

/-- A named type holds no arrow. -/
theorem NamedType.ne_arrow (type : NamedType) : ∀ l ∈ type.lexemes, l ≠ sign "=>" := by
  have hdotted : ∀ path : Dotted, ∀ l ∈ path.lexemes, l ≠ sign "=>" := by
    intro path l hl
    rw [Dotted.lexemes, List.mem_cons, List.mem_flatMap] at hl
    rcases hl with rfl | ⟨n, -, hl⟩
    · exact Lexeme.term_ne_sign _ _
    · rw [List.mem_cons, List.mem_singleton] at hl
      rcases hl with rfl | rfl
      · decide
      · exact Lexeme.term_ne_sign _ _
  cases type with
  | elementary name known => simp [lexemes]
  | addressPayable => simp [lexemes]
  | user path free => exact hdotted path

/-- The values of a dotted name, one behind the other. -/
theorem Dotted.join_values (path : Dotted) :
    String.join (path.lexemes.map Lexeme.value) = ".".intercalate path.names := by
  obtain ⟨first, more⟩ := path
  rw [lexemes, names, List.map_cons, Lexeme.term_value, String.join_cons]
  induction more generalizing first with
  | nil => simp
  | cons n more ih =>
    rw [List.map_cons, String.intercalate_cons_cons, ← ih n, List.flatMap_cons, List.map_append,
      String.join_append]
    simp [String.append_assoc]

theorem Dotted.intercalate_ne_empty (path : Dotted) : ".".intercalate path.names ≠ "" := by
  rw [← path.join_values, lexemes, List.map_cons, Lexeme.term_value, String.join_cons, ne_eq,
    String.append_eq_empty_iff]
  exact fun h => path.first.text_ne_empty h.1

/-! ## Function types -/

theorem skipFunctionWords_of_follows (within : String) {rest : List Token}
    (h : Follows TypeRef.functionTypeWords rest) :
    TypeRef.skipFunctionWords within rest = .ok rest := by
  cases rest with
  | nil => rw [TypeRef.skipFunctionWords]
  | cons t more =>
    obtain ⟨-, hword⟩ := h t more rfl
    rw [TypeRef.skipFunctionWords, if_neg fun hp => (hword hp.1).1 hp.2, if_neg]
    -- `returns` belongs to the type only in front of a parenthesis
    rintro ⟨hreturns, hparen⟩
    have hkind : t.kind = .word := by
      rw [Token.isWord, Bool.and_eq_true, decide_eq_true_eq] at hreturns
      exact hreturns.1
    cases more with
    | nil => cases hparen
    | cons u more =>
      have := (hword hkind).2 u rfl
      rw [List.head?_cons, Option.map_some, Option.getD_some, this] at hparen
      cases hparen

theorem skipFunctionWords_returns {within : String} {t p : Token} {inside : List Token} {c : Cut}
    (ht : t.isWord "returns") (hp : p.isMark "(") (hc : closeNested "(" ")" 0 inside = some c) :
    TypeRef.skipFunctionWords within (t :: p :: inside) =
      TypeRef.skipFunctionWords within c.after := by
  have hvalue : t.value = "returns" := by
    rw [Token.isWord, Bool.and_eq_true, decide_eq_true_eq, decide_eq_true_eq] at ht
    exact ht.2
  rw [TypeRef.skipFunctionWords_cons, if_neg (by rw [hvalue]; exact fun h => absurd h.2 (by decide)),
    if_pos ⟨ht, by simpa using hp⟩, List.drop_one, List.tail_cons, hc]

/-- What may follow the parameters of a function type: words, and lists of returned values in
parentheses of which only the parentheses matter. -/
inductive FunctionWords : List Lexeme → Prop
  | nil : FunctionWords []
  | word {text : String} {ls : List Lexeme} (known : text ∈ TypeRef.functionTypeWords)
      (h : FunctionWords ls) : FunctionWords (term text :: ls)
  | returns {values ls : List Lexeme} (parens : parensMatch values) (h : FunctionWords ls) :
      FunctionWords (term "returns" :: (inParens values ++ ls))

theorem FunctionWords.flatMap (suffixes : List TypeSuffix) :
    FunctionWords (suffixes.flatMap TypeSuffix.lexemes) := by
  induction suffixes with
  | nil => exact .nil
  | cons s suffixes ih =>
    rw [List.flatMap_cons]
    cases s with
    | word text known => exact .word known ih
    | returns values => exact .returns values.phrase.parens ih

theorem skipFunctionWords_tokens (within : String) {ls : List Lexeme} (hls : FunctionWords ls)
    {rest : List Token} (h : Follows TypeRef.functionTypeWords rest) :
    TypeRef.skipFunctionWords within (tokens layout here ls ++ rest) = .ok rest := by
  induction hls generalizing here with
  | nil => exact skipFunctionWords_of_follows within h
  | word known _ ih =>
    rw [tokens_cons, List.cons_append, TypeRef.skipFunctionWords,
      if_pos ⟨by simp, by simpa using known⟩]
    exact ih _
  | returns parens _ ih =>
    simp only [inParens, tokens_cons, tokens_append, List.cons_append,
      List.append_assoc, List.nil_append]
    rw [skipFunctionWords_returns (by simp) (by simp)
      (closeNested_tokens (by decide) layout _ parens _)]
    exact ih _

/-- A function type is read word for word. -/
theorem readFunctionType_tokens (within : String) {parameters words : List Lexeme}
    (hparameters : parensMatch parameters) (hwords : FunctionWords words) {keyword : Token}
    (hkeyword : keyword.value = "function") {rest : List Token}
    (h : Follows TypeRef.functionTypeWords rest) :
    TypeRef.readFunctionType within keyword
      (tokens layout here (inParens parameters ++ words) ++ rest) =
    .ok (.function (" ".intercalate
      ((term "function" :: (inParens parameters ++ words)).map Lexeme.value)), rest) := by
  have hvalues :
      keyword.value :: (tokens layout here (inParens parameters ++ words)).map (·.value) =
      (term "function" :: (inParens parameters ++ words)).map Lexeme.value := by
    rw [map_value_tokens, hkeyword, List.map_cons, Lexeme.term_value]
  rw [← hvalues]
  -- the tokens that the type takes are exactly the written ones
  have htaken : ∀ xs : List Token, (xs ++ rest).take ((xs ++ rest).length - rest.length) = xs := by
    intro xs
    simp
  have hfirst : ∃ c inside, tokens layout here (inParens parameters ++ words) ++ rest =
        here.symbol (sign "(") :: inside ∧ closeNested "(" ")" 0 inside = some c ∧
      c.after = tokens layout (here.through layout (inParens parameters)) words ++ rest := by
    simp only [inParens, tokens_cons, tokens_append, Cursor.through_cons,
      Cursor.through_append, Cursor.through_nil, List.cons_append, List.append_assoc,
      List.nil_append, List.cons.injEq, true_and]
    refine ⟨_, _, rfl, closeNested_tokens (by decide) layout _ hparameters _, rfl⟩
  obtain ⟨c, inside, hinside, hc, hafter⟩ := hfirst
  have htake := htaken (tokens layout here (inParens parameters ++ words))
  rw [hinside] at htake ⊢
  rw [TypeRef.readFunctionType, if_pos (by simp), hc]
  dsimp only
  rw [hafter, skipFunctionWords_tokens layout _ within hwords h]
  dsimp only
  rw [htake]

/-! ## Arrays -/

theorem readBrackets_open {within : String} {base : TypeRef} {t : Token} {inside : List Token}
    {c : Cut} (ht : t.isMark "[") (hc : closeNested "[" "]" 0 inside = some c) :
    TypeRef.readBrackets within base (t :: inside) =
      TypeRef.readBrackets within
        (.array base (if String.join (c.before.map (·.value)) = "" then none
          else some (String.join (c.before.map (·.value))))) c.after := by
  rw [TypeRef.readBrackets_cons, if_pos ht, hc]

theorem Length.join_values (n : Length) :
    (if String.join (n.lexemes.map Lexeme.value) = "" then none
      else some (String.join (n.lexemes.map Lexeme.value))) = n.text := by
  cases n with
  | unstated => rfl
  | literal digits solid =>
    -- an empty text would mean that no length is stated
    have hne : String.ofList digits ≠ "" := by
      intro h
      rw [String.ofList_eq_empty_iff] at h
      rw [h] at solid
      exact absurd solid (by decide)
    have hjoin : String.join ((literal digits solid).lexemes.map Lexeme.value) =
        String.ofList digits := by
      simp [lexemes, Lexeme.value]
    rw [hjoin, if_neg hne, text]
  | constant path =>
    rw [lexemes, path.join_values, if_neg path.intercalate_ne_empty, text]

theorem Length.bracketsMatch (n : Length) : bracketsMatch n.lexemes := by
  cases n with
  | unstated => rfl
  | literal digits solid => exact closes_cons (by simp [sign]) (by simp [sign]) rfl
  | constant path => exact path.bracketsMatch

/-- The length of an array is everything between its brackets. -/
theorem readBrackets_tokens (within : String) (base : TypeRef) {length : List Lexeme}
    (hlength : bracketsMatch length) (rest : List Token) :
    TypeRef.readBrackets within base
      (tokens layout here (sign "[" :: (length ++ [sign "]"])) ++ rest) =
    TypeRef.readBrackets within
      (.array base (if String.join (length.map Lexeme.value) = "" then none
        else some (String.join (length.map Lexeme.value)))) rest := by
  simp only [tokens_cons, tokens_append, tokens_nil, List.cons_append, List.append_assoc,
    List.nil_append]
  rw [readBrackets_open (by simp) (closeNested_tokens (by decide) layout _ hlength _)]
  dsimp only
  rw [map_value_tokens]

/-! ## Types -/

theorem read_mapping {within : String} {t p : Token} {inside : List Token} {c arrow : Cut}
    {key value : TypeRef} {afterKey afterValue : List Token} (ht : t.isWord "mapping")
    (hp : p.isMark "(") (hc : closeNested "(" ")" 0 inside = some c)
    (harrow : cutAtMark "=>" [] c.before = some arrow)
    (hkey : TypeRef.read within arrow.before = .ok (key, afterKey))
    (hvalue : TypeRef.read within arrow.after = .ok (value, afterValue)) :
    TypeRef.read within (t :: p :: inside) =
      TypeRef.readBrackets within (.mapping key value) c.after := by
  have hmapping : TypeRef.readMapping within (p :: inside) = .ok (.mapping key value, c.after) := by
    rw [TypeRef.readMapping, if_pos hp, hc]
    dsimp only
    rw [harrow]
    dsimp only
    rw [hkey, hvalue]
    rfl
  rw [TypeRef.read_cons, if_pos ht, hmapping]
  rfl

theorem read_function {within : String} {t : Token} {rest more : List Token} {type : TypeRef}
    (ht : t.isWord "function")
    (h : TypeRef.readFunctionType within t rest = .ok (type, more)) :
    TypeRef.read within (t :: rest) = TypeRef.readBrackets within type more := by
  have hvalue : t.value = "function" := by
    rw [Token.isWord, Bool.and_eq_true, decide_eq_true_eq, decide_eq_true_eq] at ht
    exact ht.2
  have hmapping : ¬ t.isWord "mapping" := by simp [Token.isWord, hvalue]
  rw [TypeRef.read_cons, if_neg hmapping, if_pos ht, h]
  rfl

theorem read_named (within text : String) (rest : List Token)
    (h : text ∉ ["mapping", "function"]) :
    TypeRef.read within (here.symbol (term text) :: rest) =
      TypeRef.readBrackets within (TypeRef.readNamed (here.symbol (term text)) rest).1
        (TypeRef.readNamed (here.symbol (term text)) rest).2 := by
  have hmapping : text ≠ "mapping" := fun h' => h (by simp [h'])
  have hfunction : text ≠ "function" := fun h' => h (by simp [h'])
  rw [TypeRef.read_cons, if_neg (by simpa using hmapping), if_neg (by simpa using hfunction),
    if_pos (by simp)]

/-- A named type is read back. -/
theorem NamedType.read_tokens (type : NamedType) (within : String) {rest : List Token}
    (h : Follows (TypeExpr.named type).absorbs rest) :
    TypeRef.read within (tokens layout here type.lexemes ++ rest) =
      TypeRef.readBrackets within type.ref rest := by
  cases type with
  | elementary name known =>
    have hfree : name.text ∉ ["mapping", "function"] := by
      intro hmem
      have hnone : ∀ w ∈ ["mapping", "function"], isElementary w = false := by decide
      rw [hnone _ hmem] at known
      cases known
    rw [lexemes, tokens_cons, tokens_nil, List.cons_append, List.nil_append,
      read_named _ _ _ _ hfree, TypeRef.readNamed.eq_def, if_pos (by simpa using known)]
    cases rest with
    | nil => simp [ref]
    | cons t more =>
      dsimp only
      rw [if_neg]
      · simp [ref]
      · -- the word `payable` would belong to the type
        rintro ⟨haddress, hpayable⟩
        rw [Token.isWord, Bool.and_eq_true, decide_eq_true_eq, decide_eq_true_eq] at hpayable
        rw [Cursor.symbol_value, Lexeme.term_value] at haddress
        apply ((h t more rfl).2 hpayable.1).1
        rw [TypeExpr.absorbs, if_pos haddress, hpayable.2]
        exact List.mem_singleton.2 rfl
  | addressPayable =>
    have helementary : isElementary "address" = true := by decide
    rw [lexemes, tokens_cons, tokens_cons, tokens_nil, List.cons_append, List.cons_append,
      List.nil_append, read_named _ _ _ _ (by decide), TypeRef.readNamed.eq_def,
      if_pos (by simpa using helementary)]
    dsimp only
    rw [if_pos ⟨by simp, by simp⟩]
    rfl
  | user path free =>
    rw [lexemes, Dotted.lexemes, tokens_cons, List.cons_append, read_named _ _ _ _ free.2,
      TypeRef.readNamed.eq_def, if_neg (by simp [free.1]), readDotted_tokens layout _ _ h.not_dot]
    simp [ref, Dotted.names]

/-- A mapping is read back if its value is. -/
theorem NamedType.read_mapping_tokens (key : NamedType) (within : String) {value : List Lexeme}
    {type : TypeRef}
    (hvalue : ∀ here, TypeRef.read within (tokens layout here value) = .ok (type, []))
    (hparens : parensMatch value) (rest : List Token) :
    TypeRef.read within (tokens layout here
      (term "mapping" :: inParens (key.lexemes ++ sign "=>" :: value)) ++ rest) =
      TypeRef.readBrackets within (.mapping key.ref type) rest := by
  -- inside the parentheses the key ends at the arrow and the value at the end
  have hkey : ∀ here, TypeRef.read within (tokens layout here key.lexemes) = .ok (key.ref, []) := by
    intro here
    have := key.read_tokens layout here within (Follows.nil _)
    rw [List.append_nil] at this
    rw [this, TypeRef.readBrackets]
  have hinside : parensMatch (key.lexemes ++ sign "=>" :: value) :=
    closes_append_zero key.phrase.parens (closes_cons (by decide) (by decide) hparens)
  have harrow : ∀ here, cutAtMark "=>" []
      (tokens layout here (key.lexemes ++ sign "=>" :: value)) =
      some ⟨tokens layout here key.lexemes,
        (here.through layout key.lexemes).symbol (sign "=>"),
        tokens layout ((here.through layout key.lexemes).after layout (sign "=>")) value⟩ := by
    intro here
    rw [tokens_append, tokens_cons]
    apply cutWhere_append
    · intro t ht
      refine ⟨?_, by simp⟩
      obtain ⟨l, hl, place, rfl⟩ := exists_of_mem_tokens layout ht
      rw [Cursor.symbol_isMark, decide_eq_false_iff_not]
      exact key.ne_arrow l hl
    · simp
  rw [inParens, tokens_cons, tokens_cons, List.cons_append, List.cons_append, tokens_append,
    List.append_assoc]
  exact read_mapping (by simp) (by simp) (closeNested_tokens (by decide) layout _ hinside _)
    (harrow _) (hkey _) (hvalue _)

/-- A type is read back, and what follows it is left. -/
theorem TypeExpr.read_tokens (type : TypeExpr) (within : String) {rest : List Token}
    (h : Follows type.absorbs rest) :
    TypeRef.read within (tokens layout here type.lexemes ++ rest) =
      TypeRef.readBrackets within type.ref rest := by
  induction type generalizing here rest with
  | named type => exact type.read_tokens layout here within h
  | mapping key value ih =>
    refine key.read_mapping_tokens layout here within (fun here => ?_) value.phrase.parens rest
    have := ih here (Follows.nil _)
    rw [List.append_nil] at this
    rw [this, TypeRef.readBrackets]
  | function parameters suffixes =>
    rw [lexemes, tokens_cons, List.cons_append]
    exact read_function (by simp) (readFunctionType_tokens layout _ within
      parameters.phrase.parens (FunctionWords.flatMap suffixes) (by simp) h)
  | array base length ih =>
    -- the bracket ends the element type
    rw [lexemes, tokens_append, List.append_assoc, ih,
      readBrackets_tokens layout _ within _ length.bracketsMatch, length.join_values, ref]
    exact Follows.sign (by decide) _

end AbiIndex.Grammar
