import AbiIndex.Proofs.HeaderReading

/-!
# Reading written declarations

Each reader of a declaration stops exactly behind it, whatever follows.

## Key results

- `exists_written`: what is written as a function is one, with its specifiers in any order
- `FunctionExpr.walk_tokens`, `readEvent_tokens`, `readError_tokens`, `readStruct_tokens`,
  `readEnum_tokens`, `readValueType_tokens`: a declaration is read back
- `constantOf_tokens`: a literal constant is found in its statement
- `readContract_tokens`: a contract is read up to its body
-/

namespace AbiIndex.Grammar

open AbiIndex.Source
open Lexeme (sign term)

variable (layout : Layout) (here : Cursor)

/-- No documentation stands in front of a written token. -/
@[simp] theorem documentation_symbol (l : Lexeme) :
    Member.documentation (here.symbol l) = none := rfl

/-! ## Functions -/

theorem findSome?_toList {α β : Type} (g : α → Option β) (o : Option α) :
    o.toList.findSome? g = o.bind g := by
  cases o with
  | none => rfl
  | some a => simp

theorem filterMap_toList {α β : Type} (g : α → Option β) (o : Option α) :
    o.toList.filterMap g = (o.bind g).toList := by
  cases o with
  | none => rfl
  | some a => cases h : g a <;> simp [h]

namespace FunctionExpr

variable (f : FunctionExpr)

theorem map_specifier : f.specifiers.map SpecifierExpr.specifier =
    f.visibility.toList.map .visibility ++ (f.mutability.toList.map .mutability ++
      ((if f.isVirtual then [.virtual] else []) ++ (f.overriding.toList.map (fun _ => .override) ++
      (f.modifiers.map (fun i => .modifier (".".intercalate i.val.path.names)) ++
      f.returns.toList.map fun values => .returns (values.map (·.parameter)))))) := by
  have hvirtual : ((if f.isVirtual then [.virtual] else []) : List SpecifierExpr).map
      SpecifierExpr.specifier = if f.isVirtual then [.virtual] else [] := by
    cases f.isVirtual <;> rfl
  simp only [specifiers, List.map_append, List.map_map, List.append_assoc, hvirtual,
    Function.comp_def, SpecifierExpr.specifier]

theorem findSome?_visibility :
    (f.specifiers.map SpecifierExpr.specifier).findSome? Specifier.visibility? = f.visibility := by
  rw [map_specifier]
  simp only [List.findSome?_append, List.findSome?_map, findSome?_toList, Function.comp_def,
    Specifier.visibility?]
  cases f.visibility <;> cases f.isVirtual <;> simp [Specifier.visibility?]

theorem findSome?_mutability :
    (f.specifiers.map SpecifierExpr.specifier).findSome? Specifier.mutability? = f.mutability := by
  rw [map_specifier]
  simp only [List.findSome?_append, List.findSome?_map, findSome?_toList, Function.comp_def,
    Specifier.mutability?]
  cases f.mutability <;> cases f.isVirtual <;> simp [Specifier.mutability?]

theorem filterMap_returns :
    (f.specifiers.map SpecifierExpr.specifier).filterMap Specifier.returns? =
      f.returns.toList.map fun values => values.map (·.parameter) := by
  rw [map_specifier]
  simp only [List.filterMap_append, List.filterMap_map, filterMap_toList, Function.comp_def,
    Specifier.returns?]
  cases f.returns <;> cases f.isVirtual <;> simp [Specifier.returns?, List.filterMap_cons]

theorem filterMap_modifier :
    (f.specifiers.map SpecifierExpr.specifier).filterMap Specifier.modifier? =
      f.modifiers.map fun i => ".".intercalate i.val.path.names := by
  rw [map_specifier]
  simp only [List.filterMap_append, List.filterMap_map, filterMap_toList, Function.comp_def,
    Specifier.modifier?]
  cases f.isVirtual <;> simp [Specifier.modifier?]

theorem any_virtual :
    (f.specifiers.map SpecifierExpr.specifier).any (· = .virtual) = f.isVirtual := by
  rw [map_specifier]
  cases f.isVirtual <;> simp

theorem any_override :
    (f.specifiers.map SpecifierExpr.specifier).any (· = .override) = f.overriding.isSome := by
  rw [map_specifier]
  cases f.isVirtual <;> cases f.overriding <;> simp

/-- The written header gives the declaration that it was written for. -/
theorem functionMembers_eq (path : String) (text : List Char) (scope : ContractKind) (l : Lexeme) :
    Member.functionMembers ⟨path, text⟩ (some scope) (here.symbol l) f.head.name f.head.kind
      (f.parameters.map (·.parameter)) (f.specifiers.map SpecifierExpr.specifier) =
    (f.reports path scope here.line).map .diagnostic ++ [.function (f.decl scope here.line)] := by
  have hreturns : (f.returns.toList.map fun values => values.map (·.parameter)).getLastD [] =
      (f.returns.getD []).map (·.parameter) := by
    cases f.returns <;> rfl
  simp only [Member.functionMembers, findSome?_visibility, findSome?_mutability,
    filterMap_returns, filterMap_modifier, any_virtual, any_override, hreturns, reports, decl,
    defaultVisibility_eq]
  -- only an ordinary function is reported for its visibility
  cases f.head with
  | named name =>
    simp only [FunctionHead.kind, true_and, Option.isNone_iff_eq_none]
    split <;> rfl
  | constructor => rfl
  | fallback => rfl
  | receive => rfl

end FunctionExpr

theorem FunctionHead.isHead_tokens (head : FunctionHead) : ∃ keyword nameTokens,
    tokens layout here head.lexemes = here.symbol (term keyword) :: nameTokens ∧
      IsHead (here.symbol (term keyword)) nameTokens head.name head.kind := by
  cases head with
  | named n => exact ⟨"function", _, rfl, .named (by simp) (by simp [name])⟩
  | constructor =>
    exact ⟨"constructor", [], rfl, @IsHead.special _ .constructor (by decide) (by simp; decide)⟩
  | fallback =>
    exact ⟨"fallback", [], rfl, @IsHead.special _ .fallback (by decide) (by simp; decide)⟩
  | receive =>
    exact ⟨"receive", [], rfl, @IsHead.special _ .receive (by decide) (by simp; decide)⟩

theorem FunctionEnd.isEnding_tokens (ending : FunctionEnd) :
    IsEnding (tokens layout here ending.lexemes) := by
  cases ending with
  | semicolon => exact .semicolon (by simp)
  | body ls block =>
    rw [lexemes, inBraces, tokens_cons, tokens_append]
    refine .block (by simp) (by simp) ?_
    rw [bracesMatch, closes_tokens]
    exact block.braces

/-- What is written as a function is one, with its specifiers in any order. -/
theorem exists_written (head : FunctionHead) (parameters : List (ParameterExpr false))
    (specifiers : List SpecifierExpr) (ending : FunctionEnd) :
    ∃ (f : WrittenFunction) (keyword : String),
      f.tokens = tokens layout here (head.lexemes ++ parameterList parameters
        ++ specifiers.flatMap SpecifierExpr.lexemes ++ ending.lexemes) ∧
      f.keyword = here.symbol (term keyword) ∧ f.name = head.name ∧ f.kind = head.kind ∧
      f.parameters = parameters.map (·.parameter) ∧
      f.specifiers = specifiers.map SpecifierExpr.specifier := by
  obtain ⟨keyword, nameTokens, hhead, isHead⟩ := head.isHead_tokens layout here
  let place := here.through layout head.lexemes
  let place' := place.through layout (parameterList parameters)
  obtain ⟨header, hheader, specified⟩ := exists_specified layout place' specifiers
  refine ⟨⟨_, nameTokens, _, _, isHead, _, _,
    enclosed_tokens layout place (phrase_parameterList parameters), _,
    readList_tokens layout _ parameters, header, _, specified, _,
    ending.isEnding_tokens layout
      (place'.through layout (specifiers.flatMap SpecifierExpr.lexemes))⟩,
    keyword, ?_, rfl, rfl, rfl, rfl, rfl⟩
  simp only [WrittenFunction.tokens, WrittenFunction.behind, tokens_append, hhead, hheader,
    List.append_assoc, List.cons_append]
  rfl

/-- A function gives what it was written for, and the walk goes on right behind it. -/
theorem FunctionExpr.walk_tokens (f : FunctionExpr) (path : String) (text : List Char)
    (scope : ContractKind) (rest : List Token) :
    walk ⟨path, text⟩ (some scope) (tokens layout here f.lexemes ++ rest) =
      (f.reports path scope here.line).map .diagnostic ++
        .function (f.decl scope here.line) :: walk ⟨path, text⟩ (some scope) rest := by
  obtain ⟨w, keyword, htokens, hkeyword, hname, hkind, hparameters, hspecifiers⟩ :=
    exists_written layout here f.head f.parameters f.specifiers f.ending
  have hbraces := (Gauge.braces.marked_tokens layout here f.lexemes).1
  have hparens := (Gauge.parens.marked_tokens layout here f.lexemes).1
  rw [lexemes, ← htokens] at hbraces hparens
  rw [lexemes, ← htokens, w.walk_eq hbraces hparens, hkeyword, hname, hkind, hparameters,
    hspecifiers, f.functionMembers_eq, List.append_assoc]
  rfl

/-! ## Events and errors -/

theorem readEvent_tokens (keyword : Token) (name : String) (e : EventExpr) (rest : List Token) :
    Member.readEvent keyword name
      (tokens layout here (parameterList e.parameters ++
        (if e.anonymous then [term "anonymous"] else []) ++ [sign ";"]) ++ rest) =
    .ok ([.event ⟨name, e.parameters.map (·.parameter), e.anonymous, keyword.line,
      Member.documentation keyword⟩], rest) := by
  rw [tokens_append, tokens_append, List.append_assoc, List.append_assoc, Member.readEvent,
    readParenthesised_tokens]
  cases e.anonymous with
  | false => simp
  | true => simp

theorem readError_tokens (keyword : Token) (name : String) (e : ErrorExpr) (rest : List Token) :
    Member.readError keyword name
      (tokens layout here (parameterList e.parameters ++ [sign ";"]) ++ rest) =
    .ok ([.error ⟨name, e.parameters.map (·.parameter), keyword.line,
      Member.documentation keyword⟩], rest) := by
  rw [tokens_append, List.append_assoc, Member.readError, readParenthesised_tokens]
  simp

/-! ## Structs -/

/-- A sequence without a `;` belongs to the field that the next `;` ends. -/
theorem splitFields_tokens {ls : List Lexeme} (h : Phrase ls) {depth : Nat} {ending : Token}
    (hending : ending.isMark ";" ∧ ending.depth = depth + 1) (rest : List Token) :
    Member.splitFields depth (tokens layout here ls ++ ending :: rest) =
      (tokens layout here ls :: (Member.splitFields depth rest).1,
        (Member.splitFields depth rest).2) := by
  have hno : ∀ t ∈ tokens layout here ls, t.isMark ";" = false := fun t ht =>
    isMark_eq_false_of_staysInStatement h.statement ht ";" (by decide)
  generalize tokens layout here ls = ts at hno
  induction ts with
  | nil =>
    rw [List.nil_append, Member.splitFields]
    dsimp only
    rw [if_pos hending]
  | cons t ts ih =>
    have ht := hno t List.mem_cons_self
    rw [List.cons_append, Member.splitFields, ih fun u hu => hno u (List.mem_cons_of_mem t hu)]
    dsimp only
    rw [if_neg (by simp [ht])]

/-- The fields of a struct, each read on its own. -/
theorem mapM_fields_tokens (within : String) (fields : List (ParameterExpr false)) {depth : Nat}
    (hdepth : here.depth = depth + 1) :
    (Member.splitFields depth (tokens layout here
        (fields.flatMap fun f => f.lexemes ++ [sign ";"]))).1.mapM (Parameter.read false within) =
      .ok (fields.map (·.parameter)) ∧
    (Member.splitFields depth (tokens layout here
        (fields.flatMap fun f => f.lexemes ++ [sign ";"]))).2 = [] := by
  induction fields generalizing here with
  | nil => exact ⟨rfl, rfl⟩
  | cons f fields ih =>
    -- a field has no braces, so that its `;` is at the depth of the struct's own braces
    have hthrough : (here.through layout f.lexemes).depth = depth + 1 := by
      rw [← hdepth]
      exact Gauge.braces.opens_through layout f.phrase.block.braces
    have hending : ((here.through layout f.lexemes).symbol (sign ";")).isMark ";" ∧
        ((here.through layout f.lexemes).symbol (sign ";")).depth = depth + 1 :=
      ⟨by simp, hthrough⟩
    obtain ⟨hmapM, hlast⟩ := ih ((here.through layout f.lexemes).after layout (sign ";")) hthrough
    rw [List.flatMap_cons]
    simp only [tokens_append, tokens_cons, List.append_assoc, List.cons_append, List.nil_append]
    rw [splitFields_tokens layout here f.phrase hending]
    refine ⟨?_, hlast⟩
    rw [List.mapM_cons, f.read_tokens, hmapM]
    rfl

theorem readStruct_tokens (keyword : Token) (name : String) (s : StructExpr) (rest : List Token) :
    Member.readStruct keyword name
      (tokens layout here (inBraces (s.fields.flatMap fun f => f.lexemes ++ [sign ";"])) ++ rest) =
    .ok ([.struct ⟨name, s.fields.map (·.parameter), keyword.line⟩], rest) := by
  have hblock : Block (s.fields.flatMap fun f => f.lexemes ++ [sign ";"]) :=
    Block.flatMap fun f _ => f.phrase.block.append Block.semicolon
  have hdepth : (here.after layout (sign blockOpen)).depth = here.depth + 1 := rfl
  obtain ⟨hmapM, hlast⟩ := mapM_fields_tokens layout (here.after layout (sign blockOpen))
    s!"struct {name}" s.fields hdepth
  rw [inBraces, tokens_cons, List.cons_append, Member.readStruct, if_pos (by simp),
    closeBrace_tokens layout here rest hblock.braces]
  dsimp only
  rw [show (here.symbol (sign blockOpen)).depth = here.depth from rfl, hmapM]
  dsimp only
  rw [if_pos hlast]

/-! ## Enums -/

/-- The words of a token sequence. -/
theorem filter_word_tokens (ls : List Lexeme) :
    ((tokens layout here ls).filter (·.kind = .word)).map (·.value) =
      (ls.filter (·.kind = .word)).map Lexeme.value := by
  induction ls generalizing here with
  | nil => rfl
  | cons l ls ih =>
    rw [tokens_cons, List.filter_cons, List.filter_cons, Cursor.symbol_kind]
    split
    · rw [List.map_cons, List.map_cons, ih, Cursor.symbol_value]
    · exact ih _

theorem readEnum_tokens (keyword : Token) (name : String) (e : EnumExpr) (rest : List Token) :
    Member.readEnum keyword name
      (tokens layout here (inBraces (listed (e.members.map fun n => [term n.text]))) ++ rest) =
    .ok ([.enum ⟨name, e.members.map (·.text), keyword.line⟩], rest) := by
  have hphrase : Phrase (listed (e.members.map fun n => [term n.text])) := by
    apply phrase_listed
    intro part hpart
    obtain ⟨n, -, rfl⟩ := List.mem_map.1 hpart
    exact n.phrase
  -- the commas in between are no words
  have hmore : ∀ ns : List Ident, (((ns.map fun n => [term n.text]).flatMap (sign "," :: ·)).filter
      (·.kind = .word)).map Lexeme.value = ns.map (·.text) := by
    intro ns
    induction ns with
    | nil => rfl
    | cons n ns ih => simp_all
  have hwords : ((listed (e.members.map fun n => [term n.text])).filter
      (·.kind = .word)).map Lexeme.value = e.members.map (·.text) := by
    cases e.members with
    | nil => rfl
    | cons n ns =>
      rw [List.map_cons, listed, List.filter_append, List.map_append, hmore]
      simp
  rw [inBraces, tokens_cons, List.cons_append, Member.readEnum, if_pos (by simp),
    closeBrace_tokens layout here rest hphrase.block.braces]
  dsimp only
  rw [filter_word_tokens, hwords]

/-! ## Value types and constants -/

theorem readValueType_tokens (keyword : Token) (name : String) (v : ValueTypeExpr)
    (rest : List Token) :
    Member.readValueType keyword name
      (tokens layout here (term "is" :: (v.underlying.lexemes ++ [sign ";"])) ++ rest) =
    .ok ([.valueType ⟨name, v.underlying.ref, keyword.line⟩], rest) := by
  have hread := v.underlying.read_tokens layout (here.after layout (term "is"))
    s!"type {name}" (Follows.nil _)
  rw [List.append_nil, TypeRef.readBrackets] at hread
  rw [tokens_cons, tokens_append, tokens_cons, tokens_nil, List.cons_append, List.append_assoc,
    List.singleton_append, Member.readValueType, if_pos (by simp),
    cutAtMark_tokens layout _ rest (by decide) (by decide) v.underlying.phrase.statement]
  dsimp only
  rw [hread]

/-- A statement ends at its `;`. -/
theorem splitStatement_tokens {ls : List Lexeme} (h : staysInStatement ls) (depth : Nat)
    (place : Cursor) (rest : List Token) :
    Member.splitStatement depth (tokens layout here ls ++ place.symbol (sign ";") :: rest) =
      (tokens layout here ls ++ [place.symbol (sign ";")], rest) := by
  have hno : ∀ t ∈ tokens layout here ls, ∀ v ∈ statementEnds, t.isMark v = false :=
    fun t ht => isMark_eq_false_of_staysInStatement h ht
  generalize tokens layout here ls = ts at hno
  induction ts with
  | nil =>
    rw [List.nil_append, Member.splitStatement, if_neg (by simp [blockClose]), if_pos (by simp)]
    rfl
  | cons t ts ih =>
    have ht := hno t List.mem_cons_self
    have hclose := ht blockClose (by decide)
    have hsemicolon := ht ";" (by decide)
    have hopen := ht blockOpen (by decide)
    rw [List.cons_append, Member.splitStatement, if_neg (by simp [hclose]),
      if_neg (by simp [hsemicolon]), if_neg (by simp [hopen]),
      ih fun u hu => hno u (List.mem_cons_of_mem t hu)]
    rfl

/-- Only the word `constant` matters for what a statement declares. -/
theorem constantOf_append {ls : List Lexeme} (h : term "constant" ∉ ls) (rest : List Token) :
    Member.constantOf (tokens layout here ls ++ rest) = Member.constantOf rest := by
  induction ls generalizing here with
  | nil => rfl
  | cons l ls ih =>
    rw [List.mem_cons, not_or] at h
    rw [tokens_cons, List.cons_append, Member.constantOf.eq_def]
    dsimp only
    rw [if_neg, ih _ h.2]
    rw [Cursor.symbol_isWord, decide_eq_true_eq]
    exact Ne.symm h.1

theorem ConstantExpr.free_front (c : ConstantExpr) : term "constant" ∉ c.front := by
  rw [front, List.mem_append, not_or]
  refine ⟨c.type_free, ?_⟩
  cases c.visibility with
  | none => simp
  | some v => cases v <;> simp [Visibility.name]

/-- A literal constant is found in its statement. -/
theorem constantOf_tokens (c : ConstantExpr) :
    Member.constantOf (tokens layout here (DeclarationExpr.constant c).lexemes) =
      some ⟨c.name.text, String.ofList c.value, (here.through layout c.front).line⟩ := by
  rw [DeclarationExpr.lexemes, tokens_append, constantOf_append layout here c.free_front]
  simp [Member.constantOf]

theorem TypeExpr.exists_term (type : TypeExpr) : ∃ text ls, type.lexemes = term text :: ls := by
  induction type with
  | named type =>
    cases type with
    | elementary name known => exact ⟨_, _, rfl⟩
    | addressPayable => exact ⟨_, _, rfl⟩
    | user path free => exact ⟨_, _, rfl⟩
  | mapping key value ih => exact ⟨_, _, rfl⟩
  | function parameters suffixes => exact ⟨_, _, rfl⟩
  | array base length ih =>
    obtain ⟨text, ls, h⟩ := ih
    rw [lexemes, h]
    exact ⟨_, _, rfl⟩

/-- Only certain words announce a declaration. -/
theorem opensDeclaration_eq_false {text : String} (h : text ∉ declarationWords)
    (rest : List Token) : Member.opensDeclaration (here.symbol (term text)) rest = false := by
  have hnot : ∀ words : List String, (∀ w ∈ words, w ∈ declarationWords) → text ∉ words :=
    fun words hwords hmem => h (hwords text hmem)
  rw [Member.opensDeclaration, Cursor.symbol_kind, Cursor.symbol_value, Lexeme.term_kind,
    Lexeme.term_value, if_neg (hnot _ (by decide)), if_neg (hnot _ (by decide)),
    Member.isContractKeyword, decide_eq_false (hnot _ (by decide)),
    decide_eq_false (hnot _ (by decide))]
  rfl

/-! ## Contracts -/

theorem readBases_arguments (expectName : Bool) (arguments : Option Arguments)
    (rest : List Token) :
    Member.readBases expectName
      (tokens layout here (arguments.toList.flatMap fun a => inParens a.lexemes) ++ rest) =
    Member.readBases expectName rest := by
  cases arguments with
  | none => rfl
  | some a =>
    have hclose := closeParen_tokens layout here rest a.phrase.parens
    rw [Option.toList_some, List.flatMap_cons, List.flatMap_nil, List.append_nil, inParens,
      tokens_cons, List.cons_append, Member.readBases_cons, if_neg (by simp), if_pos (by simp),
      hclose]

/-- A base contract is read by the last part of its name, its arguments being passed over. -/
theorem readBases_invocation (i : Invocation) {rest : List Token} {bases : List String}
    (hdot : ∀ t ∈ rest.head?, t.isMark "." = false)
    (hrest : Member.readBases false rest = .ok bases) :
    Member.readBases true (tokens layout here i.lexemes ++ rest) =
      .ok (i.path.last :: bases) := by
  have hlast : i.path.last = (i.path.more.map (·.text)).getLastD i.path.first.text :=
    List.getLast_eq_getLastD _
  -- the name ends in front of the arguments, or of what follows them
  rw [Invocation.lexemes, tokens_append, Dotted.lexemes, tokens_cons, List.append_assoc,
    List.cons_append, Member.readBases, if_neg (by simp), if_neg (by simp), if_pos (by simp),
    readDotted_tokens layout _ _ ((optionalList_tokens layout _ _).not_dot hdot)]
  dsimp only
  rw [readBases_arguments, hrest, Cursor.symbol_value, Lexeme.term_value, ← hlast]

theorem readBases_tokens (base : Invocation) (bases : List Invocation) :
    Member.readBases true (tokens layout here (listed ((base :: bases).map Invocation.lexemes))) =
      .ok ((base :: bases).map (·.path.last)) := by
  induction bases generalizing here base with
  | nil =>
    have hnil : Member.readBases false [] = .ok [] := by rw [Member.readBases]
    have := readBases_invocation layout here base (by simp) hnil
    rw [List.append_nil] at this
    rw [List.map_singleton, listed, List.flatMap_nil, List.append_nil, this]
    rfl
  | cons next bases ih =>
    have hlisted : listed ((base :: next :: bases).map Invocation.lexemes) =
        base.lexemes ++ sign "," :: listed ((next :: bases).map Invocation.lexemes) := by
      simp [listed]
    have hcomma : Member.readBases false (tokens layout (here.through layout base.lexemes)
        (sign "," :: listed ((next :: bases).map Invocation.lexemes))) =
        .ok ((next :: bases).map (·.path.last)) := by
      rw [tokens_cons, Member.readBases, if_pos (by simp), ih]
    rw [hlisted, tokens_append]
    exact readBases_invocation layout here base (by simp) hcomma

theorem readInheritance_tokens (bases : List Invocation) :
    Member.readInheritance (tokens layout here (ContractExpr.inheritance bases)) =
      .ok (bases.map (·.path.last)) := by
  cases bases with
  | nil => rfl
  | cons base bases =>
    rw [ContractExpr.inheritance, tokens_cons, Member.readInheritance, if_pos (by simp),
      readBases_tokens]

/-- What stands behind the keywords of a contract. -/
theorem readContractOf_tokens (c : ContractExpr) (rest : List Token) :
    Member.readContractOf c.kind (tokens layout here (term c.name.text ::
      (ContractExpr.inheritance c.bases ++
        inBraces (c.members.flatMap MemberExpr.lexemes))) ++ rest) =
    .ok ⟨c.kind, c.name.text, c.bases.map (·.path.last),
      tokens layout (((here.after layout (term c.name.text)).through layout
        (ContractExpr.inheritance c.bases)).after layout (sign blockOpen))
        (c.members.flatMap MemberExpr.lexemes), rest, true⟩ := by
  have hblock : Block (c.members.flatMap MemberExpr.lexemes) := Block.flatMap fun m _ => m.block
  rw [tokens_cons, tokens_append, List.cons_append, List.append_assoc, inBraces, tokens_cons,
    List.cons_append, Member.readContractOf, if_pos (by simp),
    cutAtMark_tokens layout _ _ (by decide) (by decide)
      (ContractExpr.phrase_inheritance c.bases).statement]
  dsimp only
  rw [readInheritance_tokens]
  dsimp only
  rw [closeBrace_tokens layout _ rest hblock.braces]
  simp

/-- A contract is read up to its body, which ends at its own brace. -/
theorem readContract_tokens (c : ContractExpr) (rest : List Token) :
    ∃ keyword ls, c.lexemes = term keyword :: ls ∧ Member.isContractKeyword keyword ∧
      Member.readContract (here.symbol (term keyword))
        (tokens layout (here.after layout (term keyword)) ls ++ rest) =
      .ok ⟨c.kind, c.name.text, c.bases.map (·.path.last),
        tokens layout ((here.through layout c.head).after layout (sign blockOpen))
          (c.members.flatMap MemberExpr.lexemes), rest, true⟩ := by
  have hof := fun place => readContractOf_tokens layout place c rest
  obtain ⟨kind, name, bases, members⟩ := c
  cases kind with
  | contract =>
    refine ⟨"contract", _, rfl, by decide, ?_⟩
    rw [Member.readContract, Member.contractKind.eq_def, Cursor.symbol_value, Lexeme.term_value]
    exact hof _
  | interface =>
    refine ⟨"interface", _, rfl, by decide, ?_⟩
    rw [Member.readContract, Member.contractKind.eq_def, Cursor.symbol_value, Lexeme.term_value]
    exact hof _
  | library =>
    refine ⟨"library", _, rfl, by decide, ?_⟩
    rw [Member.readContract, Member.contractKind.eq_def, Cursor.symbol_value, Lexeme.term_value]
    exact hof _
  | abstract =>
    refine ⟨"abstract", term "contract" :: term name.text :: (ContractExpr.inheritance bases ++
      inBraces (members.flatMap MemberExpr.lexemes)), rfl, by decide, ?_⟩
    rw [Member.readContract, Member.contractKind.eq_def, Cursor.symbol_value, Lexeme.term_value,
      tokens_cons, List.cons_append]
    dsimp only
    -- the second keyword is passed over
    rw [if_pos (by simp)]
    exact hof _

end AbiIndex.Grammar
