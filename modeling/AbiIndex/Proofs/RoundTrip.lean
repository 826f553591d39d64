import AbiIndex.Proofs.DeclarationReading

/-!
# Extraction undoes printing

Every abstract source unit can be written, in every layout that keeps its tokens apart, and what is
read from the text is that unit: each declaration once, in the order of the text, with its line.

## Key results

- `DeclarationExpr.walk_tokens`, `MemberExpr.walk_tokens`, `Item.walk_tokens`: a walk finds the
  written declaration and goes on right behind it
- `extract_print`: the declarations of a printed file are those that were printed, however closely
  its tokens stand
- `extract_outside_grammar`: why the arguments of a base contract have no `;` and the type of a
  constant is no function type
-/

namespace AbiIndex.Grammar

open AbiIndex.Source
open Lexeme (sign term)

variable (layout : Layout) (here : Cursor)

/-! ## Walking over one declaration -/

/-- A walk goes on behind a declaration that is read. -/
theorem walk_read {origin : Origin} {scope : Option ContractKind} {keyword : String}
    {rest after : List Token} {members : List Member}
    (hopens : Member.opensDeclaration (here.symbol (term keyword)) rest)
    (hkeyword : Member.isContractKeyword keyword = false)
    (hread : Member.read origin scope (here.symbol (term keyword)) rest = .ok (members, after)) :
    walk origin scope (here.symbol (term keyword) :: rest) = members ++ walk origin scope after := by
  rw [walk_cons, if_neg (by simp), if_pos hopens, if_neg (by simp [hkeyword]), hread]

/-- The declarations with a keyword and a name, each with a reader of its own. -/
theorem walk_named {origin : Origin} {scope : Option ContractKind} {keyword : String}
    (hkeyword : keyword ∈ ["event", "error", "struct", "enum", "type"]) (name : Ident)
    {reader : Token → String → List Token → Reading}
    (hreader : ∀ t n more, t.value = keyword →
      Member.read origin scope t (n :: more) = reader t n.value more)
    {ls : List Lexeme} {rest : List Token} {member : Member}
    (hread : ∀ place : Cursor, reader (here.symbol (term keyword)) name.text
      (tokens layout place ls ++ rest) = .ok ([member], rest)) :
    walk origin scope (tokens layout here (term keyword :: term name.text :: ls) ++ rest) =
      member :: walk origin scope rest := by
  have hother : keyword ∉ ["fallback", "receive", "constructor"] := by
    intro hmem
    have hnone : ∀ w ∈ ["event", "error", "struct", "enum", "type"],
        w ∉ ["fallback", "receive", "constructor"] := by decide
    exact hnone keyword hkeyword hmem
  have hnamed : keyword ∈ ["event", "error", "struct", "enum", "type", "modifier"] :=
    (by decide : ∀ w ∈ ["event", "error", "struct", "enum", "type"],
      w ∈ ["event", "error", "struct", "enum", "type", "modifier"]) keyword hkeyword
  have hcontract : Member.isContractKeyword keyword = false :=
    (by decide : ∀ w ∈ ["event", "error", "struct", "enum", "type"],
      Member.isContractKeyword w = false) keyword hkeyword
  have hopens : Member.opensDeclaration (here.symbol (term keyword))
      (tokens layout (here.after layout (term keyword)) (term name.text :: ls) ++ rest) := by
    rw [Member.opensDeclaration, Cursor.symbol_kind, Cursor.symbol_value, Lexeme.term_kind,
      Lexeme.term_value, if_neg hother, if_pos hnamed]
    simp
  have hmember : Member.read origin scope (here.symbol (term keyword))
      (tokens layout (here.after layout (term keyword)) (term name.text :: ls) ++ rest) =
      .ok ([member], rest) := by
    rw [tokens_cons, List.cons_append, hreader _ _ _ (by simp), Cursor.symbol_value,
      Lexeme.term_value]
    exact hread _
  rw [tokens_cons, List.cons_append]
  exact walk_read here hopens hcontract hmember

/-- The statement of a literal constant announces no declaration, and ends at its `;`. -/
theorem walk_constant (c : ConstantExpr) (origin : Origin) (scope : Option ContractKind)
    (rest : List Token) :
    walk origin scope (tokens layout here (DeclarationExpr.constant c).lexemes ++ rest) =
      (DeclarationExpr.constant c).member layout here :: walk origin scope rest := by
  -- the statement starts with the type
  obtain ⟨text, ls, htype⟩ := c.type.exists_term
  have hfree : text ∉ declarationWords := by
    intro hmem
    apply c.type_opens text hmem
    rw [htype]
    rfl
  have hfirst : (DeclarationExpr.constant c).lexemes = term text :: (ls ++
      (c.visibility.toList.map fun v => term v.name) ++
      [term "constant", term c.name.text, sign "=", .number c.value, sign ";"]) := by
    rw [DeclarationExpr.lexemes, ConstantExpr.front, htype]
    rfl
  -- and it is one phrase up to its end
  have hphrase : Phrase (c.front ++ [term "constant", term c.name.text, sign "=",
      .number c.value]) :=
    c.phrase_front.append (Phrase.cons (by decide) (Phrase.cons c.name.phrase
      (Phrase.cons (by decide) (Length.literal c.value c.solid).phrase)))
  have hsplit : ∀ depth, Member.splitStatement depth
      (tokens layout here (DeclarationExpr.constant c).lexemes ++ rest) =
      (tokens layout here (DeclarationExpr.constant c).lexemes, rest) := by
    intro depth
    have hlast : (DeclarationExpr.constant c).lexemes = (c.front ++ [term "constant",
        term c.name.text, sign "=", .number c.value]) ++ [sign ";"] := by
      rw [DeclarationExpr.lexemes, List.append_assoc]
      rfl
    rw [hlast, tokens_append, List.append_assoc, tokens_cons, tokens_nil, List.singleton_append]
    exact splitStatement_tokens layout here hphrase.statement depth _ rest
  have hconstant := constantOf_tokens layout here c
  rw [hfirst, tokens_cons] at hsplit hconstant
  rw [hfirst, tokens_cons, List.cons_append, walk, dif_neg (by simp),
    if_neg (by simp [opensDeclaration_eq_false here hfree])]
  rw [List.cons_append] at hsplit
  dsimp only
  rw [hsplit, hconstant]
  rfl

/-- A declaration gives its member, and the walk goes on right behind it. -/
theorem DeclarationExpr.walk_tokens (d : DeclarationExpr) (origin : Origin)
    (scope : Option ContractKind) (rest : List Token) :
    walk origin scope (tokens layout here d.lexemes ++ rest) =
      d.member layout here :: walk origin scope rest := by
  cases d with
  | event e =>
    refine walk_named layout here (by decide) e.name ?_
      fun place => readEvent_tokens layout place _ _ e rest
    intro t n more ht
    rw [Member.read.eq_def, ht]
    rfl
  | error e =>
    refine walk_named layout here (by decide) e.name ?_
      fun place => readError_tokens layout place _ _ e rest
    intro t n more ht
    rw [Member.read.eq_def, ht]
    rfl
  | struct s =>
    refine walk_named layout here (by decide) s.name ?_
      fun place => readStruct_tokens layout place _ _ s rest
    intro t n more ht
    rw [Member.read.eq_def, ht]
    rfl
  | enum e =>
    refine walk_named layout here (by decide) e.name ?_
      fun place => readEnum_tokens layout place _ _ e rest
    intro t n more ht
    rw [Member.read.eq_def, ht]
    rfl
  | valueType v =>
    refine walk_named layout here (by decide) v.name ?_
      fun place => readValueType_tokens layout place _ _ v rest
    intro t n more ht
    rw [Member.read.eq_def, ht]
    rfl
  | constant c => exact walk_constant layout here c origin scope rest

/-! ## Members and contracts -/

theorem MemberExpr.walk_tokens (m : MemberExpr) (path : String) (text : List Char)
    (scope : ContractKind) (rest : List Token) :
    walk ⟨path, text⟩ (some scope) (tokens layout here m.lexemes ++ rest) =
      m.members layout path scope here ++ walk ⟨path, text⟩ (some scope) rest := by
  cases m with
  | declaration d => exact d.walk_tokens layout here ⟨path, text⟩ (some scope) rest
  | function f =>
    rw [lexemes, f.walk_tokens, members, List.append_assoc]
    rfl

/-- The members of a contract, one behind the other. -/
theorem walk_membersFrom (ms : List MemberExpr) (path : String) (text : List Char)
    (scope : ContractKind) :
    walk ⟨path, text⟩ (some scope) (tokens layout here (ms.flatMap MemberExpr.lexemes)) =
      membersFrom layout path scope here ms := by
  induction ms generalizing here with
  | nil =>
    rw [List.flatMap_nil, tokens_nil, walk]
    rfl
  | cons m ms ih => rw [List.flatMap_cons, tokens_append, m.walk_tokens, ih, membersFrom]

/-- No modifier is declared. -/
theorem filterMap_modifier_membersFrom (ms : List MemberExpr) (path : String)
    (scope : ContractKind) :
    (membersFrom layout path scope here ms).filterMap Member.modifier? = [] := by
  induction ms generalizing here with
  | nil => rfl
  | cons m ms ih =>
    rw [membersFrom, List.filterMap_append, ih, List.append_nil, List.filterMap_eq_nil_iff]
    intro member hmember
    cases m with
    | function f =>
      simp only [MemberExpr.members, List.mem_append, List.mem_map, List.mem_singleton] at hmember
      rcases hmember with ⟨d, -, rfl⟩ | rfl <;> rfl
    | declaration d =>
      rw [MemberExpr.members, List.mem_singleton] at hmember
      subst hmember
      cases d <;> rfl

theorem ContractExpr.ofMembers_eq (c : ContractExpr) (path : String) {keyword : String}
    {body after : List Token} :
    ContractDecl.ofMembers (here.symbol (term keyword))
      ⟨c.kind, c.name.text, c.bases.map (·.path.last), body, after, true⟩
      (c.bodyMembers layout path here) = c.decl layout path here := by
  have hmodifiers : (c.bodyMembers layout path here).filterMap Member.modifier? = [] :=
    filterMap_modifier_membersFrom layout _ c.members path c.kind
  simp only [ContractDecl.ofMembers, decl, hmodifiers, Cursor.symbol_line, documentation_symbol]

/-- A declaration at file level gives its members, and the walk goes on right behind it. -/
theorem Item.walk_tokens (i : Item) (path : String) (text : List Char) (rest : List Token) :
    walk ⟨path, text⟩ none (tokens layout here i.lexemes ++ rest) =
      i.members layout path here ++ walk ⟨path, text⟩ none rest := by
  cases i with
  | declaration d => exact d.walk_tokens layout here ⟨path, text⟩ none rest
  | contract c =>
    obtain ⟨keyword, ls, hlexemes, hkeyword, hread⟩ := readContract_tokens layout here c rest
    have hbody := walk_membersFrom layout
      ((here.through layout c.head).after layout (sign blockOpen)) c.members path text c.kind
    have hopens : ∀ ts, Member.opensDeclaration (here.symbol (term keyword)) ts := by
      intro ts
      rw [Member.isContractKeyword, decide_eq_true_eq] at hkeyword
      simp only [List.mem_cons, List.not_mem_nil, or_false] at hkeyword
      rcases hkeyword with rfl | rfl | rfl | rfl <;>
        simp [Member.opensDeclaration, Member.isContractKeyword]
    -- the body is walked on its own, and the walk goes on behind it
    rw [lexemes, hlexemes, tokens_cons, List.cons_append, walk_cons, if_neg (by simp),
      if_pos (hopens _), if_pos (by simpa using hkeyword), hread]
    dsimp only
    rw [hbody]
    show _ ++ Member.contract (ContractDecl.ofMembers _ _ (c.bodyMembers layout path here)) :: _ = _
    rw [c.ofMembers_eq]
    simp [members, Member.unclosedBody, ContractExpr.bodyMembers]

/-! ## Files -/

theorem walk_itemsFrom (items : List Item) (path : String) (text : List Char) :
    walk ⟨path, text⟩ none (tokens layout here (items.flatMap Item.lexemes)) =
      itemsFrom layout path here items := by
  induction items generalizing here with
  | nil =>
    rw [List.flatMap_nil, tokens_nil, walk]
    rfl
  | cons i items ih => rw [List.flatMap_cons, tokens_append, i.walk_tokens, ih, itemsFrom]

/-- No directive is printed. -/
theorem directive_itemsFrom (items : List Item) (path : String) :
    ∀ member ∈ itemsFrom layout path here items,
      member.pragma? = none ∧ member.importOf? = none := by
  induction items generalizing here with
  | nil => exact fun member h => by cases h
  | cons i items ih =>
    intro member hmember
    rw [itemsFrom, List.mem_append] at hmember
    rcases hmember with hmember | hmember
    · cases i with
      | contract c =>
        simp only [Item.members, List.mem_append, List.mem_map, List.mem_singleton] at hmember
        rcases hmember with ⟨d, -, rfl⟩ | rfl <;> exact ⟨rfl, rfl⟩
      | declaration d =>
        rw [Item.members, List.mem_singleton] at hmember
        subst hmember
        cases d <;> exact ⟨rfl, rfl⟩
    · exact ih _ member hmember

/-- The declarations that are read from a printed file are the printed ones. White space may stand
between any two of its tokens; it has to where they would run into each other. -/
theorem extract_print (file : List Item) (path : String)
    (h : Separates layout .start (file.flatMap Item.lexemes)) :
    SourceUnit.extract (print layout file) path = .ok (unit layout path file) := by
  have hsolid : ∀ l ∈ file.flatMap Item.lexemes, l.isSolid :=
    (Block.flatMap fun i _ => i.block : Block (file.flatMap Item.lexemes)).solid
  have hdirective := directive_itemsFrom layout .start file path
  have hpragma : (itemsFrom layout path .start file).findSome? Member.pragma? = none :=
    List.findSome?_eq_none_iff.2 fun member h => (hdirective member h).1
  have himports : (itemsFrom layout path .start file).filterMap Member.importOf? = [] :=
    List.filterMap_eq_nil_iff.2 fun member h => (hdirective member h).2
  rw [SourceUnit.extract, SourceUnit.extractAs, print, tokenize_spell hsolid h]
  show Except.ok _ = Except.ok _
  rw [SourceUnit.ofTokens, walk_itemsFrom, SourceUnit.ofMembers, hpragma, himports]
  rfl

/-- A contract with an event and a function. -/
def touching : List Item :=
  let number : ParameterExpr true := {
    type := .named (.elementary ⟨"uint256", by decide⟩ (by decide))
    indexed := false
    location := none
    name := some ⟨"x", by decide⟩
    indexed_allowed := by simp
    name_free := by
      rintro n ⟨⟩
      decide
    type_ends := by simp [TypeExpr.absorbs] }
  [.contract ⟨.contract, ⟨"A", by decide⟩, [],
    [.declaration (.event ⟨⟨"E", by decide⟩, [number], false⟩),
      .function ⟨.named ⟨"f", by decide⟩, [], none, some .view, false, none, [], none,
        .semicolon⟩]⟩]

/-- Spaces only where words would run into each other. -/
def sparse : Layout := fun n => if n ∈ [0, 11, 19, 30] then .space else .none

/-- A file is read back although most of its tokens touch. -/
theorem extract_print_touching :
    print sparse touching = "contract A\x7bevent E(uint256 x);function f()view;\x7d".toList ∧
    SourceUnit.extract (print sparse touching) "A.sol" = .ok (unit sparse "A.sol" touching) ∧
    (unit sparse "A.sol" touching).contracts.map
        (fun c => (c.name, c.events, c.functions.map (·.name))) =
      [("A", [⟨"E", [⟨"x", .elementary "uint256", false⟩], false, 1, none⟩], ["f"])] ∧
    (unit sparse "A.sol" touching).diagnostics.map (·.kind) = [.implicitVisibility] :=
  ⟨by decide +kernel, extract_print sparse touching "A.sol" (by decide +kernel), by decide +kernel,
    by decide +kernel⟩

/-- Where the trees have to be restrained. Arguments with a `;` are balanced and free of braces, but
they end the header of the contract that they stand in; and a constant of a function type is taken
for a function. In both cases the declaration is reported and not found. -/
theorem extract_outside_grammar :
    (parensMatch [sign ";"] ∧ ∀ l ∈ [sign ";"], l.isSolid ∧ l ∉ [sign blockOpen, sign blockClose]) ∧
    (SourceUnit.extract (spell (fun _ => .space)
      [term "contract", term "A", term "is", term "B", sign "(", sign ";", sign ")",
        sign blockOpen, sign blockClose]) "A.sol").toOption.map
      (fun unit => (unit.contracts, unit.diagnostics.map (·.kind))) =
    some ([], [.malformedDeclaration]) ∧
    (SourceUnit.extract (spell (fun _ => .space)
      [term "function", sign "(", sign ")", term "constant", term "X", sign "=", .number ['5'],
        sign ";"]) "A.sol").toOption.map
      (fun unit => (unit.constants, unit.diagnostics.map (·.kind))) =
    some ([], [.malformedDeclaration]) := by
  refine ⟨by decide, ?_, ?_⟩
  · decide +kernel
  · decide +kernel

end AbiIndex.Grammar
