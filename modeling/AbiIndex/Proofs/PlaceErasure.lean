import AbiIndex.Proofs.ReaderEquations

/-!
# Declarations do not depend on places

Every token carries its place, its line and the documentation in front of it. Which declarations a
sequence of tokens holds does not depend on them: with bare tokens, which have none of the three, the
same declarations are found, except that their lines, their documentation and the text of a pragma
are others.

## Key results

- `cutWhere_bare`, `closeNested_bare`: a sequence is cut at the same tokens
- `TypeRef.read_bare`, `Parameter.readParenthesised_bare`, `Specifier.readAll_bare`: types, parameters
  and headers are the same
- `Member.read_bare`, `Member.readContract_bare`: declarations are the same up to their lines, their
  documentation and the text of pragmas
- `ofTokens_bare_eq`: so are the units of two sequences with the same bare tokens
-/

namespace AbiIndex.Source

/-- The token without its place, its line and its documentation. -/
def Token.bare (t : Token) : Token := { t with start := 0, stop := 0, line := 0, doc := none }

namespace Token

-- the cases keep these lemmas out of definitional unfolding, so that they reach into conditions
@[simp] theorem bare_kind (t : Token) : t.bare.kind = t.kind := by cases t; rfl

@[simp] theorem bare_value (t : Token) : t.bare.value = t.value := by cases t; rfl

@[simp] theorem bare_depth (t : Token) : t.bare.depth = t.depth := by cases t; rfl

@[simp] theorem isMark_bare (t : Token) (v : String) : t.bare.isMark v = t.isMark v := by
  cases t; rfl

@[simp] theorem isWord_bare (t : Token) (v : String) : t.bare.isWord v = t.isWord v := by
  cases t; rfl

@[simp] theorem bare_comp_bare : bare ∘ bare = bare := rfl

theorem map_bare_bare (ts : List Token) : (ts.map bare).map bare = ts.map bare := by simp

end Token

/-- A result and what stands behind it, in bare tokens. -/
def bareRest {α : Type} : Except Malformed (α × List Token) → Except Malformed (α × List Token)
  | .ok (a, rest) => .ok (a, rest.map Token.bare)
  | .error e => .error e

@[simp] theorem bareRest_ok {α : Type} (a : α) (rest : List Token) :
    bareRest (.ok (a, rest)) = .ok (a, rest.map Token.bare) := rfl

@[simp] theorem bareRest_error {α : Type} (e : Malformed) :
    bareRest (.error e : Except Malformed (α × List Token)) = .error e := rfl

/-! ## Cuts -/

/-- The cut in bare tokens. -/
def Cut.bare (c : Cut) : Cut := ⟨c.before.map Token.bare, c.hit.bare, c.after.map Token.bare⟩

@[simp] theorem Cut.bare_before (c : Cut) : c.bare.before = c.before.map Token.bare := rfl

@[simp] theorem Cut.bare_hit (c : Cut) : c.bare.hit = c.hit.bare := rfl

@[simp] theorem Cut.bare_after (c : Cut) : c.bare.after = c.after.map Token.bare := rfl

theorem cutWhere_bare {hit stop hit' stop' : Token → Bool} (hhit : ∀ t, hit' t.bare = hit t)
    (hstop : ∀ t, stop' t.bare = stop t) (ts : List Token) :
    cutWhere hit' stop' (ts.map Token.bare) = (cutWhere hit stop ts).map Cut.bare := by
  induction ts with
  | nil => rfl
  | cons t ts ih =>
    rw [List.map_cons, cutWhere, cutWhere, hhit, hstop, ih]
    split
    · rfl
    · split
      · rfl
      · cases cutWhere hit stop ts <;> rfl

@[simp] theorem cutAtMark_bare (value : String) (stops : List String) (ts : List Token) :
    cutAtMark value stops (ts.map Token.bare) = (cutAtMark value stops ts).map Cut.bare :=
  cutWhere_bare (fun _ => rfl) (fun _ => rfl) ts

@[simp] theorem closeBrace_bare (opening : Token) (ts : List Token) :
    closeBrace opening.bare (ts.map Token.bare) = (closeBrace opening ts).map Cut.bare :=
  cutWhere_bare (fun _ => rfl) (fun _ => rfl) ts

@[simp] theorem closeParen_bare (opening : Token) (ts : List Token) :
    closeParen opening.bare (ts.map Token.bare) = (closeParen opening ts).map Cut.bare :=
  cutWhere_bare (fun _ => rfl) (fun _ => rfl) ts

@[simp] theorem closeParenInStatement_bare (opening : Token) (ts : List Token) :
    closeParenInStatement opening.bare (ts.map Token.bare) =
      (closeParenInStatement opening ts).map Cut.bare :=
  cutWhere_bare (fun _ => rfl) (fun _ => rfl) ts

@[simp] theorem closeNested_bare (opener closer : String) (nesting : Nat) (ts : List Token) :
    closeNested opener closer nesting (ts.map Token.bare) =
      (closeNested opener closer nesting ts).map Cut.bare := by
  induction ts generalizing nesting with
  | nil => rfl
  | cons t ts ih =>
    simp only [List.map_cons, closeNested, Token.isMark_bare, ih]
    split
    · cases closeNested opener closer (nesting + 1) ts <;> rfl
    · split
      -- the mark closes the sequence only at the outermost level
      · cases nesting with
        | zero => rfl
        | succ n => cases h : closeNested opener closer n ts <;> simp [h, Cut.bare]
      · cases closeNested opener closer nesting ts <;> rfl

@[simp] theorem readDotted_bare (ts : List Token) :
    readDotted (ts.map Token.bare) = ((readDotted ts).1, (readDotted ts).2.map Token.bare) := by
  fun_induction readDotted ts with
  | case1 dot name rest h ih =>
    rw [List.map_cons, List.map_cons, readDotted, if_pos (by simpa using h), ih]
    rfl
  | case2 dot name rest h =>
    rw [List.map_cons, List.map_cons, readDotted, if_neg (by simpa using h)]
  | case3 rest h =>
    rw [readDotted]
    intro dot name more heq
    match rest, heq with
    | d :: n :: more', _ => exact h d n more' rfl

/-! ## Types and parameters -/

namespace TypeRef

theorem skipFunctionWords_bare (within : String) (ts : List Token) :
    skipFunctionWords within (ts.map Token.bare) =
      (skipFunctionWords within ts).map (List.map Token.bare) := by
  fun_induction skipFunctionWords within ts with
  | case1 =>
    rw [List.map_nil, skipFunctionWords]
    rfl
  | case2 t rest h ih =>
    rw [List.map_cons, skipFunctionWords_cons, if_pos (by simpa using h), ih]
  | case3 t rest hword hreturns hnone =>
    rw [List.map_cons, skipFunctionWords_cons, if_neg (by simpa using hword),
      if_pos (by simpa [Function.comp_def] using hreturns), ← List.map_drop, closeNested_bare, hnone]
    rfl
  | case4 t rest hword hreturns c hc ih =>
    rw [List.map_cons, skipFunctionWords_cons, if_neg (by simpa using hword),
      if_pos (by simpa [Function.comp_def] using hreturns), ← List.map_drop, closeNested_bare, hc]
    exact ih
  | case5 t rest hword hreturns =>
    rw [List.map_cons, skipFunctionWords_cons, if_neg (by simpa using hword),
      if_neg (by simpa [Function.comp_def] using hreturns)]
    rfl

theorem readFunctionType_bare (within : String) (keyword : Token) (ts : List Token) :
    readFunctionType within keyword.bare (ts.map Token.bare) =
      bareRest (readFunctionType within keyword ts) := by
  cases ts with
  | nil => rfl
  | cons t rest =>
    simp only [List.map_cons, readFunctionType, Token.isMark_bare, closeNested_bare]
    split
    · cases closeNested "(" ")" 0 rest with
      | none => rfl
      | some c =>
        simp only [Option.map_some, Cut.bare_after, skipFunctionWords_bare]
        cases skipFunctionWords within c.after with
        | error e => rfl
        | ok after =>
          -- the text of the type is made of values, and as many of them are taken
          simp only [Except.map, bareRest_ok, ← List.map_cons, ← List.map_take, List.map_map,
            List.length_map]
          rfl
    · rfl

theorem readBrackets_bare (within : String) (base : TypeRef) (ts : List Token) :
    readBrackets within base (ts.map Token.bare) = bareRest (readBrackets within base ts) := by
  fun_induction readBrackets within base ts with
  | case1 base =>
    rw [List.map_nil, readBrackets]
    rfl
  | case2 base t rest ht hnone =>
    rw [List.map_cons, readBrackets_cons, if_pos (by simpa using ht), closeNested_bare, hnone]
    rfl
  | case3 base t rest ht c hc length ih =>
    have hlength : String.join (c.bare.before.map (·.value)) = length := by
      simp only [Cut.bare_before, List.map_map]
      rfl
    rw [List.map_cons, readBrackets_cons, if_pos (by simpa using ht), closeNested_bare, hc]
    dsimp only [Option.map_some]
    rw [hlength]
    exact ih
  | case4 base t rest ht =>
    rw [List.map_cons, readBrackets_cons, if_neg (by simpa using ht)]
    rfl

theorem readNamed_bare (first : Token) (rest : List Token) :
    readNamed first.bare (rest.map Token.bare) =
      ((readNamed first rest).1, (readNamed first rest).2.map Token.bare) := by
  simp only [readNamed, Token.bare_value, readDotted_bare]
  split
  · cases rest with
    | nil => rfl
    | cons t more =>
      simp only [List.map_cons, Token.isWord_bare]
      split <;> rfl
  · rfl

/-- A mapping is the same if its key and its value are, which are shorter sequences. -/
theorem readMapping_bare (within : String) (ts : List Token)
    (hread : ∀ inner : List Token, inner.length < ts.length →
      read within (inner.map Token.bare) = bareRest (read within inner)) :
    readMapping within (ts.map Token.bare) = bareRest (readMapping within ts) := by
  cases ts with
  | nil => rfl
  | cons p inside =>
    simp only [List.map_cons, readMapping, Token.isMark_bare, closeNested_bare]
    split
    · cases hc : closeNested "(" ")" 0 inside with
      | none => rfl
      | some c =>
        have hlength := closeNested_length hc
        simp only [Option.map_some, Cut.bare_before, Cut.bare_after, cutAtMark_bare]
        cases harrow : cutAtMark "=>" [] c.before with
        | none => rfl
        | some arrow =>
          have hlength' := cutWhere_length harrow
          rw [List.length_cons] at hread
          simp only [Option.map_some, Cut.bare_before, Cut.bare_after]
          rw [hread arrow.before (by omega), hread arrow.after (by omega)]
          cases read within arrow.before with
          | error e => rfl
          | ok key => cases read within arrow.after <;> rfl
    · rfl

/-- The type at the front of a sequence is the same. -/
theorem read_bare (within : String) (ts : List Token) :
    read within (ts.map Token.bare) = bareRest (read within ts) := by
  induction hn : ts.length using Nat.strongRecOn generalizing ts with
  | ind n ih =>
    cases ts with
    | nil =>
      rw [List.map_nil, read]
      rfl
    | cons t rest =>
      rw [List.length_cons] at hn
      have hmapping := readMapping_bare within rest fun inner hlength =>
        ih inner.length (by omega) inner rfl
      rw [List.map_cons, read_cons, read_cons, hmapping, readFunctionType_bare, readNamed_bare,
        Token.isWord_bare, Token.isWord_bare, Token.bare_kind, Token.bare_value]
      by_cases hm : t.isWord "mapping"
      · rw [if_pos hm, if_pos hm]
        cases readMapping within rest with
        | error e => rfl
        | ok found => exact readBrackets_bare within found.1 found.2
      rw [if_neg hm, if_neg hm]
      by_cases hf : t.isWord "function"
      · rw [if_pos hf, if_pos hf]
        cases readFunctionType within t rest with
        | error e => rfl
        | ok found => exact readBrackets_bare within found.1 found.2
      rw [if_neg hf, if_neg hf]
      by_cases hw : t.kind = .word
      · rw [if_pos hw, if_pos hw]
        exact readBrackets_bare within _ _
      · rw [if_neg hw, if_neg hw]
        rfl

end TypeRef

namespace Parameter

theorem readWords_bare (allowIndexed : Bool) (within : String) (p : Parameter)
    (ts : List Token) :
    readWords allowIndexed within p (ts.map Token.bare) = readWords allowIndexed within p ts := by
  induction ts generalizing p with
  | nil => rfl
  | cons t ts ih => simp only [List.map_cons, readWords, Token.bare_kind, Token.bare_value, ih]

theorem read_bare (allowIndexed : Bool) (within : String) (ts : List Token) :
    read allowIndexed within (ts.map Token.bare) = read allowIndexed within ts := by
  simp only [read, List.map_eq_nil_iff, TypeRef.read_bare]
  split
  · rfl
  · cases TypeRef.read within ts with
    | error e => rfl
    | ok found => exact readWords_bare allowIndexed within _ found.2

theorem splitAtCommas_bare (nesting : Int) (ts : List Token) :
    splitAtCommas nesting (ts.map Token.bare) =
      (splitAtCommas nesting ts).map (List.map Token.bare) := by
  induction ts generalizing nesting with
  | nil => rfl
  | cons t ts ih =>
    have hstep : nestingStep t.bare = nestingStep t := rfl
    simp only [List.map_cons, splitAtCommas, Token.isMark_bare, hstep, ih]
    split
    · rfl
    · cases splitAtCommas (nesting + nestingStep t) ts <;> rfl

theorem readList_bare (allowIndexed : Bool) (ts : List Token) :
    readList allowIndexed (ts.map Token.bare) = readList allowIndexed ts := by
  have hread : read allowIndexed "parameter list" ∘ List.map Token.bare =
      read allowIndexed "parameter list" := funext fun part => read_bare _ _ part
  simp only [readList, List.map_eq_nil_iff, splitAtCommas_bare, List.mapM_map, hread]

/-- The parameters of a construct are the same. -/
theorem readParenthesised_bare (allowIndexed : Bool) (within : String) (ts : List Token) :
    readParenthesised allowIndexed within (ts.map Token.bare) =
      bareRest (readParenthesised allowIndexed within ts) := by
  cases ts with
  | nil => rfl
  | cons t rest =>
    simp only [List.map_cons, readParenthesised, Token.isMark_bare, closeParenInStatement_bare]
    split
    · cases closeParenInStatement t rest with
      | none => rfl
      | some c =>
        simp only [Option.map_some, Cut.bare_before, Cut.bare_after, readList_bare]
        cases readList allowIndexed c.before <;> rfl
    · rfl

end Parameter

/-! ## Headers of functions -/

namespace Specifier

theorem skipParens_bare (ts : List Token) :
    skipParens (ts.map Token.bare) = (skipParens ts).map (List.map Token.bare) := by
  cases ts with
  | nil => rfl
  | cons t rest =>
    simp only [List.map_cons, skipParens, Token.isMark_bare, closeParenInStatement_bare]
    split
    · cases closeParenInStatement t rest <;> rfl
    · rfl

theorem readReturns_bare (function : String) (ts : List Token) :
    readReturns function (ts.map Token.bare) = bareRest (readReturns function ts) := by
  cases ts with
  | nil => rfl
  | cons t rest =>
    simp only [List.map_cons, readReturns, Token.isMark_bare, closeParenInStatement_bare]
    split
    · cases closeParenInStatement t rest with
      | none => rfl
      | some c =>
        simp only [Option.map_some, Cut.bare_before, Cut.bare_after, Parameter.readList_bare]
        cases Parameter.readList false c.before <;> rfl
    · rfl

theorem readModifier_bare (first : String) (ts : List Token) :
    readModifier first (ts.map Token.bare) = bareRest (readModifier first ts) := by
  simp only [readModifier, readDotted_bare, skipParens_bare]
  cases skipParens (readDotted ts).2 <;> rfl

theorem read_bare (function : String) (t : Token) (rest : List Token) :
    read function t.bare (rest.map Token.bare) = bareRest (read function t rest) := by
  rw [read, read, Token.bare_kind, Token.bare_value]
  by_cases hw : t.kind ≠ .word
  · rw [if_pos hw, if_pos hw]
    rfl
  rw [if_neg hw, if_neg hw]
  cases Visibility.ofName? t.value with
  | some v => rfl
  | none =>
    cases Mutability.ofWord? t.value with
    | some m => rfl
    | none =>
      dsimp only
      split
      · rfl
      · rw [skipParens_bare]
        cases skipParens rest <;> rfl
      · exact readReturns_bare function rest
      · exact readModifier_bare _ rest

/-- The specifiers of a header are the same, and so is what ends it. -/
theorem readAll_bare (function : String) (ts : List Token) :
    readAll function (ts.map Token.bare) = (readAll function ts).map fun (specifiers, ending, rest) =>
      (specifiers, ending.bare, rest.map Token.bare) := by
  fun_induction readAll function ts with
  | case1 =>
    rw [List.map_nil, readAll]
    rfl
  | case2 t rest hend =>
    rw [List.map_cons, readAll_step, if_pos (by simpa using hend)]
    rfl
  | case3 t rest hend e he =>
    rw [List.map_cons, readAll_step, if_neg (by simpa using hend), read_bare, he]
    rfl
  | case4 t rest hend s more hs e he ih =>
    rw [List.map_cons, readAll_step, if_neg (by simpa using hend), read_bare, hs]
    dsimp only [bareRest_ok]
    rw [ih, he]
    rfl
  | case5 t rest hend s more hs specifiers ending after hall ih =>
    rw [List.map_cons, readAll_step, if_neg (by simpa using hend), read_bare, hs]
    dsimp only [bareRest_ok]
    rw [ih, hall]
    rfl

end Specifier

/-! ## Declarations -/

/-- The declaration without its line and its documentation. -/
def FunctionDecl.bare (d : FunctionDecl) : FunctionDecl := { d with line := 0, natspec := none }

/-- The declaration without its line and its documentation. -/
def EventDecl.bare (d : EventDecl) : EventDecl := { d with line := 0, natspec := none }

/-- The declaration without its line and its documentation. -/
def ErrorDecl.bare (d : ErrorDecl) : ErrorDecl := { d with line := 0, natspec := none }

/-- The declaration without its line. -/
def StructDecl.bare (d : StructDecl) : StructDecl := { d with line := 0 }

/-- The declaration without its line. -/
def EnumDecl.bare (d : EnumDecl) : EnumDecl := { d with line := 0 }

/-- The declaration without its line. -/
def ValueTypeDecl.bare (d : ValueTypeDecl) : ValueTypeDecl := { d with line := 0 }

/-- The declaration without its line. -/
def ConstantDecl.bare (d : ConstantDecl) : ConstantDecl := { d with line := 0 }

/-- The contract without the lines and the documentation in it. -/
def ContractDecl.bare (d : ContractDecl) : ContractDecl :=
  { d with
    functions := d.functions.map FunctionDecl.bare
    events := d.events.map EventDecl.bare
    errors := d.errors.map ErrorDecl.bare
    structs := d.structs.map StructDecl.bare
    enums := d.enums.map EnumDecl.bare
    valueTypes := d.valueTypes.map ValueTypeDecl.bare
    constants := d.constants.map ConstantDecl.bare
    line := 0
    natspec := none }

/-- The report without its line. -/
def bareDiagnostic (d : Diagnostic) : Diagnostic := { d with line := none }

namespace Member

/-- The member without lines, documentation and the text of a pragma. -/
def bare : Member → Member
  | pragma _ => .pragma ""
  | importOf path => .importOf path
  | function d => .function d.bare
  | event d => .event d.bare
  | error d => .error d.bare
  | struct d => .struct d.bare
  | enum d => .enum d.bare
  | valueType d => .valueType d.bare
  | constant d => .constant d.bare
  | modifier name => .modifier name
  | contract d => .contract d.bare
  | diagnostic d => .diagnostic (bareDiagnostic d)

/-- The members that a reader found, bare, with what stands behind them in bare tokens. -/
def bareReading : Reading → Reading
  | .ok (members, rest) => .ok (members.map bare, rest.map Token.bare)
  | .error e => .error e

variable (path : String) (text text' : List Char)

/-- A directive is found in either text, though its own text may differ. -/
theorem readPragma_bare (ts : List Token) :
    bareReading (readPragma ⟨path, text'⟩ (ts.map Token.bare)) =
      bareReading (readPragma ⟨path, text⟩ ts) := by
  simp only [readPragma, cutAtMark_bare]
  cases cutAtMark ";" [] ts with
  | none => rfl
  | some c =>
    simp only [Option.map_some, Cut.bare_before, Cut.bare_after]
    cases c.before with
    | nil => simp [bareReading]
    | cons t version =>
      simp only [List.map_cons, Token.isWord_bare]
      split
      · -- whether or not the text is at hand, there is one pragma
        repeat' split
        all_goals simp [bareReading, bare]
      · simp [bareReading]

theorem readImport_bare (ts : List Token) :
    bareReading (readImport (ts.map Token.bare)) = bareReading (readImport ts) := by
  have hquoted : (fun t : Token => decide (t.kind = .quoted)) ∘ Token.bare =
      fun t => decide (t.kind = .quoted) := rfl
  simp only [readImport, cutAtMark_bare]
  cases cutAtMark ";" [] ts with
  | none => rfl
  | some c =>
    simp only [Option.map_some, Cut.bare_before, Cut.bare_after, List.find?_map, hquoted]
    cases c.before.find? (·.kind = .quoted) <;> simp [bareReading]

theorem functionName_bare (keyword : Token) (ts : List Token) :
    functionName keyword.bare (ts.map Token.bare) =
      ((functionName keyword ts).1, (functionName keyword ts).2.1,
        (functionName keyword ts).2.2.map Token.bare) := by
  simp only [functionName, Token.bare_value]
  split
  · rfl
  · rfl
  · rfl
  · cases ts with
    | nil => rfl
    | cons t rest =>
      simp only [List.map_cons, Token.bare_kind, Token.bare_value]
      split <;> rfl

theorem functionMembers_bare (scope : Option ContractKind) (keyword : Token) (name : String)
    (kind : FunctionKind) (parameters : List Parameter) (specifiers : List Specifier) :
    (functionMembers ⟨path, text'⟩ scope keyword.bare name kind parameters specifiers).map bare =
      (functionMembers ⟨path, text⟩ scope keyword name kind parameters specifiers).map bare := by
  unfold functionMembers
  dsimp only
  split
  · rfl
  · split <;> rfl
  · rfl

theorem readFunction_bare (scope : Option ContractKind) (keyword : Token) (ts : List Token) :
    bareReading (readFunction ⟨path, text'⟩ scope keyword.bare (ts.map Token.bare)) =
      bareReading (readFunction ⟨path, text⟩ scope keyword ts) := by
  obtain ⟨name, kind, rest, hname⟩ : ∃ name kind rest,
      functionName keyword ts = (name, kind, rest) := ⟨_, _, _, rfl⟩
  simp only [readFunction, functionName_bare, hname, Parameter.readParenthesised_bare]
  cases Parameter.readParenthesised false s!"function {name}" rest with
  | error e => rfl
  | ok found =>
    obtain ⟨parameters, rest⟩ := found
    simp only [bareRest_ok, Specifier.readAll_bare]
    cases Specifier.readAll name rest with
    | error e => rfl
    | ok found =>
      obtain ⟨specifiers, ending, rest⟩ := found
      have hmembers := functionMembers_bare path text text' scope keyword name kind parameters
        specifiers
      simp only [Except.map, Token.isMark_bare, Token.bare_value, closeBrace_bare]
      split
      · cases closeBrace ending rest with
        | none => rfl
        | some c => simp [bareReading, hmembers]
      · split
        · simp [bareReading]
        · simp [bareReading, hmembers]

theorem readEvent_bare (keyword : Token) (name : String) (ts : List Token) :
    bareReading (readEvent keyword.bare name (ts.map Token.bare)) =
      bareReading (readEvent keyword name ts) := by
  simp only [readEvent, Parameter.readParenthesised_bare]
  cases Parameter.readParenthesised true s!"event {name}" ts with
  | error e => rfl
  | ok found =>
    obtain ⟨parameters, rest⟩ := found
    -- one word may stand between the parameters and the end
    have hanonymous : ((rest.map Token.bare).head?.map (·.isWord "anonymous")).getD false =
        (rest.head?.map (·.isWord "anonymous")).getD false := by cases rest <;> rfl
    simp only [bareRest_ok, hanonymous]
    have hrest : ∀ b : Bool, (if b then (rest.map Token.bare).drop 1 else rest.map Token.bare) =
        (if b then rest.drop 1 else rest).map Token.bare := by
      intro b
      cases b <;> simp
    rw [hrest]
    cases (if (rest.head?.map (·.isWord "anonymous")).getD false then rest.drop 1 else rest) with
    | nil => rfl
    | cons t after =>
      simp only [List.map_cons, Token.isMark_bare]
      split
      · simp [bareReading, bare, EventDecl.bare]
      · rfl

theorem readError_bare (keyword : Token) (name : String) (ts : List Token) :
    bareReading (readError keyword.bare name (ts.map Token.bare)) =
      bareReading (readError keyword name ts) := by
  simp only [readError, Parameter.readParenthesised_bare]
  cases Parameter.readParenthesised false s!"error {name}" ts with
  | error e => rfl
  | ok found =>
    obtain ⟨parameters, rest⟩ := found
    cases rest with
    | nil => rfl
    | cons t after =>
      simp only [bareRest_ok, List.map_cons, Token.isMark_bare]
      split
      · simp [bareReading, bare, ErrorDecl.bare]
      · rfl

theorem splitFields_bare (depth : Nat) (ts : List Token) :
    splitFields depth (ts.map Token.bare) =
      ((splitFields depth ts).1.map (List.map Token.bare),
        (splitFields depth ts).2.map Token.bare) := by
  induction ts with
  | nil => rfl
  | cons t ts ih =>
    simp only [List.map_cons, splitFields, Token.isMark_bare, Token.bare_depth, ih]
    split
    · rfl
    · cases (splitFields depth ts).1 <;> rfl

theorem readStruct_bare (keyword : Token) (name : String) (ts : List Token) :
    bareReading (readStruct keyword.bare name (ts.map Token.bare)) =
      bareReading (readStruct keyword name ts) := by
  cases ts with
  | nil => rfl
  | cons t rest =>
    simp only [List.map_cons, readStruct, Token.isMark_bare, closeBrace_bare]
    split
    · cases closeBrace t rest with
      | none => rfl
      | some c =>
        have hread : Parameter.read false s!"struct {name}" ∘ List.map Token.bare =
            Parameter.read false s!"struct {name}" := funext fun field => Parameter.read_bare _ _ field
        simp only [Option.map_some, Cut.bare_before, Cut.bare_after, Token.bare_depth,
          splitFields_bare, List.mapM_map, hread, List.map_eq_nil_iff]
        cases (splitFields t.depth c.before).1.mapM (Parameter.read false s!"struct {name}") with
        | error e => rfl
        | ok fields =>
          dsimp only
          split
          · simp [bareReading, bare, StructDecl.bare]
          · rfl
    · rfl

theorem readEnum_bare (keyword : Token) (name : String) (ts : List Token) :
    bareReading (readEnum keyword.bare name (ts.map Token.bare)) =
      bareReading (readEnum keyword name ts) := by
  cases ts with
  | nil => rfl
  | cons t rest =>
    simp only [List.map_cons, readEnum, Token.isMark_bare, closeBrace_bare]
    split
    · cases closeBrace t rest with
      | none => rfl
      | some c =>
        have hmembers : ((c.before.map Token.bare).filter (·.kind = .word)).map (·.value) =
            (c.before.filter (·.kind = .word)).map (·.value) := by
          rw [List.filter_map, List.map_map]
          rfl
        simp only [Option.map_some, Cut.bare_before, Cut.bare_after, hmembers]
        simp [bareReading, bare, EnumDecl.bare]
    · rfl

theorem readValueType_bare (keyword : Token) (name : String) (ts : List Token) :
    bareReading (readValueType keyword.bare name (ts.map Token.bare)) =
      bareReading (readValueType keyword name ts) := by
  cases ts with
  | nil => rfl
  | cons t rest =>
    simp only [List.map_cons, readValueType, Token.isWord_bare, cutAtMark_bare]
    split
    · cases cutAtMark ";" [blockOpen, blockClose] rest with
      | none => rfl
      | some c =>
        simp only [Option.map_some, Cut.bare_before, Cut.bare_after, TypeRef.read_bare]
        cases TypeRef.read s!"type {name}" c.before with
        | error e => rfl
        | ok found =>
          obtain ⟨underlying, more⟩ := found
          cases more with
          | nil => simp [bareReading, bare, ValueTypeDecl.bare]
          | cons t more => rfl
    · rfl

/-! ## Statements and contracts -/

theorem splitStatement_bare (depth : Nat) (ts : List Token) :
    splitStatement depth (ts.map Token.bare) =
      ((splitStatement depth ts).1.map Token.bare, (splitStatement depth ts).2.map Token.bare) := by
  induction ts with
  | nil => rfl
  | cons t ts ih =>
    simp only [List.map_cons, splitStatement, Token.isMark_bare, Token.bare_depth, closeBrace_bare,
      ih]
    split
    · rfl
    split
    · rfl
    split
    · cases closeBrace t ts <;> simp
    · rfl

theorem skipStatement_bare (ts : List Token) :
    skipStatement (ts.map Token.bare) = (skipStatement ts).map Token.bare := by
  cases ts with
  | nil => rfl
  | cons t rest => exact congrArg Prod.snd (splitStatement_bare t.depth (t :: rest))

theorem constantOf_bare (ts : List Token) :
    (constantOf (ts.map Token.bare)).map ConstantDecl.bare =
      (constantOf ts).map ConstantDecl.bare := by
  induction ts with
  | nil => rfl
  | cons t ts ih =>
    simp only [List.map_cons, constantOf, Token.isWord_bare]
    split
    -- a name, an equals sign, a number and the end of the statement have to follow
    · match ts with
      | [] => rfl
      | [_] => rfl
      | [_, _] => rfl
      | [_, _, _] => rfl
      | name :: equals :: value :: ending :: more =>
        simp only [List.map_cons, Token.bare_kind, Token.isMark_bare, Token.bare_value]
        split <;> rfl
    · exact ih

theorem readModifier_bare (name : String) (ts : List Token) :
    bareReading (readModifier name (ts.map Token.bare)) = bareReading (readModifier name ts) := by
  simp [readModifier, bareReading, skipStatement_bare]

theorem readBases_bare (expectName : Bool) (ts : List Token) :
    readBases expectName (ts.map Token.bare) = readBases expectName ts := by
  fun_induction readBases expectName ts with
  | case1 => rw [List.map_nil, readBases]
  | case2 expectName t rest hcomma ih =>
    rw [List.map_cons, readBases_cons, if_pos (by simpa using hcomma), ih]
  | case3 expectName t rest hcomma hparen hnone =>
    rw [List.map_cons, readBases_cons, if_neg (by simpa using hcomma),
      if_pos (by simpa using hparen), closeParen_bare, hnone]
    rfl
  | case4 expectName t rest hcomma hparen c hc ih =>
    rw [List.map_cons, readBases_cons, if_neg (by simpa using hcomma),
      if_pos (by simpa using hparen), closeParen_bare, hc]
    exact ih
  | case5 expectName t rest hcomma hparen hword e he ih =>
    rw [List.map_cons, readBases_cons, if_neg (by simpa using hcomma),
      if_neg (by simpa using hparen), if_pos (by simpa using hword), readDotted_bare]
    dsimp only
    rw [ih, he]
  | case6 expectName t rest hcomma hparen hword bases hbases ih =>
    rw [List.map_cons, readBases_cons, if_neg (by simpa using hcomma),
      if_neg (by simpa using hparen), if_pos (by simpa using hword), readDotted_bare]
    dsimp only
    rw [ih, hbases]
    rfl
  | case7 expectName t rest hcomma hparen hword =>
    rw [List.map_cons, readBases_cons, if_neg (by simpa using hcomma),
      if_neg (by simpa using hparen), if_neg (by simpa using hword)]
    rfl

theorem readInheritance_bare (ts : List Token) :
    readInheritance (ts.map Token.bare) = readInheritance ts := by
  cases ts with
  | nil => rfl
  | cons t rest =>
    simp only [List.map_cons, readInheritance, Token.isWord_bare, readBases_bare, Token.bare_value]

theorem contractKind_bare (keyword : Token) (ts : List Token) :
    contractKind keyword.bare (ts.map Token.bare) = bareRest (contractKind keyword ts) := by
  simp only [contractKind, Token.bare_value]
  split
  · rfl
  · rfl
  · cases ts with
    | nil => rfl
    | cons t rest =>
      simp only [List.map_cons, Token.isWord_bare]
      split <;> rfl
  · rfl

/-- The head of a contract in bare tokens. -/
def ContractHead.bare (head : ContractHead) : ContractHead :=
  { head with body := head.body.map Token.bare, after := head.after.map Token.bare }

@[simp] theorem ContractHead.bare_kind (head : ContractHead) : head.bare.kind = head.kind := rfl

@[simp] theorem ContractHead.bare_body (head : ContractHead) :
    head.bare.body = head.body.map Token.bare := rfl

@[simp] theorem ContractHead.bare_after (head : ContractHead) :
    head.bare.after = head.after.map Token.bare := rfl

/-- The head of a contract is the same, and its body ends at the same token. -/
theorem readContract_bare (keyword : Token) (ts : List Token) :
    readContract keyword.bare (ts.map Token.bare) =
      (readContract keyword ts).map ContractHead.bare := by
  simp only [readContract, contractKind_bare]
  cases contractKind keyword ts with
  | error e => rfl
  | ok found =>
    obtain ⟨kind, rest⟩ := found
    cases rest with
    | nil => rfl
    | cons t rest =>
      simp only [bareRest_ok, List.map_cons, readContractOf, Token.bare_kind, Token.bare_value,
        cutAtMark_bare]
      split
      · cases cutAtMark blockOpen [";", blockClose] rest with
        | none => rfl
        | some c =>
          simp only [Option.map_some, Cut.bare_before, Cut.bare_after, Cut.bare_hit,
            readInheritance_bare, closeBrace_bare]
          cases readInheritance c.before with
          | error e => rfl
          | ok bases => cases closeBrace c.hit c.after <;> rfl
      · rfl

/-- The same declarations are announced. -/
theorem opensDeclaration_bare (t : Token) (rest : List Token) :
    opensDeclaration t.bare (rest.map Token.bare) = opensDeclaration t rest := by
  cases rest <;> rfl

/-- A declaration is the same up to its line, its documentation and the text of a pragma. -/
theorem read_bare (scope : Option ContractKind) (t : Token) (rest : List Token) :
    bareReading (read ⟨path, text'⟩ scope t.bare (rest.map Token.bare)) =
      bareReading (read ⟨path, text⟩ scope t rest) := by
  rw [read_eq, read_eq, Token.bare_value]
  by_cases hpragma : t.value = "pragma"
  · rw [if_pos hpragma, if_pos hpragma]
    exact readPragma_bare path text text' rest
  rw [if_neg hpragma, if_neg hpragma]
  by_cases himport : t.value = "import"
  · rw [if_pos himport, if_pos himport]
    exact readImport_bare rest
  rw [if_neg himport, if_neg himport]
  have hfunction := readFunction_bare path text text' scope t rest
  cases hreader : namedReader? t.value with
  | none => exact hfunction
  | some reader =>
    cases rest with
    | nil => exact hfunction
    | cons name more =>
      -- all other readers start behind the name
      show bareReading (reader t.bare name.bare.value (more.map Token.bare)) =
        bareReading (reader t name.value more)
      rw [Token.bare_value]
      rcases namedReader?_cases hreader with rfl | rfl | rfl | rfl | rfl | rfl
      · exact readEvent_bare t name.value more
      · exact readError_bare t name.value more
      · exact readStruct_bare t name.value more
      · exact readEnum_bare t name.value more
      · exact readValueType_bare t name.value more
      · exact readModifier_bare name.value more

end Member

/-! ## Walking through a scope -/

/-- Members of one kind are picked before or after places are taken away. -/
theorem map_filterMap_bare {α : Type} {pick : Member → Option α} {strip : α → α}
    (h : ∀ m : Member, pick m.bare = (pick m).map strip) (ms : List Member) :
    (ms.filterMap pick).map strip = (ms.map Member.bare).filterMap pick := by
  rw [List.filterMap_map, List.map_filterMap]
  congr 1
  funext m
  exact (h m).symm

section Picks

variable (ms : List Member)

theorem functions_bare : (ms.filterMap Member.function?).map FunctionDecl.bare =
    (ms.map Member.bare).filterMap Member.function? :=
  map_filterMap_bare (fun m => by cases m <;> rfl) ms

theorem events_bare : (ms.filterMap Member.event?).map EventDecl.bare =
    (ms.map Member.bare).filterMap Member.event? :=
  map_filterMap_bare (fun m => by cases m <;> rfl) ms

theorem errors_bare : (ms.filterMap Member.error?).map ErrorDecl.bare =
    (ms.map Member.bare).filterMap Member.error? :=
  map_filterMap_bare (fun m => by cases m <;> rfl) ms

theorem structs_bare : (ms.filterMap Member.struct?).map StructDecl.bare =
    (ms.map Member.bare).filterMap Member.struct? :=
  map_filterMap_bare (fun m => by cases m <;> rfl) ms

theorem enums_bare : (ms.filterMap Member.enum?).map EnumDecl.bare =
    (ms.map Member.bare).filterMap Member.enum? :=
  map_filterMap_bare (fun m => by cases m <;> rfl) ms

theorem valueTypes_bare : (ms.filterMap Member.valueType?).map ValueTypeDecl.bare =
    (ms.map Member.bare).filterMap Member.valueType? :=
  map_filterMap_bare (fun m => by cases m <;> rfl) ms

theorem constants_bare : (ms.filterMap Member.constant?).map ConstantDecl.bare =
    (ms.map Member.bare).filterMap Member.constant? :=
  map_filterMap_bare (fun m => by cases m <;> rfl) ms

theorem contracts_bare : (ms.filterMap Member.contract?).map ContractDecl.bare =
    (ms.map Member.bare).filterMap Member.contract? :=
  map_filterMap_bare (fun m => by cases m <;> rfl) ms

theorem diagnostics_bare : (ms.filterMap Member.diagnostic?).map bareDiagnostic =
    (ms.map Member.bare).filterMap Member.diagnostic? :=
  map_filterMap_bare (fun m => by cases m <;> rfl) ms

theorem modifiers_bare : ms.filterMap Member.modifier? =
    (ms.map Member.bare).filterMap Member.modifier? := by
  have h : (ms.filterMap Member.modifier?).map id = _ :=
    map_filterMap_bare (fun m => by cases m <;> rfl) ms
  rwa [List.map_id] at h

theorem imports_bare : ms.filterMap Member.importOf? =
    (ms.map Member.bare).filterMap Member.importOf? := by
  have h : (ms.filterMap Member.importOf?).map id = _ :=
    map_filterMap_bare (fun m => by cases m <;> rfl) ms
  rwa [List.map_id] at h

end Picks

/-- The contract of a head is the same up to lines and documentation if its members are. -/
theorem ContractDecl.ofMembers_bare (keyword : Token) (head : Member.ContractHead)
    {ms ms' : List Member} (h : ms'.map Member.bare = ms.map Member.bare) :
    (ofMembers keyword.bare head.bare ms').bare = (ofMembers keyword head ms).bare := by
  simp only [bare, ofMembers, functions_bare, events_bare, errors_bare, structs_bare, enums_bare,
    valueTypes_bare, constants_bare, modifiers_bare ms, modifiers_bare ms', h]
  rfl

/-- The reports among the members of a contract are passed on. -/
theorem Member.reports_bare (ms : List Member) :
    ((ms.filterMap Member.diagnostic?).map Member.diagnostic).map Member.bare =
      ((ms.map Member.bare).filterMap Member.diagnostic?).map Member.diagnostic := by
  rw [← diagnostics_bare, List.map_map, List.map_map]
  rfl

theorem Member.malformed_bare (path : String) (text text' : List Char) (t : Token)
    (rest : List Token) (e : Malformed) :
    (malformed ⟨path, text'⟩ t.bare (rest.map Token.bare) e).bare =
      (malformed ⟨path, text⟩ t rest e).bare := by
  cases rest <;> rfl

theorem Member.unclosedBody_bare (path : String) (text text' : List Char) (keyword : Token)
    (head : ContractHead) :
    (unclosedBody ⟨path, text'⟩ keyword.bare head.bare).map bare =
      (unclosedBody ⟨path, text⟩ keyword head).map bare := by
  have hclosed : head.bare.closed = head.closed := rfl
  unfold unclosedBody
  rw [hclosed]
  split <;> rfl

theorem Member.noted_bare (statement : List Token) :
    ((constantOf (statement.map Token.bare)).map constant).toList.map bare =
      ((constantOf statement).map constant).toList.map bare := by
  have hmember : ∀ c : Option ConstantDecl, (c.map constant).toList.map bare =
      ((c.map ConstantDecl.bare).map constant).toList := by
    intro c
    cases c <;> rfl
  rw [hmember, hmember, constantOf_bare]

/-- Readings that are the same up to places fail alike, or give members and a rest that are the
same up to places. -/
theorem Member.bareReading_eq_cases {x y : Reading} (h : bareReading x = bareReading y) :
    (∃ e, x = .error e ∧ y = .error e) ∨
      ∃ ms rest ms' rest', x = .ok (ms, rest) ∧ y = .ok (ms', rest') ∧
        ms.map bare = ms'.map bare ∧ rest.map Token.bare = rest'.map Token.bare := by
  cases x with
  | error e =>
    cases y with
    | error e' =>
      cases h
      exact .inl ⟨e, rfl, rfl⟩
    | ok found => cases h
  | ok found =>
    cases y with
    | error e' => cases h
    | ok found' =>
      obtain ⟨hmembers, hrest⟩ := Prod.mk.inj (Except.ok.inj h)
      exact .inr ⟨found.1, found.2, found'.1, found'.2, rfl, rfl, hmembers, hrest⟩

/-- A turn on bare tokens records the same and goes on at the same place, if the walk does so in the
body of a contract. -/
theorem turn_bare (path : String) (text text' : List Char) (scope : Option ContractKind) (t : Token)
    (rest : List Token)
    (hbody : ∀ head, Member.readContract t rest = .ok head →
      (walk ⟨path, text'⟩ (some head.kind) (head.body.map Token.bare)).map Member.bare =
        (walk ⟨path, text⟩ (some head.kind) head.body).map Member.bare) :
    (turn ⟨path, text'⟩ scope t.bare (rest.map Token.bare)).1.map Member.bare =
        (turn ⟨path, text⟩ scope t rest).1.map Member.bare ∧
      (turn ⟨path, text'⟩ scope t.bare (rest.map Token.bare)).2.map Token.bare =
        (turn ⟨path, text⟩ scope t rest).2.map Token.bare := by
  have hmalformed := Member.malformed_bare path text text' t rest
  have hskip := Member.skipStatement_bare rest
  rw [turn, turn, Token.isMark_bare, Token.isMark_bare, Member.opensDeclaration_bare,
    Token.bare_value, Member.readContract_bare, Token.bare_depth, ← List.map_cons,
    Member.splitStatement_bare]
  by_cases hend : t.isMark ";" ∨ t.isMark blockClose
  · rw [if_pos hend, if_pos hend]
    exact ⟨rfl, Token.map_bare_bare rest⟩
  rw [if_neg hend, if_neg hend]
  by_cases hopens : Member.opensDeclaration t rest
  · rw [if_pos hopens, if_pos hopens]
    by_cases hcontract : Member.isContractKeyword t.value
    · rw [if_pos hcontract, if_pos hcontract]
      cases hhead : Member.readContract t rest with
      | error e =>
        simp only [Except.map, List.map_cons, List.map_nil, hmalformed, hskip, Token.map_bare_bare,
          and_self]
      | ok head =>
        have hinner := hbody head hhead
        have hunclosed := Member.unclosedBody_bare path text text' t head
        have hdecl := congrArg Member.contract (ContractDecl.ofMembers_bare t head hinner)
        simp only [Except.map, Member.ContractHead.bare_kind, Member.ContractHead.bare_body,
          Member.ContractHead.bare_after, List.map_append, List.map_cons, List.map_nil,
          Member.reports_bare, Member.bare, hunclosed, hdecl, hinner, Token.map_bare_bare, and_self]
    · rw [if_neg hcontract, if_neg hcontract]
      rcases Member.bareReading_eq_cases (Member.read_bare path text text' scope t rest) with
        ⟨e, h', h⟩ | ⟨members', after', members, after, h', h, hmembers, hafter⟩
      · rw [h, h']
        simp only [List.map_cons, List.map_nil, hmalformed, hskip, Token.map_bare_bare, and_self]
      · rw [h, h']
        exact ⟨hmembers, hafter⟩
  · rw [if_neg hopens, if_neg hopens]
    exact ⟨Member.noted_bare _, Token.map_bare_bare _⟩

/-- A walk through bare tokens finds the same members up to lines, documentation and the text of
pragmas. -/
theorem walk_bare (path : String) (text text' : List Char) (scope : Option ContractKind)
    (ts : List Token) :
    (walk ⟨path, text'⟩ scope (ts.map Token.bare)).map Member.bare =
      (walk ⟨path, text⟩ scope ts).map Member.bare := by
  -- both walks go on at tokens that only agree when bare, so the induction is on the length
  induction hn : ts.length using Nat.strongRecOn generalizing text scope ts with
  | ind n ih =>
    cases ts with
    | nil => rw [List.map_nil, walk, walk]
    | cons t rest =>
      have hlength := turn_length ⟨path, text⟩ scope t rest
      obtain ⟨hmembers, hafter⟩ := turn_bare path text text' scope t rest fun head hread =>
        ih _ (by
          have := (Member.readContract_length hread).1
          rw [List.length_cons] at hn
          omega) text (some head.kind) head.body rfl
      have hlength' := congrArg List.length hafter
      rw [List.length_map, List.length_map] at hlength'
      rw [List.map_cons, walk_eq_turn, walk_eq_turn, List.map_append, List.map_append, hmembers,
        ← ih _ (by omega) text' scope _ rfl, hafter, ih _ (by omega) text scope _ rfl]

/-! ## Units -/

/-- The unit without lines, documentation and the text of its pragma. -/
def SourceUnit.bare (unit : SourceUnit) : SourceUnit :=
  { unit with
    pragma := unit.pragma.map fun _ => ""
    contracts := unit.contracts.map ContractDecl.bare
    structs := unit.structs.map StructDecl.bare
    enums := unit.enums.map EnumDecl.bare
    valueTypes := unit.valueTypes.map ValueTypeDecl.bare
    constants := unit.constants.map ConstantDecl.bare
    errors := unit.errors.map ErrorDecl.bare
    events := unit.events.map EventDecl.bare
    diagnostics := unit.diagnostics.map bareDiagnostic }

theorem pragma_bare (ms : List Member) :
    (ms.findSome? Member.pragma?).map (fun _ => "") =
      (ms.map Member.bare).findSome? Member.pragma? := by
  induction ms with
  | nil => rfl
  | cons m ms ih =>
    cases m with
    | pragma text => rfl
    | _ => exact ih

/-- The unit of bare members. -/
theorem SourceUnit.ofMembers_bare (path : String) (category : Category) (ms : List Member) :
    (ofMembers path category ms).bare = ofMembers path category (ms.map Member.bare) := by
  simp only [bare, ofMembers, pragma_bare, contracts_bare, structs_bare, enums_bare,
    valueTypes_bare, constants_bare, errors_bare, events_bare, diagnostics_bare, ← imports_bare]

/-- Sequences with the same bare tokens hold the same declarations, up to lines, documentation and
the text of the pragma. -/
theorem SourceUnit.ofTokens_bare_eq (path : String) (category : Category) (text text' : List Char)
    {ts ts' : List Token} (h : ts.map Token.bare = ts'.map Token.bare) :
    (ofTokens path category text ts).bare = (ofTokens path category text' ts').bare := by
  rw [ofTokens, ofTokens, ofMembers_bare, ofMembers_bare, ← walk_bare path text text' none ts, h,
    walk_bare path text' text' none ts']

end AbiIndex.Source
