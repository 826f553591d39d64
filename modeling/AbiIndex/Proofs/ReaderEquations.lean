import AbiIndex.Source.Unit

/-!
# Readers step by step

The readers that recur on what another reader leaves behind remember how they got there, so that it
is seen that they end. Here each of them is given by one plain equation for a sequence with a first
token. Of a reader that has succeeded it is said once what it has read: which tokens it has found, in
which order, and what they have become.

## Key results

- `TypeRef.read_cons`, `Specifier.readAll_step`, `walk_cons`: the readers that recur
- `Parameter.readParenthesised_eq_ok`: what a list of parameters in parentheses is
- `Member.readFunction_eq_ok` to `Member.readContract_eq_ok`: what the declarations are
- `walk_eq_turn`: a walk is its first turn, followed by the walk from where the turn ends
- `Turns`: the ways in which a turn can go
-/

namespace AbiIndex.Source

theorem TypeRef.skipFunctionWords_cons (within : String) (t : Token) (rest : List Token) :
    skipFunctionWords within (t :: rest) =
      if t.kind = .word ∧ t.value ∈ functionTypeWords then skipFunctionWords within rest
      else if t.isWord "returns" ∧ (rest.head?.map (·.isMark "(")).getD false then
        match closeNested "(" ")" 0 (rest.drop 1) with
        | none => .error (.functionTypeUnbalanced within)
        | some c => skipFunctionWords within c.after
      else .ok (t :: rest) := by
  rw [skipFunctionWords]
  congr 2
  split <;> rename_i heq <;> rw [heq]

theorem TypeRef.readBrackets_cons (within : String) (base : TypeRef) (t : Token)
    (rest : List Token) :
    readBrackets within base (t :: rest) =
      if t.isMark "[" then
        match closeNested "[" "]" 0 rest with
        | none => .error (.bracketsUnbalanced within)
        | some c =>
          let length := String.join (c.before.map (·.value))
          readBrackets within (.array base (if length = "" then none else some length)) c.after
      else .ok (base, t :: rest) := by
  rw [readBrackets]
  congr 1
  split <;> rename_i heq <;> rw [heq]

/-- The type that the parenthesis at the front of a sequence opens behind the word `mapping`. -/
def TypeRef.readMapping (within : String) : List Token → Except Malformed (TypeRef × List Token)
  | [] => .error (.mappingUnopened within)
  | p :: inside =>
    if p.isMark "(" then
      match closeNested "(" ")" 0 inside with
      | none => .error (.mappingUnbalanced within)
      | some c =>
        match cutAtMark "=>" [] c.before with
        | none => .error (.mappingWithoutArrow within)
        | some arrow => do
          let (key, _) ← read within arrow.before
          let (value, _) ← read within arrow.after
          return (.mapping key value, c.after)
    else .error (.mappingUnopened within)

theorem TypeRef.read_cons (within : String) (t : Token) (rest : List Token) :
    read within (t :: rest) =
      if t.isWord "mapping" then do
        let (type, more) ← readMapping within rest
        readBrackets within type more
      else if t.isWord "function" then do
        let (type, more) ← readFunctionType within t rest
        readBrackets within type more
      else if t.kind = .word then
        readBrackets within (readNamed t rest).1 (readNamed t rest).2
      else .error (.typeExpected t.value within) := by
  rw [read.eq_def]
  dsimp only
  congr 1
  cases rest with
  | nil => rfl
  | cons p inside =>
    dsimp only [readMapping]
    split
    · split
      · rename_i heq
        rw [heq]
        rfl
      · rename_i c heq
        rw [heq]
        dsimp only
        split
        · rename_i heq
          rw [heq]
          rfl
        · rename_i arrow heq
          rw [heq]
          dsimp only
          cases read within arrow.before with
          | error e => rfl
          | ok key => cases read within arrow.after <;> rfl
    · rfl

theorem Specifier.readAll_step (function : String) (t : Token) (rest : List Token) :
    readAll function (t :: rest) =
      if t.isMark blockOpen ∨ t.isMark ";" then .ok ([], t, rest)
      else
        match read function t rest with
        | .error e => .error e
        | .ok (s, more) =>
          match readAll function more with
          | .error e => .error e
          | .ok (specifiers, ending, after) => .ok (s :: specifiers, ending, after) := by
  rw [readAll]
  congr 1
  split <;> rename_i heq <;> rewrite [heq] <;> rfl

theorem Member.readBases_cons (expectName : Bool) (t : Token) (rest : List Token) :
    readBases expectName (t :: rest) =
      if t.isMark "," then readBases true rest
      else if t.isMark "(" then
        match closeParen t rest with
        | none => .error .baseArguments
        | some c => readBases expectName c.after
      else if t.kind = .word ∧ expectName then
        match readBases false (readDotted rest).2 with
        | .error e => .error e
        | .ok bases => .ok ((readDotted rest).1.getLastD t.value :: bases)
      else .error (.inInheritance t.value) := by
  rw [readBases]
  congr 2
  split <;> rename_i heq <;> rw [heq]

/-- The reader of a declaration whose name stands right behind its keyword. -/
def Member.namedReader? : String → Option (Token → String → List Token → Reading)
  | "event" => some readEvent
  | "error" => some readError
  | "struct" => some readStruct
  | "enum" => some readEnum
  | "type" => some readValueType
  | "modifier" => some fun _ => readModifier
  | _ => none

theorem Member.namedReader?_cases {word : String} {reader : Token → String → List Token → Reading}
    (h : namedReader? word = some reader) :
    reader = readEvent ∨ reader = readError ∨ reader = readStruct ∨ reader = readEnum ∨
      reader = readValueType ∨ reader = fun _ => readModifier := by
  unfold namedReader? at h
  split at h <;> simp_all

theorem Member.read_eq (origin : Origin) (scope : Option ContractKind) (t : Token)
    (rest : List Token) :
    read origin scope t rest =
      if t.value = "pragma" then readPragma origin rest
      else if t.value = "import" then readImport rest
      else
        match namedReader? t.value, rest with
        | some reader, name :: more => reader t name.value more
        | _, _ => readFunction origin scope t rest := by
  rw [read.eq_def]
  generalize t.value = word
  split
  · rfl
  · rfl
  all_goals try rfl
  -- a keyword that wants a name, and no token behind it
  cases rest with
  | nil => simp_all
  | cons name more =>
    simp_all only [List.cons.injEq]
    rw [namedReader?]
    all_goals simp_all

/-! ## What was read -/

section Parts

variable {ts rest : List Token}

theorem Parameter.readParenthesised_eq_ok {allowIndexed : Bool} {within : String}
    {ps : List Parameter} (h : readParenthesised allowIndexed within ts = .ok (ps, rest)) :
    ∃ t more c, ts = t :: more ∧ t.isMark "(" ∧ closeParenInStatement t more = some c ∧
      readList allowIndexed c.before = .ok ps ∧ rest = c.after := by
  unfold readParenthesised at h
  split at h
  · cases h
  rename_i t more
  split at h
  · rename_i hopen
    split at h
    · cases h
    rename_i c hc
    split at h
    · cases h
    · rename_i hlist
      cases h
      exact ⟨t, more, c, rfl, hopen, hc, hlist, rfl⟩
  · cases h

namespace Specifier

/-- A part in parentheses may be missing. -/
theorem skipParens_eq_some (h : skipParens ts = some rest) :
    rest = ts ∨ ∃ t more c, ts = t :: more ∧ t.isMark "(" ∧
      closeParenInStatement t more = some c ∧ rest = c.after := by
  unfold skipParens at h
  split at h
  · cases h
    exact .inl rfl
  rename_i t more
  split at h
  · rename_i hopen
    obtain ⟨c, hc, rfl⟩ := Option.map_eq_some_iff.1 h
    exact .inr ⟨t, more, c, rfl, hopen, hc, rfl⟩
  · cases h
    exact .inl rfl

theorem readReturns_eq_ok {function : String} {s : Specifier}
    (h : readReturns function ts = .ok (s, rest)) :
    ∃ t more c values, ts = t :: more ∧ t.isMark "(" ∧ closeParenInStatement t more = some c ∧
      Parameter.readList false c.before = .ok values ∧ s = .returns values ∧ rest = c.after := by
  unfold readReturns at h
  split at h
  · cases h
  rename_i t more
  split at h
  · rename_i hopen
    split at h
    · cases h
    rename_i c hc
    split at h
    · cases h
    · rename_i values hvalues
      cases h
      exact ⟨t, more, c, values, rfl, hopen, hc, hvalues, rfl, rfl⟩
  · cases h

theorem readModifier_eq_ok {first : String} {s : Specifier}
    (h : readModifier first ts = .ok (s, rest)) :
    s = .modifier (".".intercalate (first :: (readDotted ts).1)) ∧
      skipParens (readDotted ts).2 = some rest := by
  unfold readModifier at h
  split at h
  · cases h
  · rename_i hparens
    cases h
    exact ⟨rfl, hparens⟩

/-- A specifier is a word, alone or with what belongs to it. -/
theorem read_eq_ok {function : String} {t : Token} {s : Specifier}
    (h : read function t ts = .ok (s, rest)) :
    t.kind = .word ∧ (rest = ts ∨ skipParens ts = some rest ∨
      readReturns function ts = .ok (s, rest) ∨ readModifier t.value ts = .ok (s, rest)) := by
  unfold read at h
  split at h
  · cases h
  rename_i hkind
  refine ⟨Decidable.not_not.1 hkind, ?_⟩
  split at h
  · cases h
    exact .inl rfl
  · cases h
    exact .inl rfl
  split at h
  · cases h
    exact .inl rfl
  · split at h
    · cases h
    · rename_i hparens
      cases h
      exact .inr (.inl hparens)
  · exact .inr (.inr (.inl h))
  · exact .inr (.inr (.inr h))

end Specifier

end Parts

namespace Member

section Declarations

variable {ts rest : List Token} {ms : List Member} {keyword : Token} {name : String}

theorem readPragma_eq_ok {origin : Origin} (h : readPragma origin ts = .ok (ms, rest)) :
    ∃ c, cutAtMark ";" [] ts = some c ∧ rest = c.after ∧ (ms = [] ∨ ∃ text, ms = [.pragma text]) := by
  unfold readPragma at h
  split at h
  · cases h
  rename_i c hc
  refine ⟨c, hc, ?_⟩
  split at h
  · cases h
    exact ⟨rfl, .inl rfl⟩
  split at h
  · split at h <;> cases h <;> exact ⟨rfl, .inr ⟨_, rfl⟩⟩
  · cases h
    exact ⟨rfl, .inl rfl⟩

theorem readImport_eq_ok (h : readImport ts = .ok (ms, rest)) :
    ∃ c, cutAtMark ";" [] ts = some c ∧ rest = c.after ∧
      (ms = [] ∨ ∃ path, ms = [.importOf path]) := by
  unfold readImport at h
  split at h
  · cases h
  rename_i c hc
  refine ⟨c, hc, ?_⟩
  split at h
  · cases h
    exact ⟨rfl, .inr ⟨_, rfl⟩⟩
  · cases h
    exact ⟨rfl, .inl rfl⟩

/-- A function is given by its name, its parameters and its header, and ends behind its body or at
a `;`. What looked like a function may have been a variable. -/
theorem readFunction_eq_ok {origin : Origin} {scope : Option ContractKind}
    (h : readFunction origin scope keyword ts = .ok (ms, rest)) :
    ∃ parameters header specifiers ending behind,
      Parameter.readParenthesised false s!"function {(functionName keyword ts).1}"
        (functionName keyword ts).2.2 = .ok (parameters, header) ∧
      Specifier.readAll (functionName keyword ts).1 header = .ok (specifiers, ending, behind) ∧
      (ms = [] ∨ ms = functionMembers origin scope keyword (functionName keyword ts).1
        (functionName keyword ts).2.1 parameters specifiers) ∧
      (ending.isMark blockOpen ∧ (∃ c, closeBrace ending behind = some c ∧ rest = c.after) ∨
        ¬ ending.isMark blockOpen ∧ rest = behind) := by
  unfold readFunction at h
  dsimp only at h
  split at h
  · cases h
  rename_i parameters header hparameters
  split at h
  · cases h
  rename_i specifiers ending behind hspecifiers
  refine ⟨parameters, header, specifiers, ending, behind, hparameters, hspecifiers, ?_⟩
  split at h
  · rename_i hopen
    split at h
    · cases h
    · rename_i c hc
      cases h
      exact ⟨.inr rfl, .inl ⟨hopen, c, hc, rfl⟩⟩
  · rename_i hopen
    split at h
    · cases h
      exact ⟨.inl rfl, .inr ⟨hopen, rfl⟩⟩
    · cases h
      exact ⟨.inr rfl, .inr ⟨hopen, rfl⟩⟩

/-- The word `anonymous` may stand in front of the `;` of an event. -/
theorem readEvent_eq_ok (h : readEvent keyword name ts = .ok (ms, rest)) :
    ∃ parameters more t anonymous,
      Parameter.readParenthesised true s!"event {name}" ts = .ok (parameters, more) ∧
      (more = t :: rest ∨ ∃ word, word.isWord "anonymous" ∧ more = word :: t :: rest) ∧
      t.isMark ";" ∧
      ms = [.event ⟨name, parameters, anonymous, keyword.line, documentation keyword⟩] := by
  unfold readEvent at h
  split at h
  · cases h
  rename_i parameters more hparameters
  dsimp only at h
  split at h
  · cases h
  rename_i t after hafter
  split at h
  · rename_i hend
    cases h
    refine ⟨parameters, more, t, _, hparameters, ?_, hend, rfl⟩
    split at hafter
    · rename_i hanonymous
      cases more with
      | nil => cases hafter
      | cons word more =>
        refine .inr ⟨word, by simpa using hanonymous, ?_⟩
        rw [← hafter]
        rfl
    · exact .inl hafter
  · cases h

theorem readError_eq_ok (h : readError keyword name ts = .ok (ms, rest)) :
    ∃ parameters t,
      Parameter.readParenthesised false s!"error {name}" ts = .ok (parameters, t :: rest) ∧
      t.isMark ";" ∧ ms = [.error ⟨name, parameters, keyword.line, documentation keyword⟩] := by
  unfold readError at h
  split at h
  · cases h
  rename_i parameters more hparameters
  split at h
  · cases h
  rename_i t after
  split at h
  · rename_i hend
    cases h
    exact ⟨parameters, t, hparameters, hend, rfl⟩
  · cases h

theorem readStruct_eq_ok (h : readStruct keyword name ts = .ok (ms, rest)) :
    ∃ t more c fields, ts = t :: more ∧ t.isMark blockOpen ∧ closeBrace t more = some c ∧
      (splitFields t.depth c.before).1.mapM (Parameter.read false s!"struct {name}") = .ok fields ∧
      ms = [.struct ⟨name, fields, keyword.line⟩] ∧ rest = c.after := by
  unfold readStruct at h
  split at h
  · cases h
  rename_i t more
  split at h
  · rename_i hopen
    split at h
    · cases h
    rename_i c hc
    dsimp only at h
    split at h
    · cases h
    rename_i fields hfields
    split at h
    · cases h
      exact ⟨t, more, c, fields, rfl, hopen, hc, hfields, rfl, rfl⟩
    · cases h
  · cases h

theorem readEnum_eq_ok (h : readEnum keyword name ts = .ok (ms, rest)) :
    ∃ t more c, ts = t :: more ∧ t.isMark blockOpen ∧ closeBrace t more = some c ∧
      ms = [.enum ⟨name, (c.before.filter (·.kind = .word)).map (·.value), keyword.line⟩] ∧
      rest = c.after := by
  unfold readEnum at h
  split at h
  · cases h
  rename_i t more
  split at h
  · rename_i hopen
    split at h
    · cases h
    rename_i c hc
    cases h
    exact ⟨t, more, c, rfl, hopen, hc, rfl, rfl⟩
  · cases h

theorem readValueType_eq_ok (h : readValueType keyword name ts = .ok (ms, rest)) :
    ∃ t more c underlying, ts = t :: more ∧ t.isWord "is" ∧
      cutAtMark ";" [blockOpen, blockClose] more = some c ∧
      TypeRef.read s!"type {name}" c.before = .ok (underlying, []) ∧
      ms = [.valueType ⟨name, underlying, keyword.line⟩] ∧ rest = c.after := by
  unfold readValueType at h
  split at h
  · cases h
  rename_i t more
  split at h
  · rename_i his
    split at h
    · cases h
    rename_i c hc
    split at h
    · cases h
    · rename_i underlying hunderlying
      cases h
      exact ⟨t, more, c, underlying, rfl, his, hc, hunderlying, rfl, rfl⟩
    · cases h
  · cases h

/-- A contract is a name, its bases and a body. A body without a closing brace takes all that is
left. -/
theorem readContract_eq_ok {head : ContractHead} (h : readContract keyword ts = .ok head) :
    ∃ kind name more c bases, contractKind keyword ts = .ok (kind, name :: more) ∧
      name.kind = .word ∧ cutAtMark blockOpen [";", blockClose] more = some c ∧
      readInheritance c.before = .ok bases ∧
      (closeBrace c.hit c.after = none ∧ head = ⟨kind, name.value, bases, c.after, [], false⟩ ∨
        ∃ body, closeBrace c.hit c.after = some body ∧
          head = ⟨kind, name.value, bases, body.before, body.after, true⟩) := by
  unfold readContract at h
  split at h
  · cases h
  rename_i kind behind hkind
  unfold readContractOf at h
  split at h
  · cases h
  rename_i name more
  split at h
  · rename_i hname
    split at h
    · cases h
    rename_i c hc
    split at h
    · cases h
    rename_i bases hbases
    refine ⟨kind, name, more, c, bases, hkind, hname, hc, hbases, ?_⟩
    split at h
    · rename_i hclose
      cases h
      exact .inl ⟨hclose, rfl⟩
    · rename_i body hclose
      cases h
      exact .inr ⟨body, hclose, rfl⟩
  · cases h

end Declarations

end Member

theorem walk_cons (origin : Origin) (scope : Option ContractKind) (t : Token)
    (rest : List Token) :
    walk origin scope (t :: rest) =
      if t.isMark ";" ∨ t.isMark blockClose then walk origin scope rest
      else if Member.opensDeclaration t rest then
        if Member.isContractKeyword t.value then
          match Member.readContract t rest with
          | .error e =>
            Member.malformed origin t rest e :: walk origin scope (Member.skipStatement rest)
          | .ok head =>
            Member.unclosedBody origin t head
              ++ ((walk origin (some head.kind) head.body).filterMap Member.diagnostic?).map
                .diagnostic
              ++ .contract (ContractDecl.ofMembers t head (walk origin (some head.kind) head.body))
              :: walk origin scope head.after
        else
          match Member.read origin scope t rest with
          | .error e =>
            Member.malformed origin t rest e :: walk origin scope (Member.skipStatement rest)
          | .ok (members, after) => members ++ walk origin scope after
      else
        ((Member.constantOf (Member.splitStatement t.depth (t :: rest)).1).map .constant).toList
          ++ walk origin scope (Member.splitStatement t.depth (t :: rest)).2 := by
  rw [walk]
  show (if _ then _ else if _ then if _ then _ else _ else _) = _
  congr 2
  congr 1
  · split <;> rename_i heq <;> rw [heq]
  · split <;> rename_i heq <;> rw [heq]

/-! ## A walk turn by turn -/

/-- What a walk records at the token `t`, and where it goes on. -/
def turn (origin : Origin) (scope : Option ContractKind) (t : Token) (rest : List Token) :
    List Member × List Token :=
  if t.isMark ";" ∨ t.isMark blockClose then ([], rest)
  else if Member.opensDeclaration t rest then
    if Member.isContractKeyword t.value then
      match Member.readContract t rest with
      | .error e => ([Member.malformed origin t rest e], Member.skipStatement rest)
      | .ok head =>
        let members := walk origin (some head.kind) head.body
        (Member.unclosedBody origin t head ++ (members.filterMap Member.diagnostic?).map .diagnostic
          ++ [.contract (ContractDecl.ofMembers t head members)], head.after)
    else
      match Member.read origin scope t rest with
      | .error e => ([Member.malformed origin t rest e], Member.skipStatement rest)
      | .ok found => found
  else
    let statement := Member.splitStatement t.depth (t :: rest)
    (((Member.constantOf statement.1).map .constant).toList, statement.2)

/-- A walk is its first turn, followed by the walk from where the turn ends. -/
theorem walk_eq_turn (origin : Origin) (scope : Option ContractKind) (t : Token)
    (rest : List Token) : walk origin scope (t :: rest) =
      (turn origin scope t rest).1 ++ walk origin scope (turn origin scope t rest).2 := by
  rw [walk_cons, turn]
  split
  · rfl
  split
  · split
    · cases Member.readContract t rest with
      | error e => rfl
      | ok head => simp
    · cases Member.read origin scope t rest <;> rfl
  · rfl

/-- The ways in which a turn can go, with what it records and what it leaves. -/
inductive Turns (origin : Origin) (scope : Option ContractKind) (t : Token) (rest : List Token) :
    List Member × List Token → Prop
  /-- An empty statement, or a brace left over. -/
  | mark (ends : t.isMark ";" ∨ t.isMark blockClose) : Turns origin scope t rest ([], rest)
  /-- What cannot be read is reported and passed over as a statement. -/
  | malformed (clear : t.isMark ";" = false ∧ t.isMark blockClose = false)
      (opens : Member.opensDeclaration t rest) (e : Malformed) :
      Turns origin scope t rest ([Member.malformed origin t rest e], Member.skipStatement rest)
  /-- A contract passes on the reports from inside it. -/
  | contract {head : Member.ContractHead}
      (clear : t.isMark ";" = false ∧ t.isMark blockClose = false)
      (opens : Member.opensDeclaration t rest) (read : Member.readContract t rest = .ok head) :
      Turns origin scope t rest (Member.unclosedBody origin t head
        ++ ((walk origin (some head.kind) head.body).filterMap Member.diagnostic?).map .diagnostic
        ++ [.contract (ContractDecl.ofMembers t head (walk origin (some head.kind) head.body))],
        head.after)
  | declaration {found : List Member × List Token}
      (clear : t.isMark ";" = false ∧ t.isMark blockClose = false)
      (opens : Member.opensDeclaration t rest) (read : Member.read origin scope t rest = .ok found) :
      Turns origin scope t rest found
  /-- Any other statement may declare a constant. -/
  | statement (clear : t.isMark ";" = false ∧ t.isMark blockClose = false) :
      Turns origin scope t rest
        (((Member.constantOf (Member.splitStatement t.depth (t :: rest)).1).map .constant).toList,
          (Member.splitStatement t.depth (t :: rest)).2)

theorem turns_turn (origin : Origin) (scope : Option ContractKind) (t : Token)
    (rest : List Token) : Turns origin scope t rest (turn origin scope t rest) := by
  rw [turn]
  split
  · exact .mark ‹_›
  rename_i hend
  rw [not_or, Bool.not_eq_true, Bool.not_eq_true] at hend
  split
  · rename_i hopens
    split
    · split
      · exact .malformed hend hopens _
      · exact .contract hend hopens ‹_›
    · split
      · exact .malformed hend hopens _
      · exact .declaration hend hopens ‹_›
  · exact .statement hend

/-- A turn takes at least its first token. -/
theorem turn_length (origin : Origin) (scope : Option ContractKind) (t : Token)
    (rest : List Token) : (turn origin scope t rest).2.length < (t :: rest).length := by
  have hturn := turns_turn origin scope t rest
  generalize turn origin scope t rest = made at hturn ⊢
  rw [List.length_cons]
  cases hturn with
  | mark => exact Nat.lt_succ_self _
  | malformed =>
    have := Member.skipStatement_length rest
    dsimp only
    omega
  | contract clear opens read =>
    have := (Member.readContract_length read).2
    dsimp only
    omega
  | declaration clear opens read =>
    have := Member.read_length read
    omega
  | statement clear => exact Member.splitStatement_length_lt clear.2

/-- By induction along a walk: what holds of a scope holds with the turn at its first token in front,
if it also holds of the body of a contract there. -/
theorem walk_induction {P : Option ContractKind → List Token → Prop} (origin : Origin)
    (nil : ∀ scope, P scope [])
    (cons : ∀ scope t rest, (∀ head, Member.readContract t rest = .ok head →
      P (some head.kind) head.body) → P scope (turn origin scope t rest).2 → P scope (t :: rest))
    (scope : Option ContractKind) (ts : List Token) : P scope ts := by
  induction hn : ts.length using Nat.strongRecOn generalizing scope ts with
  | ind n ih =>
    cases ts with
    | nil => exact nil scope
    | cons t rest =>
      have hlength := turn_length origin scope t rest
      rw [hn] at hlength
      refine cons scope t rest (fun head hread => ?_) (ih _ hlength scope _ rfl)
      have hbody := (Member.readContract_length hread).1
      rw [List.length_cons] at hn
      exact ih _ (by omega) (some head.kind) head.body rfl

theorem SourceUnit.extractAs_eq_ok_iff {category : Category} {text : List Char} {path : String}
    {unit : SourceUnit} : extractAs category text path = .ok unit ↔
      ∃ ts, tokenize text = .ok ts ∧ ofTokens path category text ts = unit := by
  rw [extractAs]
  cases tokenize text with
  | error e => simp [Except.map]
  | ok ts => simp [Except.map]

end AbiIndex.Source
