import AbiIndex.Diagnostic
import AbiIndex.Source.Header

/-!
# Reading declarations

A scope is a sequence of members. This module reads each kind of member that has no members of its
own; contracts are read up to their body. Every reader takes the tokens behind the keyword and
gives back what stands behind the declaration, or says why there is none.
-/

namespace AbiIndex.Source

open AbiIndex.Text

/-- What a walk through a scope finds. -/
inductive Member where
  | pragma (text : String)
  | importOf (path : String)
  | function (d : FunctionDecl)
  | event (d : EventDecl)
  | error (d : ErrorDecl)
  | struct (d : StructDecl)
  | enum (d : EnumDecl)
  | valueType (d : ValueTypeDecl)
  | constant (d : ConstantDecl)
  | modifier (name : String)
  | contract (d : ContractDecl)
  | diagnostic (d : Diagnostic)

/-- The file that is read: its path and, where it is at hand, its text. -/
structure Origin where
  path : String
  text : List Char

/-- A problem at a token. -/
def Origin.report (origin : Origin) (kind : DiagnosticKind) (message : String) (t : Token)
    (construct : String) : Member :=
  .diagnostic ⟨kind, message, some origin.path, some t.line, some construct⟩

/-- What a reader gives back: the members that it found, and what stands behind the declaration. -/
abbrev Reading := Except Malformed (List Member × List Token)

namespace Member

def documentation (t : Token) : Option Natspec := t.doc.bind Natspec.parse

/-- A directive ends at its `;`. Only one that names the language is kept: the source text between
the name and the `;`, or the joined tokens if the text is not at hand. -/
def readPragma (origin : Origin) (ts : List Token) : Reading :=
  match cutAtMark ";" [] ts with
  | none => .error .pragmaUnterminated
  | some c =>
    match c.before with
    | [] => .ok ([], c.after)
    | t :: version =>
      if t.isWord "solidity" then
        -- white space between the tokens is part of the version only if the text is at hand
        match version.head?, version.getLast?, origin.text with
        | some first, some last, _ :: _ =>
          let text := (origin.text.drop first.start).take (last.stop - first.start)
          .ok ([.pragma (String.ofList (trim text))], c.after)
        | _, _, _ => .ok ([.pragma (String.join (version.map (·.value)))], c.after)
      else .ok ([], c.after)

/-- The imported path is the first quoted literal before the `;`. -/
def readImport (ts : List Token) : Reading :=
  match cutAtMark ";" [] ts with
  | none => .error .importUnterminated
  | some c =>
    match c.before.find? (·.kind = .quoted) with
    | some t => .ok ([.importOf t.value], c.after)
    | none => .ok ([], c.after)

/-- The visibility of a function that states none. -/
def defaultVisibility (kind : FunctionKind) (scope : Option ContractKind) : Visibility :=
  match kind with
  | .constructor => .pub
  | .fallback | .receive => .external
  | .function => if scope = some .interface then .external else .internal

/-- The name, the kind and the rest of a function, given its keyword. The word `function` without
a name introduces a fallback function. -/
def functionName (keyword : Token) (ts : List Token) : String × FunctionKind × List Token :=
  match keyword.value with
  | "constructor" => ("constructor", .constructor, ts)
  | "fallback" => ("fallback", .fallback, ts)
  | "receive" => ("receive", .receive, ts)
  | _ =>
    match ts with
    | t :: rest =>
      if t.kind = .word then (t.value, .function, rest) else ("fallback", .fallback, ts)
    | [] => ("fallback", .fallback, ts)

/-- The members that a function with the given header gives in a scope. Ordinary functions outside
contracts give none; an ordinary function that states no visibility in a contract that is no
interface is reported. -/
def functionMembers (origin : Origin) (scope : Option ContractKind) (keyword : Token)
    (name : String) (kind : FunctionKind) (parameters : List Parameter)
    (specifiers : List Specifier) : List Member :=
  let stated := specifiers.findSome? Specifier.visibility?
  let decl : FunctionDecl := {
    name, parameters, kind
    visibility := stated.getD (defaultVisibility kind scope)
    mutability := (specifiers.findSome? Specifier.mutability?).getD .nonpayable
    visibilityExplicit := stated.isSome
    returns := (specifiers.filterMap Specifier.returns?).getLastD []
    modifiers := specifiers.filterMap Specifier.modifier?
    isVirtual := specifiers.any (· = .virtual)
    isOverride := specifiers.any (· = .override)
    line := keyword.line
    natspec := documentation keyword }
  match kind, scope with
  | .function, none => []
  | .function, some container =>
    if stated.isNone ∧ container ≠ .interface then
      [origin.report .implicitVisibility
        s!"function {name} declares no visibility; treated as internal" keyword
        s!"function {name}", .function decl]
    else [.function decl]
  | _, _ => [.function decl]

/-- A function is a parameter list, a header, and a body or a `;`. What looks like a nameless
function with modifiers and without a body is a variable of a function type and gives nothing. -/
def readFunction (origin : Origin) (scope : Option ContractKind) (keyword : Token)
    (ts : List Token) : Reading :=
  let (name, kind, rest) := functionName keyword ts
  match Parameter.readParenthesised false s!"function {name}" rest with
  | .error e => .error e
  | .ok (parameters, rest) =>
    match Specifier.readAll name rest with
    | .error e => .error e
    | .ok (specifiers, ending, rest) =>
      let members := functionMembers origin scope keyword name kind parameters specifiers
      if ending.isMark blockOpen then
        match closeBrace ending rest with
        | none => .error (.functionUnclosed name)
        | some c => .ok (members, c.after)
      -- here the word that looked like a modifier was the name of a variable
      else if keyword.value = "function" ∧ kind = .fallback
          ∧ specifiers.any (·.modifier?.isSome) then .ok ([], rest)
      else .ok (members, rest)

/-- An event, given its name. -/
def readEvent (keyword : Token) (name : String) (ts : List Token) : Reading :=
  match Parameter.readParenthesised true s!"event {name}" ts with
  | .error e => .error e
  | .ok (parameters, rest) =>
    let anonymous := (rest.head?.map (·.isWord "anonymous")).getD false
    match if anonymous then rest.drop 1 else rest with
    | [] => .error (.unterminated s!"event {name}")
    | t :: after =>
      if t.isMark ";" then
        .ok ([.event ⟨name, parameters, anonymous, keyword.line, documentation keyword⟩], after)
      else .error (.unterminated s!"event {name}")

/-- An error, given its name. -/
def readError (keyword : Token) (name : String) (ts : List Token) : Reading :=
  match Parameter.readParenthesised false s!"error {name}" ts with
  | .error e => .error e
  | .ok (parameters, rest) =>
    match rest with
    | [] => .error (.unterminated s!"error {name}")
    | t :: after =>
      if t.isMark ";" then
        .ok ([.error ⟨name, parameters, keyword.line, documentation keyword⟩], after)
      else .error (.unterminated s!"error {name}")

/-- The token sequences that a `;` directly inside the braces of the given depth ends, and what
stands behind the last of them. -/
def splitFields (depth : Nat) : List Token → List (List Token) × List Token
  | [] => ([], [])
  | t :: rest =>
    let (fields, last) := splitFields depth rest
    if t.isMark ";" ∧ t.depth = depth + 1 then ([] :: fields, last)
    else
      match fields with
      | [] => ([], t :: last)
      | field :: more => ((t :: field) :: more, last)

/-- A struct, given its name. -/
def readStruct (keyword : Token) (name : String) : List Token → Reading
  | [] => .error (.fieldsMissing name)
  | t :: rest =>
    if t.isMark blockOpen then
      match closeBrace t rest with
      | none => .error (.fieldsUnclosed name)
      | some c =>
        let (fields, last) := splitFields t.depth c.before
        match fields.mapM (Parameter.read false s!"struct {name}") with
        | .error e => .error e
        | .ok fields =>
          if last = [] then .ok ([.struct ⟨name, fields, keyword.line⟩], c.after)
          else .error (.fieldUnterminated name)
    else .error (.fieldsMissing name)

/-- An enum, given its name. Its members are all the words between its braces. -/
def readEnum (keyword : Token) (name : String) : List Token → Reading
  | [] => .error (.membersMissing name)
  | t :: rest =>
    if t.isMark blockOpen then
      match closeBrace t rest with
      | none => .error (.membersUnclosed name)
      | some c =>
        let members := (c.before.filter (·.kind = .word)).map (·.value)
        .ok ([.enum ⟨name, members, keyword.line⟩], c.after)
    else .error (.membersMissing name)

/-- A value type, given its name. -/
def readValueType (keyword : Token) (name : String) : List Token → Reading
  | [] => .error (.typeWithoutIs name)
  | t :: rest =>
    if t.isWord "is" then
      match cutAtMark ";" [blockOpen, blockClose] rest with
      | none => .error (.unterminated s!"type {name}")
      | some c =>
        match TypeRef.read s!"type {name}" c.before with
        | .error e => .error e
        | .ok (underlying, []) => .ok ([.valueType ⟨name, underlying, keyword.line⟩], c.after)
        | .ok (_, _ :: _) => .error (.typeTrailing name)
    else .error (.typeWithoutIs name)

/-! ## Statements -/

/-- Splits off the statement at the front of a sequence: up to its `;`, up to the end of the block
that opens in it, or up to a brace that closes a block around it. `depth` is the depth of its first
token. Parentheses are not looked at, since a statement may be passed over just because they are
unbalanced. -/
def splitStatement (depth : Nat) : List Token → List Token × List Token
  | [] => ([], [])
  | t :: rest =>
    if t.isMark blockClose ∧ t.depth < depth then ([], t :: rest)
    else if t.isMark ";" then ([t], rest)
    else if t.isMark blockOpen then
      match closeBrace t rest with
      -- a block that is never closed takes everything
      | none => (t :: rest, [])
      | some c => (t :: (c.before ++ [c.hit]), c.after)
    else (t :: (splitStatement depth rest).1, (splitStatement depth rest).2)

/-- What stands behind the statement at the front of a sequence. -/
def skipStatement : List Token → List Token
  | [] => []
  | t :: rest => (splitStatement t.depth (t :: rest)).2

/-- The constant that a statement declares: the word `constant`, a name, an equals sign, a number
and a `;`. Only the first such word counts. -/
def constantOf : List Token → Option ConstantDecl
  | [] => none
  | t :: rest =>
    if t.isWord "constant" then
      match rest with
      | name :: equals :: value :: ending :: _ =>
        if name.kind = .word ∧ equals.isMark "=" ∧ value.kind = .number ∧ ending.isMark ";" then
          some ⟨name.value, value.value, t.line⟩
        else none
      | _ => none
    else constantOf rest

/-- A modifier, given its name; its parameters and its body are passed over. -/
def readModifier (name : String) (ts : List Token) : Reading :=
  .ok ([.modifier name], skipStatement ts)

/-! ## Contracts -/

/-- A contract up to its body. -/
structure ContractHead where
  kind : ContractKind
  name : String
  bases : List String
  body : List Token
  after : List Token
  /-- Whether the body has a closing brace. -/
  closed : Bool

/-- Reads a list of base contracts: names, each with optional arguments, separated by commas. Of a
dotted name the last part counts. `expectName` says whether a name may stand here. -/
def readBases (expectName : Bool) (ts : List Token) : Except Malformed (List String) :=
  match ts with
  | [] => .ok []
  | t :: rest =>
    if t.isMark "," then readBases true rest
    else if t.isMark "(" then
      match _h : closeParen t rest with
      | none => .error .baseArguments
      | some c => readBases expectName c.after
    else if t.kind = .word ∧ expectName then
      match readBases false (readDotted rest).2 with
      | .error e => .error e
      | .ok bases => .ok ((readDotted rest).1.getLastD t.value :: bases)
    else .error (.inInheritance t.value)
termination_by ts.length
decreasing_by
  · simp
  · have := cutWhere_length _h
    simp only [List.length_cons]
    omega
  · have := readDotted_length rest
    simp only [List.length_cons]
    omega

/-- Reads what stands between the name of a contract and its body. -/
def readInheritance : List Token → Except Malformed (List String)
  | [] => .ok []
  | t :: rest =>
    if t.isWord "is" then readBases true rest else .error (.beforeContractBody t.value)

/-- The kind of contract that a keyword announces, and what stands behind the keyword. -/
def contractKind (keyword : Token) (ts : List Token) :
    Except Malformed (ContractKind × List Token) :=
  match keyword.value with
  | "interface" => .ok (.interface, ts)
  | "library" => .ok (.library, ts)
  | "abstract" =>
    match ts with
    | t :: rest => if t.isWord "contract" then .ok (.abstract, rest) else .error .abstractAlone
    | [] => .error .abstractAlone
  | _ => .ok (.contract, ts)

/-- Reads a contract up to its body, given its kind. A body without a closing brace takes all that
is left. -/
def readContractOf (kind : ContractKind) : List Token → Except Malformed ContractHead
  | [] => .error (.contractUnnamed kind)
  | t :: rest =>
    if t.kind = .word then
      match cutAtMark blockOpen [";", blockClose] rest with
      | none => .error (.contractWithoutBody kind t.value)
      | some c =>
        match readInheritance c.before with
        | .error e => .error e
        | .ok bases =>
          match closeBrace c.hit c.after with
          | none => .ok ⟨kind, t.value, bases, c.after, [], false⟩
          | some body => .ok ⟨kind, t.value, bases, body.before, body.after, true⟩
    else .error (.contractUnnamed kind)

/-- Reads a contract up to its body. -/
def readContract (keyword : Token) (ts : List Token) : Except Malformed ContractHead :=
  match contractKind keyword ts with
  | .error e => .error e
  | .ok (kind, rest) => readContractOf kind rest

/-! ## Keywords -/

/-- Whether a word announces a contract. -/
def isContractKeyword (word : String) : Bool :=
  word ∈ ["contract", "interface", "library", "abstract"]

/-- Whether the token `t` announces a declaration, given the tokens behind it. -/
def opensDeclaration (t : Token) (rest : List Token) : Bool :=
  t.kind = .word &&
    if t.value ∈ ["fallback", "receive", "constructor"] then
      (rest.head?.map (·.isMark "(")).getD false
    else if t.value ∈ ["event", "error", "struct", "enum", "type", "modifier"] then
      (rest.head?.map (fun n => decide (n.kind = .word))).getD false
    else t.value ∈ ["pragma", "import", "function"] || isContractKeyword t.value

/-- Reads the declaration that the token `t` announces, other than a contract. -/
def read (origin : Origin) (scope : Option ContractKind) (t : Token) (rest : List Token) :
    Reading :=
  match t.value, rest with
  | "pragma", _ => readPragma origin rest
  | "import", _ => readImport rest
  | "event", name :: more => readEvent t name.value more
  | "error", name :: more => readError t name.value more
  | "struct", name :: more => readStruct t name.value more
  | "enum", name :: more => readEnum t name.value more
  | "type", name :: more => readValueType t name.value more
  | "modifier", name :: more => readModifier name.value more
  | _, _ => readFunction origin scope t rest

/-- The name of a construct in reports: its keyword, and the word behind it if there is one. -/
def construct (t : Token) (rest : List Token) : String :=
  match rest with
  | n :: _ => if n.kind = .word then s!"{t.value} {n.value}" else t.value
  | [] => t.value

/-! ## Reading moves forward -/

theorem readPragma_length {origin : Origin} {ts rest : List Token} {ms : List Member}
    (h : readPragma origin ts = .ok (ms, rest)) : rest.length ≤ ts.length := by
  unfold readPragma at h
  split at h
  · simp at h
  · rename_i c hc
    have hlen := cutWhere_length hc
    have : rest = c.after := by
      repeat' split at h
      all_goals simp_all
    rw [this]
    omega

theorem readImport_length {ts rest : List Token} {ms : List Member}
    (h : readImport ts = .ok (ms, rest)) : rest.length ≤ ts.length := by
  unfold readImport at h
  split at h
  · simp at h
  · rename_i c hc
    have hlen := cutWhere_length hc
    have : rest = c.after := by
      split at h <;> simp_all
    rw [this]
    omega

theorem functionName_length (keyword : Token) (ts : List Token) :
    (functionName keyword ts).2.2.length ≤ ts.length := by
  unfold functionName
  repeat' split
  all_goals simp

theorem readFunction_length {origin : Origin} {scope : Option ContractKind} {keyword : Token}
    {ts rest : List Token} {ms : List Member}
    (h : readFunction origin scope keyword ts = .ok (ms, rest)) : rest.length ≤ ts.length := by
  unfold readFunction at h
  have hname := functionName_length keyword ts
  split at h
  rename_i name kind rest₁ heq
  rw [heq] at hname
  split at h
  · simp at h
  rename_i parameters rest₂ hparams
  have hlen₁ := Parameter.readParenthesised_length hparams
  split at h
  · simp at h
  rename_i specifiers ending rest₃ hspec
  have hlen₂ := Specifier.readAll_length hspec
  dsimp only at h hname
  split at h
  · split at h
    · simp at h
    · rename_i c hc
      have hlen₃ := cutWhere_length hc
      obtain ⟨-, rfl⟩ : _ ∧ _ := by simpa using h
      omega
  · have : rest = rest₃ := by split at h <;> simp_all
    rw [this]
    omega

theorem readEvent_length {keyword : Token} {name : String} {ts rest : List Token}
    {ms : List Member} (h : readEvent keyword name ts = .ok (ms, rest)) :
    rest.length ≤ ts.length := by
  unfold readEvent at h
  split at h
  · simp at h
  rename_i parameters rest₁ hparams
  have hlen := Parameter.readParenthesised_length hparams
  dsimp only at h
  split at h
  · simp at h
  rename_i t after heq
  split at h
  · obtain ⟨-, rfl⟩ : _ ∧ _ := by simpa using h
    have := congrArg List.length heq
    simp only [List.length_cons] at this
    split at this
    · simp only [List.length_drop] at this
      omega
    · omega
  · simp at h

theorem readError_length {keyword : Token} {name : String} {ts rest : List Token}
    {ms : List Member} (h : readError keyword name ts = .ok (ms, rest)) :
    rest.length ≤ ts.length := by
  unfold readError at h
  split at h
  · simp at h
  rename_i parameters rest₁ hparams
  have hlen := Parameter.readParenthesised_length hparams
  split at h
  · simp at h
  split at h
  · obtain ⟨-, rfl⟩ : _ ∧ _ := by simpa using h
    simp only [List.length_cons] at hlen
    omega
  · simp at h

theorem readStruct_length {keyword : Token} {name : String} {ts rest : List Token}
    {ms : List Member} (h : readStruct keyword name ts = .ok (ms, rest)) :
    rest.length ≤ ts.length := by
  unfold readStruct at h
  split at h
  · simp at h
  split at h
  · split at h
    · simp at h
    · rename_i c hc
      have hlen := cutWhere_length hc
      split at h
      split at h
      · simp at h
      · split at h
        · obtain ⟨-, rfl⟩ : _ ∧ _ := by simpa using h
          simp only [List.length_cons]
          omega
        · simp at h
  · simp at h

theorem readEnum_length {keyword : Token} {name : String} {ts rest : List Token}
    {ms : List Member} (h : readEnum keyword name ts = .ok (ms, rest)) :
    rest.length ≤ ts.length := by
  unfold readEnum at h
  split at h
  · simp at h
  split at h
  · split at h
    · simp at h
    · rename_i c hc
      have hlen := cutWhere_length hc
      obtain ⟨-, rfl⟩ : _ ∧ _ := by simpa using h
      simp only [List.length_cons]
      omega
  · simp at h

theorem readValueType_length {keyword : Token} {name : String} {ts rest : List Token}
    {ms : List Member} (h : readValueType keyword name ts = .ok (ms, rest)) :
    rest.length ≤ ts.length := by
  unfold readValueType at h
  split at h
  · simp at h
  split at h
  · split at h
    · simp at h
    · rename_i c hc
      have hlen := cutWhere_length hc
      split at h
      · simp at h
      · obtain ⟨-, rfl⟩ : _ ∧ _ := by simpa using h
        simp only [List.length_cons]
        omega
      · simp at h
  · simp at h

/-- The parts of a split are the sequence that was split. -/
theorem splitStatement_append (depth : Nat) (ts : List Token) :
    (splitStatement depth ts).1 ++ (splitStatement depth ts).2 = ts := by
  fun_induction splitStatement depth ts with
  | case1 => rfl
  | case2 => rfl
  | case3 => rfl
  | case4 => simp
  | case5 t rest _ _ _ c hc => simp [cutWhere_eq hc]
  | case6 t rest _ _ _ ih => simp [ih]

theorem splitStatement_length (depth : Nat) (ts : List Token) :
    (splitStatement depth ts).2.length ≤ ts.length := by
  have := congrArg List.length (splitStatement_append depth ts)
  simp only [List.length_append] at this
  omega

theorem skipStatement_length (ts : List Token) : (skipStatement ts).length ≤ ts.length := by
  cases ts with
  | nil => simp [skipStatement]
  | cons t rest => exact splitStatement_length _ _

/-- A statement takes at least its first token, unless that closes a block around it. -/
theorem splitStatement_length_lt {depth : Nat} {t : Token} {rest : List Token}
    (h : t.isMark blockClose = false) :
    (splitStatement depth (t :: rest)).2.length < (t :: rest).length := by
  have hlen := congrArg List.length (splitStatement_append depth (t :: rest))
  have hpos : 0 < (splitStatement depth (t :: rest)).1.length := by
    simp only [splitStatement, h]
    repeat' split
    all_goals simp_all
  simp only [List.length_append] at hlen
  omega

theorem contractKind_length {keyword : Token} {ts rest : List Token} {kind : ContractKind}
    (h : contractKind keyword ts = .ok (kind, rest)) : rest.length ≤ ts.length := by
  unfold contractKind at h
  repeat' split at h
  all_goals simp_all

theorem readContract_length {keyword : Token} {ts : List Token} {head : ContractHead}
    (h : readContract keyword ts = .ok head) :
    head.body.length ≤ ts.length ∧ head.after.length ≤ ts.length := by
  unfold readContract at h
  split at h
  · simp at h
  rename_i kind rest hkind
  have hlen := contractKind_length hkind
  unfold readContractOf at h
  split at h
  · simp at h
  split at h
  · split at h
    · simp at h
    rename_i c hc
    have hcut := cutWhere_length hc
    split at h
    · simp at h
    simp only [List.length_cons] at hlen
    split at h
    · simp only [Except.ok.injEq] at h
      subst h
      simp only [List.length_nil]
      omega
    · rename_i body hbody
      have hclose := cutWhere_length hbody
      simp only [Except.ok.injEq] at h
      subst h
      dsimp only
      omega
  · simp at h

/-- A declaration takes at least its keyword. -/
theorem read_length {origin : Origin} {scope : Option ContractKind} {t : Token}
    {ts rest : List Token} {ms : List Member} (h : read origin scope t ts = .ok (ms, rest)) :
    rest.length ≤ ts.length := by
  unfold read at h
  split at h
  · exact readPragma_length h
  · exact readImport_length h
  · exact Nat.le_succ_of_le (readEvent_length h)
  · exact Nat.le_succ_of_le (readError_length h)
  · exact Nat.le_succ_of_le (readStruct_length h)
  · exact Nat.le_succ_of_le (readEnum_length h)
  · exact Nat.le_succ_of_le (readValueType_length h)
  · simp only [readModifier, Except.ok.injEq, Prod.mk.injEq] at h
    rw [← h.2]
    exact Nat.le_succ_of_le (skipStatement_length _)
  · exact readFunction_length h

end Member

end AbiIndex.Source
