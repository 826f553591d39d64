import AbiIndex.Source.Delimited
import AbiIndex.Source.Elementary
import AbiIndex.Source.Malformed

/-!
# Reading types

`TypeRef.read` takes a type from the front of a token sequence and gives back what stands behind
it. The text `within` names the construct that the type belongs to, for the wording of failures.
-/

namespace AbiIndex.Source

namespace TypeRef

/-- The words that may stand behind the parameters of a function type. -/
def functionTypeWords : List String := ["internal", "external", "pure", "view", "payable"]

/-- Passes over the words and the list of returned values behind the parameters of a function
type. -/
def skipFunctionWords (within : String) (ts : List Token) : Except Malformed (List Token) :=
  match ts with
  | [] => .ok []
  | t :: rest =>
    if t.kind = .word ∧ t.value ∈ functionTypeWords then skipFunctionWords within rest
    else if t.isWord "returns" ∧ (rest.head?.map (·.isMark "(")).getD false then
      match _h : closeNested "(" ")" 0 (rest.drop 1) with
      | none => .error (.functionTypeUnbalanced within)
      | some c => skipFunctionWords within c.after
    else .ok (t :: rest)
termination_by ts.length
decreasing_by
  · simp
  · have := closeNested_length _h
    simp only [List.length_drop, List.length_cons] at this ⊢
    omega

/-- The function type whose keyword is `keyword`: its parameters and everything that belongs to
it, kept word for word. -/
def readFunctionType (within : String) (keyword : Token) :
    List Token → Except Malformed (TypeRef × List Token)
  | [] => .error (.functionTypeUnopened within)
  | t :: rest =>
    if t.isMark "(" then
      match closeNested "(" ")" 0 rest with
      | none => .error (.functionTypeUnbalanced within)
      | some c =>
        match skipFunctionWords within c.after with
        | .error e => .error e
        | .ok after =>
          -- the text of the type is all that was passed over
          let taken := (t :: rest).take ((t :: rest).length - after.length)
          .ok (.function (" ".intercalate (keyword.value :: taken.map (·.value))), after)
    else .error (.functionTypeUnopened within)

/-- The array brackets behind the type `base`. -/
def readBrackets (within : String) (base : TypeRef) (ts : List Token) :
    Except Malformed (TypeRef × List Token) :=
  match ts with
  | [] => .ok (base, [])
  | t :: rest =>
    if t.isMark "[" then
      match _h : closeNested "[" "]" 0 rest with
      | none => .error (.bracketsUnbalanced within)
      | some c =>
        let length := String.join (c.before.map (·.value))
        readBrackets within (.array base (if length = "" then none else some length)) c.after
    else .ok (base, t :: rest)
termination_by ts.length
decreasing_by
  have := closeNested_length _h
  simp only [List.length_cons]
  omega

/-- An elementary or a named type that starts with the word `first`. -/
def readNamed (first : Token) (rest : List Token) : TypeRef × List Token :=
  if isElementary first.value then
    match rest with
    | t :: more =>
      if first.value = "address" ∧ t.isWord "payable" then (.elementary "address payable", more)
      else (.elementary first.value, rest)
    | [] => (.elementary first.value, [])
  else
    let (names, more) := readDotted rest
    (.user (first.value :: names), more)

/-- Takes a type from the front of a token sequence. -/
def read (within : String) (ts : List Token) : Except Malformed (TypeRef × List Token) :=
  match ts with
  | [] => .error (.typeMissing within)
  | t :: rest =>
    if t.isWord "mapping" then
      match rest with
      | [] => .error (.mappingUnopened within)
      | p :: inside =>
        if p.isMark "(" then
          match _h : closeNested "(" ")" 0 inside with
          | none => .error (.mappingUnbalanced within)
          | some c =>
            match _h' : cutAtMark "=>" [] c.before with
            | none => .error (.mappingWithoutArrow within)
            | some arrow => do
              -- what stands behind the key or the value, such as its name, is not kept
              let (key, _) ← read within arrow.before
              let (value, _) ← read within arrow.after
              readBrackets within (.mapping key value) c.after
        else .error (.mappingUnopened within)
    else if t.isWord "function" then do
      let (type, more) ← readFunctionType within t rest
      readBrackets within type more
    else if t.kind = .word then
      let (type, more) := readNamed t rest
      readBrackets within type more
    else .error (.typeExpected t.value within)
termination_by ts.length
decreasing_by
  all_goals
    have := closeNested_length _h
    have := cutWhere_length _h'
    simp only [List.length_cons]
    omega

end TypeRef

end AbiIndex.Source
