import AbiIndex.Source.TypeRef.Reader

/-!
# Reading parameters

A parameter is a type followed by words: data locations, which leave no trace, the word `indexed`
where it is allowed, and at most one name. A parameter list is separated by the commas outside all
parentheses and brackets.
-/

namespace AbiIndex.Source

namespace Parameter

/-- The words that say where a value is kept. -/
def dataLocations : List String := ["memory", "storage", "calldata"]

/-- Reads the words behind the type of the parameter `p`. -/
def readWords (allowIndexed : Bool) (within : String) (p : Parameter) :
    List Token → Except Malformed Parameter
  | [] => .ok p
  | t :: rest =>
    if t.kind ≠ .word then .error (.unexpected t.value within)
    else if t.value ∈ dataLocations then readWords allowIndexed within p rest
    else if t.value = "indexed" ∧ allowIndexed ∧ p.name = "" then
      readWords allowIndexed within { p with indexed := true } rest
    else if p.name ≠ "" then .error (.unexpectedAfter t.value p.name within)
    else readWords allowIndexed within { p with name := t.value } rest

/-- Reads a parameter from all of the given tokens. -/
def read (allowIndexed : Bool) (within : String) (ts : List Token) : Except Malformed Parameter :=
  if ts = [] then .error (.emptyEntry within)
  else
    match TypeRef.read within ts with
    | .error e => .error e
    | .ok (type, rest) => readWords allowIndexed within ⟨"", type, false⟩ rest

/-- How far a token changes the nesting of parentheses and brackets. -/
def nestingStep (t : Token) : Int :=
  if t.isMark "(" ∨ t.isMark "[" then 1 else if t.isMark ")" ∨ t.isMark "]" then -1 else 0

/-- The parts of a token sequence between the commas at nesting zero. -/
def splitAtCommas : Int → List Token → List (List Token)
  | _, [] => [[]]
  | nesting, t :: rest =>
    let nesting := nesting + nestingStep t
    if t.isMark "," ∧ nesting = 0 then [] :: splitAtCommas nesting rest
    else
      match splitAtCommas nesting rest with
      | [] => [[t]]
      | part :: parts => (t :: part) :: parts

/-- Reads the parameters between two parentheses. -/
def readList (allowIndexed : Bool) (ts : List Token) : Except Malformed (List Parameter) :=
  if ts = [] then .ok []
  else (splitAtCommas 0 ts).mapM (read allowIndexed "parameter list")

/-- Reads the parameters of the construct `within`, which the parenthesis at the front of the
sequence opens, and gives back what stands behind them. -/
def readParenthesised (allowIndexed : Bool) (within : String) :
    List Token → Except Malformed (List Parameter × List Token)
  | [] => .error (.parametersMissing within)
  | t :: rest =>
    if t.isMark "(" then
      match closeParenInStatement t rest with
      | none => .error (.parametersUnbalanced within)
      | some c =>
        match readList allowIndexed c.before with
        | .error e => .error e
        | .ok parameters => .ok (parameters, c.after)
    else .error (.parametersMissing within)

theorem readParenthesised_length {allowIndexed : Bool} {within : String} {ts rest : List Token}
    {ps : List Parameter} (h : readParenthesised allowIndexed within ts = .ok (ps, rest)) :
    rest.length < ts.length := by
  unfold readParenthesised at h
  split at h
  · simp at h
  split at h
  · split at h
    · simp at h
    · rename_i c hc
      have := cutWhere_length hc
      split at h
      · simp at h
      · obtain ⟨-, rfl⟩ : _ ∧ _ := by simpa using h
        simp only [List.length_cons]
        omega
  · simp at h

end Parameter

end AbiIndex.Source
