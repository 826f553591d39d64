import AbiIndex.Source.Parameter

/-!
# Function headers

What stands between the parameter list of a function and its body is a sequence of specifiers in
any order. The declaration takes the first visibility and the first mutability among them, the last
list of returned values, and all modifiers.
-/

namespace AbiIndex.Source

/-- One part of a function header. -/
inductive Specifier where
  | visibility (v : Visibility)
  | mutability (m : Mutability)
  | virtual
  | override
  | returns (values : List Parameter)
  | modifier (name : String)
deriving DecidableEq

namespace Specifier

def visibility? : Specifier → Option Visibility
  | visibility v => some v
  | _ => none

def mutability? : Specifier → Option Mutability
  | mutability m => some m
  | _ => none

def returns? : Specifier → Option (List Parameter)
  | returns values => some values
  | _ => none

def modifier? : Specifier → Option String
  | modifier name => some name
  | _ => none

/-- Passes over a part in parentheses if one stands at the front; `none` if it is unbalanced. -/
def skipParens : List Token → Option (List Token)
  | [] => some []
  | t :: rest => if t.isMark "(" then (closeParenInStatement t rest).map (·.after) else t :: rest

/-- Reads the list of returned values of the function. -/
def readReturns (function : String) : List Token → Except Malformed (Specifier × List Token)
  | [] => .error (.returnsMissing function)
  | t :: rest =>
    if t.isMark "(" then
      match closeParenInStatement t rest with
      | none => .error (.returnsUnbalanced function)
      | some c =>
        match Parameter.readList false c.before with
        | .error e => .error e
        | .ok values => .ok (.returns values, c.after)
    else .error (.returnsMissing function)

/-- Reads a modifier and its arguments; `first` is the first part of its name. -/
def readModifier (first : String) (ts : List Token) : Except Malformed (Specifier × List Token) :=
  let path := first :: (readDotted ts).1
  match skipParens (readDotted ts).2 with
  | none => .error (.modifierArguments (path.getLastD first))
  | some after => .ok (.modifier (".".intercalate path), after)

/-- Reads the specifier of the function that starts with the token `t`. -/
def read (function : String) (t : Token) (rest : List Token) :
    Except Malformed (Specifier × List Token) :=
  if t.kind ≠ .word then .error (.inHeader t.value function)
  else
    match Visibility.ofName? t.value, Mutability.ofWord? t.value with
    | some v, _ => .ok (.visibility v, rest)
    | none, some m => .ok (.mutability m, rest)
    | none, none =>
      match t.value with
      | "virtual" => .ok (.virtual, rest)
      | "override" =>
        match skipParens rest with
        | none => .error (.overrideUnbalanced function)
        | some after => .ok (.override, after)
      | "returns" => readReturns function rest
      | word => readModifier word rest

theorem skipParens_length {ts rest : List Token} (h : skipParens ts = some rest) :
    rest.length ≤ ts.length := by
  unfold skipParens at h
  split at h
  · simp_all
  split at h
  · obtain ⟨c, hc, rfl⟩ := Option.map_eq_some_iff.1 h
    have := cutWhere_length hc
    simp only [List.length_cons]
    omega
  · simp_all

theorem readReturns_length {function : String} {ts rest : List Token} {s : Specifier}
    (h : readReturns function ts = .ok (s, rest)) : rest.length ≤ ts.length := by
  unfold readReturns at h
  split at h
  · simp at h
  split at h
  · split at h
    · simp at h
    · rename_i c hc
      have := cutWhere_length hc
      split at h
      · simp at h
      · obtain ⟨-, rfl⟩ : _ ∧ _ := by simpa using h
        simp only [List.length_cons]
        omega
  · simp at h

theorem readModifier_length {first : String} {ts rest : List Token} {s : Specifier}
    (h : readModifier first ts = .ok (s, rest)) : rest.length ≤ ts.length := by
  unfold readModifier at h
  have hdot := readDotted_length ts
  split at h
  · simp at h
  · rename_i after hp
    obtain ⟨-, rfl⟩ : _ ∧ _ := by simpa using h
    exact Nat.le_trans (skipParens_length hp) hdot

/-- A specifier takes at least its first token. -/
theorem read_length {function : String} {t : Token} {ts rest : List Token} {s : Specifier}
    (h : read function t ts = .ok (s, rest)) : rest.length ≤ ts.length := by
  unfold read at h
  split at h
  · simp at h
  split at h
  · simp_all
  · simp_all
  split at h
  · simp_all
  · split at h
    · simp at h
    · rename_i after hp
      obtain ⟨-, rfl⟩ : _ ∧ _ := by simpa using h
      exact skipParens_length hp
  · exact readReturns_length h
  · exact readModifier_length h

/-- Reads the header of a function up to the `{` or `;` that ends it, which is given back with what
stands behind it. -/
def readAll (function : String) (ts : List Token) :
    Except Malformed (List Specifier × Token × List Token) :=
  match ts with
  | [] => .error (.functionWithoutEnd function)
  | t :: rest =>
    if t.isMark blockOpen ∨ t.isMark ";" then .ok ([], t, rest)
    else
      match _h : read function t rest with
      | .error e => .error e
      | .ok (s, more) =>
        match readAll function more with
        | .error e => .error e
        | .ok (specifiers, ending, after) => .ok (s :: specifiers, ending, after)
termination_by ts.length
decreasing_by
  have := read_length _h
  simp only [List.length_cons]
  omega

theorem readAll_length {function : String} {ts rest : List Token} {ending : Token}
    {specifiers : List Specifier} (h : readAll function ts = .ok (specifiers, ending, rest)) :
    rest.length < ts.length := by
  fun_induction readAll function ts generalizing specifiers with
  | case1 => simp at h
  | case2 t more =>
    obtain ⟨-, -, rfl⟩ : _ ∧ _ ∧ _ := by simpa using h
    simp
  | case3 => simp at h
  | case4 => simp at h
  | case5 t more _ s after hs specifiers' ending' rest' hall ih =>
    obtain ⟨-, rfl, rfl⟩ : _ ∧ _ ∧ _ := by simpa using h
    have := ih hall
    have := read_length hs
    simp only [List.length_cons]
    omega

end Specifier

end AbiIndex.Source
