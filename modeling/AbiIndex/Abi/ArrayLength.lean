import AbiIndex.Abi.Registry
import AbiIndex.Text.Digit
import AbiIndex.Text.Identifier

/-!
# Array lengths

The length of an array is an integer literal, decimal or hexadecimal and with underscores anywhere
behind its first digit, or the dotted name of a constant with such a literal.
-/

namespace AbiIndex.Abi

open AbiIndex.Source AbiIndex.Text

/-- The value of an integer literal; `none` for any other text. One line break at the end is
overlooked. Hexadecimal literals without a digit are refused, and decimal ones with too many. -/
def integerLiteral (text : String) : Except TypeError (Option Nat) :=
  let cs := text.toList
  let body := if cs.getLast? = some '\n' then cs.dropLast else cs
  match body with
  | '0' :: x :: rest =>
    if (x = 'x' ∨ x = 'X') ∧ rest ≠ [] ∧ rest.all (fun c => (hexValue? c).isSome || c = '_') then
      -- underscores alone pass for a literal and have no value
      if rest.all (· = '_') then .error (.emptyLiteral (String.ofList (cs.filter (· ≠ '_'))))
      else .ok (some (Number.ofDigits 16 (rest.filterMap hexValue?)))
    else decimal body
  | _ => decimal body
where
  /-- The value of a decimal literal. -/
  decimal (cs : List Char) : Except TypeError (Option Nat) :=
    match cs with
    | [] => .ok none
    | c :: rest =>
      if c.isDigit ∧ rest.all (fun c => c.isDigit || c = '_') then
        match Number.readDecimal ((c :: rest).filterMap hexValue?) with
        | .ok n => .ok (some n)
        | .error e => .error (.oversized e)
      else .ok none

/-- The decimal text of a length. -/
def lengthText (n : Nat) : Except TypeError String :=
  match Number.writeDecimal n with
  | .ok text => .ok text
  | .error e => .error (.oversized e)

/-- The length that a text between brackets means in a scope, as a decimal text. -/
def arrayLength (reg : Registry) (scope : Scope) (text : String) : Except TypeError String := do
  match ← integerLiteral text with
  | some n => lengthText n
  | none =>
    let parts := pieces (· = '.') text.toList
    if parts.all isIdentifier then
      let d ← reg.resolvePath scope (parts.map String.ofList)
      match d.decl with
      | .constant c =>
        match ← integerLiteral c.value with
        | some n => lengthText n
        | none => throw (.constantNotLiteral text)
      | _ => throw (.lengthNotConstant text)
    else throw (.lengthNotInteger text)

end AbiIndex.Abi
