import AbiIndex.Number.DigitLimit
import AbiIndex.Text.Blank
import AbiIndex.Text.Digit

/-!
# Integers in texts

White space around the number and a sign are allowed, single underscores may separate digits, and
the digits may be those of any script. The number of digits is limited.
-/

namespace AbiIndex.Text

/-- White space around a number. The information separators are not part of it. -/
def isPadding (c : Char) : Bool := isBlank c && !('\x1c' ≤ c && c ≤ '\x1f')

/-- The values of digits behind other digits. -/
def moreDigits : List Char → Option (List Nat)
  | [] => some []
  | '_' :: c :: rest => do return (← decimalValue? c) :: (← moreDigits rest)
  | c :: rest => do return (← decimalValue? c) :: (← moreDigits rest)

/-- Reads a number without a sign. -/
def natural? : List Char → Option Nat
  | [] => none
  | c :: rest => do
    let digits := (← decimalValue? c) :: (← moreDigits rest)
    (Number.readDecimal digits).toOption

/-- Reads an integer. -/
def integer? (s : String) : Option Int :=
  match trimWhile isPadding s.toList with
  | '+' :: rest => (natural? rest).map Int.ofNat
  | '-' :: rest => (natural? rest).map fun n => -(n : Int)
  | rest => (natural? rest).map Int.ofNat

end AbiIndex.Text
