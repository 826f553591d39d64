import AbiIndex.Calendar
import AbiIndex.Number.DigitLimit
import AbiIndex.Number.Shortest

/-!
# YAML values

What a document can say.
-/

namespace AbiIndex.Yaml

/-- A value. -/
inductive Value where
  | null
  | bool (b : Bool)
  | int (n : Int)
  | float (x : Number.Double)
  | text (s : String)
  | time (m : Calendar.Moment)
  | list (items : List Value)
  | map (pairs : List (Value × Value))

namespace Value

/-- The value of a text key; of several equal keys the last one counts. -/
def get? (v : Value) (key : String) : Option Value :=
  match v with
  | map pairs =>
    (pairs.reverse.find? fun p => match p.1 with | text s => s = key | _ => false).map (·.2)
  | _ => none

/-- The decimals whose first digit is at these places are written without an exponent. -/
def positional (place : Int) : Bool := -4 ≤ place && place < 16

/-- The exponent of a decimal, with a sign and at least two digits. -/
def exponentText (e : Int) : List Char :=
  let digits := Nat.toDigits 10 e.natAbs
  'e' :: (if e < 0 then '-' else '+') :: List.replicate (2 - digits.length) '0' ++ digits

/-- A positive decimal: with at least one digit behind the point, or with one digit in front of
the point and an exponent. -/
def decimalText (d : Number.Decimal) : List Char :=
  let digits := Nat.toDigits 10 d.digits
  let place := d.exponent + digits.length - 1
  if positional place then
    if place < 0 then '0' :: '.' :: List.replicate (-place - 1).toNat '0' ++ digits
    else
      let whole := place.toNat + 1
      let fraction := digits.drop whole
      digits.take whole ++ List.replicate (whole - digits.length) '0'
        ++ '.' :: (if fraction = [] then ['0'] else fraction)
  else
    digits.take 1 ++ (if digits.length = 1 then [] else '.' :: digits.drop 1)
      ++ exponentText place

/-- The shortest text of a floating-point number. -/
def floatText : Number.Double → String
  | .undefined => "nan"
  | .infinite negative => if negative then "-inf" else "inf"
  | .finite negative m e =>
    let sign := if negative then "-" else ""
    if m = 0 then sign ++ "0.0"
    else sign ++ String.ofList (decimalText (Number.Double.shortest m e).normalize)

/-- The text of a value that is a text, a number or a truth value. -/
def asText? : Value → Except Number.TooLong (Option String)
  | text s => .ok (some s)
  | int n => (Number.writeDecimal n).map some
  | float x => .ok (some (floatText x))
  | bool b => .ok (some (if b then "True" else "False"))
  | _ => .ok none

end Value

end AbiIndex.Yaml
