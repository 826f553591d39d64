/-!
# Binary floating-point numbers

Numbers with a mantissa of at most 53 bits and a power of two, the one that is nearest to a quotient
of natural numbers, and sums and products that are rounded so.
-/

namespace AbiIndex.Number

/-- A power with any exponent, as a numerator and a denominator. -/
def power (base : Nat) (k : Int) : Nat × Nat := (base.pow k.toNat, base.pow (-k).toNat)

/-- A floating-point number; a finite one is `mantissa * 2 ^ exponent`. -/
inductive Double where
  | finite (negative : Bool) (mantissa : Nat) (exponent : Int)
  | infinite (negative : Bool)
  | undefined
deriving DecidableEq

namespace Double

/-- The smallest exponent. -/
def minExponent : Int := -1074

/-- The largest exponent. -/
def maxExponent : Int := 971

/-- The quotient `num / (den * 2 ^ e)` as a numerator and a denominator. -/
def scaled (num den : Nat) (e : Int) : Nat × Nat :=
  let (n, d) := power 2 e
  (num * d, den * n)

/-- The natural number nearest to a quotient; a half goes to the even neighbour. -/
def roundEven (num den : Nat) : Nat :=
  let q := num / den
  let rest := 2 * (num % den)
  if rest < den || (rest = den && q % 2 = 0) then q else q + 1

/-- The exponent for a quotient of positive numbers: the one with which the mantissa has 53 bits,
or the smallest one. -/
def exponentFor (num den : Nat) : Int :=
  let e : Int := (Nat.log2 num : Int) - Nat.log2 den - 53
  let (n, d) := scaled num den e
  max minExponent (if Nat.pow 2 53 ≤ n / d then e + 1 else e)

/-- The number nearest to a quotient. -/
def ofRatio (negative : Bool) (num den : Nat) : Double :=
  if num = 0 then finite negative 0 minExponent
  else
    let e := exponentFor num den
    let (n, d) := scaled num den e
    let m := roundEven n d
    -- rounding up may give one bit too many
    let (m, e) := if m = Nat.pow 2 53 then (Nat.pow 2 52, e + 1) else (m, e)
    if maxExponent < e then infinite negative else finite negative m e

/-- The number nearest to `digits * 10 ^ exponent`. Far beyond the range the power is not worth
computing. -/
def ofDecimal (negative : Bool) (digits : Nat) (exponent : Int) : Double :=
  -- less than `10 ^ places`, since ten is more than eight
  let places : Int := Nat.log2 digits / 3 + 1
  if digits = 0 ∨ exponent + places < -330 then finite negative 0 minExponent
  else if 310 < exponent then infinite negative
  else
    let (n, d) := power 10 exponent
    ofRatio negative (digits * n) d

/-- The number nearest to a natural number. -/
def ofNat (n : Nat) : Double := ofRatio false n 1

/-- The sum of two numbers that are not negative, rounded. -/
def plus : Double → Double → Double
  | finite _ m e, finite _ m' e' =>
    let (n, d) := power 2 e
    let (n', d') := power 2 e'
    ofRatio false (m * n * d' + m' * n' * d) (d * d')
  | _, _ => infinite false

/-- The product of two numbers that are not negative, rounded. -/
def times : Double → Double → Double
  | finite _ m e, finite _ m' e' =>
    let (n, d) := power 2 (e + e')
    ofRatio false (m * m' * n) d
  | _, _ => infinite false

/-- The number with the given sign and the size of another one. -/
def withSign (negative : Bool) : Double → Double
  | finite _ m e => finite negative m e
  | infinite _ => infinite negative
  | undefined => undefined

end Double

end AbiIndex.Number
