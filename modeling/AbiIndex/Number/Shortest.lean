import AbiIndex.Number.Double

/-!
# Shortest decimals

The decimal with the fewest digits among those that are nearer to a floating-point number than to
any other, and of those with as few digits the nearest one.
-/

namespace AbiIndex.Number

/-- The decimal `digits * 10 ^ exponent`. -/
structure Decimal where
  digits : Nat
  exponent : Int
deriving DecidableEq

namespace Double

/-- The place of the first digit of a positive quotient: zero for the place of units. -/
def magnitude (num den : Nat) : Int :=
  if den ≤ num then ((Nat.toDigits 10 (num / den)).length : Int) - 1
  else -(((List.range 400).find? fun k => den ≤ num * Nat.pow 10 k).getD 400 : Nat)

/-- The ends of the interval of reals that round to `m * 2 ^ e`, in quarters of `2 ^ e`. Below a
power of two the numbers lie closer together. -/
def interval (m : Nat) (e : Int) : Nat × Nat :=
  (4 * m - (if m = Nat.pow 2 52 ∧ minExponent < e then 1 else 2), 4 * m + 2)

/-- Whether `d * 10 ^ k` rounds to `m * 2 ^ e`. The ends of the interval do so if `m` is even. -/
def reads (m : Nat) (e : Int) (d : Nat) (k : Int) : Bool :=
  let (low, high) := interval m e
  let (n2, d2) := power 2 (e - 2)
  let (n10, d10) := power 10 k
  -- both sides in units of `2 ^ (e - 2) * 10 ^ k`, without denominators
  let x := d * n10 * d2
  let unit := n2 * d10
  if m % 2 = 0 then low * unit ≤ x && x ≤ high * unit
  else low * unit < x && x < high * unit

/-- The decimal nearest to `m * 2 ^ e` with its last digit at the place `k` that rounds to it. Of
two that are equally near, the one with an even last digit is taken. -/
def decimalAt? (m : Nat) (e k : Int) : Option Decimal :=
  let (n2, d2) := power 2 e
  let (n10, d10) := power 10 k
  let num := m * n2 * d10
  let den := d2 * n10
  -- the two neighbours on the grid of this place
  let below := num / den
  let nearest := roundEven num den
  let other := if nearest = below then below + 1 else below
  ([nearest, other].find? fun d => reads m e d k).map (⟨·, k⟩)

/-- The shortest decimal of the positive number `m * 2 ^ e`. Seventeen digits are always enough. -/
def shortest (m : Nat) (e : Int) : Decimal :=
  let (n2, d2) := power 2 e
  let top := magnitude (m * n2) d2
  ((List.range 17).findSome? fun (n : Nat) => decimalAt? m e (top - n)).getD ⟨0, 0⟩

end Double

/-- The decimal without zeros at its end. -/
def Decimal.normalize (d : Decimal) : Decimal :=
  if h : 0 < d.digits ∧ d.digits % 10 = 0 then normalize ⟨d.digits / 10, d.exponent + 1⟩ else d
termination_by d.digits
decreasing_by
  show d.digits / 10 < d.digits
  omega

end AbiIndex.Number
