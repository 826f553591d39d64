/-!
# Character sets

A character set is a list of inclusive code point ranges in increasing order. Membership stops at
the first range that begins beyond the character, so a test on an ASCII character looks at a few
ranges only, however long the table is.
-/

namespace AbiIndex.Text

/-- Inclusive ranges of code points, in increasing order. -/
abbrev CharSet := List (Nat × Nat)

namespace CharSet

/-- Whether the code point `n` lies in one of the ranges. -/
def has : CharSet → Nat → Bool
  | [], _ => false
  | (lo, hi) :: more, n => if n < lo then false else n ≤ hi || has more n

/-- The offset of `n` in the range that holds it. -/
def offset? : CharSet → Nat → Option Nat
  | [], _ => none
  | (lo, hi) :: more, n =>
    if n < lo then none else if n ≤ hi then some (n - lo) else offset? more n

/-- Whether the character lies in one of the ranges. -/
def contains (set : CharSet) (c : Char) : Bool := set.has c.toNat

end CharSet

end AbiIndex.Text
