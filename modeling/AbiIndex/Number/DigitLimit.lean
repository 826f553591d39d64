/-!
# The limit on decimal digits

Integers have any size, but only those of up to 4300 decimal digits are read from a decimal text or
written as one. In bases that are powers of two there is no limit.
-/

namespace AbiIndex.Number

/-- The most digits of an integer in a decimal text. -/
def maxDigits : Nat := 4300

/-- An integer that is too long for a decimal text: one that stands in a text with so many digits,
or one that was to be written. -/
inductive TooLong where
  | reading (digits : Nat)
  | writing
deriving DecidableEq

/-- The wording of the failure. -/
def TooLong.message (e : TooLong) : String :=
  let size := match e with
    | reading digits => s!": value has {digits} digits"
    | writing => ""
  s!"Exceeds the limit ({maxDigits} digits) for integer string conversion{size}; "
    ++ "use sys.set_int_max_str_digits() to increase the limit"

/-- The number with the given digits, the highest first. -/
def ofDigits (base : Nat) (digits : List Nat) : Nat := digits.foldl (fun n d => n * base + d) 0

/-- The number with the given decimal digits, the highest first; zeros in front count as digits. -/
def readDecimal (digits : List Nat) : Except TooLong Nat :=
  if maxDigits < digits.length then .error (.reading digits.length) else .ok (ofDigits 10 digits)

/-- The decimal text of a number. -/
def writeDecimal (n : Int) : Except TooLong String :=
  if Nat.pow 10 maxDigits ≤ n.natAbs then .error .writing else .ok (toString n)

end AbiIndex.Number
