/-!
# Hexadecimal text

Bytes as pairs of lower-case hexadecimal digits.
-/

namespace AbiIndex.Digest

/-- The two digits of a byte. -/
def hexByte (b : UInt8) : List Char :=
  [Nat.digitChar (b.toNat / 16), Nat.digitChar (b.toNat % 16)]

/-- The digits of a sequence of bytes. -/
def hex (bytes : List UInt8) : String := String.ofList (bytes.flatMap hexByte)

end AbiIndex.Digest
