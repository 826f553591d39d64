import AbiIndex.Text.Digit

/-!
# Elementary types

The names of the built-in types, and the names by which signatures call them.
-/

namespace AbiIndex.Source

open AbiIndex.Text

/-- Signed and unsigned integers, with a size in bits or without one. -/
def integerNames : List String :=
  ["int", "uint"].flatMap fun sign =>
    sign :: (List.range 32).map fun i => sign ++ toString (8 * (i + 1))

/-- Byte strings of a fixed length. -/
def fixedBytesNames : List String := (List.range 32).map fun i => "bytes" ++ toString (i + 1)

/-- Fixed point numbers with their sizes: digits, an `x` and digits, where digits of every script
count. -/
def isFixedPointSize (cs : List Char) : Bool :=
  cs.takeWhile isDecimalDigit ≠ [] &&
    match cs.dropWhile isDecimalDigit with
    | 'x' :: places => places ≠ [] && places.all isDecimalDigit
    | _ => false

/-- Fixed point numbers, with or without their sizes. -/
def isFixedPoint : List Char → Bool
  | 'u' :: 'f' :: 'i' :: 'x' :: 'e' :: 'd' :: size => size = [] || isFixedPointSize size
  | 'f' :: 'i' :: 'x' :: 'e' :: 'd' :: size => size = [] || isFixedPointSize size
  | _ => false

/-- Whether the text is the name of an elementary type. One line break at its end is overlooked. -/
def isElementary (name : String) : Bool :=
  let cs := name.toList
  let cs := if cs.getLast? = some '\n' then cs.dropLast else cs
  let name := String.ofList cs
  name ∈ ["address", "bool", "string", "bytes", "byte"] || name ∈ integerNames
    || name ∈ fixedBytesNames || isFixedPoint cs

/-- The name of an elementary type in a signature. -/
def canonicalElementary : String → String
  | "uint" => "uint256"
  | "int" => "int256"
  | "byte" => "bytes1"
  | "fixed" => "fixed128x18"
  | "ufixed" => "ufixed128x18"
  | "address payable" => "address"
  | name => name

end AbiIndex.Source
