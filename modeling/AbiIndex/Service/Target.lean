import AbiIndex.Text.Blank
import AbiIndex.Text.Digit

/-!
# Targets of requests

A request names its target by a reference: a scheme, an authority, a path, a query and a fragment,
of which only the path says what is asked for. Double dots in the path are followed, and characters
that are written by their numbers are read.
-/

namespace AbiIndex.Service

/-- A reference without its query and its fragment. -/
structure Reference where
  hasScheme : Bool
  authority : List Char
  path : List Char

namespace Reference

/-- Whether a character may stand in a scheme. -/
def isSchemeChar (c : Char) : Bool := c.isAlphanum || c = '+' || c = '.' || c = '-'

/-- What follows the scheme of a reference, if it has one. -/
def afterScheme? (cs : List Char) : Option (List Char) :=
  let scheme := cs.takeWhile isSchemeChar
  match cs.dropWhile isSchemeChar with
  | ':' :: rest => if scheme.head?.all Char.isAlpha then some rest else none
  | _ => none

/-- Reads a reference. -/
def parse (target : String) : Reference :=
  let cs := target.toList.takeWhile fun c => c ≠ '?' && c ≠ '#'
  let scheme := afterScheme? cs
  match scheme.getD cs with
  | '/' :: '/' :: rest => ⟨scheme.isSome, rest.takeWhile (· ≠ '/'), rest.dropWhile (· ≠ '/')⟩
  | path => ⟨scheme.isSome, [], path⟩

/-- Whether the reference stands for itself. Any other is seen from the top of the service. -/
def isAbsolute (r : Reference) : Bool := r.hasScheme && r.authority ≠ []

/-- The path from the top of the service. -/
def rooted (r : Reference) : List Char :=
  if r.isAbsolute then r.path else '/' :: r.path.dropWhile (· = '/')

end Reference

/-- The segments of a path after those in `done`, which are in reverse. A single dot is left out,
and a double dot takes the segment before it away, except for an empty one at the start. -/
def followDots (done : List (List Char)) : List (List Char) → List (List Char)
  | [] => done.reverse
  | ['.'] :: rest => followDots done rest
  | ['.', '.'] :: rest => followDots (if done = [[]] then done else done.tail) rest
  | segment :: rest => followDots (segment :: done) rest

/-- The path without dots in place of names. -/
def withoutDots (path : List Char) : List Char :=
  ['/'].intercalate (followDots [] (Text.pieces (· == '/') path))

/-- The text with every byte that is written as a percent sign and two hexadecimal digits. A byte
beyond ASCII becomes the character of its number. -/
def percentDecode : List Char → List Char
  | '%' :: a :: b :: rest =>
    match Text.hexValue? a, Text.hexValue? b with
    | some high, some low => Char.ofNat (16 * high + low) :: percentDecode rest
    | _, _ => '%' :: percentDecode (a :: b :: rest)
  | c :: rest => c :: percentDecode rest
  | [] => []

/-- The path that a target asks for. Bytes are decoded on the way to the service and once more by
it. -/
def targetPath (target : String) : List Char :=
  percentDecode (percentDecode (withoutDots (Reference.parse target).rooted))

end AbiIndex.Service
