import AbiIndex.Text.Utf8
import AbiIndex.Yaml.Text

/-!
# Tags and references

A tag stands in front of a node and says of what kind it is. It is an exclamation mark alone, or
with a name behind it; the name may have a handle in front, between two exclamation marks, or may
stand between angle brackets. A reference is a star and the name of a node.
-/

namespace AbiIndex.Yaml

/-- Whether a character may stand in the name of a node or of a handle. -/
def isNameChar (c : Char) : Bool := c.isAlphanum || c = '-' || c = '_'

/-- Whether a character may stand in the name of a tag. -/
def isTagChar (c : Char) : Bool :=
  c.isAlphanum || c ∈ ['-', ';', '/', '?', ':', '@', '&', '=', '+', '$', ',', '_', '.', '!', '~',
    '*', '\'', '(', ')', '[', ']', '%']

/-- The bytes of a name. A percent sign and two hexadecimal digits stand for one byte. -/
def tagBytes : List Char → Option (List UInt8)
  | [] => some []
  | '%' :: a :: b :: rest => do
    let high ← Text.hexValue? a
    let low ← Text.hexValue? b
    return UInt8.ofNat (16 * high + low) :: (← tagBytes rest)
  | c :: rest =>
    if c = '%' then none else (tagBytes rest).map (UInt8.ofNat c.toNat :: ·)

/-- The name of a tag. Its bytes must be UTF-8. -/
def readTagName (c : Cursor) : Option Scanned :=
  let written := c.rest.takeWhile isTagChar
  if written = [] then none
  else
    ((tagBytes written).bind Text.Utf8.decode?).map fun name => ⟨name, c.skip written.length⟩

/-- A name between angle brackets, at the first of which the cursor is. The name of a single
exclamation mark is that of a tag without a name. -/
def readBracketed (c : Cursor) : Option (Tag × Cursor) := do
  let name ← readTagName c.next
  guard (name.cursor.rest.head? = some '>')
  return (if name.text = ['!'] then .unspecific else .named, name.cursor.next)

/-- A name behind an exclamation mark. If the word holds another one, the name starts behind that,
and the handle in front of it is declared nowhere unless it is empty. -/
def readHandled (c : Cursor) : Option (Tag × Cursor) :=
  let word := c.rest.takeWhile fun ch => ch ≠ ' ' && !isBreak ch
  if '!' ∈ word then
    let handle := word.takeWhile isNameChar
    if (word.drop handle.length).head? = some '!' then
      (readTagName (c.skip (handle.length + 1))).map fun name =>
        (if handle = [] then .named else .undeclared, name.cursor)
    else none
  else (readTagName c).map fun name => (.named, name.cursor)

/-- Reads a tag behind its exclamation mark. A space or a line break must follow it. -/
def readTag (c : Cursor) : Option (Tag × Cursor) := do
  let (tag, after) ←
    if c.rest.head? = some '<' then readBracketed c
    else if atSpace c.rest then some (.unspecific, c)
    else readHandled c
  guard (after.rest.head?.all fun ch => ch = ' ' || isBreak ch)
  return (tag, after)

/-- The characters besides white space that may follow a reference. -/
def referenceEnds : List Char := ['?', ':', ',', ']', '\x7d', '%', '@', '\x60']

/-- The place behind a reference, given the place behind its star. -/
def readReference (c : Cursor) : Option Cursor :=
  let name := c.rest.takeWhile isNameChar
  let after := c.skip name.length
  if name ≠ [] && after.rest.head?.all (fun ch => isSpace ch || ch ∈ referenceEnds) then some after
  else none

end AbiIndex.Yaml
