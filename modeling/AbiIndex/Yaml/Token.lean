import AbiIndex.Yaml.Fault
import AbiIndex.Yaml.Node

/-!
# YAML tokens

The parts of a document. In block style, indentation opens and closes collections; a collection in
flow style stands between brackets. Where a text can be divided no further, its fault stands for the
rest.
-/

namespace AbiIndex.Yaml

/-- A part of a document. -/
inductive Token where
  | documentStart
  | documentEnd
  | sequenceStart
  | mappingStart
  | blockEnd
  | flowSequenceStart
  | flowSequenceEnd
  | flowMappingStart
  | flowMappingEnd
  | key
  | value
  | entry
  | flowEntry
  | scalar (text : List Char) (isPlain : Bool)
  | tag (t : Tag)
  /-- The name of a node that stands for the node. -/
  | reference
  | fault (f : Fault)
deriving DecidableEq

/-- Whether a character ends a line. -/
def isBreak (c : Char) : Bool :=
  c = '\n' || c = '\x85' || c = '\u2028' || c = '\u2029'

/-- Whether a character separates tokens. -/
def isSpace (c : Char) : Bool := c = ' ' || c = '\t' || isBreak c

/-- Whether a text ends here or goes on with a separator. -/
def atSpace (cs : List Char) : Bool := cs.head?.all isSpace

/-- The characters that a document may hold. -/
def isPrintable (c : Char) : Bool :=
  c = '\t' || c = '\n' || c = '\r' || (' ' ≤ c && c ≤ '~') || c = '\x85'
    || ('\xa0' ≤ c && c ≠ '\ufffe' && c ≠ '\uffff')

/-- A place in a document. -/
structure Cursor where
  rest : List Char
  index : Nat
  line : Nat
  column : Nat

namespace Cursor

def start (text : List Char) : Cursor := ⟨text, 0, 0, 0⟩

/-- The place behind the next character. A byte order mark takes no column. -/
def next (c : Cursor) : Cursor :=
  let breaks := c.rest.head?.any isBreak
  { rest := c.rest.tail
    index := c.index + 1
    line := if breaks then c.line + 1 else c.line
    column :=
      if breaks then 0
      else if c.rest.head? = some '\ufeff' then c.column
      else c.column + 1 }

/-- The place behind the next characters. -/
def skip (c : Cursor) : Nat → Cursor
  | 0 => c
  | n + 1 => c.next.skip n

theorem length_next (c : Cursor) : c.next.rest.length = c.rest.length - 1 := by
  simp [next]

/-- Whether a mark of the start or the end of a document stands here. -/
def atSeparator (c : Cursor) : Bool :=
  (c.rest.take 3 = ['-', '-', '-'] || c.rest.take 3 = ['.', '.', '.']) && atSpace (c.rest.drop 3)

/-- The line break that stands for the one at the front of a text. -/
def unifiedBreak (c : Char) : Char := if c = '\u2028' || c = '\u2029' then c else '\n'

end Cursor

/-- A text and the place behind it. -/
structure Scanned where
  text : List Char
  cursor : Cursor

namespace Scanned

def prepend (cs : List Char) (s : Scanned) : Scanned := { s with text := cs ++ s.text }

end Scanned

end AbiIndex.Yaml
