import AbiIndex.Text.Blank

/-!
# Lines

Two ways to see the lines of a text: splitting it at every line break of any kind, and reading it
with each of the three common line ends (line feed, carriage return, both) written as a line feed.
-/

namespace AbiIndex.Text

/-- The characters that end a line. -/
def isLineBreak (c : Char) : Bool :=
  CharSet.contains [(0xa, 0xd), (0x1c, 0x1e), (0x85, 0x85), (0x2028, 0x2029)] c

/-- A carriage return followed by a line feed becomes a line feed. -/
def joinCrLf : List Char → List Char
  | [] => []
  | '\r' :: '\n' :: rest => '\n' :: joinCrLf rest
  | c :: rest => c :: joinCrLf rest

/-- The lines of a text, without their line breaks. A break at the very end opens no new line. -/
def splitLines (cs : List Char) : List (List Char) :=
  let all := pieces isLineBreak (joinCrLf cs)
  if all.getLast? = some [] then all.dropLast else all

/-- The text with every carriage return, alone or before a line feed, read as a line feed. -/
def unifyNewlines (cs : List Char) : List Char :=
  (joinCrLf cs).map fun c => if c = '\r' then '\n' else c

end AbiIndex.Text
