import AbiIndex.Text.Digit
import AbiIndex.Yaml.Token

/-!
# Texts of a document

Plain texts end where a key, a comment or a collection could start. Quoted texts end at their quote.
Inside both, a line break with the white space around it is folded into one space, and of several
line breaks all but the first are kept.
-/

namespace AbiIndex.Yaml

/-- The folded form of a line break and the further ones behind it. -/
def folded (first : Char) (more : List Char) : List Char :=
  if Cursor.unifiedBreak first ≠ '\n' then Cursor.unifiedBreak first :: more
  else if more = [] then [' ']
  else more

/-! ## Plain texts -/

/-- The characters that end a plain text inside a flow collection. -/
def flowIndicators : List Char := [',', '?', '[', ']', '\x7b', '\x7d']

/-- Whether a colon in front of this text ends a plain text. -/
def endsKey (inFlow : Bool) (cs : List Char) : Bool :=
  cs.head?.all fun c => isSpace c || (inFlow && c ≠ '?' && c ∈ flowIndicators)

/-- The first part of a plain text that has no white space in it. -/
def plainPart (inFlow : Bool) : List Char → List Char
  | [] => []
  | c :: rest =>
    if isSpace c || (c = ':' && endsKey inFlow rest) || (inFlow && c ∈ flowIndicators) then []
    else c :: plainPart inFlow rest

/-- The line breaks among white space; nothing comes of them if a document ends there. -/
def plainBreaks (c : Cursor) : Option (List Char) × Cursor :=
  match _h : c.rest with
  | [] => (some [], c)
  | ch :: _ =>
    if ch = ' ' then plainBreaks c.next
    else if isBreak ch then
      if c.next.atSeparator then (none, c.next)
      else
        let (more, c') := plainBreaks c.next
        (more.map (Cursor.unifiedBreak ch :: ·), c')
    else (some [], c)
termination_by c.rest.length
decreasing_by all_goals simp [Cursor.length_next, _h]

/-- The white space inside a plain text in its folded form, empty if the text ends there, and
whether it goes beyond the line. -/
def plainGap (c : Cursor) : Scanned × Bool :=
  let spaces := c.rest.takeWhile (· = ' ')
  let c := c.skip spaces.length
  match c.rest.head? with
  | some ch =>
    if isBreak ch then
      if c.next.atSeparator then (⟨[], c.next⟩, true)
      else
        match plainBreaks c.next with
        | (some more, c') => (⟨folded ch more, c'⟩, true)
        | (none, c') => (⟨[], c'⟩, true)
    else (⟨spaces, c⟩, false)
  | none => (⟨spaces, c⟩, false)

/-- Reads a plain text. Outside flow collections its further lines must be indented at least as far
as `indent`. The flag says whether the text was followed by a line break. -/
def readPlain (inFlow : Bool) (indent : Int) (c : Cursor) : Scanned × Bool :=
  let part := if c.rest.head? = some '#' then [] else plainPart inFlow c.rest
  if part = [] then (⟨[], c⟩, false)
  else
    let (gap, broken) := plainGap (c.skip part.length)
    if gap.text = [] || gap.cursor.rest.head? = some '#'
        || (!inFlow && (gap.cursor.column : Int) < indent) then
      (⟨part, gap.cursor⟩, broken)
    else if _h : gap.cursor.rest.length < c.rest.length then
      let (more, brokenLater) := readPlain inFlow indent gap.cursor
      if more.text = [] then (⟨part, more.cursor⟩, broken)
      else (more.prepend (part ++ gap.text), brokenLater)
    else (⟨part, gap.cursor⟩, broken)
termination_by c.rest.length

/-! ## Quoted texts -/

/-- Further line breaks in a quoted text; a document must not end there. -/
def quotedBreaks (c : Cursor) : Option Scanned :=
  if c.atSeparator then none
  else
    let gap := c.rest.takeWhile fun ch => ch = ' ' || ch = '\t'
    let c' := c.skip gap.length
    match c'.rest.head? with
    | some ch =>
      if isBreak ch then
        if _h : c'.next.rest.length < c.rest.length then
          (quotedBreaks c'.next).map (·.prepend [Cursor.unifiedBreak ch])
        else none
      else some ⟨[], c'⟩
    | none => some ⟨[], c'⟩
termination_by c.rest.length

/-- White space in a quoted text: kept inside a line, folded at its end. -/
def quotedGap (c : Cursor) : Option Scanned :=
  let gap := c.rest.takeWhile fun ch => ch = ' ' || ch = '\t'
  let c := c.skip gap.length
  match c.rest.head? with
  | none => none
  | some ch =>
    if isBreak ch then (quotedBreaks c.next).map fun more => ⟨folded ch more.text, more.cursor⟩
    else some ⟨gap, c⟩

/-- The characters that stand for others behind a backslash. -/
def shortEscapes : List (Char × Char) :=
  [('0', '\x00'), ('a', '\x07'), ('b', '\x08'), ('t', '\t'), ('\t', '\t'), ('n', '\n'),
   ('v', '\x0b'), ('f', '\x0c'), ('r', '\r'), ('e', '\x1b'), (' ', ' '), ('"', '"'),
   ('\\', '\\'), ('/', '/'), ('N', '\x85'), ('_', '\xa0'), ('L', '\u2028'), ('P', '\u2029')]

/-- The number of digits of a code point behind a backslash and a letter. -/
def escapeWidth (c : Char) : Nat :=
  if c = 'x' then 2 else if c = 'u' then 4 else if c = 'U' then 8 else 0

/-- The number behind a backslash that a letter and hexadecimal digits state, and the place behind
it. -/
def readCode (c : Cursor) : Option (Nat × Cursor) :=
  match c.rest with
  | [] => none
  | ch :: rest =>
    let width := escapeWidth ch
    let digits := rest.take width
    if width = 0 || digits.length < width then none
    else (digits.mapM Text.hexValue?).map fun ds => (Number.ofDigits 16 ds, c.skip (width + 1))

/-- The second half of a character that is written as two halves, and the place behind it. -/
def readLowHalf (c : Cursor) : Option (Nat × Cursor) :=
  if c.rest.head? = some '\\' then
    (readCode c.next).filter fun (n, _) => 0xdc00 ≤ n && n < 0xe000
  else none

/-- The fault of a number that is to be that of a character. -/
def codeFault? (n : Nat) : Option Fault :=
  if 0x80000000 ≤ n then some .beyondWord
  else if 0x110000 ≤ n then some .beyondUnicode
  else none

/-- The character with a number that stands behind a backslash. Characters beyond the first 65536
may be written as two halves. -/
def readCodePoint (c : Cursor) : Except Fault Scanned :=
  match readCode c with
  | none => .error .malformed
  | some (n, after) =>
    match codeFault? n, if 0xd800 ≤ n && n < 0xdc00 then readLowHalf after else none with
    | some f, _ => .error f
    | none, some (low, behind) =>
      .ok ⟨[Char.ofNat (0x10000 + (n - 0xd800) * 0x400 + (low - 0xdc00))], behind⟩
    | none, none => .ok ⟨[Char.ofNat n], after⟩

/-- What was read, or the fault of a text that goes on in no way that there is. -/
def orMalformed {α : Type} : Option α → Except Fault α
  | some a => .ok a
  | none => .error .malformed

/-- What follows a backslash. -/
def readEscape (c : Cursor) : Except Fault Scanned :=
  match c.rest with
  | [] => .error .malformed
  | ch :: _ =>
    match shortEscapes.lookup ch with
    | some r => .ok ⟨[r], c.next⟩
    | none => if isBreak ch then orMalformed (quotedBreaks c.next) else readCodePoint c

/-- Whether a character stands for itself in every quoted text. -/
def isOrdinary (c : Char) : Bool := !isSpace c && c ≠ '\'' && c ≠ '"' && c ≠ '\\'

/-- A part of a quoted text, or its closing quote with the place behind it. -/
inductive QuotedPart where
  | part (s : Scanned)
  | close (c : Cursor)

/-- The next part of a quoted text. -/
def quotedPart (quote : Char) (c : Cursor) : Except Fault QuotedPart :=
  match c.rest with
  | [] => .error .malformed
  | ch :: rest =>
    if ch = quote then
      if quote = '\'' && rest.head? = some '\'' then .ok (.part ⟨['\''], c.skip 2⟩)
      else .ok (.close c.next)
    else if ch = '\\' && quote = '"' then (readEscape c.next).map .part
    else if isSpace ch then (orMalformed (quotedGap c)).map .part
    else
      let part := ch :: rest.takeWhile isOrdinary
      .ok (.part ⟨part, c.skip part.length⟩)

/-- Reads a quoted text behind its opening quote. -/
def readQuoted (quote : Char) (c : Cursor) : Except Fault Scanned :=
  match quotedPart quote c with
  | .error f => .error f
  | .ok (.close c') => .ok ⟨[], c'⟩
  | .ok (.part s) =>
    if _h : s.cursor.rest.length < c.rest.length then
      (readQuoted quote s.cursor).map (·.prepend s.text)
    else .error .malformed
termination_by c.rest.length

end AbiIndex.Yaml
