import AbiIndex.Calendar
import AbiIndex.Number.DigitLimit
import AbiIndex.Text.Digit
import AbiIndex.Toml.Value

/-!
# TOML scalars

Readers for texts, numbers, dates and times. Each takes a value from the front of a text and gives
back the rest, or fails. A whole number with too many digits is a fault of its own.
-/

namespace AbiIndex.Toml

/-- Why a text is no document. -/
inductive Fault where
  | malformed
  | number (e : Number.TooLong)
deriving DecidableEq

/-- What was read, or the fault of a text in which it is not there. -/
def orMalformed {α : Type} : Option α → Except Fault α
  | some a => .ok a
  | none => .error .malformed

/-- A value and the rest of the text. -/
abbrev Read (α : Type) := Option (α × List Char)

/-- The rest of a text behind a fixed beginning. -/
def after? : List Char → List Char → Option (List Char)
  | [], cs => some cs
  | _ :: _, [] => none
  | p :: ps, c :: cs => if p = c then after? ps cs else none

/-- Control characters other than the tab. -/
def isControl (c : Char) : Bool := (c.toNat < 32 && c ≠ '\t') || c.toNat = 127

def isHexDigit (c : Char) : Bool := (Text.hexValue? c).isSome

/-- The number that hexadecimal digits denote. -/
def hexNumber (cs : List Char) : Nat := Number.ofDigits 16 (cs.filterMap Text.hexValue?)

/-- The character with the code point in the next `width` hexadecimal digits. -/
def readCodePoint (width : Nat) (cs : List Char) : Read Char :=
  let digits := cs.take width
  if digits.length = width ∧ digits.all isHexDigit ∧ (hexNumber digits).isValidChar then
    some (Char.ofNat (hexNumber digits), cs.drop width)
  else none

/-- The character that an escape stands for, given the text behind the backslash. -/
def readEscape : List Char → Read Char
  | 'b' :: cs => some (Char.ofNat 8, cs)
  | 't' :: cs => some ('\t', cs)
  | 'n' :: cs => some ('\n', cs)
  | 'f' :: cs => some (Char.ofNat 12, cs)
  | 'r' :: cs => some ('\r', cs)
  | '"' :: cs => some ('"', cs)
  | '\\' :: cs => some ('\\', cs)
  | 'u' :: cs => readCodePoint 4 cs
  | 'U' :: cs => readCodePoint 8 cs
  | _ => none

/-- The text behind a backslash at the end of a line: white space up to the line break, and all
white space behind it. `none` if the backslash does not end a line. -/
def readContinuation (cs : List Char) : Option (List Char) :=
  match cs with
  | c :: _ =>
    if c = ' ' ∨ c = '\t' ∨ c = '\n' then
      match cs.dropWhile fun c => c = ' ' || c = '\t' with
      | [] => some []
      | '\n' :: rest => some (rest.dropWhile fun c => c = ' ' || c = '\t' || c = '\n')
      | _ => none
    else none
  | [] => none

/-- A text in double quotes, behind its opening quotes. In a text over several lines, single quotes
and line breaks are part of it. The fuel bounds the number of characters. -/
def readBasic (multiline : Bool) : Nat → List Char → Read (List Char)
  | 0, _ => none
  | _ + 1, [] => none
  | fuel + 1, '"' :: cs =>
    if multiline then
      match cs with
      | '"' :: '"' :: rest => some ([], rest)
      | _ => (readBasic multiline fuel cs).map fun (s, rest) => ('"' :: s, rest)
    else some ([], cs)
  | fuel + 1, '\\' :: cs =>
    match if multiline then readContinuation cs else none with
    | some rest => readBasic multiline fuel rest
    | none =>
      match readEscape cs with
      | none => none
      | some (c, rest) => (readBasic multiline fuel rest).map fun (s, rest) => (c :: s, rest)
  | fuel + 1, c :: cs =>
    if isControl c && !(multiline && c = '\n') then none
    else (readBasic multiline fuel cs).map fun (s, rest) => (c :: s, rest)

/-- A text in single quotes, behind its opening quotes. -/
def readLiteral (multiline : Bool) : List Char → Read (List Char)
  | [] => none
  | c :: cs =>
    if c = '\'' then
      if multiline then
        match cs with
        | '\'' :: '\'' :: rest => some ([], rest)
        | _ => (readLiteral multiline cs).map fun (s, rest) => (c :: s, rest)
      else some ([], cs)
    else if isControl c && !(multiline && c = '\n') then none
    else (readLiteral multiline cs).map fun (s, rest) => (c :: s, rest)

/-- Up to two more quotes in front of the closing three belong to a text over several lines. -/
def readClosing (quote : Char) : List Char × List Char → List Char × List Char
  | (s, cs) =>
    match cs with
    | c :: d :: rest =>
      if c = quote then
        if d = quote then (s ++ [quote, quote], rest) else (s ++ [quote], d :: rest)
      else (s, cs)
    | [c] => if c = quote then (s ++ [quote], []) else (s, cs)
    | [] => (s, cs)

/-- The text without a line break at its very beginning. -/
def dropNewline : List Char → List Char
  | '\n' :: cs => cs
  | cs => cs

/-- A text on one line. -/
def readLineText : List Char → Read String
  | '"' :: cs => (readBasic false (cs.length + 1) cs).map fun (s, rest) => (String.ofList s, rest)
  | '\'' :: cs => (readLiteral false cs).map fun (s, rest) => (String.ofList s, rest)
  | _ => none

/-- A text of any kind. -/
def readText (cs : List Char) : Read String :=
  match cs with
  | '"' :: '"' :: '"' :: rest =>
    (readBasic true (rest.length + 1) (dropNewline rest)).map fun r =>
      let (s, rest) := readClosing '"' r
      (String.ofList s, rest)
  | '\'' :: '\'' :: '\'' :: rest =>
    (readLiteral true (dropNewline rest)).map fun r =>
      let (s, rest) := readClosing '\'' r
      (String.ofList s, rest)
  | _ => readLineText cs

/-! ## Numbers -/

/-- Digits with single underscores between them; the rest, or `none` if there is no digit. -/
def digits? (p : Char → Bool) : List Char → Option (List Char)
  | [] => none
  | c :: cs => if p c then some (more p cs) else none
where
  /-- Further digits, each with an underscore in front if need be. -/
  more (p : Char → Bool) : List Char → List Char
    | '_' :: c :: cs => if p c then more p cs else '_' :: c :: cs
    | c :: cs => if p c then more p cs else c :: cs
    | [] => []

/-- The fraction of a number, if there is one. -/
def skipFraction (cs : List Char) : List Char :=
  match cs with
  | '.' :: rest => (digits? Char.isDigit rest).getD cs
  | _ => cs

/-- The exponent of a number, if there is one. -/
def skipExponent (cs : List Char) : List Char :=
  match cs with
  | c :: rest =>
    if c = 'e' ∨ c = 'E' then
      match rest with
      | s :: more =>
        if s = '+' ∨ s = '-' then (digits? Char.isDigit more).getD cs
        else (digits? Char.isDigit rest).getD cs
      | [] => cs
    else cs
  | [] => cs

/-- A decimal number without its sign: the number of its digits if it is a whole number, and the
rest. -/
def decimal? (cs : List Char) : Option (Nat × List Char) :=
  let whole := match cs with
    | '0' :: rest => some rest
    | _ => digits? Char.isDigit cs
  whole.map fun rest =>
    let behind := skipExponent (skipFraction rest)
    let digits := (cs.take (cs.length - rest.length)).countP Char.isDigit
    (if behind.length = rest.length then digits else 0, behind)

/-- A number in base sixteen, eight or two. -/
def prefixed? : List Char → Option (List Char)
  | '0' :: 'x' :: rest => digits? isHexDigit rest
  | '0' :: 'o' :: rest => digits? (fun c => '0' ≤ c && c ≤ '7') rest
  | '0' :: 'b' :: rest => digits? (fun c => c = '0' || c = '1') rest
  | _ => none

/-- A number: the number of its digits if it is a whole decimal number, and the rest. -/
def number? (cs : List Char) : Option (Nat × List Char) :=
  match prefixed? cs with
  | some rest => some (0, rest)
  | none =>
    match cs with
    | '+' :: rest => decimal? rest
    | '-' :: rest => decimal? rest
    | _ => decimal? cs

/-! ## Dates and times -/

/-- The number in the next `width` digits. -/
def fixedNumber? (width : Nat) (cs : List Char) : Option (Nat × List Char) :=
  let digits := cs.take width
  if digits.length = width ∧ digits.all Char.isDigit then some (ofDecimal digits, cs.drop width)
  else none
where
  /-- The number that decimal digits denote. -/
  ofDecimal (cs : List Char) : Nat := cs.foldl (fun n c => n * 10 + (c.toNat - 48)) 0

/-- A time of day. -/
def time? (cs : List Char) : Option (List Char) := do
  let (hour, cs) ← fixedNumber? 2 cs
  let cs ← after? [':'] cs
  let (minute, cs) ← fixedNumber? 2 cs
  let cs ← after? [':'] cs
  let (second, cs) ← fixedNumber? 2 cs
  if hour < 24 ∧ minute < 60 ∧ second < 60 then
    match cs with
    | '.' :: c :: rest => if c.isDigit then some (rest.dropWhile Char.isDigit) else some cs
    | _ => some cs
  else none

/-- The offset of a time zone, if there is one. -/
def skipZone (cs : List Char) : List Char :=
  match cs with
  | 'Z' :: rest => rest
  | 'z' :: rest => rest
  | s :: rest =>
    if s = '+' ∨ s = '-' then
      let offset := do
        let (hour, cs) ← fixedNumber? 2 rest
        let cs ← after? [':'] cs
        let (minute, cs) ← fixedNumber? 2 cs
        if hour < 24 ∧ minute < 60 then some cs else none
      offset.getD cs
    else cs
  | [] => cs

/-- A date with an optional time. The outer `none` means that there is no date; the inner one that
the date is not in the calendar. -/
def date? (cs : List Char) : Option (Option (List Char)) := do
  let (year, cs) ← fixedNumber? 4 cs
  let cs ← after? ['-'] cs
  let (month, cs) ← fixedNumber? 2 cs
  let cs ← after? ['-'] cs
  let (day, cs) ← fixedNumber? 2 cs
  if 1 ≤ month ∧ month ≤ 12 ∧ 1 ≤ day ∧ day ≤ 31 then
    let rest := match cs with
      | c :: more =>
        if c = 'T' ∨ c = 't' ∨ c = ' ' then ((time? more).map skipZone).getD cs else cs
      | [] => cs
    some (if (Calendar.checkDate year month day).toBool then some rest else none)
  else none

/-- Infinity, or what is no number. -/
def special? (cs : List Char) : Option (List Char) :=
  let unsigned := match cs with
    | c :: rest => if c = '+' ∨ c = '-' then rest else cs
    | [] => []
  match after? ['i', 'n', 'f'] unsigned with
  | some rest => some rest
  | none => after? ['n', 'a', 'n'] unsigned

/-- A truth value. -/
def truth? (cs : List Char) : Option (List Char) :=
  match after? ['t', 'r', 'u', 'e'] cs with
  | some rest => some rest
  | none => after? ['f', 'a', 'l', 's', 'e'] cs

/-- The text behind a scalar that is no text: a truth value, a date, a time or a number. -/
def readScalar (cs : List Char) : Except Fault (List Char) :=
  match truth? cs, date? cs with
  | some rest, _ => .ok rest
  | none, some outcome => orMalformed outcome
  | none, none =>
    match time? cs, number? cs with
    | some rest, _ => .ok rest
    | none, some (digits, rest) =>
      if Number.maxDigits < digits then .error (.number (.reading digits)) else .ok rest
    | none, none => orMalformed (special? cs)

end AbiIndex.Toml
