import AbiIndex.Text.Blank
import AbiIndex.Text.Digit
import AbiIndex.Yaml.Fault
import AbiIndex.Yaml.Value

/-!
# What plain texts mean

A text without quotes may be a truth value, a number, a point in time or nothing at all. Numbers may
hold underscores; a leading zero makes an octal number; colons separate sexagesimal places. The form
of a text decides what it is, and only then its parts may turn out to be at fault.
-/

namespace AbiIndex.Yaml.Scalar

/-- The spellings of no value. -/
def nullWords : List String := ["", "~", "null", "Null", "NULL"]

def trueWords : List String := ["yes", "Yes", "YES", "true", "True", "TRUE", "on", "On", "ON"]

def falseWords : List String :=
  ["no", "No", "NO", "false", "False", "FALSE", "off", "Off", "OFF"]

/-- A text that is kept for a default value. As a key it stands for itself. -/
def defaultWord : String := "="

/-- Texts that are kept for other uses and stand for no value. -/
def reservedWords : List String := ["<<", defaultWord]

/-! ## Whole numbers -/

def isBinary (c : Char) : Bool := c = '0' || c = '1'

def isOctal (c : Char) : Bool := '0' ≤ c && c ≤ '7'

def isHex (c : Char) : Bool := (Text.hexValue? c).isSome

/-- The values of digits, underscores left out. -/
def digits (cs : List Char) : List Nat := cs.filterMap Text.hexValue?

/-- The number with these digits, underscores left out. -/
def number (base : Nat) (cs : List Char) : Nat := Number.ofDigits base (digits cs)

/-- The sign in front of a number, and the rest. -/
def splitSign : List Char → Bool × List Char
  | '-' :: rest => (true, rest)
  | '+' :: rest => (false, rest)
  | cs => (false, cs)

/-- Whether all characters are digits of a kind or underscores. -/
def areDigits (p : Char → Bool) (cs : List Char) : Bool := cs.all fun c => p c || c = '_'

/-- A place of a sexagesimal number: one digit, or two below sixty. -/
def place? : List Char → Option Nat
  | [b] => if b.isDigit then some (number 10 [b]) else none
  | [a, b] => if isOctal a && a < '6' && b.isDigit then some (number 10 [a, b]) else none
  | _ => none

/-- The places of a sexagesimal number behind its first one, each behind a colon. -/
def sexagesimal? (cs : List Char) : Option (List Nat) :=
  match Text.pieces (· = ':') cs with
  | [] :: places => places.mapM place?
  | _ => none

/-- A number behind the mark of its base, if the text has that form. -/
def based? (base : Nat) (isDigit : Char → Bool) (cs : List Char) : Option (Except Fault Nat) :=
  if cs ≠ [] && areDigits isDigit cs then
    some (if digits cs = [] then .error (.noDigits base) else .ok (number base cs))
  else none

/-- A whole number without its sign, if the text has that form. -/
def natural? (cs : List Char) : Option (Except Fault Nat) :=
  match cs with
  | '0' :: 'b' :: ds => based? 2 isBinary ds
  | '0' :: 'x' :: ds => based? 16 isHex ds
  | '0' :: ds => if areDigits isOctal ds then some (.ok (number 8 ds)) else none
  | c :: ds =>
    if '1' ≤ c && c ≤ '9' then
      let first := ds.takeWhile fun c => c.isDigit || c = '_'
      (sexagesimal? (ds.drop first.length)).map fun places =>
        match Number.readDecimal (digits (c :: first)) with
        | .ok n => .ok (Number.ofDigits 60 (n :: places))
        | .error e => .error (.tooLong e)
    else none
  | [] => none

/-- A whole number, if the text has that form. -/
def int? (cs : List Char) : Option (Except Fault Int) :=
  let (negative, rest) := splitSign cs
  (natural? rest).map fun outcome => outcome.map fun n => if negative then -(n : Int) else n

/-! ## Floating-point numbers -/

/-- The exponent of a decimal: nothing, or a letter, a sign and digits. -/
def exponent? : List Char → Option Int
  | [] => some 0
  | c :: s :: ds =>
    if (c = 'e' || c = 'E') && (s = '-' || s = '+') && ds ≠ [] && ds.all Char.isDigit then
      let n : Int := number 10 ds
      some (if s = '-' then -n else n)
    else none
  | _ => none

/-- Splits a text behind its first digits and underscores. -/
def splitDigits (cs : List Char) : List Char × List Char :=
  cs.span fun c => c.isDigit || c = '_'

/-- A decimal with the given digits in front of its point, and the text behind the point. -/
def fraction? (negative : Bool) (whole cs : List Char) : Option Number.Double :=
  let (fraction, rest) := splitDigits cs
  (exponent? rest).map fun e =>
    .ofDecimal negative (number 10 (whole ++ fraction)) (e - (digits fraction).length)

/-- The most places of a sexagesimal floating-point number. The place in front of them is worth more
than the largest floating-point number. -/
def maxPlaces : Nat := 174

/-- The sum of the places of a number, the last one first, where a place is worth `60 ^ k`. Every
product and every sum is rounded. -/
def sumPlaces (k : Nat) (sum : Number.Double) : List Number.Double → Number.Double
  | [] => sum
  | place :: rest => sumPlaces (k + 1) (sum.plus (place.times (.ofNat (60 ^ k)))) rest

/-- A floating-point number with sexagesimal places, given the digits in front of the first colon
and the text from there on. -/
def places? (negative : Bool) (whole cs : List Char) : Option (Except Fault Number.Double) :=
  match sexagesimal? (cs.takeWhile (· ≠ '.')), cs.dropWhile (· ≠ '.') with
  | some (p :: ps), '.' :: fraction =>
    if areDigits Char.isDigit fraction then
      let middle := (p :: ps).dropLast
      let last := Number.Double.ofDecimal false
        (Number.ofDigits 10 ((p :: ps).getLastD 0 :: digits fraction)) (-(digits fraction).length)
      let places := last :: (number 10 whole :: middle).reverse.map .ofNat
      some (if maxPlaces < places.length then .error .tooManyPlaces
        else .ok ((sumPlaces 0 (.ofNat 0) places).withSign negative))
    else none
  | _, _ => none

/-- The spellings of infinity. -/
def infinityWords : List String := [".inf", ".Inf", ".INF"]

/-- The spellings of what is no number. -/
def undefinedWords : List String := [".nan", ".NaN", ".NAN"]

/-- A floating-point number, if the text has that form. -/
def float? (cs : List Char) : Option (Except Fault Number.Double) :=
  let (negative, unsigned) := splitSign cs
  let (whole, rest) := splitDigits unsigned
  if String.ofList unsigned ∈ infinityWords then some (.ok (.infinite negative))
  else if String.ofList cs ∈ undefinedWords then some (.ok .undefined)
  else
    match whole.head?, rest with
    | some c, '.' :: more =>
      if c.isDigit then (fraction? negative whole more).map .ok else none
    | some c, ':' :: _ => if c.isDigit then places? negative whole rest else none
    | none, '.' :: c :: more =>
      -- without digits in front of the point there is no sign
      if c.isDigit && cs.head? = some '.' then (fraction? false [] (c :: more)).map .ok else none
    | _, _ => none

/-! ## Points in time -/

/-- A number of between `low` and `high` digits at the front of a text, and the rest. -/
def takeNumber (low high : Nat) (cs : List Char) : Option (Nat × List Char) :=
  let ds := (cs.take high).takeWhile Char.isDigit
  if low ≤ ds.length then some (number 10 ds, cs.drop ds.length) else none

/-- Takes one character out of several. -/
def takeOne (chars : List Char) : List Char → Option (List Char)
  | c :: rest => if c ∈ chars then some rest else none
  | [] => none

def isGap (c : Char) : Bool := c = ' ' || c = '\t'

/-- The offset of a point in time from universal time in minutes, which ends it. There may be
none. -/
def zone? (cs : List Char) : Option (Option Int) := do
  match cs.dropWhile isGap with
  | [] => if cs = [] then some none else none
  | ['Z'] => some (some 0)
  | sign :: rest =>
    let rest ← takeOne ['-', '+'] (sign :: rest)
    let (hours, rest) ← takeNumber 1 2 rest
    let (minutes, rest) ← if rest = [] then some (0, []) else takeNumber 2 2 (← takeOne [':'] rest)
    guard (rest = [])
    let offset : Int := 60 * hours + minutes
    return some (if sign = '-' then -offset else offset)

/-- The time of day behind a date, with the white space or the letter in front of it. -/
def clock? (cs : List Char) : Option Calendar.Clock := do
  let rest ← match cs with
    | 'T' :: more => some more
    | 't' :: more => some more
    | _ => if cs.takeWhile isGap = [] then none else some (cs.dropWhile isGap)
  let (hour, rest) ← takeNumber 1 2 rest
  let (minute, rest) ← takeNumber 2 2 (← takeOne [':'] rest)
  let (second, rest) ← takeNumber 2 2 (← takeOne [':'] rest)
  let rest := match rest with
    | '.' :: more => more.dropWhile Char.isDigit
    | _ => rest
  return ⟨hour, minute, second, ← zone? rest⟩

/-- A point in time, if the text has that form: a date with two digits for month and day, or a date
with a time of day. -/
def moment? (cs : List Char) : Option Calendar.Moment := do
  let (year, rest) ← takeNumber 4 4 cs
  let afterYear ← takeOne ['-'] rest
  let (month, rest) ← takeNumber 1 2 afterYear
  let (day, rest) ← takeNumber 1 2 (← takeOne ['-'] rest)
  if rest = [] then
    guard (afterYear.length = 5)
    return ⟨year, month, day, none⟩
  else return ⟨year, month, day, ← clock? rest⟩

/-! ## All together -/

/-- The meaning of a plain text. -/
def plain (cs : List Char) : Except Fault Value :=
  let s := String.ofList cs
  if s ∈ nullWords then .ok .null
  else if s ∈ trueWords then .ok (.bool true)
  else if s ∈ falseWords then .ok (.bool false)
  else if s ∈ reservedWords then .error .malformed
  else
    match float? cs, int? cs, moment? cs with
    | some x, _, _ => x.map .float
    | none, some n, _ => n.map .int
    | none, none, some m => (m.check.mapError .calendar).map fun _ => .time m
    | none, none, none => .ok (.text s)

/-- The meaning of a text. -/
def value (cs : List Char) (isPlain : Bool) : Except Fault Value :=
  if isPlain then plain cs else .ok (.text (String.ofList cs))

/-- The meaning of a text that is a key. -/
def key (cs : List Char) (isPlain : Bool) : Except Fault Value :=
  value cs (isPlain && String.ofList cs ≠ defaultWord)

end AbiIndex.Yaml.Scalar
