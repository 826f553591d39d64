import AbiIndex.Json.Value

/-!
# Writing JSON

Values are written over several lines, two spaces deeper for each level, with ASCII characters
only. A character beyond the basic plane is written as a surrogate pair.
-/

namespace AbiIndex.JsonValue

/-- Four hexadecimal digits of a number below 65536. -/
def hex4 (n : Nat) : List Char :=
  [Nat.digitChar (n / 4096 % 16), Nat.digitChar (n / 256 % 16), Nat.digitChar (n / 16 % 16),
   Nat.digitChar (n % 16)]

/-- The escape of one sixteen-bit unit. -/
def escapeUnit (n : Nat) : List Char := '\\' :: 'u' :: hex4 n

/-- A character inside a text. -/
def escape (c : Char) : List Char :=
  match c with
  | '"' => ['\\', '"']
  | '\\' => ['\\', '\\']
  | '\n' => ['\\', 'n']
  | '\r' => ['\\', 'r']
  | '\t' => ['\\', 't']
  | '\x08' => ['\\', 'b']
  | '\x0c' => ['\\', 'f']
  | c =>
    if ' ' ≤ c ∧ c ≤ '~' then [c]
    else if c.toNat < 0x10000 then escapeUnit c.toNat
    else
      -- two units of ten bits each
      let n := c.toNat - 0x10000
      escapeUnit (0xd800 + n / 1024) ++ escapeUnit (0xdc00 + n % 1024)

/-- A text between quotes. -/
def quote (s : String) : List Char := '"' :: s.toList.flatMap escape ++ ['"']

/-- The start of a new line at a depth. -/
def newline (depth : Nat) : List Char := '\n' :: List.replicate (2 * depth) ' '

mutual

/-- Writes a value whose closing bracket stands at `depth`. -/
def write (depth : Nat) : JsonValue → List Char
  | null => "null".toList
  | bool b => if b then "true".toList else "false".toList
  | num n => (toString n).toList
  | str s => quote s
  | arr [] => ['[', ']']
  | arr (v :: vs) =>
    '[' :: newline (depth + 1) ++ write (depth + 1) v ++ writeItems (depth + 1) vs
      ++ newline depth ++ [']']
  | obj [] => ['\x7b', '\x7d']
  | obj ((k, v) :: fs) =>
    '\x7b' :: newline (depth + 1) ++ quote k ++ [':', ' '] ++ write (depth + 1) v
      ++ writeFields (depth + 1) fs ++ newline depth ++ ['\x7d']

/-- Writes further items of an array. -/
def writeItems (depth : Nat) : List JsonValue → List Char
  | [] => []
  | v :: vs => ',' :: newline depth ++ write depth v ++ writeItems depth vs

/-- Writes further fields of an object. -/
def writeFields (depth : Nat) : List (String × JsonValue) → List Char
  | [] => []
  | (k, v) :: fs =>
    ',' :: newline depth ++ quote k ++ [':', ' '] ++ write depth v ++ writeFields depth fs

end

/-- The text of a value. -/
def render (v : JsonValue) : String := String.ofList (v.write 0)

end AbiIndex.JsonValue
