import AbiIndex.Json.Printer
import AbiIndex.Text.Digit
import Mathlib.Data.List.Basic
import Mathlib.Data.List.DropRight

/-!
# Reading JSON

A reader for JSON texts whose numbers are integers. White space may stand around every token, a text
may hold any escape, and two escapes of sixteen-bit units may stand for one character. What is
written for a value is read back as the value.

## Key results

- `combine_flatMap_unitsOf`: a text can be told from its sixteen-bit units
- `units_quote`: what is written between quotes is read as the units of the text
- `parse_render`: the text of a value is read as the value
-/

namespace AbiIndex.JsonValue

/-! ## The reader -/

/-- White space between tokens. -/
def isGap (c : Char) : Bool := c = ' ' || c = '\n' || c = '\r' || c = '\t'

/-- The text without white space in front. -/
def skip (cs : List Char) : List Char := cs.dropWhile isGap

/-- The number with four hexadecimal digits. -/
def unit? (a b c d : Char) : Option Nat := do
  let a ← Text.hexValue? a
  let b ← Text.hexValue? b
  let c ← Text.hexValue? c
  let d ← Text.hexValue? d
  return ((a * 16 + b) * 16 + c) * 16 + d

/-- The code point that a letter behind a backslash stands for. -/
def short? : Char → Option Nat
  | '"' => some 0x22
  | '\\' => some 0x5c
  | '/' => some 0x2f
  | 'b' => some 0x08
  | 'f' => some 0x0c
  | 'n' => some 0x0a
  | 'r' => some 0x0d
  | 't' => some 0x09
  | _ => none

/-- The numbers that stand up to the closing quote, and the text behind it. A character gives its
code point, and an escape the unit that it names. -/
def units : List Char → Option (List Nat × List Char)
  | '"' :: rest => some ([], rest)
  | '\\' :: 'u' :: a :: b :: c :: d :: rest => do
    let n ← unit? a b c d
    let (ns, rest) ← units rest
    return (n :: ns, rest)
  | '\\' :: c :: rest => do
    let n ← short? c
    let (ns, rest) ← units rest
    return (n :: ns, rest)
  | c :: rest => do
    if c < ' ' then none
    let (ns, rest) ← units rest
    return (c.toNat :: ns, rest)
  | [] => none

def isHigh (n : Nat) : Bool := 0xd800 ≤ n && n < 0xdc00

def isLow (n : Nat) : Bool := 0xdc00 ≤ n && n < 0xe000

/-- The characters with the given numbers. A high and a low unit make one character, and neither
stands alone. -/
def combine : List Nat → Option (List Char)
  | [] => some []
  | [n] => if isHigh n || isLow n then none else some [Char.ofNat n]
  | n :: m :: ns =>
    if isHigh n then
      if isLow m then
        (combine ns).map (Char.ofNat (0x10000 + (n - 0xd800) * 1024 + (m - 0xdc00)) :: ·)
      else none
    else if isLow n then none
    else (combine (m :: ns)).map (Char.ofNat n :: ·)

/-- The text up to the closing quote, and what stands behind it. -/
def text? (cs : List Char) : Option (String × List Char) := do
  let (ns, rest) ← units cs
  return (String.ofList (← combine ns), rest)

/-- Whether the character may stand in a number. -/
def isNumeric (c : Char) : Bool := c.isDigit || c ∈ ['-', '+', '.', 'e', 'E']

/-- A number without sign, and without zeros in front. -/
def natural? (cs : List Char) : Option Nat :=
  if cs ≠ [] ∧ cs.all Char.isDigit ∧ (cs.head? = some '0' → cs.length = 1) then
    some (Nat.ofDigitChars 10 cs 0)
  else none

/-- An integer. -/
def integer? : List Char → Option Int
  | '-' :: cs => (natural? cs).map fun n : Nat => -(n : Int)
  | cs => (natural? cs).map fun n : Nat => (n : Int)

mutual

/-- The value that stands in front, and the text behind it. The limit goes down with every call; a
text cannot hold more values than it has characters. -/
def value? : Nat → List Char → Option (JsonValue × List Char)
  | 0, _ => none
  | limit + 1, cs =>
    match skip cs with
    | '"' :: rest => (text? rest).map fun (s, rest) => (str s, rest)
    | '[' :: rest =>
      match skip rest with
      | ']' :: rest => some (arr [], rest)
      | rest => (items? limit rest).map fun (vs, rest) => (arr vs, rest)
    | '\x7b' :: rest =>
      match skip rest with
      | '\x7d' :: rest => some (obj [], rest)
      | rest => (fields? limit rest).map fun (fs, rest) => (obj fs, rest)
    | 'n' :: 'u' :: 'l' :: 'l' :: rest => some (null, rest)
    | 't' :: 'r' :: 'u' :: 'e' :: rest => some (bool true, rest)
    | 'f' :: 'a' :: 'l' :: 's' :: 'e' :: rest => some (bool false, rest)
    | rest => (integer? (rest.takeWhile isNumeric)).map fun n => (num n, rest.dropWhile isNumeric)

/-- The items up to the closing bracket, and the text behind it. -/
def items? : Nat → List Char → Option (List JsonValue × List Char)
  | 0, _ => none
  | limit + 1, cs => do
    let (v, rest) ← value? limit cs
    match skip rest with
    | ',' :: rest => (items? limit rest).map fun (vs, rest) => (v :: vs, rest)
    | ']' :: rest => some ([v], rest)
    | _ => none

/-- The fields up to the closing brace, and the text behind it. -/
def fields? : Nat → List Char → Option (List (String × JsonValue) × List Char)
  | 0, _ => none
  | limit + 1, cs => do
    let '"' :: rest := skip cs | none
    let (k, rest) ← text? rest
    let ':' :: rest := skip rest | none
    let (v, rest) ← value? limit rest
    match skip rest with
    | ',' :: rest => (fields? limit rest).map fun (fs, rest) => ((k, v) :: fs, rest)
    | '\x7d' :: rest => some ([(k, v)], rest)
    | _ => none

end

/-- The value of a text. -/
def parse? (s : String) : Option JsonValue := do
  let (v, rest) ← value? (2 * s.length + 1) s.toList
  if skip rest = [] then some v else none

/-! ## Texts -/

/-- The sixteen-bit units of a character. -/
def unitsOf (c : Char) : List Nat :=
  if c.toNat < 0x10000 then [c.toNat]
  else [0xd800 + (c.toNat - 0x10000) / 1024, 0xdc00 + (c.toNat - 0x10000) % 1024]

/-- No character is a unit of a pair. -/
theorem not_isHigh_toNat (c : Char) : isHigh c.toNat = false ∧ isLow c.toNat = false := by
  have hvalid : c.toNat < 0xd800 ∨ 0xdfff < c.toNat ∧ c.toNat < 0x110000 := c.valid
  simp only [isHigh, isLow, Bool.and_eq_false_iff, decide_eq_false_iff_not]
  omega

theorem combine_cons (c : Char) (ns : List Nat) :
    combine (unitsOf c ++ ns) = (combine ns).map (c :: ·) := by
  obtain ⟨hhigh, hlow⟩ := not_isHigh_toNat c
  have hvalid : c.toNat < 0xd800 ∨ 0xdfff < c.toNat ∧ c.toNat < 0x110000 := c.valid
  rw [unitsOf]
  split
  · cases ns with
    | nil => simp [combine, hhigh, hlow]
    | cons n ns => simp [combine, hhigh, hlow]
  · have hpair : 0x10000 + (0xd800 + (c.toNat - 0x10000) / 1024 - 0xd800) * 1024 +
        (0xdc00 + (c.toNat - 0x10000) % 1024 - 0xdc00) = c.toNat := by omega
    have hfirst : isHigh (0xd800 + (c.toNat - 0x10000) / 1024) = true := by
      simp only [isHigh, Bool.and_eq_true, decide_eq_true_eq]
      omega
    have hsecond : isLow (0xdc00 + (c.toNat - 0x10000) % 1024) = true := by
      simp only [isLow, Bool.and_eq_true, decide_eq_true_eq]
      omega
    rw [List.cons_append, List.cons_append, List.nil_append, combine, if_pos hfirst, if_pos hsecond,
      hpair, Char.ofNat_toNat]

/-- The characters of a text are found again from their units. -/
theorem combine_flatMap_unitsOf (cs : List Char) : combine (cs.flatMap unitsOf) = some cs := by
  induction cs with
  | nil => rfl
  | cons c cs ih => rw [List.flatMap_cons, combine_cons, ih, Option.map_some]

theorem hexValue?_digitChar : ∀ n < 16, Text.hexValue? (Nat.digitChar n) = some n := by
  decide

theorem units_escapeUnit {n : Nat} (h : n < 0x10000) (rest : List Char) :
    units (escapeUnit n ++ rest) = (units rest).map fun p => (n :: p.1, p.2) := by
  have hdigit : ∀ k, Text.hexValue? (Nat.digitChar (k % 16)) = some (k % 16) :=
    fun k => hexValue?_digitChar _ (Nat.mod_lt _ (by decide))
  have hunit : unit? (Nat.digitChar (n / 4096 % 16)) (Nat.digitChar (n / 256 % 16))
      (Nat.digitChar (n / 16 % 16)) (Nat.digitChar (n % 16)) = some n := by
    have hvalue : ((n / 4096 % 16 * 16 + n / 256 % 16) * 16 + n / 16 % 16) * 16 + n % 16 = n := by
      omega
    simp only [unit?, hdigit, Option.bind_eq_bind, Option.bind_some, Option.pure_def, hvalue]
  simp only [escapeUnit, hex4, List.cons_append, List.nil_append, units, hunit, Option.bind_eq_bind,
    Option.bind_some]
  cases units rest <;> rfl

/-- A letter behind a backslash is read as what it stands for. -/
theorem units_short {c : Char} {n : Nat} (h : short? c = some n) (rest : List Char) :
    units ('\\' :: c :: rest) = (units rest).map fun p => (n :: p.1, p.2) := by
  rw [units, h]
  · cases units rest <;> rfl
  · rintro a b x y _ rfl
    cases h

/-- An escaped character is read as its units. -/
theorem units_escape (c : Char) (rest : List Char) :
    units (escape c ++ rest) = (units rest).map fun p => (unitsOf c ++ p.1, p.2) := by
  rw [escape.eq_def]
  split
  case h_8 hquote hback _ _ _ _ _ =>
    split
    · rename_i hascii
      have hprintable : ¬ c < ' ' := Char.not_lt.2 hascii.1
      have hunits : unitsOf c = [c.toNat] := by
        have hle : c.toNat ≤ '~'.toNat := hascii.2
        have hlast : '~'.toNat = 126 := rfl
        rw [unitsOf, if_pos (by omega)]
      rw [List.singleton_append, units, if_neg hprintable, hunits]
      · cases units rest <;> rfl
      · exact hquote
      · intro _ _ _ _ _ heq
        exact absurd heq hback
      · intro _ _ heq
        exact absurd heq hback
    · split
      · rename_i hshort
        rw [units_escapeUnit hshort, unitsOf, if_pos hshort]
        rfl
      · rename_i hlong
        have hvalid : c.toNat < 0xd800 ∨ 0xdfff < c.toNat ∧ c.toNat < 0x110000 := c.valid
        rw [List.append_assoc, units_escapeUnit (by omega), units_escapeUnit (by omega), unitsOf,
          if_neg hlong, Option.map_map]
        rfl
  -- the characters with short escapes
  all_goals exact units_short rfl rest

/-- What is written between quotes is read as the text. -/
theorem text?_quote (s : String) (rest : List Char) :
    text? (s.toList.flatMap escape ++ '"' :: rest) = some (s, rest) := by
  have hunits : ∀ cs : List Char,
      units (cs.flatMap escape ++ '"' :: rest) = some (cs.flatMap unitsOf, rest) := by
    intro cs
    induction cs with
    | nil => rfl
    | cons c cs ih => rw [List.flatMap_cons, List.append_assoc, units_escape, ih]; rfl
  simp only [text?, hunits, Option.bind_eq_bind, Option.bind_some, combine_flatMap_unitsOf,
    Option.pure_def, String.ofList_toList]

/-! ## Numbers -/

/-- Only zero is written with a zero in front. -/
theorem eq_zero_of_head?_toDigits {n : Nat} (h : (Nat.toDigits 10 n).head? = some '0') : n = 0 := by
  induction n using Nat.strongRecOn with
  | ind n ih =>
    rw [Nat.toDigits_eq_if (by decide)] at h
    split at h
    · exact Nat.digitChar_eq_zero.1 (Option.some.inj h)
    · rename_i hlarge
      rw [List.head?_append_of_ne_nil _ Nat.toDigits_ne_nil] at h
      have hzero := ih (n / 10) (by omega) h
      omega

theorem isDigit_toDigits (n : Nat) : ∀ c ∈ Nat.toDigits 10 n, c.isDigit = true :=
  fun _ => Nat.isDigit_of_mem_toDigits (by decide) (by decide)

theorem natural?_toDigits (n : Nat) : natural? (Nat.toDigits 10 n) = some n := by
  have hzero : (Nat.toDigits 10 n).head? = some '0' → (Nat.toDigits 10 n).length = 1 := by
    intro h
    rw [eq_zero_of_head?_toDigits h]
    rfl
  rw [natural?, if_pos ⟨Nat.toDigits_ne_nil, List.all_eq_true.2 (isDigit_toDigits n), hzero⟩,
    Nat.ofDigitChars_ten_toDigits]

/-- The text of an integer has one of the two forms that the reader knows. -/
theorem toList_toString (n : Int) : 0 ≤ n ∧ (toString n).toList = Nat.toDigits 10 n.toNat ∨
    n < 0 ∧ (toString n).toList = '-' :: Nat.toDigits 10 (-n).toNat := by
  have hrepr : toString n = if 0 ≤ n then n.toNat.repr else "-" ++ (-n).toNat.repr :=
    Int.repr_eq_if
  rw [hrepr]
  split
  · rename_i hle
    exact .inl ⟨hle, by rw [Nat.repr_eq_ofList_toDigits, String.toList_ofList]⟩
  · refine .inr ⟨by omega, ?_⟩
    simp only [String.toList_append, Nat.repr_eq_ofList_toDigits, String.toList_ofList]
    rfl

theorem integer?_toString (n : Int) : integer? (toString n).toList = some n := by
  rcases toList_toString n with ⟨hle, htext⟩ | ⟨hneg, htext⟩
  · have hunsigned : ∀ cs, Nat.toDigits 10 n.toNat ≠ '-' :: cs := by
      intro cs heq
      have hdigit := isDigit_toDigits n.toNat '-' (heq ▸ List.mem_cons_self)
      revert hdigit
      decide
    rw [htext, integer?, natural?_toDigits, Option.map_some, Int.toNat_of_nonneg hle]
    exact hunsigned
  · rw [htext, integer?, natural?_toDigits, Option.map_some, Int.toNat_of_nonneg (by omega),
      Int.neg_neg]

theorem isNumeric_toString (n : Int) : ∀ c ∈ (toString n).toList, isNumeric c = true := by
  have hdigits : ∀ m : Nat, ∀ c ∈ Nat.toDigits 10 m, isNumeric c = true := by
    intro m c hc
    rw [isNumeric, isDigit_toDigits m c hc, Bool.true_or]
  rcases toList_toString n with ⟨-, htext⟩ | ⟨-, htext⟩
  · rw [htext]
    exact hdigits _
  · rw [htext]
    exact List.forall_mem_cons.2 ⟨by decide, hdigits _⟩

/-! ## Values -/

/-- No number goes on at the start of the text. -/
def Ends (cs : List Char) : Prop := ∀ c ∈ cs.head?, isNumeric c = false

theorem skip_newline (depth : Nat) (cs : List Char) : skip (newline depth ++ cs) = skip cs := by
  refine List.dropWhile_append_of_pos fun c hc => ?_
  rcases List.mem_cons.1 hc with rfl | hc
  · rfl
  · rw [List.eq_of_mem_replicate hc]
    rfl

theorem skip_skip (cs : List Char) : skip (skip cs) = skip cs :=
  List.dropWhile_idempotent isGap cs

theorem length_skip_le (cs : List Char) : (skip cs).length ≤ cs.length :=
  (List.dropWhile_sublist _).length_le

theorem skip_cons {c : Char} (h : isGap c = false) (cs : List Char) : skip (c :: cs) = c :: cs := by
  rw [skip, List.dropWhile_cons_of_neg (by simp [h])]

/-- A number is written with a character that stands in numbers in front. -/
theorem exists_toString_eq_cons (n : Int) :
    ∃ c cs, (toString n).toList = c :: cs ∧ isNumeric c = true := by
  have hne : (toString n).toList ≠ [] := by
    rcases toList_toString n with ⟨-, htext⟩ | ⟨-, htext⟩ <;> rw [htext]
    · exact Nat.toDigits_ne_nil
    · exact List.cons_ne_nil _ _
  obtain ⟨c, cs, htext⟩ := List.exists_cons_of_ne_nil hne
  exact ⟨c, cs, htext, isNumeric_toString n c (htext ▸ List.mem_cons_self)⟩

theorem isGap_of_isNumeric {c : Char} (h : isNumeric c = true) : isGap c = false := by
  cases hgap : isGap c with
  | false => rfl
  | true =>
    simp only [isGap, Bool.or_eq_true, decide_eq_true_eq] at hgap
    revert h
    rcases hgap with ((rfl | rfl) | rfl) | rfl <;> decide

/-- A value is written with a character in front that belongs to it. -/
theorem exists_write_eq_cons (depth : Nat) (v : JsonValue) :
    ∃ c cs, write depth v = c :: cs ∧ isGap c = false ∧ c ≠ ']' := by
  cases v with
  | null => exact ⟨_, _, rfl, by decide, by decide⟩
  | bool b => cases b <;> exact ⟨_, _, rfl, by decide, by decide⟩
  | num n =>
    obtain ⟨c, cs, htext, hc⟩ := exists_toString_eq_cons n
    refine ⟨c, cs, by rw [write, htext], isGap_of_isNumeric hc, ?_⟩
    rintro rfl
    revert hc
    decide
  | str s => exact ⟨_, _, rfl, by decide, by decide⟩
  | arr vs =>
    cases vs with
    | nil => exact ⟨_, _, rfl, by decide, by decide⟩
    | cons v vs => exact ⟨_, _, rfl, by decide, by decide⟩
  | obj fs =>
    cases fs with
    | nil => exact ⟨_, _, rfl, by decide, by decide⟩
    | cons f fs => exact ⟨_, _, rfl, by decide, by decide⟩

theorem skip_write (depth : Nat) (v : JsonValue) (rest : List Char) :
    skip (write depth v ++ rest) = write depth v ++ rest := by
  obtain ⟨c, cs, hwrite, hc, -⟩ := exists_write_eq_cons depth v
  rw [hwrite, List.cons_append, skip_cons hc]

/-- A number is read as a whole. -/
theorem value?_of_numeric {limit : Nat} {cs rest : List Char} (n : Int)
    (h : skip cs = (toString n).toList ++ rest) (hrest : Ends rest) :
    value? (limit + 1) cs = some (num n, rest) := by
  have hspan : (skip cs).takeWhile isNumeric = (toString n).toList ∧
      (skip cs).dropWhile isNumeric = rest := by
    rw [h, List.takeWhile_append_of_pos (isNumeric_toString n),
      List.dropWhile_append_of_pos (isNumeric_toString n)]
    cases rest with
    | nil => simp
    | cons c rest =>
      have hc : isNumeric c = false := hrest c rfl
      simp [hc]
  obtain ⟨c, text, htext, hc⟩ := exists_toString_eq_cons n
  have hhead : ∀ d ds, skip cs = d :: ds → isNumeric d = true := by
    intro d ds hd
    rw [h, htext] at hd
    rwa [← (List.cons.inj hd).1]
  rw [value?]
  split
  case h_7 => rw [hspan.1, hspan.2, integer?_toString, Option.map_some]
  -- no other value starts with a character of a number
  all_goals
    rename_i heq
    exact absurd (hhead _ _ heq) (by decide)

/-! ## Steps of the reader -/

section Steps

variable {limit : Nat} {cs rest rest' rest'' : List Char} {v : JsonValue}

theorem value?_str {s : String} (h : skip cs = quote s ++ rest) :
    value? (limit + 1) cs = some (str s, rest) := by
  have hquote : quote s ++ rest = '"' :: (s.toList.flatMap escape ++ '"' :: rest) := by
    simp [quote]
  rw [value?, h, hquote]
  show (text? (s.toList.flatMap escape ++ '"' :: rest)).map _ = _
  rw [text?_quote, Option.map_some]

theorem value?_arr {vs : List JsonValue} (h : skip cs = '[' :: rest)
    (hopen : ∀ more, skip rest ≠ ']' :: more)
    (hitems : items? limit (skip rest) = some (vs, rest')) :
    value? (limit + 1) cs = some (arr vs, rest') := by
  rw [value?, h]
  show (match skip rest with
    | ']' :: rest => some (arr [], rest)
    | rest => (items? limit rest).map fun (vs, rest) => (arr vs, rest)) = _
  split
  · rename_i more hmore
    exact absurd hmore (hopen more)
  · rw [hitems, Option.map_some]

theorem value?_obj {fs : List (String × JsonValue)} (h : skip cs = '\x7b' :: rest)
    (hopen : ∀ more, skip rest ≠ '\x7d' :: more)
    (hfields : fields? limit (skip rest) = some (fs, rest')) :
    value? (limit + 1) cs = some (obj fs, rest') := by
  rw [value?, h]
  show (match skip rest with
    | '\x7d' :: rest => some (obj [], rest)
    | rest => (fields? limit rest).map fun (fs, rest) => (obj fs, rest)) = _
  split
  · rename_i more hmore
    exact absurd hmore (hopen more)
  · rw [hfields, Option.map_some]

theorem items?_last (hv : value? limit cs = some (v, rest)) (h : skip rest = ']' :: rest') :
    items? (limit + 1) cs = some ([v], rest') := by
  simp only [items?, hv, h, Option.bind_eq_bind, Option.bind_some]

theorem items?_cons {vs : List JsonValue} (hv : value? limit cs = some (v, rest))
    (h : skip rest = ',' :: rest') (hitems : items? limit rest' = some (vs, rest'')) :
    items? (limit + 1) cs = some (v :: vs, rest'') := by
  simp only [items?, hv, h, hitems, Option.bind_eq_bind, Option.bind_some, Option.map_some]

/-- A field is read up to what stands behind its value. -/
theorem fields?_eq {k : String} (h : skip cs = quote k ++ ':' :: rest)
    (hv : value? limit rest = some (v, rest')) : fields? (limit + 1) cs =
      match skip rest' with
      | ',' :: rest => (fields? limit rest).map fun (fs, rest) => ((k, v) :: fs, rest)
      | '\x7d' :: rest => some ([(k, v)], rest)
      | _ => none := by
  have hquote : quote k ++ ':' :: rest =
      '"' :: (k.toList.flatMap escape ++ '"' :: ':' :: rest) := by
    simp [quote]
  have hcolon : skip (':' :: rest) = ':' :: rest := skip_cons (by decide) rest
  simp only [fields?, h, hquote, text?_quote, hcolon, hv, Option.bind_eq_bind, Option.bind_some]

end Steps

/-! ## Values -/

/-- What stands behind an item of an array. -/
theorem ends_writeItems (depth outer : Nat) (vs : List JsonValue) (rest : List Char) :
    Ends (writeItems depth vs ++ (newline outer ++ ']' :: rest)) := by
  cases vs <;>
  · rintro c ⟨⟩
    decide

/-- What stands behind a field of an object. -/
theorem ends_writeFields (depth outer : Nat) (fs : List (String × JsonValue)) (rest : List Char) :
    Ends (writeFields depth fs ++ (newline outer ++ '\x7d' :: rest)) := by
  cases fs <;>
  · rintro c ⟨⟩
    decide

mutual

/-- A value is read from what was written for it. -/
theorem value?_write (v : JsonValue) {depth limit : Nat} {cs rest : List Char}
    (h : skip cs = write depth v ++ rest) (hrest : Ends rest) (hlimit : 2 * cs.length ≤ limit) :
    value? limit cs = some (v, rest) := by
  have hlength := length_skip_le cs
  obtain ⟨c, text, hwrite, -⟩ := exists_write_eq_cons depth v
  obtain ⟨limit, rfl⟩ : ∃ l, limit = l + 1 := by
    rw [h, hwrite, List.length_append, List.length_cons] at hlength
    exact Nat.exists_eq_add_one.2 (by omega)
  cases v with
  | null =>
    rw [value?, h]
    rfl
  | bool b =>
    rw [value?, h]
    cases b <;> rfl
  | num n => exact value?_of_numeric n h hrest
  | str s => exact value?_str h
  | arr vs =>
    cases vs with
    | nil =>
      rw [value?, h]
      rfl
    | cons v vs =>
      let inside := write (depth + 1) v ++
        (writeItems (depth + 1) vs ++ (newline depth ++ ']' :: rest))
      have hopened : skip cs = '[' :: (newline (depth + 1) ++ inside) := by
        simp [h, write, inside]
      have hinside : skip (newline (depth + 1) ++ inside) = inside :=
        (skip_newline _ _).trans (skip_write _ _ _)
      have hshorter := length_skip_le (newline (depth + 1) ++ inside)
      rw [hopened, List.length_cons] at hlength
      refine value?_arr hopened (fun more hmore => ?_)
        (items?_write v vs ((skip_skip _).trans hinside) (by omega))
      obtain ⟨c, text, hwrite, -, hc⟩ := exists_write_eq_cons (depth + 1) v
      have hmore : write (depth + 1) v ++ _ = ']' :: more := hinside.symm.trans hmore
      rw [hwrite] at hmore
      exact hc (List.cons.inj hmore).1
  | obj fs =>
    cases fs with
    | nil =>
      rw [value?, h]
      rfl
    | cons f fs =>
      obtain ⟨k, v⟩ := f
      let inside := quote k ++ (':' :: ' ' :: (write (depth + 1) v ++
        (writeFields (depth + 1) fs ++ (newline depth ++ '\x7d' :: rest))))
      have hopened : skip cs = '\x7b' :: (newline (depth + 1) ++ inside) := by
        simp [h, write, inside]
      have hinside : skip (newline (depth + 1) ++ inside) = inside :=
        (skip_newline _ _).trans (skip_cons (by decide) _)
      have hshorter := length_skip_le (newline (depth + 1) ++ inside)
      rw [hopened, List.length_cons] at hlength
      refine value?_obj hopened (fun more hmore => ?_)
        (fields?_write k v fs ((skip_skip _).trans hinside) (by omega))
      have hmore : quote k ++ _ = '\x7d' :: more := hinside.symm.trans hmore
      exact absurd (List.cons.inj hmore).1 (by decide)
termination_by limit

/-- Items are read from what was written for them. -/
theorem items?_write (v : JsonValue) (vs : List JsonValue) {depth outer limit : Nat}
    {cs rest : List Char}
    (h : skip cs = write depth v ++ (writeItems depth vs ++ (newline outer ++ ']' :: rest)))
    (hlimit : 2 * cs.length + 1 ≤ limit) : items? limit cs = some (v :: vs, rest) := by
  obtain ⟨limit, rfl⟩ := Nat.exists_eq_add_of_le' (Nat.le_trans (Nat.le_add_left _ _) hlimit)
  have hlength := length_skip_le cs
  have hends := ends_writeItems depth outer vs rest
  have hv : value? limit cs = some (v, _) := value?_write v h hends (by omega)
  cases vs with
  | nil =>
    refine items?_last hv ?_
    rw [writeItems, List.nil_append, skip_newline, skip_cons (by decide)]
  | cons w ws =>
    let inside := write depth w ++ (writeItems depth ws ++ (newline outer ++ ']' :: rest))
    have hcomma : writeItems depth (w :: ws) ++ (newline outer ++ ']' :: rest) =
        ',' :: (newline depth ++ inside) := by
      simp [writeItems, inside]
    rw [h, hcomma, List.length_append, List.length_cons] at hlength
    rw [hcomma] at hv
    have hinside : skip (newline depth ++ inside) = inside :=
      (skip_newline _ _).trans (skip_write _ _ _)
    exact items?_cons hv (skip_cons (by decide) _) (items?_write w ws hinside (by omega))
termination_by limit

/-- Fields are read from what was written for them. -/
theorem fields?_write (k : String) (v : JsonValue) (fs : List (String × JsonValue))
    {depth outer limit : Nat} {cs rest : List Char}
    (h : skip cs = quote k ++ (':' :: ' ' :: (write depth v ++
      (writeFields depth fs ++ (newline outer ++ '\x7d' :: rest)))))
    (hlimit : 2 * cs.length + 1 ≤ limit) : fields? limit cs = some ((k, v) :: fs, rest) := by
  obtain ⟨limit, rfl⟩ := Nat.exists_eq_add_of_le' (Nat.le_trans (Nat.le_add_left _ _) hlimit)
  have hlength := length_skip_le cs
  rw [h, List.length_append, List.length_cons, List.length_cons] at hlength
  have hends := ends_writeFields depth outer fs rest
  have hgap : ∀ text, skip (' ' :: text) = skip text := fun _ => rfl
  rw [fields?_eq h (value?_write v ((hgap _).trans (skip_write _ _ _)) hends
    (by rw [List.length_cons]; omega))]
  cases fs with
  | nil =>
    rw [writeFields, List.nil_append, skip_newline, skip_cons (by decide)]
    rfl
  | cons f fs =>
    obtain ⟨k', v'⟩ := f
    let inside := quote k' ++ (':' :: ' ' :: (write depth v' ++
      (writeFields depth fs ++ (newline outer ++ '\x7d' :: rest))))
    have hcomma : writeFields depth ((k', v') :: fs) ++ (newline outer ++ '\x7d' :: rest) =
        ',' :: (newline depth ++ inside) := by
      simp [writeFields, inside]
    rw [hcomma, List.length_append, List.length_cons] at hlength
    have hinside : skip (newline depth ++ inside) = inside :=
      (skip_newline _ _).trans (skip_cons (by decide) _)
    rw [hcomma, skip_cons (by decide)]
    show (fields? limit (newline depth ++ inside)).map _ = _
    rw [fields?_write k' v' fs hinside (by omega), Option.map_some]
termination_by limit

end

/-- The text of a value is read as the value, with white space behind it or without. -/
theorem parse?_render (v : JsonValue) {gap : String} (hgap : ∀ c ∈ gap.toList, isGap c = true) :
    parse? (v.render ++ gap) = some v := by
  have htext : (v.render ++ gap).toList = write 0 v ++ gap.toList := by
    rw [String.toList_append, render, String.toList_ofList]
  have hends : Ends gap.toList := by
    intro c hc
    cases hnumeric : isNumeric c with
    | false => rfl
    | true =>
      have hgap := hgap c (List.mem_of_mem_head? hc)
      rw [isGap_of_isNumeric hnumeric] at hgap
      cases hgap
  have hgap : skip gap.toList = [] := List.dropWhile_eq_nil_iff.2 hgap
  have hlimit : 2 * (v.render ++ gap).toList.length ≤ 2 * (v.render ++ gap).length + 1 := by
    rw [String.length_toList]
    omega
  have hskip : skip (v.render ++ gap).toList = write 0 v ++ gap.toList := by
    rw [htext, skip_write]
  have hread := value?_write v hskip hends hlimit
  simp only [parse?, hread, hgap, Option.bind_eq_bind, Option.bind_some, if_true]

end AbiIndex.JsonValue
