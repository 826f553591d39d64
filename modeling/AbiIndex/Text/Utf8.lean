/-!
# Reading bytes as UTF-8

Decoding accepts any bytes. A well-formed sequence gives its character. Where none starts, the
longest part that could have begun one (at least one byte) is ill-formed as a whole: it gives one
replacement character, and reading goes on behind it.
-/

namespace AbiIndex.Text.Utf8

/-- What a lead byte announces: how many bytes follow, the range of the first of them, and the bits
that the lead byte itself carries. -/
structure Lead where
  more : Nat
  low : Nat
  high : Nat
  bits : Nat

/-- The meaning of a first byte; `none` for a byte that starts no sequence. The narrowed ranges
leave out overlong forms, surrogates and numbers beyond the last code point. -/
def lead? (b : Nat) : Option Lead :=
  if b < 0x80 then some ⟨0, 0x80, 0xbf, b⟩
  else if b < 0xc2 then none
  else if b < 0xe0 then some ⟨1, 0x80, 0xbf, b - 0xc0⟩
  else if b = 0xe0 then some ⟨2, 0xa0, 0xbf, 0⟩
  else if b = 0xed then some ⟨2, 0x80, 0x9f, 0xd⟩
  else if b < 0xf0 then some ⟨2, 0x80, 0xbf, b - 0xe0⟩
  else if b = 0xf0 then some ⟨3, 0x90, 0xbf, 0⟩
  else if b < 0xf4 then some ⟨3, 0x80, 0xbf, b - 0xf0⟩
  else if b = 0xf4 then some ⟨3, 0x80, 0x8f, 4⟩
  else none

/-- Reads `more` continuation bytes, the first of them from `low` to `high`, onto the bits read so
far. The result is the code point, or `none` if a byte is missing, and the bytes behind the part
that was read. -/
def continuation : Nat → Nat → Nat → Nat → List UInt8 → Option Nat × List UInt8
  | 0, _, _, bits, bytes => (some bits, bytes)
  | _ + 1, _, _, _, [] => (none, [])
  | more + 1, low, high, bits, b :: bytes =>
    if low ≤ b.toNat ∧ b.toNat ≤ high then
      continuation more 0x80 0xbf (bits * 64 + (b.toNat - 0x80)) bytes
    else (none, b :: bytes)

/-- Reads one character, or one ill-formed part, that starts with the byte `b`. -/
def step (b : UInt8) (bytes : List UInt8) : Option Char × List UInt8 :=
  match lead? b.toNat with
  | none => (none, bytes)
  | some lead =>
    let (point, rest) := continuation lead.more lead.low lead.high lead.bits bytes
    (point.map Char.ofNat, rest)

theorem continuation_length_le (more low high bits : Nat) (bytes : List UInt8) :
    (continuation more low high bits bytes).2.length ≤ bytes.length := by
  induction more generalizing low high bits bytes with
  | zero => simp [continuation]
  | succ n ih =>
    cases bytes with
    | nil => simp [continuation]
    | cons b bytes =>
      simp only [continuation]
      split
      · exact Nat.le_succ_of_le (ih _ _ _ bytes)
      · simp

/-- Reading a character never gives back more than it was given. -/
theorem step_length_le (b : UInt8) (bytes : List UInt8) :
    (step b bytes).2.length ≤ bytes.length := by
  unfold step
  split
  · simp
  · exact continuation_length_le ..

/-- The characters of the bytes, with `none` for each ill-formed part. -/
def decode : List UInt8 → List (Option Char)
  | [] => []
  | b :: bytes => (step b bytes).1 :: decode (step b bytes).2
termination_by bytes => bytes.length
decreasing_by
  have := step_length_le b bytes
  simp only [List.length_cons]
  omega

/-- The bytes in front of the first ill-formed part. -/
def wellFormedPart : List UInt8 → List UInt8
  | [] => []
  | b :: bytes =>
    match (step b bytes).1 with
    | none => []
    | some _ =>
      (b :: bytes).take (bytes.length + 1 - (step b bytes).2.length)
        ++ wellFormedPart (step b bytes).2
termination_by bytes => bytes.length
decreasing_by
  have := step_length_le b bytes
  simp only [List.length_cons]
  omega

/-- The text of the bytes, with a replacement character for each ill-formed part. -/
def decodeLossy (bytes : List UInt8) : List Char :=
  (decode bytes).map fun c => c.getD (Char.ofNat 0xfffd)

/-- The text of the bytes if all of them are well-formed. -/
def decode? (bytes : List UInt8) : Option (List Char) := (decode bytes).mapM id

/-- The bytes of a text. -/
def encode (s : String) : List UInt8 := s.toUTF8.data.toList

end AbiIndex.Text.Utf8
