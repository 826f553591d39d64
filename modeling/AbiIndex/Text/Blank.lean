import AbiIndex.Text.CharSet

/-!
# Blank characters

The characters that count as white space, and cutting a text at them: removing them at both ends,
and the words between them.
-/

namespace AbiIndex.Text

/-- White space: the controls from tab to carriage return, the four information separators, the
space, the next-line control and the space characters of every script. -/
def blanks : CharSet :=
  [(0x9, 0xd), (0x1c, 0x20), (0x85, 0x85), (0xa0, 0xa0), (0x1680, 0x1680), (0x2000, 0x200a),
   (0x2028, 0x2029), (0x202f, 0x202f), (0x205f, 0x205f), (0x3000, 0x3000)]

/-- Whether the character is white space. -/
def isBlank (c : Char) : Bool := blanks.contains c

/-- The list without the elements at its end that satisfy `p`. -/
def dropEndWhile (p : Char → Bool) : List Char → List Char
  | [] => []
  | c :: cs =>
    match dropEndWhile p cs with
    | [] => if p c then [] else [c]
    | kept => c :: kept

/-- The list without the elements at either end that satisfy `p`. -/
def trimWhile (p : Char → Bool) (cs : List Char) : List Char := dropEndWhile p (cs.dropWhile p)

/-- The text without white space at its ends. -/
def trim (cs : List Char) : List Char := trimWhile isBlank cs

/-- The text without white space at its right end. -/
def trimEnd (cs : List Char) : List Char := dropEndWhile isBlank cs

/-- The pieces of a text between the characters that satisfy `p`; there is one more piece than
there are such characters. -/
def pieces (p : Char → Bool) : List Char → List (List Char)
  | [] => [[]]
  | c :: cs =>
    if p c then [] :: pieces p cs
    else
      match pieces p cs with
      | [] => [[c]]
      | piece :: more => (c :: piece) :: more

theorem pieces_eq_splitOnP (p : Char → Bool) (cs : List Char) : pieces p cs = cs.splitOnP p := by
  induction cs with
  | nil => rfl
  | cons c cs ih =>
    rw [pieces, List.splitOnP_cons_eq_if_modifyHead, ih]
    split
    · rfl
    · cases hsplit : cs.splitOnP p with
      | nil => exact absurd hsplit (List.splitOnP_ne_nil p cs)
      | cons piece more => rfl

theorem pieces_eq_splitOn (c : Char) (cs : List Char) : pieces (· = c) cs = cs.splitOn c :=
  pieces_eq_splitOnP _ _

theorem pieces_ne_nil (p : Char → Bool) (cs : List Char) : pieces p cs ≠ [] := by
  rw [pieces_eq_splitOnP]
  exact List.splitOnP_ne_nil p cs

/-- The words of a text: its non-empty pieces between white space. -/
def words (cs : List Char) : List (List Char) := (pieces isBlank cs).filter (· ≠ [])

/-- The text with its words separated by single spaces. -/
def unwrap (cs : List Char) : List Char := [' '].intercalate (words cs)

/-- The text in front of the first `c`, and the text behind it. -/
def cutAt (c : Char) (cs : List Char) : List Char × List Char :=
  (cs.takeWhile (· ≠ c), (cs.dropWhile (· ≠ c)).drop 1)

/-- Trimming on strings. -/
def trimmed (s : String) : String := String.ofList (trim s.toList)

end AbiIndex.Text
