import AbiIndex.Text.Case
import AbiIndex.Text.Lines
import AbiIndex.Text.Word

/-!
# Documentation tags

A documentation comment holds tags: an `@`, a name, white space and a text. The text runs on over
line breaks until the next `@`; a line break that only white space separates from an `@` no longer
belongs to it. `Natspec.parse` sorts the tags of a comment by what they describe.
-/

namespace AbiIndex.Source

open AbiIndex.Text

/-- Named texts in the order in which the names first occurred. -/
abbrev Entries := List (String × String)

/-- Sets the text of a name. A name that is there already keeps its place. -/
def Entries.put (key value : String) : Entries → Entries
  | [] => [(key, value)]
  | (k, v) :: rest => if k = key then (k, value) :: rest else (k, v) :: put key value rest

/-- What a documentation comment says. -/
structure Natspec where
  notice : Option String
  dev : Option String
  params : Entries
  returns : Entries
  custom : Entries
deriving DecidableEq

namespace Natspec

/-- A documentation that says nothing. -/
def empty : Natspec := ⟨none, none, [], [], []⟩

/-- Whether there is anything to tell: a text that is not empty, or an entry of any kind. -/
def isVoid (doc : Natspec) : Bool :=
  doc.notice.getD "" = "" && doc.dev.getD "" = "" && doc.params.isEmpty && doc.returns.isEmpty
    && doc.custom.isEmpty

/-- A tag of a comment: its name in lower case, and its text with single spaces. -/
structure Tag where
  name : String
  text : String
deriving DecidableEq

/-- The name of a tag, a word or two words with a colon between them, and the rest. -/
def readName (cs : List Char) : List Char × List Char :=
  let first := cs.takeWhile isWordChar
  match cs.dropWhile isWordChar with
  | ':' :: more =>
    if first ≠ [] ∧ (more.head?.map isWordChar).getD false then
      (first ++ ':' :: more.takeWhile isWordChar, more.dropWhile isWordChar)
    else (first, ':' :: more)
  | rest => (first, rest)

/-- The text of a tag and what follows it: everything up to an `@`, and up to a line break behind
which an `@` comes first. -/
def readText : List Char → List Char × List Char
  | [] => ([], [])
  | c :: rest =>
    -- the line break in front of the next tag stays with that tag
    if c = '@' ∨ (c = '\n' ∧ (rest.dropWhile isBlank).head? = some '@') then ([], c :: rest)
    else (c :: (readText rest).1, (readText rest).2)

/-- The tag whose `@` stands right before the text, and what follows it. The name must not be
empty and must be followed by white space. -/
def readTag (cs : List Char) : Option (Tag × List Char) :=
  let (name, rest) := readName cs
  if name = [] ∨ ¬ (rest.head?.map isBlank).getD false then none
  else
    let (text, after) := readText (rest.dropWhile isBlank)
    some (⟨String.ofList (lower name), String.ofList (unwrap text)⟩, after)

/-! ## Reading a tag moves forward -/

theorem length_dropWhile_le (p : Char → Bool) (cs : List Char) :
    (cs.dropWhile p).length ≤ cs.length :=
  (List.dropWhile_sublist p).length_le

theorem readName_length (cs : List Char) : (readName cs).2.length ≤ cs.length := by
  have h := length_dropWhile_le isWordChar cs
  unfold readName
  split
  · rename_i more heq
    rw [heq] at h
    dsimp only
    split
    · have := length_dropWhile_le isWordChar more
      simp only [List.length_cons] at h ⊢
      omega
    · exact h
  · exact h

theorem readText_length (cs : List Char) : (readText cs).2.length ≤ cs.length := by
  fun_induction readText cs with
  | case1 => simp
  | case2 => simp
  | case3 c rest _ ih => exact Nat.le_succ_of_le ih

theorem readTag_length {cs after : List Char} {tag : Tag} (h : readTag cs = some (tag, after)) :
    after.length ≤ cs.length := by
  unfold readTag at h
  split at h
  rename_i name rest hname
  split at h
  · simp at h
  · obtain ⟨-, rfl⟩ : _ ∧ _ := by simpa using h
    have h₁ := readText_length (rest.dropWhile isBlank)
    have h₂ := length_dropWhile_le isBlank rest
    have h₃ := readName_length cs
    rw [hname] at h₃
    exact Nat.le_trans h₁ (Nat.le_trans h₂ h₃)

/-- The tags of a comment, from left to right. -/
def tags (cs : List Char) : List Tag :=
  match cs with
  | [] => []
  | c :: rest =>
    if c = '@' then
      match _h : readTag rest with
      | some (tag, after) => tag :: tags after
      -- a lone `@` is ordinary text
      | none => tags rest
    else tags rest
termination_by cs.length
decreasing_by
  · have := readTag_length _h
    simp only [List.length_cons]
    omega
  all_goals simp

/-- The text in front of the first `@` that a word character follows; all of it if there is
none. -/
def leading : List Char → List Char
  | [] => []
  | c :: rest =>
    if c = '@' ∧ (rest.head?.map isWordChar).getD false then [] else c :: leading rest

/-- Adds a tag. A parameter without a description is left out; a returned value without a
description has the empty name. -/
def add (doc : Natspec) (tag : Tag) : Natspec :=
  let (name, description) := cutAt ' ' tag.text.toList
  let key := String.ofList name
  let text := String.ofList description
  match tag.name with
  | "notice" => { doc with notice := some tag.text }
  | "dev" => { doc with dev := some tag.text }
  | "param" => if text = "" then doc else { doc with params := doc.params.put key text }
  | "return" | "returns" =>
    if text = "" then { doc with returns := doc.returns.put "" tag.text }
    else { doc with returns := doc.returns.put key text }
  | other => { doc with custom := doc.custom.put other tag.text }

/-- The documentation of a comment. The text in front of the first tag is its notice, unless a tag
gives one. A comment that says nothing is no documentation. -/
def parse (comment : String) : Option Natspec :=
  let cs := comment.toList
  if trim cs = [] then none
  else
    let opening := trim (leading cs)
    let notice := if opening = [] then none else some (String.ofList opening)
    let start := { empty with notice := notice }
    let doc := (tags cs).foldl add start
    if doc.isVoid then none else some doc

end Natspec

end AbiIndex.Source
