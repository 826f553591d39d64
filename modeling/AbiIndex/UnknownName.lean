import AbiIndex.Text.Quoted

/-!
# Words that name nothing

Kinds of things are read from words. A word that is none of theirs is refused, with the family of
kinds that it was taken for.
-/

namespace AbiIndex

/-- A word that names none of a family of kinds. -/
structure UnknownName where
  family : String
  word : String
deriving DecidableEq

namespace UnknownName

/-- The wording of the refusal. -/
def message (e : UnknownName) : String := s!"{Text.quoted e.word} is not a valid {e.family}"

/-- What a word names, or its refusal. -/
def check {α : Type} (family : String) (find? : String → Option α) (word : String) :
    Except UnknownName α :=
  match find? word with
  | some a => .ok a
  | none => .error ⟨family, word⟩

end UnknownName

end AbiIndex
