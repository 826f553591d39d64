import AbiIndex.Calendar
import AbiIndex.Number.DigitLimit

/-!
# Faults of a document

Why a text has no value. Besides texts that are no documents, there are texts that look like a
number, a point in time or a character and are none.
-/

namespace AbiIndex.Yaml

/-- Why a text has no value. -/
inductive Fault where
  | malformed
  /-- A number with the mark of a base and no digits. -/
  | noDigits (base : Nat)
  | tooLong (e : Number.TooLong)
  | calendar (e : Calendar.Fault)
  /-- A number of a character that is beyond the last one. -/
  | beyondUnicode
  /-- A number of a character that needs more than 31 bits. -/
  | beyondWord
  /-- A floating-point number with more sexagesimal places than its range has. -/
  | tooManyPlaces
deriving DecidableEq

/-- The wording of the fault. -/
def Fault.message : Fault → String
  | malformed => "malformed document"
  | noDigits base => s!"invalid literal for int() with base {base}: ''"
  | tooLong e => e.message
  | calendar e => e.message
  | beyondUnicode => "chr() arg not in range(0x110000)"
  | beyondWord => "Python int too large to convert to C int"
  | tooManyPlaces => "int too large to convert to float"

end AbiIndex.Yaml
