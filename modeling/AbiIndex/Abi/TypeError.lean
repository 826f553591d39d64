import AbiIndex.Diagnostic
import AbiIndex.Number.DigitLimit
import AbiIndex.Text.Quoted

/-!
# Types without a canonical form

The reasons why a type has no canonical form, and how each is worded. Most of them concern the one
declaration that uses the type; four end the work on the whole file.
-/

namespace AbiIndex.Abi

/-- Why a type has no canonical form. -/
inductive TypeError where
  | unknown (name : String)
  | ambiguous (name : String) (count : Nat)
  | recursive (struct : String)
  | constantAsType (type : String)
  | lengthNotInteger (length : String)
  | lengthNotConstant (length : String)
  | constantNotLiteral (length : String)
  | unsupported (type : String)
  | mapping (type : String)
  /-- A hexadecimal length without digits; the text is the length without underscores. -/
  | emptyLiteral (text : String)
  /-- A length with too many digits. -/
  | oversized (e : Number.TooLong)
  /-- A value type that stands for itself. -/
  | endless (name : String)
  /-- A dotted name without any part. -/
  | noName
deriving DecidableEq

namespace TypeError

/-- The wording of the failure. -/
def message : TypeError → String
  | unknown name => s!"unknown type '{name}'"
  | ambiguous name count => s!"ambiguous type '{name}' ({count} definitions)"
  | recursive struct => s!"struct '{struct}' is recursive"
  | constantAsType type => s!"'{type}' names a constant, not a type"
  | lengthNotInteger length => s!"array length '{length}' is not an integer constant"
  | lengthNotConstant length => s!"array length '{length}' is not a constant"
  | constantNotLiteral length => s!"constant '{length}' is not an integer literal"
  | unsupported type => s!"unsupported type reference {type}"
  | mapping type => s!"mapping type '{type}' cannot be an ABI parameter"
  | emptyLiteral text => s!"invalid literal for int() with base 16: {Text.quoted text}"
  | oversized e => e.message
  | endless _ => "maximum recursion depth exceeded"
  | noName => "tuple index out of range"

/-- The kind of report that the failure leads to, unless it ends the work on the file. -/
def diagnosticKind? : TypeError → Option DiagnosticKind
  | mapping _ => some .invalidParameterType
  | emptyLiteral _ => none
  | oversized _ => none
  | endless _ => none
  | noName => none
  | _ => some .unresolvableType

end TypeError

end AbiIndex.Abi
