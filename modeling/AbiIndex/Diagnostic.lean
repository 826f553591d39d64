import AbiIndex.UnknownName

/-!
# Diagnostics

A problem that was found on the way and did not stop the work.
-/

namespace AbiIndex

inductive DiagnosticKind where
  | unparseableFile
  | malformedDeclaration
  | invalidParameterType
  | unresolvableType
  | selectorCollision
  | implicitVisibility
  | invalidEncoding
deriving DecidableEq

namespace DiagnosticKind

def name : DiagnosticKind → String
  | unparseableFile => "unparseable_file"
  | malformedDeclaration => "malformed_declaration"
  | invalidParameterType => "invalid_parameter_type"
  | unresolvableType => "unresolvable_type"
  | selectorCollision => "selector_collision"
  | implicitVisibility => "implicit_visibility"
  | invalidEncoding => "invalid_encoding"

def all : List DiagnosticKind :=
  [unparseableFile, malformedDeclaration, invalidParameterType, unresolvableType,
   selectorCollision, implicitVisibility, invalidEncoding]

def ofName? (s : String) : Option DiagnosticKind := all.find? (·.name = s)

/-- The kind with a name. -/
def named (s : String) : Except UnknownName DiagnosticKind :=
  UnknownName.check "DiagnosticKind" ofName? s

end DiagnosticKind

/-- A problem, with the file, the line and the construct it belongs to as far as they are known. -/
structure Diagnostic where
  kind : DiagnosticKind
  message : String
  path : Option String
  line : Option Int
  construct : Option String
deriving DecidableEq

end AbiIndex
