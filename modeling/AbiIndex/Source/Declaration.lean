import AbiIndex.Source.Natspec
import AbiIndex.Source.TypeRef
import AbiIndex.UnknownName

/-!
# Declarations

What a source file declares: functions, events, errors, structs, enums, value types, constants and
the contracts that hold them, each with the line of its keyword. A `SourceUnit` is one file.
-/

namespace AbiIndex.Source

inductive ContractKind where
  | contract
  | interface
  | library
  | abstract
deriving DecidableEq

/-- Apart from ordinary functions there are the constructor, the fallback and the receive
function, which have no selector. -/
inductive FunctionKind where
  | function
  | constructor
  | fallback
  | receive
deriving DecidableEq

inductive Visibility where
  | pub
  | external
  | internal
  | priv
deriving DecidableEq

inductive Mutability where
  | pure
  | view
  | payable
  | nonpayable
deriving DecidableEq

def ContractKind.name : ContractKind → String
  | contract => "contract"
  | interface => "interface"
  | library => "library"
  | abstract => "abstract"

def ContractKind.ofName? : String → Option ContractKind
  | "contract" => some contract
  | "interface" => some interface
  | "library" => some library
  | "abstract" => some abstract
  | _ => none

/-- The kind with a name. -/
def ContractKind.named (s : String) : Except UnknownName ContractKind :=
  UnknownName.check "ContractKind" ofName? s

def FunctionKind.name : FunctionKind → String
  | function => "function"
  | constructor => "constructor"
  | fallback => "fallback"
  | receive => "receive"

def Visibility.name : Visibility → String
  | pub => "public"
  | external => "external"
  | internal => "internal"
  | priv => "private"

def Visibility.ofName? : String → Option Visibility
  | "public" => some pub
  | "external" => some external
  | "internal" => some internal
  | "private" => some priv
  | _ => none

def Mutability.name : Mutability → String
  | pure => "pure"
  | view => "view"
  | payable => "payable"
  | nonpayable => "nonpayable"

/-- The mutability that a word states. The old word `constant` means `view`. -/
def Mutability.ofWord? : String → Option Mutability
  | "pure" => some pure
  | "view" => some view
  | "payable" => some payable
  | "nonpayable" => some nonpayable
  | "constant" => some view
  | _ => none

/-- A parameter, a struct field or a returned value. The name may be empty. -/
structure Parameter where
  name : String
  type : TypeRef
  indexed : Bool
deriving DecidableEq

structure FunctionDecl where
  name : String
  parameters : List Parameter
  kind : FunctionKind
  visibility : Visibility
  mutability : Mutability
  /-- Whether the visibility is written in the source. -/
  visibilityExplicit : Bool
  returns : List Parameter
  modifiers : List String
  isVirtual : Bool
  isOverride : Bool
  line : Nat
  natspec : Option Natspec
deriving DecidableEq

structure EventDecl where
  name : String
  parameters : List Parameter
  anonymous : Bool
  line : Nat
  natspec : Option Natspec
deriving DecidableEq

structure ErrorDecl where
  name : String
  parameters : List Parameter
  line : Nat
  natspec : Option Natspec
deriving DecidableEq

structure StructDecl where
  name : String
  fields : List Parameter
  line : Nat
deriving DecidableEq

structure EnumDecl where
  name : String
  members : List String
  line : Nat
deriving DecidableEq

/-- A named type over an underlying one. -/
structure ValueTypeDecl where
  name : String
  underlying : TypeRef
  line : Nat
deriving DecidableEq

/-- A constant with a number literal as its value. -/
structure ConstantDecl where
  name : String
  value : String
  line : Nat
deriving DecidableEq

structure ContractDecl where
  name : String
  kind : ContractKind
  bases : List String
  functions : List FunctionDecl
  events : List EventDecl
  errors : List ErrorDecl
  structs : List StructDecl
  enums : List EnumDecl
  valueTypes : List ValueTypeDecl
  constants : List ConstantDecl
  modifiers : List String
  line : Nat
  natspec : Option Natspec
deriving DecidableEq

/-- The kinds of the functions without a selector, in order. -/
def ContractDecl.specialFunctions (c : ContractDecl) : List FunctionKind :=
  (c.functions.map (·.kind)).filter (· ≠ .function)

end AbiIndex.Source
