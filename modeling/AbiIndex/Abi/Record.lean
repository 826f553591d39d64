import AbiIndex.Abi.Signature
import AbiIndex.Source.Declaration

/-!
# Records

A record is one function, event or error with its signature and selector.
-/

namespace AbiIndex.Abi

open AbiIndex.Source

/-- A parameter with its canonical type. -/
structure Input where
  name : String
  type : String
  indexed : Bool
deriving DecidableEq

/-- A declaration with its selector. The words for its visibility and its mutability are kept as
they are shown. The project is set when several projects are looked at together. -/
structure Record where
  name : String
  signature : String
  selector : String
  kind : SignatureKind
  path : String
  contract : Option String
  visibility : Option String
  mutability : Option String
  inputs : List Input
  returns : List String
  anonymous : Bool
  line : Int
  natspec : Option Natspec
  project : Option String
deriving DecidableEq

/-- Whether a transaction can call it: a public or external function. -/
def Record.isCallable (r : Record) : Bool :=
  r.kind = .function
    && (r.visibility = some Visibility.pub.name || r.visibility = some Visibility.external.name)

end AbiIndex.Abi
