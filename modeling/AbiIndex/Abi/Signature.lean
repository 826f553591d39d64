import AbiIndex.Digest.Hex
import AbiIndex.Digest.Keccak
import AbiIndex.Text.Utf8
import AbiIndex.UnknownName

/-!
# Signatures and selectors

A signature is a name and the canonical types of its parameters, without any white space. Its
selector is the beginning of its Keccak-256 digest: four bytes for functions and errors, all of it
for events.
-/

namespace AbiIndex.Abi

/-- What a signature belongs to. -/
inductive SignatureKind where
  | function
  | event
  | error
deriving DecidableEq

namespace SignatureKind

def name : SignatureKind → String
  | function => "function"
  | event => "event"
  | error => "error"

def ofName? : String → Option SignatureKind
  | "function" => some function
  | "event" => some event
  | "error" => some error
  | _ => none

/-- The kind with a name. -/
def named (s : String) : Except UnknownName SignatureKind :=
  UnknownName.check "SignatureKind" ofName? s

end SignatureKind

/-- The signature with the given name and parameter types. -/
def signature (name : String) (types : List String) : String :=
  name ++ "(" ++ ",".intercalate types ++ ")"

/-- The digest of a signature. -/
def signatureDigest (signature : String) : List UInt8 :=
  Digest.Keccak.digest (Text.Utf8.encode signature)

/-- The first four bytes of the digest. -/
def functionSelector (signature : String) : String :=
  "0x" ++ Digest.hex ((signatureDigest signature).take 4)

/-- The whole digest, by which logs name an event. -/
def eventTopic (signature : String) : String := "0x" ++ Digest.hex (signatureDigest signature)

/-- The selector of a signature of the given kind. -/
def selector (kind : SignatureKind) (signature : String) : String :=
  match kind with
  | .event => eventTopic signature
  | _ => functionSelector signature

end AbiIndex.Abi
