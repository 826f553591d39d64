import AbiIndex.Diagnostic
import AbiIndex.Text.Utf8

/-!
# The text of a source file

Source files are UTF-8. Bytes that are not are replaced, and the first line with such a byte is
reported.
-/

namespace AbiIndex.Source

/-- The text of a file, and the line of its first byte that is not UTF-8. -/
structure SourceText where
  text : List Char
  badLine : Option Nat

/-- The byte that ends a line. -/
def lineFeed : UInt8 := 10

/-- Reads the bytes of a file. Lines are counted in the bytes in front of the first bad one. -/
def SourceText.ofBytes (bytes : List UInt8) : SourceText :=
  let chars := Text.Utf8.decode bytes
  { text := Text.Utf8.decodeLossy bytes
    badLine :=
      if chars.all Option.isSome then none
      else some ((Text.Utf8.wellFormedPart bytes).count lineFeed + 1) }

/-- The report of bytes that are not UTF-8 in a file. -/
def encodingDiagnostic (path : String) (line : Nat) : Diagnostic :=
  ⟨.invalidEncoding,
    s!"{path} is not valid UTF-8; undecodable bytes from line {line} on were replaced",
    some path, some line, none⟩

/-- The reports about the text of a file. -/
def SourceText.diagnostics (s : SourceText) (path : String) : List Diagnostic :=
  match s.badLine with
  | none => []
  | some line => [encodingDiagnostic path line]

end AbiIndex.Source
