import AbiIndex.Export.Csv
import AbiIndex.Export.Document
import AbiIndex.Export.Markdown
import AbiIndex.Export.PlainText
import AbiIndex.Log

/-!
# Writing exports

One file for each format. Unknown formats are refused before anything is changed. A file that
cannot be written ends the export, and so does a text that cannot be encoded, whose file has been
emptied by then. Files that were written before stay.
-/

namespace AbiIndex.Export

/-- Why an export was not finished. -/
inductive ExportError where
  | unsupported (names : List String)
  | directory (dir : Path) (e : TreeError)
  | file (e : TreeError)
  | unencodable (reason : String)
deriving DecidableEq

/-- The wording of the failure. -/
def ExportError.message : ExportError → String
  | unsupported names =>
    "Unsupported export format(s): " ++ ", ".intercalate names ++ " (expected one of "
      ++ ", ".intercalate (Format.all.map (·.name)) ++ ")"
  | directory dir e => s!"Unable to create output directory {dir.render}: {e.message}"
  | file e => e.message
  | unencodable reason => reason

/-- The failure to make the directory of an export. A path that no directory can have is no matter
of the directory. -/
def ExportError.ofDirectory (dir : Path) : TreeError → ExportError
  | .nullCharacter => file .nullCharacter
  | e => directory dir e

/-- The bytes of a text, or why it has none. The name of a file can hold bytes that are no text, and
what stands for them in a document is refused when the document is written. -/
abbrev Encoder := String → Except String (List UInt8)

/-- Every text that holds nothing but characters has bytes. -/
def utf8 : Encoder := fun text => .ok (Text.Utf8.encode text)

/-- What an export leaves to the platform: whether a carriage return is a reason to quote a field of
comma-separated values, and how documents become bytes. -/
structure Platform where
  quotesReturns : Bool := false
  encode : Encoder := utf8

/-- The document of a view in one format. -/
def render (platform : Platform) (v : View) (time : Timestamp) : Format → String
  | .txt => v.plainText
  | .json => v.json time
  | .csv => v.csv platform.quotesReturns
  | .md => v.markdown

/-- The requested formats, each once, or the names of those that there are not. -/
def Options.chosen (o : Options) : Except ExportError (List Format) :=
  let names := Format.normalize o.formats
  match names.filter fun n => (Format.ofName? n).isNone with
  | [] => .ok (names.filterMap Format.ofName?).eraseDups
  | unknown => .error (.unsupported unknown)

/-- The file of one format. -/
def Options.target (o : Options) (f : Format) : Path :=
  o.outputDir.join (Path.parse s!"{o.basename}.{f.name}")

/-- What an export did: the tree after it, and the files that were written, all of them or those up
to a failure. -/
structure Outcome where
  tree : FileTree
  written : List Path
  error : Option ExportError

namespace Outcome

/-- The files of a finished export, or why it was not finished. -/
def result (o : Outcome) : Except ExportError (List Path) :=
  match o.error with
  | none => .ok o.written
  | some e => .error e

/-- The messages about an export. -/
def log (o : Outcome) : List Log.Entry :=
  o.written.map fun p => ⟨.info, "export", s!"Wrote {p.render}"⟩

end Outcome

/-- Writes files one after the other, up to the first failure. -/
def writeAll (encode : Encoder) (t : FileTree) : List (Path × String) → Outcome
  | [] => ⟨t, [], none⟩
  | (path, text) :: rest =>
    -- the file is opened, which empties it, before its text is encoded
    match t.write path ((encode text).toOption.getD []), encode text with
    | .error e, _ => ⟨t, [], some (.file e)⟩
    | .ok t', .error reason => ⟨t', [], some (.unencodable reason)⟩
    | .ok t', .ok _ =>
      let o := writeAll encode t' rest
      { o with written := path :: o.written }

/-- Exports a result. -/
def run (t : FileTree) (o : Options) (time : Timestamp) (result : Scan.Result)
    (platform : Platform := {}) : Outcome :=
  match o.chosen with
  | .error e => ⟨t, [], some e⟩
  | .ok formats =>
    match t.ensureDirs o.outputDir with
    | (t', some e) => ⟨t', [], some (.ofDirectory o.outputDir e)⟩
    | (t', none) =>
      let view := View.of o result
      writeAll platform.encode t' (formats.map fun f => (o.target f, render platform view time f))

end AbiIndex.Export
