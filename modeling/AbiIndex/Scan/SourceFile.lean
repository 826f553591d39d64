import AbiIndex.Abi.Resolution
import AbiIndex.Digest.Hex
import AbiIndex.Digest.Sha256
import AbiIndex.Scan.Session
import AbiIndex.Source.SourceText

/-!
# Files of a scan

What a scan does with one file: reading it, looking it up among the parsed files, and reading its
declarations if it is not there. A file that cannot be read or parsed contributes only a report.
-/

namespace AbiIndex.Scan

open AbiIndex.Abi AbiIndex.Source

/-- What one file contributed. -/
structure FileOutcome where
  unit : Option SourceUnit
  diagnostics : List Diagnostic

/-- A file that has been read, with its name in the project. -/
structure LoadedFile where
  path : Path
  label : String
  source : SourceText

/-- Reads the file at `path` of the project at `root`. -/
def LoadedFile.load (t : FileTree) (root path : Path) : Except TreeError LoadedFile :=
  match t.read path with
  | .ok bytes => .ok ⟨path, root.label path, .ofBytes bytes⟩
  | .error e => .error e

namespace FileOutcome

/-- The outcome of a file that cannot be read. -/
def unreadable (label : String) (e : TreeError) : FileOutcome :=
  ⟨none, [⟨.unparseableFile, s!"unreadable file: {e.message}", some label, none, none⟩]⟩

/-- The outcome of a file whose declarations were read, or that has none because of `e`. -/
def ofUnit (file : LoadedFile) : Except Unterminated SourceUnit → FileOutcome
  | .ok unit => ⟨some unit, file.source.diagnostics file.label⟩
  | .error e =>
    ⟨none, file.source.diagnostics file.label
      ++ [⟨.unparseableFile, e.message, some file.label, some e.line, none⟩]⟩

end FileOutcome

namespace LoadedFile

/-- The name of the file among the parsed files. -/
def key (f : LoadedFile) : String := f.path.render

/-- The fingerprint of the contents. -/
def fingerprint (f : LoadedFile) : String :=
  Digest.hex (Digest.Sha256.digest (Text.Utf8.encode (String.ofList f.source.text)))

/-- The declarations of the file. -/
def extract (f : LoadedFile) : Except Unterminated SourceUnit :=
  SourceUnit.extract f.source.text f.label

/-- Looks the file up among the parsed files. A parsed file under another name is of no use. -/
def lookUp (f : LoadedFile) (cache : Cache SourceUnit) :
    Option SourceUnit × Cache SourceUnit :=
  let (found, cache) := cache.get f.key f.fingerprint
  (found.filter (·.path = f.label), cache)

/-- Keeps what was read from the file, or forgets the file if nothing could be read. -/
def remember (f : LoadedFile) (cache : Cache SourceUnit) :
    Except Unterminated SourceUnit → Cache SourceUnit
  | .ok unit => cache.store f.key f.fingerprint unit
  | .error _ => cache.invalidate f.key

end LoadedFile

/-- A message of the scan. -/
def message (level : Log.Level) (text : String) : Log.Entry := ⟨level, "scanner", text⟩

/-- The work on one file of the project at `root`, unless it is time to stop. -/
def extractFile (t : FileTree) (root path : Path) : SessionM (Option FileOutcome) := do
  if ← SessionM.poll then return none
  match LoadedFile.load t root path with
  | .error e =>
    SessionM.report [message .warning s!"Unable to read {path.render}: {e.message}"]
    return some (.unreadable (root.label path) e)
  | .ok file =>
    SessionM.report ((file.source.diagnostics file.label).map fun d => message .warning d.message)
    -- a look-up changes the store even if nothing comes of it
    let (found, cache) := file.lookUp (← get).cache
    modify fun s => { s with cache := cache }
    match found with
    | some unit => return some (.ofUnit file (.ok unit))
    | none =>
      let extracted := file.extract
      SessionM.countExtraction
      if let .error e := extracted then
        SessionM.report
          [message .warning s!"Skipping unparseable file {file.label}: {e.message}"]
      modify fun s => { s with cache := file.remember s.cache extracted }
      return some (.ofUnit file extracted)

/-- The message about a declaration that was dropped. -/
def droppedMessage (d : Diagnostic) : Log.Entry :=
  let path := d.path.getD ""
  ⟨.debug, "parser", s!"{path}:{d.line.getD 0} {d.message}"⟩

/-- The resolution of one file against the names of its project, unless it is time to stop. -/
def resolveFile (reg : Registry) (unit : SourceUnit) : SessionM (Option ResolvedUnit) := do
  if ← SessionM.poll then return none
  let resolved := resolveUnit reg unit
  -- a resolution that fails counts as well
  SessionM.countResolution
  match resolved with
  | .error e => throw (.type e)
  | .ok r =>
    SessionM.report (r.dropped.map droppedMessage)
    return some r

/-- Why a single file gives no records. -/
inductive FileError where
  | unreadable (e : TreeError)
  | parse (e : ParseError)

/-- Reads a single file and resolves it against its own names. -/
def parseFile (t : FileTree) (path : Path) : Except FileError ResolvedUnit :=
  match t.read path with
  | .error e => .error (.unreadable e)
  | .ok bytes =>
    let source := SourceText.ofBytes bytes
    match parse source.text path.render with
    | .error e => .error (.parse e)
    | .ok r =>
      .ok { r with unit := { r.unit with
        diagnostics := source.diagnostics path.render ++ r.unit.diagnostics } }

end AbiIndex.Scan
