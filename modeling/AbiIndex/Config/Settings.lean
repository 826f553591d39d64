import AbiIndex.Export.View
import AbiIndex.Scan.Session
import AbiIndex.Text.Integer
import AbiIndex.Yaml.Value

/-!
# Settings of a project

What a configuration says about scanning and exporting. Values are taken leniently: numbers and
truth values may be written as texts, lists as texts with commas, and what makes no sense is as good
as left out.
-/

namespace AbiIndex.Config

open AbiIndex.Yaml (Value)

/-- How to scan. -/
structure ScanSettings where
  excludeDirs : List String
  maxWorkers : Option Int
  maxDepth : Int
  includeTests : Bool
deriving DecidableEq

/-- What to export, and where to. -/
structure ExportSettings where
  formats : List String
  outputDir : Option Path
  includeInternal : Bool
  includePrivate : Bool
  includeEvents : Bool
  includeErrors : Bool
deriving DecidableEq

namespace ScanSettings

/-- The settings of a project that configures nothing. -/
def default : ScanSettings := ⟨[], none, 8, true⟩

end ScanSettings

namespace ExportSettings

/-- The settings of a project that configures nothing. -/
def default : ExportSettings := ⟨Export.defaultFormats, none, false, false, true, true⟩

end ExportSettings

/-! ## Lenient values -/

/-- A whole number, or a text that is one. -/
def asInt? : Value → Option Int
  | .int n => some n
  | .text s => Text.integer? s
  | _ => none

/-- A truth value, or a text that is one in any case. -/
def asBool? : Value → Option Bool
  | .bool b => some b
  | .text s =>
    let word := String.ofList (Text.lower (Text.trim s.toList))
    if word ∈ ["true", "yes", "1"] then some true
    else if word ∈ ["false", "no", "0"] then some false
    else none
  | _ => none

/-- The texts of a list, or those between the commas of a text. -/
def asTexts : Value → Except Number.TooLong (List String)
  | .text s =>
    .ok (((Text.pieces (· = ',') s.toList).map Text.trim).filterMap fun cs =>
      if cs = [] then none else some (String.ofList cs))
  | .list items => (items.mapM Value.asText?).map (·.filterMap id)
  | _ => .ok []

/-- The texts under a key of a section; there are none if the key is missing. -/
def textsAt (v : Value) (name : String) : Except Number.TooLong (List String) :=
  match v.get? name with
  | some value => asTexts value
  | none => .ok []

/-- The text under a key of a section. -/
def textAt? (v : Value) (name : String) : Except Number.TooLong (Option String) :=
  match v.get? name with
  | some value => value.asText?
  | none => .ok none

/-! ## Sections -/

/-- The settings of a section on scanning. -/
def ScanSettings.ofSection (v : Value) : Except Number.TooLong ScanSettings := do
  let d := ScanSettings.default
  return {
    excludeDirs := ← textsAt v "exclude_dirs"
    maxWorkers := (v.get? "max_workers").bind asInt?
    maxDepth := (((v.get? "max_depth").bind asInt?).filter (0 ≤ ·)).getD d.maxDepth
    includeTests := ((v.get? "include_tests").bind asBool?).getD d.includeTests }

/-- The settings of a section on exports in the project at `root`. -/
def ExportSettings.ofSection (root : Path) (v : Value) :
    Except Number.TooLong ExportSettings := do
  let d := ExportSettings.default
  let flag := fun name other => ((v.get? name).bind asBool?).getD other
  let formats := (← textsAt v "formats").map fun s => String.ofList (Text.lower s.toList)
  let dir ← textAt? v "output_dir"
  return {
    formats := if formats = [] then d.formats else formats
    outputDir := (dir.filter (· ≠ "")).map fun s => root.join (Path.parse s)
    includeInternal := flag "include_internal" d.includeInternal
    includePrivate := flag "include_private" d.includePrivate
    includeEvents := flag "include_events" d.includeEvents
    includeErrors := flag "include_errors" d.includeErrors }

end AbiIndex.Config

namespace AbiIndex

/-- The configuration of the project at `root`. -/
structure Config where
  root : Path
  scanning : Config.ScanSettings
  exporting : Config.ExportSettings
deriving DecidableEq

namespace Config

open AbiIndex.Yaml (Value)

/-- The configuration of a project that configures nothing. -/
def default (root : Path) : Config := ⟨root, .default, .default⟩

/-- The configuration in a mapping. A section that is no mapping configures nothing. It fails if a
number is too long to be taken as a text. -/
def ofMapping (root : Path) (v : Value) : Except Number.TooLong Config := do
  return {
    root := root
    scanning := ← ScanSettings.ofSection ((v.get? "scan").getD .null)
    exporting := ← ExportSettings.ofSection root ((v.get? "export").getD .null) }

/-- The settings of a scan. -/
def scanSettings (c : Config) : Scan.Settings :=
  { maxWorkers := c.scanning.maxWorkers
    excludeDirs := c.scanning.excludeDirs
    maxDepth := c.scanning.maxDepth
    includeTests := c.scanning.includeTests
    raiseOnCancel := false }

/-- The options of an export. Without a directory, it goes next to the configuration. -/
def exportOptions (c : Config) : Export.Options :=
  { outputDir := c.exporting.outputDir.getD (c.root.child "signatures")
    formats := c.exporting.formats
    includeInternal := c.exporting.includeInternal
    includePrivate := c.exporting.includePrivate
    includeEvents := c.exporting.includeEvents
    includeErrors := c.exporting.includeErrors
    basename := Export.defaultBasename }

end Config

end AbiIndex
