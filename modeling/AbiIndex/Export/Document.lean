import AbiIndex.Export.View
import AbiIndex.Json.Printer
import AbiIndex.Timestamp

/-!
# Exports as JSON

The whole result as one document. Fields that apply to one kind of record only are left out of the
others, and so are parts of a documentation that say nothing.
-/

namespace AbiIndex.Export

open AbiIndex.Abi AbiIndex.Source

/-- A field that is left out if its text is missing or empty. -/
def textField (name : String) (text : Option String) : List (String × JsonValue) :=
  match text with
  | some s => if s = "" then [] else [(name, .str s)]
  | none => []

/-- A field that is left out if there are no entries. -/
def entriesField (name : String) (entries : Entries) : List (String × JsonValue) :=
  if entries = [] then [] else [(name, .obj (entries.map fun e => (e.1, .str e.2)))]

/-- The documentation of a record. -/
def natspecDocument (n : Natspec) : JsonValue :=
  .obj (textField "notice" n.notice ++ textField "dev" n.dev ++ entriesField "params" n.params
    ++ entriesField "returns" n.returns ++ entriesField "custom" n.custom)

/-- A parameter of a record. -/
def inputDocument (p : Input) : JsonValue :=
  .obj [("name", .str p.name), ("type", .str p.type), ("indexed", .bool p.indexed)]

/-- A record. -/
def recordDocument (r : Record) : JsonValue :=
  .obj ([("name", .str r.name), ("kind", .str r.kind.name), ("signature", .str r.signature),
      ("selector", .str r.selector), ("contract", .ofText? r.contract), ("path", .str r.path),
      ("line", .num r.line), ("inputs", .arr (r.inputs.map inputDocument))]
    ++ (if r.kind = .function then
        [("visibility", .ofText? r.visibility),
         ("state_mutability", .ofText? r.mutability),
         ("returns", .texts r.returns)]
      else [])
    ++ (if r.kind = .event then [("anonymous", .bool r.anonymous)] else [])
    ++ (match r.project with | some p => [("project", .str p)] | none => [])
    ++ (match r.natspec with | some n => [("natspec", natspecDocument n)] | none => []))

/-- A contract with the shown ones of its records. -/
def contractDocument (c : Scan.ContractRecords) : JsonValue :=
  .obj [("name", .str c.name), ("kind", .str c.kind.name), ("path", .str c.path),
    ("category", .str c.category.name), ("project", .ofText? c.project),
    ("bases", .texts c.bases),
    ("special_functions", .texts c.specialFunctions),
    ("records", .arr (c.records.map recordDocument))]

/-- A collision. -/
def collisionDocument (c : Collision) : JsonValue :=
  .obj [("selector", .str c.selector), ("kind", .str c.kind.name),
    ("signatures", .texts c.signatures), ("locations", .texts c.locations)]

/-- A report. -/
def diagnosticDocument (d : Diagnostic) : JsonValue :=
  .obj [("kind", .str d.kind.name), ("message", .str d.message), ("path", .ofText? d.path),
    ("line", match d.line with | some n => .num n | none => .null),
    ("construct", .ofText? d.construct)]

/-- The numbers of what was found. -/
def totalsDocument (t : Scan.Totals) : JsonValue :=
  .obj [("contracts", .num t.contracts), ("functions", .num t.functions),
    ("external_functions", .num t.externalFunctions),
    ("internal_functions", .num t.internalFunctions), ("events", .num t.events),
    ("errors", .num t.errors), ("collisions", .num t.collisions)]

/-- The classification of a project. -/
def projectDocument (info : Project.Info) : JsonValue :=
  .obj [("type", .str info.layout.name), ("root", .str info.root.render),
    ("source_root", .str info.sourceRoot.render), ("marker", .ofText? info.marker)]

/-- The document of a result that was found at the given time. -/
def View.document (v : View) (time : Timestamp) : JsonValue :=
  let r := v.result
  .obj [("project", projectDocument r.project), ("scanned_at", .str time.iso),
    ("partial", .bool r.isPartial), ("files_scanned", .num r.filesScanned),
    ("totals", totalsDocument r.totals),
    ("contracts", .arr (v.contracts.map contractDocument)),
    ("free_records", .arr (v.freeRecords.map recordDocument)),
    ("collisions", .arr (r.collisions.map collisionDocument)),
    ("diagnostics", .arr (r.diagnostics.map diagnosticDocument))]

/-- The text of the document. -/
def View.json (v : View) (time : Timestamp) : String := (v.document time).render ++ "\n"

end AbiIndex.Export
