import AbiIndex.Abi.Signature
import AbiIndex.Json.Value
import AbiIndex.Scan.Run
import AbiIndex.Service.Target

/-!
# The service

Answers requests about scans and selectors. A request names a route, and its body holds the
parameters. Parameters of a wrong kind are refused before anything is done.
-/

namespace AbiIndex.Service

open AbiIndex.Abi

/-- A request. -/
structure Request where
  method : String
  target : String
  body : JsonValue

/-- An answer with its status. -/
structure Response where
  status : Nat
  body : Option JsonValue

/-- The pages that tell about the service itself. -/
inductive Page where
  | schema
  | manual
  | manualSignIn
  | reference
deriving DecidableEq

def Page.path : Page → String
  | schema => "/openapi.json"
  | manual => "/docs"
  | manualSignIn => "/docs/oauth2-redirect"
  | reference => "/redoc"

/-- The places that can be asked. -/
inductive Route where
  | health
  | scan
  | selector
  | page (p : Page)
deriving DecidableEq

namespace Route

def path : Route → String
  | health => "/health"
  | scan => "/scan"
  | selector => "/selector"
  | page p => p.path

/-- The methods that a route answers to. -/
def methods : Route → List String
  | health => ["GET"]
  | scan => ["POST"]
  | selector => ["POST"]
  | page _ => ["GET", "HEAD"]

def all : List Route :=
  [health, scan, selector, page .schema, page .manual, page .manualSignIn, page .reference]

/-- The route of a target. Slashes at the end of its path do not count, nor does a line feed before
them. -/
def ofTarget? (target : String) : Option Route :=
  let path := Text.dropEndWhile (· = '/') (targetPath target)
  all.find? fun r => path = r.path.toList || path = r.path.toList ++ ['\n']

end Route

/-- A parameter that must be a text. -/
def text? (body : JsonValue) (name : String) : Option String :=
  match body.get? name with
  | some (.str s) => some s
  | _ => none

/-- A truth value, also as one of the usual words in any case, or as zero or one. -/
def truth? : JsonValue → Option Bool
  | .bool b => some b
  | .num 0 => some false
  | .num 1 => some true
  | .str s =>
    let word := String.ofList (s.toList.map Char.toLower)
    if word ∈ ["1", "on", "t", "true", "y", "yes"] then some true
    else if word ∈ ["0", "off", "f", "false", "n", "no"] then some false
    else none
  | _ => none

/-- A parameter with a value for when it is left out. -/
def optional {α : Type} (body : JsonValue) (name : String) (read : JsonValue → Option α)
    (other : α) : Option α :=
  match body.get? name with
  | none => some other
  | some v => read v

/-- A kind of signature by its name. -/
def kind? : JsonValue → Option SignatureKind
  | .str s => SignatureKind.ofName? s
  | _ => none

/-- A record in an answer. -/
def recordBody (r : Record) : JsonValue :=
  .obj [("name", .str r.name), ("kind", .str r.kind.name), ("signature", .str r.signature),
    ("selector", .str r.selector), ("visibility", .ofText? r.visibility),
    ("state_mutability", .ofText? r.mutability), ("line", .num r.line)]

/-- A contract in an answer. -/
def contractBody (c : Scan.ContractRecords) : JsonValue :=
  .obj [("name", .str c.name), ("kind", .str c.kind.name), ("path", .str c.path),
    ("project", .ofText? c.project), ("records", .arr (c.records.map recordBody))]

/-- A collision in an answer. -/
def collisionBody (c : Collision) : JsonValue :=
  .obj [("selector", .str c.selector), ("kind", .str c.kind.name),
    ("signatures", .texts c.signatures)]

/-- A report in an answer. -/
def diagnosticBody (d : Diagnostic) : JsonValue :=
  .obj [("kind", .str d.kind.name), ("message", .str d.message), ("path", .ofText? d.path),
    ("line", match d.line with | some n => .num n | none => .null)]

/-- The numbers in an answer. -/
def totalsBody (t : Scan.Totals) : JsonValue :=
  .obj [("contracts", .num t.contracts), ("functions", .num t.functions),
    ("external_functions", .num t.externalFunctions), ("events", .num t.events),
    ("errors", .num t.errors)]

/-- The answer about a result. -/
def resultBody (r : Scan.Result) : JsonValue :=
  .obj [("project_type", .str r.project.layout.name), ("root", .str r.project.root.render),
    ("partial", .bool r.isPartial), ("totals", totalsBody r.totals),
    ("contracts", .arr (r.contracts.map contractBody)),
    ("collisions", .arr (r.collisions.map collisionBody)),
    ("diagnostics", .arr (r.diagnostics.map diagnosticBody))]

/-- The answer to parameters that are refused. -/
def refused : Response := ⟨422, none⟩

/-- The explanation of a failure. -/
def detail (message : String) : Option JsonValue := some (.obj [("detail", .str message)])

/-- The answer to a scan that failed. -/
def failed : Scan.ScanError → Response
  | .discovery (.notFound given) =>
    ⟨404, detail (Project.DiscoveryError.notFound given).message⟩
  | .discovery (.notDirectory given) =>
    ⟨400, detail (Project.DiscoveryError.notDirectory given).message⟩
  | _ => ⟨500, none⟩

/-- Scans a directory, by itself or with all projects below it. -/
def scan (t : FileTree) (path : String) (recursive : Bool) : Response :=
  let session := Scan.Session.start .default (.new Scan.Cache.defaultLimit) fun _ => false
  let work : Scan.SessionM Scan.Result :=
    if recursive then do return (← Scan.scanAll t path).combined else Scan.scanProject t path
  match (work.exec session).1 with
  | .ok r => ⟨200, some (resultBody r)⟩
  | .error e => failed e

/-- Computes a selector; white space in the signature does not count. -/
def selector (signature : String) (kind : SignatureKind) : Response :=
  let signature := String.ofList (signature.toList.filter fun c => !Text.isBlank c)
  ⟨200, some (.obj [("signature", .str signature), ("kind", .str kind.name),
    ("selector", .str (Abi.selector kind signature))])⟩

/-- Answers a request on a route. The text of a page is no part of the answer. -/
def answer (t : FileTree) (body : JsonValue) : Route → Response
  | .health => ⟨200, some (.obj [("status", .str "ok")])⟩
  | .scan =>
    match text? body "path", optional body "recursive" truth? true with
    | some path, some recursive => scan t path recursive
    | _, _ => refused
  | .selector =>
    match text? body "signature", optional body "kind" kind? .function with
    | some signature, some kind => selector signature kind
    | _, _ => refused
  | .page _ => ⟨200, none⟩

/-- Answers a request. -/
def handle (t : FileTree) (r : Request) : Response :=
  match Route.ofTarget? r.target with
  | none => ⟨404, none⟩
  | some route =>
    if r.method.toUpper ∈ route.methods then answer t r.body route else ⟨405, none⟩

end AbiIndex.Service
