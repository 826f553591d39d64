import AbiIndex.Export.Run
import AbiIndex.Proofs.JsonReading
import Mathlib.Data.List.Forall2

/-!
# Records that are exported

The exports as comma-separated values and as JSON carry the same records: those of the result that
the options keep, in the order of the result. A reader of each format finds them again, whatever
characters their texts hold.

## Key results

- `Csv.read_flatMap_row`: rows are read from what is written for them
- `shown?_recordDocument`: what a document says of a record
- `exports_carry_records`: both exports carry the same records
-/

namespace AbiIndex.Export

open AbiIndex.Abi AbiIndex.Source

/-! ## Reading comma-separated values -/

namespace Csv

/-- Where a reader stands in a field. -/
inductive Place where
  | start
  | bare
  | quoted
  /-- Behind a quote that closes the field, unless another one follows. -/
  | closed
deriving DecidableEq

/-- The rows of a text, from a place in a row on whose first fields and whose text so far in the
field are given. Between quotes, two quotes stand for one, and commas and line breaks for
themselves. -/
def rows : Place → List String → List Char → List Char → List (List String)
  | place, fields, text, [] =>
    if place = .start ∧ fields = [] then [] else [fields ++ [String.ofList text]]
  | place, fields, text, c :: cs =>
    if place = .quoted then
      if c = '"' then rows .closed fields text cs else rows .quoted fields (text ++ [c]) cs
    else if c = '"' ∧ place = .closed then rows .quoted fields (text ++ [c]) cs
    else if c = '"' ∧ place = .start then rows .quoted fields text cs
    else if c = ',' then rows .start (fields ++ [String.ofList text]) [] cs
    else if c = '\n' then (fields ++ [String.ofList text]) :: rows .start [] [] cs
    else rows .bare fields (text ++ [c]) cs

/-- The rows of a text. -/
def read (s : String) : List (List String) := rows .start [] [] s.toList

variable {quotesReturns : Bool} {place : Place} {fields : List String} {text : List Char}

theorem rows_quoted (cs rest : List Char) :
    rows .quoted fields text (cs.flatMap double ++ '"' :: rest) =
      rows .closed fields (text ++ cs) rest := by
  induction cs generalizing text with
  | nil => simp [rows]
  | cons c cs ih =>
    by_cases hc : c = '"'
    · simp [hc, double, rows, ih]
    · simp [hc, double, rows, ih]

theorem rows_bare {cs : List Char} (h : ∀ c ∈ cs, isSpecial quotesReturns c = false)
    (rest : List Char) :
    rows .bare fields text (cs ++ rest) = rows .bare fields (text ++ cs) rest := by
  induction cs generalizing text with
  | nil => simp
  | cons c cs ih =>
    obtain ⟨hc, hcs⟩ := List.forall_mem_cons.1 h
    simp only [isSpecial, Bool.or_eq_false_iff, decide_eq_false_iff_not] at hc
    simp [rows, hc, ih hcs]

/-- A field is read up to its end. -/
theorem rows_field (s : String) : ∃ place ≠ Place.quoted, ∀ rest,
    rows .start fields [] (field quotesReturns s ++ rest) = rows place fields s.toList rest := by
  rw [field]
  split
  · refine ⟨.closed, by decide, fun rest => ?_⟩
    have hopened : rows .start fields [] ('"' :: s.toList.flatMap double ++ ['"'] ++ rest) =
        rows .quoted fields [] (s.toList.flatMap double ++ '"' :: rest) := by
      simp [rows]
    rw [hopened, rows_quoted, List.nil_append]
  · rename_i hplain
    have hplain : ∀ c ∈ s.toList, isSpecial quotesReturns c = false := by simpa using hplain
    cases htext : s.toList with
    | nil => exact ⟨.start, by decide, fun rest => rfl⟩
    | cons c cs =>
      rw [htext, List.forall_mem_cons] at hplain
      obtain ⟨hc, hcs⟩ := hplain
      simp only [isSpecial, Bool.or_eq_false_iff, decide_eq_false_iff_not] at hc
      refine ⟨.bare, by decide, fun rest => ?_⟩
      have hfirst : rows .start fields [] (c :: cs ++ rest) =
          rows .bare fields [c] (cs ++ rest) := by
        simp [rows, hc]
      rw [hfirst, rows_bare hcs, List.singleton_append]

/-- A row is read from what is written for it. -/
theorem rows_row {row : List String} (h : row ≠ []) (rest : List Char) :
    rows .start fields [] (Csv.row quotesReturns row ++ rest) =
      (fields ++ row) :: rows .start [] [] rest := by
  induction row generalizing fields with
  | nil => exact absurd rfl h
  | cons s row ih =>
    obtain ⟨place, hplace, hfield⟩ := @rows_field quotesReturns fields s
    cases row with
    | nil =>
      have htext : Csv.row quotesReturns [s] ++ rest = field quotesReturns s ++ ('\n' :: rest) := by
        simp [Csv.row]
      rw [htext, hfield]
      simp [rows, hplace]
    | cons next row =>
      have htext : Csv.row quotesReturns (s :: next :: row) ++ rest =
          field quotesReturns s ++ (',' :: (Csv.row quotesReturns (next :: row) ++ rest)) := by
        simp [Csv.row, List.intercalate_cons_cons]
      have hcomma : ∀ more, rows place fields s.toList (',' :: more) =
          rows .start (fields ++ [s]) [] more := by
        intro more
        simp [rows, hplace]
      rw [htext, hfield, hcomma, ih (by simp), List.append_assoc, List.singleton_append]

/-- Rows are read from what is written for them. -/
theorem read_flatMap_row {table : List (List String)} (h : ∀ row ∈ table, row ≠ []) :
    read (String.ofList (table.flatMap (row quotesReturns))) = table := by
  rw [read, String.toList_ofList]
  induction table with
  | nil => rfl
  | cons first table ih =>
    obtain ⟨hfirst, htable⟩ := List.forall_mem_cons.1 h
    rw [List.flatMap_cons, rows_row hfirst, List.nil_append, ih htable]

end Csv

/-! ## Rows of records -/

/-- The field of a row in the column of the given name. -/
def column (row : List String) (name : String) : Option String := (csvHeader.zip row).lookup name

/-- The row has a field for each column, and they are those of the record. What the record does not
have is empty. -/
structure IsRowOf (r : Record) (row : List String) : Prop where
  length : row.length = csvHeader.length
  project : column row "project" = some (r.project.getD "")
  contract : column row "contract" = some (r.contract.getD "")
  path : column row "path" = some r.path
  kind : column row "kind" = some r.kind.name
  name : column row "name" = some r.name
  signature : column row "signature" = some r.signature
  selector : column row "selector" = some r.selector
  visibility : column row "visibility" = some (r.visibility.getD "")
  mutability : column row "state_mutability" = some (r.mutability.getD "")
  line : column row "line" = some (toString r.line)

theorem isRowOf_csvFields (r : Record) : IsRowOf r (csvFields r) := by
  constructor <;> rfl

/-- The rows of an export are those of the records that it shows. -/
theorem read_csv (v : View) (quotesReturns : Bool) :
    Csv.read (v.csv quotesReturns) = csvHeader :: v.records.map csvFields := by
  refine Csv.read_flatMap_row fun row hrow => ?_
  rcases List.mem_cons.1 hrow with rfl | hrow
  · exact List.cons_ne_nil _ _
  · obtain ⟨r, -, rfl⟩ := List.mem_map.1 hrow
    exact List.cons_ne_nil _ _

/-- An export shows the records of the result that the options keep. -/
theorem View.records_of (o : Options) (result : Scan.Result) :
    (View.of o result).records = result.records.filter o.keeps := by
  rw [View.records, View.of, Scan.Result.records, List.filter_append, List.filter_flatMap,
    List.flatMap_map]

/-! ## Reading documents -/

/-- What a document says of a record. -/
structure Shown where
  name : String
  kind : SignatureKind
  signature : String
  selector : String
  contract : Option String
  path : String
  line : Int
  inputs : List Input
  natspec : Option Natspec
deriving DecidableEq

/-- The parts of a documentation that are not empty. -/
def said (n : Natspec) : Natspec :=
  { n with notice := n.notice.filter (· ≠ ""), dev := n.dev.filter (· ≠ "") }

/-- What a document says of the record. -/
def Shown.of (r : Record) : Shown :=
  ⟨r.name, r.kind, r.signature, r.selector, r.contract, r.path, r.line, r.inputs,
    r.natspec.map said⟩

def asText? : JsonValue → Option String
  | .str s => some s
  | _ => none

def asTextOrNull? : JsonValue → Option (Option String)
  | .str s => some (some s)
  | .null => some none
  | _ => none

def asNumber? : JsonValue → Option Int
  | .num n => some n
  | _ => none

def asFlag? : JsonValue → Option Bool
  | .bool b => some b
  | _ => none

/-- A list of what `read` finds. -/
def asList? {α : Type} (read : JsonValue → Option α) : JsonValue → Option (List α)
  | .arr vs => vs.mapM read
  | _ => none

def asEntries? : JsonValue → Option Entries
  | .obj fields => fields.mapM fun f => (asText? f.2).map (f.1, ·)
  | _ => none

/-- What `read` finds in a field. -/
def field? {α : Type} (read : JsonValue → Option α) (name : String) (v : JsonValue) : Option α :=
  (v.get? name).bind read

/-- What `read` finds in a field that may be missing. -/
def optional? {α : Type} (read : JsonValue → Option α) (name : String) (v : JsonValue) :
    Option (Option α) :=
  match v.get? name with
  | some w => (read w).map some
  | none => some none

def input? (v : JsonValue) : Option Input := do
  return ⟨← field? asText? "name" v, ← field? asText? "type" v, ← field? asFlag? "indexed" v⟩

/-- The entries in a field, or none if it is missing. -/
def entries? (name : String) (v : JsonValue) : Option Entries :=
  (optional? asEntries? name v).map (·.getD [])

def natspec? (v : JsonValue) : Option Natspec := do
  return {
    notice := ← optional? asText? "notice" v
    dev := ← optional? asText? "dev" v
    params := ← entries? "params" v
    returns := ← entries? "returns" v
    custom := ← entries? "custom" v }

def shown? (v : JsonValue) : Option Shown := do
  return {
    name := ← field? asText? "name" v
    kind := ← (field? asText? "kind" v).bind SignatureKind.ofName?
    signature := ← field? asText? "signature" v
    selector := ← field? asText? "selector" v
    contract := ← field? asTextOrNull? "contract" v
    path := ← field? asText? "path" v
    line := ← field? asNumber? "line" v
    inputs := ← field? (asList? input?) "inputs" v
    natspec := ← optional? natspec? "natspec" v }

/-- The records of a document: those of its contracts, and then those outside contracts. -/
def documentRecords? (v : JsonValue) : Option (List Shown) := do
  let attached ← field? (asList? (field? (asList? shown?) "records")) "contracts" v
  let free ← field? (asList? shown?) "free_records" v
  return attached.flatten ++ free

/-! ## Documents of records -/

theorem get?_append (fields more : List (String × JsonValue)) (name : String) :
    (JsonValue.obj (fields ++ more)).get? name =
      ((JsonValue.obj more).get? name).or ((JsonValue.obj fields).get? name) := by
  simp only [JsonValue.get?, List.reverse_append, List.find?_append, Option.map_or]

theorem get?_textField (key name : String) (text : Option String) :
    (JsonValue.obj (textField key text)).get? name =
      if key = name then (text.filter (· ≠ "")).map .str else none := by
  cases text with
  | none => simp [textField, JsonValue.get?]
  | some s =>
    by_cases hempty : s = ""
    · simp [textField, JsonValue.get?, hempty, Option.filter_some]
    · by_cases hname : key = name <;>
        simp [textField, JsonValue.get?, hempty, hname, Option.filter_some]

theorem get?_entriesField (key name : String) (entries : Entries) :
    (JsonValue.obj (entriesField key entries)).get? name =
      if key = name ∧ entries ≠ [] then some (.obj (entries.map fun e => (e.1, .str e.2)))
      else none := by
  by_cases hempty : entries = []
  · simp [entriesField, JsonValue.get?, hempty]
  · by_cases hname : key = name <;> simp [entriesField, JsonValue.get?, hempty, hname]

theorem asEntries?_obj (entries : Entries) :
    asEntries? (.obj (entries.map fun e => (e.1, .str e.2))) = some entries := by
  induction entries with
  | nil => rfl
  | cons e entries ih =>
    simp only [asEntries?, List.map_cons, List.mapM_cons] at ih ⊢
    rw [ih]
    rfl

/-- A list is read if its items are. -/
theorem asList?_map {α β : Type} {read : JsonValue → Option β} {write : α → JsonValue} {f : α → β}
    (xs : List α) (h : ∀ x ∈ xs, read (write x) = some (f x)) :
    asList? read (.arr (xs.map write)) = some (xs.map f) := by
  induction xs with
  | nil => rfl
  | cons x xs ih =>
    obtain ⟨hx, hxs⟩ := List.forall_mem_cons.1 h
    have ih := ih hxs
    simp only [asList?, List.map_cons, List.mapM_cons, hx] at ih ⊢
    rw [ih]
    rfl

theorem optional?_text {v : JsonValue} {name : String} {text : Option String}
    (h : v.get? name = text.map .str) : optional? asText? name v = some text := by
  rw [optional?, h]
  cases text <;> rfl

theorem entries?_eq {v : JsonValue} {name : String} {entries : Entries}
    (h : v.get? name =
      if entries ≠ [] then some (.obj (entries.map fun e => (e.1, .str e.2))) else none) :
    entries? name v = some entries := by
  rw [entries?, optional?, h]
  by_cases hempty : entries = []
  · simp [hempty]
  · simp [hempty, asEntries?_obj]

/-- A documentation is found again but for its empty parts. -/
theorem natspec?_natspecDocument (n : Natspec) : natspec? (natspecDocument n) = some (said n) := by
  have hget : ∀ name, (natspecDocument n).get? name = _ := fun name => by
    rw [natspecDocument, get?_append, get?_append, get?_append, get?_append, get?_textField,
      get?_textField, get?_entriesField, get?_entriesField, get?_entriesField]
  have hnotice : optional? asText? "notice" (natspecDocument n) = some (said n).notice :=
    optional?_text (by simp [hget, said])
  have hdev : optional? asText? "dev" (natspecDocument n) = some (said n).dev :=
    optional?_text (by simp [hget, said])
  have hparams : entries? "params" (natspecDocument n) = some n.params :=
    entries?_eq (by simp [hget])
  have hreturns : entries? "returns" (natspecDocument n) = some n.returns :=
    entries?_eq (by simp [hget])
  have hcustom : entries? "custom" (natspecDocument n) = some n.custom :=
    entries?_eq (by simp [hget])
  simp only [natspec?, hnotice, hdev, hparams, hreturns, hcustom, Option.bind_eq_bind,
    Option.bind_some, Option.pure_def]
  rfl

theorem ofName?_name (kind : SignatureKind) : SignatureKind.ofName? kind.name = some kind := by
  cases kind <;> rfl

theorem get?_eq_none {fields : List (String × JsonValue)} {name : String}
    (h : ∀ f ∈ fields, f.1 ≠ name) : (JsonValue.obj fields).get? name = none := by
  have hnone : fields.reverse.find? (·.1 = name) = none :=
    List.find?_eq_none.2 fun f hf => by simpa using h f (List.mem_reverse.1 hf)
  rw [JsonValue.get?, hnone, Option.map_none]

/-- The fields that every record has. -/
def commonFields (r : Record) : List (String × JsonValue) :=
  [("name", .str r.name), ("kind", .str r.kind.name), ("signature", .str r.signature),
    ("selector", .str r.selector), ("contract", .ofText? r.contract), ("path", .str r.path),
    ("line", .num r.line), ("inputs", .arr (r.inputs.map inputDocument))]

/-- The other fields do not hide them. -/
theorem get?_recordDocument {name : String} {r : Record}
    (h : name ∉ ["visibility", "state_mutability", "returns", "anonymous", "project", "natspec"]) :
    (recordDocument r).get? name = (JsonValue.obj (commonFields r)).get? name := by
  simp only [List.mem_cons, List.not_mem_nil, or_false, not_or] at h
  obtain ⟨hvisibility, hmutability, hreturns, hanonymous, hproject, hnatspec⟩ := h
  rw [recordDocument, get?_append, get?_append, get?_append, get?_append, get?_eq_none,
    get?_eq_none, get?_eq_none, get?_eq_none]
  · rfl
  · split <;> simp [Ne.symm hvisibility, Ne.symm hmutability, Ne.symm hreturns]
  · split <;> simp [Ne.symm hanonymous]
  · split <;> simp [Ne.symm hproject]
  · split <;> simp [Ne.symm hnatspec]

theorem get?_natspec_recordDocument (r : Record) :
    (recordDocument r).get? "natspec" = r.natspec.map natspecDocument := by
  rw [recordDocument, get?_append]
  cases r.natspec with
  | some n => rfl
  | none =>
    rw [get?_append, get?_append, get?_append, get?_eq_none, get?_eq_none, get?_eq_none,
      get?_eq_none, get?_eq_none]
    · rfl
    · simp
    · split <;> simp
    · split <;> simp
    · split <;> simp
    · simp

theorem input?_inputDocument (i : Input) : input? (inputDocument i) = some i := rfl

/-- What a document says of a record is found again. -/
theorem shown?_recordDocument (r : Record) : shown? (recordDocument r) = some (Shown.of r) := by
  have hfield : ∀ {α : Type} (read : JsonValue → Option α) (name : String),
      name ∉ ["visibility", "state_mutability", "returns", "anonymous", "project", "natspec"] →
      field? read name (recordDocument r) = field? read name (.obj (commonFields r)) := by
    intro α read name hname
    rw [field?, field?, get?_recordDocument hname]
  have hcontract : field? asTextOrNull? "contract" (.obj (commonFields r)) = some r.contract := by
    show asTextOrNull? (.ofText? r.contract) = _
    cases r.contract <;> rfl
  have hinputs : field? (asList? input?) "inputs" (.obj (commonFields r)) = some r.inputs := by
    show asList? input? (.arr (r.inputs.map inputDocument)) = _
    rw [@asList?_map _ _ input? inputDocument id r.inputs fun i _ => input?_inputDocument i,
      List.map_id]
  have hkind : (field? asText? "kind" (.obj (commonFields r))).bind SignatureKind.ofName? =
      some r.kind := ofName?_name r.kind
  have hnatspec : optional? natspec? "natspec" (recordDocument r) = some (r.natspec.map said) := by
    rw [optional?, get?_natspec_recordDocument]
    cases r.natspec with
    | none => rfl
    | some n => exact congrArg (Option.map some) (natspec?_natspecDocument n)
  simp only [shown?]
  rw [hfield _ "name" (by decide), hfield _ "kind" (by decide), hfield _ "signature" (by decide),
    hfield _ "selector" (by decide), hfield _ "contract" (by decide), hfield _ "path" (by decide),
    hfield _ "line" (by decide), hfield _ "inputs" (by decide), hkind, hcontract, hinputs, hnatspec]
  rfl

theorem documentRecords?_document (v : View) (time : Timestamp) :
    documentRecords? (v.document time) = some (v.records.map Shown.of) := by
  have hcontract : ∀ c ∈ v.contracts, field? (asList? shown?) "records" (contractDocument c) =
      some (c.records.map Shown.of) := by
    intro c _
    exact asList?_map c.records fun r _ => shown?_recordDocument r
  have hattached : field? (asList? (field? (asList? shown?) "records")) "contracts"
      (v.document time) = some (v.contracts.map fun c => c.records.map Shown.of) :=
    asList?_map v.contracts hcontract
  have hfree : field? (asList? shown?) "free_records" (v.document time) =
      some (v.freeRecords.map Shown.of) :=
    asList?_map v.freeRecords fun r _ => shown?_recordDocument r
  have hflat : (v.contracts.map fun c => c.records.map Shown.of).flatten =
      (v.contracts.flatMap (·.records)).map Shown.of := by
    rw [List.map_flatMap, List.flatMap]
  simp only [documentRecords?, hattached, hfree, Option.bind_eq_bind, Option.bind_some,
    Option.pure_def, hflat, View.records, List.map_append]

/-- Both exports carry the records that the options keep, all of them and in the order of the
result. The rows of the one stand behind a header and have a field for each of its columns; the
other one is a document that says the same of the records, with their inputs and documentation.
Both are so on every platform, whether it quotes carriage returns or not. -/
theorem exports_carry_records (platform : Platform) (o : Options) (result : Scan.Result)
    (time : Timestamp) :
    (∃ rows, Csv.read (render platform (View.of o result) time .csv) = csvHeader :: rows ∧
      List.Forall₂ IsRowOf (result.records.filter o.keeps) rows) ∧
    (JsonValue.parse? (render platform (View.of o result) time .json)).bind documentRecords? =
      some ((result.records.filter o.keeps).map Shown.of) := by
  constructor
  · refine ⟨_, read_csv _ _, ?_⟩
    rw [View.records_of, List.forall₂_map_right_iff]
    exact List.forall₂_same.2 fun r _ => isRowOf_csvFields r
  · rw [render, View.json, JsonValue.parse?_render _ (by simp [JsonValue.isGap]), Option.bind_some,
      documentRecords?_document, View.records_of]

end AbiIndex.Export
