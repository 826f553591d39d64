import AbiIndex.Abi.Record
import AbiIndex.Diagnostic
import AbiIndex.Text.Order

/-!
# Selector collisions

Two different signatures that share a four-byte selector collide if they can meet: functions that a
transaction can call among each other, and errors among each other. One signature in several places
is no collision.
-/

namespace AbiIndex

open AbiIndex.Abi

/-- Different signatures of one kind with the same selector. -/
structure Collision where
  selector : String
  kind : SignatureKind
  signatures : List String
  locations : List String
deriving DecidableEq

namespace Collision

/-- Where a record stands: its project, its file and its contract as far as there are any. -/
def location (r : Record) : String :=
  let project := match r.project with
    | some p => if p = "" then "" else p ++ ":"
    | none => ""
  let owner := match r.contract with
    | some c => if c = "" then "" else c ++ "."
    | none => ""
  project ++ r.path ++ ":" ++ owner ++ r.signature

/-- Whether a record can collide with another one. -/
def isEligible (r : Record) : Bool := r.kind = .error || r.isCallable

/-- What colliding records have in common. -/
def key (r : Record) : String × SignatureKind := (r.selector, r.kind)

/-- The collision among records of the same selector and kind, if they have different
signatures. The locations follow the order of the signatures. -/
def ofGroup (key : String × SignatureKind) (group : List Record) : Option Collision :=
  let signatures := (group.map (·.signature)).eraseDups
  if signatures.length < 2 then none
  else
    let signatures := Text.sorted signatures
    some ⟨key.1, key.2, signatures,
      signatures.flatMap fun s => (group.filter (·.signature = s)).map location⟩

/-- The order of reports: by selector, then by kind. -/
def noLater (a b : Collision) : Bool :=
  if a.selector = b.selector then Text.noLater a.kind.name b.kind.name
  else Text.noLater a.selector b.selector

/-- All collisions among the records. -/
def detect (records : List Record) : List Collision :=
  let eligible := records.filter isEligible
  let found := (eligible.map key).eraseDups.filterMap fun k =>
    ofGroup k (eligible.filter (key · = k))
  -- no two groups have the same selector and kind, so the order is total
  found.mergeSort noLater

/-- The report of a collision. -/
def diagnostic (c : Collision) : Diagnostic :=
  ⟨.selectorCollision,
    s!"{c.kind.name} selector {c.selector} is shared by " ++ ", ".intercalate c.signatures,
    none, none, some c.selector⟩

end Collision

end AbiIndex
