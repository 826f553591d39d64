import AbiIndex.Tree.FileTree

/-!
# Messages about the work

Messages come from named parts of the program. A set-up says from which level on they are shown,
and whether they also go into a file. Without a set-up only warnings and worse are shown, as they
are. Names are nested by dots, and a name that is not nested in that of the program is not set up
with it.
-/

namespace AbiIndex.Log

/-- How grave a message is. -/
inductive Level where
  | debug
  | info
  | warning
  | error
  | critical
deriving DecidableEq

namespace Level

def name : Level → String
  | debug => "DEBUG"
  | info => "INFO"
  | warning => "WARNING"
  | error => "ERROR"
  | critical => "CRITICAL"

/-- The rank of a level; graver levels have higher ones. -/
def rank : Level → Nat
  | debug => 10
  | info => 20
  | warning => 30
  | error => 40
  | critical => 50

def all : List Level := [debug, info, warning, error, critical]

def ofName? (s : String) : Option Level := all.find? (·.name = s)

end Level

/-- The name that all messages have in common. -/
def programName : String := "sigscan"

/-- The full name of a part of the program; the empty name is the program itself. -/
def sourceName (part : String) : String :=
  if part = "" then programName else s!"{programName}.{part}"

/-- A message. -/
structure Entry where
  level : Level
  part : String
  message : String
deriving DecidableEq

/-- Where messages go. -/
structure Setup where
  threshold : Level
  file : Option Path

namespace Setup

/-- The threshold of a set-up: all messages if they are asked for. -/
def thresholdFor (verbose : Bool) : Level := if verbose then .debug else .info

/-- The number of places that messages go to. -/
def outlets (s : Setup) : Nat := if s.file.isSome then 2 else 1

/-- Whether a message is shown. -/
def admits (s : Setup) (e : Entry) : Bool := s.threshold.rank ≤ e.level.rank

end Setup

/-- The line that shows a message on the console. -/
def consoleLine (e : Entry) : String := s!"[{programName}] {e.level.name} {e.message}\n"

/-- The line of a message in a file, with the time in front. -/
def fileLine (time : String) (e : Entry) : String :=
  s!"{time} {e.level.name} {sourceName e.part}: {e.message}\n"

/-! ## Whose messages they are -/

/-- The names around a name, from the inside out, with all names written backwards. A name is cut at
its last dot, and what is left at its last dot again; a dot that stands right before the one of a
cut makes no cut. -/
def outerNames : List Char → List (List Char)
  | '.' :: c :: rest => (c :: rest) :: outerNames rest
  | _ :: rest => outerNames rest
  | [] => []

/-- A name is longer than the names around it. -/
theorem length_lt_of_mem_outerNames {name outer : List Char} (h : outer ∈ outerNames name) :
    outer.length < name.length := by
  fun_induction outerNames name with
  | case1 c rest ih =>
    rcases List.mem_cons.1 h with rfl | h
    · simp
    · have := ih h
      simp only [List.length_cons]
      omega
  | case2 _ rest _ ih =>
    have := ih h
    simp only [List.length_cons]
    omega
  | case3 => simp at h

/-- Whether the messages of a name, which is written backwards, belong to the program: it is the
name of the program, or the nearest known name around it belongs to the program. -/
def belongs (known : List (List Char)) (name : List Char) : Bool :=
  if name = programName.toList.reverse then true
  else
    match _h : (outerNames name).find? (· ∈ known) with
    | none => false
    | some outer => belongs known outer
termination_by name.length
decreasing_by exact length_lt_of_mem_outerNames (List.mem_of_find?_eq_some _h)

/-! ## Keeping messages -/

/-- What has become of the messages so far: the set-up, if there is one, and the full names of the
parts that have sent a message. -/
structure Journal where
  setup : Option Setup
  senders : List String

namespace Journal

/-- A journal before any set-up. -/
def start : Journal := ⟨none, []⟩

/-- The set-up that a message goes through. A part that does not belong to the program has none. -/
def setupFor (j : Journal) (e : Entry) : Option Setup :=
  let known := (programName :: j.senders).map (·.toList.reverse)
  if belongs known (sourceName e.part).toList.reverse then j.setup else none

/-- What a message shows on the console. -/
def console (j : Journal) (e : Entry) : String :=
  match j.setupFor e with
  | some s => if s.admits e then consoleLine e else ""
  | none => if Level.warning.rank ≤ e.level.rank then e.message ++ "\n" else ""

/-- The tree after a message has gone to the log file, if there is one. -/
def record (j : Journal) (t : FileTree) (time : String) (e : Entry) : FileTree :=
  match j.setupFor e with
  | some ⟨threshold, some path⟩ =>
    if Setup.admits ⟨threshold, some path⟩ e then
      match t.append path (Text.Utf8.encode (fileLine time e)) with
      | .ok t' => t'
      | .error _ => t
    else t
  | _ => t

/-- The journal after a message. -/
def noted (j : Journal) (e : Entry) : Journal :=
  { j with senders := sourceName e.part :: j.senders }

/-- Sets up the messages, with an empty log file if there is none yet. The path of the file is taken
without double dots. If the file cannot be opened, the console is set up all the same. -/
def configure (j : Journal) (t : FileTree) (verbose : Bool) (file : Option Path) :
    Except TreeError FileTree × Journal :=
  let threshold := Setup.thresholdFor verbose
  match file.map (Path.resolve t.cwd.toPath) with
  | none => (.ok t, { j with setup := some ⟨threshold, none⟩ })
  | some path =>
    match t.append path [] with
    | .ok t' => (.ok t', { j with setup := some ⟨threshold, some path⟩ })
    | .error e => (.error e, { j with setup := some ⟨threshold, none⟩ })

end Journal

end AbiIndex.Log
