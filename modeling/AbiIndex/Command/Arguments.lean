import AbiIndex.Abi.Signature
import AbiIndex.Command.Help
import AbiIndex.Command.Option
import AbiIndex.Text.Integer

/-!
# Command lines

A command line names a command, with options in front of it and behind it. Each command takes one
argument at most. Behind two dashes everything is an argument.

Words are taken in their order. An ambiguous word is refused before anything else, and a request for
help comes before what is found behind it. Words that are too many are refused at the end, so help
may still come behind them.
-/

namespace AbiIndex.Command

open AbiIndex.Abi

/-- What to do. -/
inductive Action where
  | scan (path : String) (output formats : Option String)
      (includeInternal includePrivate noEvents noErrors noRecursive : Bool)
  | info (path : String)
  | selector (signature : String) (kind : SignatureKind)

/-- A command line. -/
structure Invocation where
  verbose : Bool
  action : Action

/-- Why a command line gives nothing to do. -/
inductive Usage where
  | help (topic : Topic)
  | refused
  /-- The kind of a signature is asked for and not stated. -/
  | kindLost
deriving DecidableEq

/-- The wording for a command line that gives nothing to do: a help page, or how to write one. -/
def Usage.message : Usage → String
  | help topic => topic.page
  | refused => Topic.usage .program
  | kindLost => "[] is not a valid SignatureKind"

/-- The options and the argument of a command. -/
structure Parsed where
  options : List (Flag × Option String)
  argument : Option String

namespace Parsed

def has (p : Parsed) (f : Flag) : Bool := p.options.any (·.1 = f)

/-- The value of an option; of several the last one counts. -/
def value? (p : Parsed) (f : Flag) : Option String :=
  (p.options.reverse.find? (·.1 = f)).bind (·.2)

def addOptions (p : Parsed) (options : List (Flag × Option String)) : Parsed :=
  { p with options := options ++ p.options }

end Parsed

/-- How far the argument of a command has been read. -/
inductive Stage where
  | open
  | justRead
  | past
deriving DecidableEq

/-- The stage behind an option: two dashes can no longer add to an argument in front of it. -/
def Stage.behindOption : Stage → Stage
  | .open => .open
  | _ => .past

/-- The options that a command takes, and the topic of its help. -/
structure Grammar where
  topic : Topic
  table : Table

/-- Whether an option can have a value. -/
def Flag.admits (f : Flag) (value : String) : Bool :=
  match f with
  | kind => (SignatureKind.ofName? value).isSome
  | listenPort => (Text.integer? value).isSome
  | _ => true

/-- The options of a word that are complete, and the one that still needs a value. Two dashes in the
place of a value are taken for the end of the options, so nothing is left of the value. -/
def pending (given : List Given) : List (Flag × Option String) × Option Flag :=
  let complete := given.filter fun g => !(g.flag.takesValue && g.value.isNone)
  (complete.map fun g => (g.flag, (g.value.map String.ofList).filter (· ≠ "--")),
   (given.find? fun g => g.flag.takesValue && g.value.isNone).map (·.flag))

/-- Takes the options of a word one after the other. -/
def takeOptions (topic : Topic) : List (Flag × Option String) → Except Usage Unit
  | [] => .ok ()
  | (flag, value) :: rest =>
    if flag = .help then .error (.help topic)
    else if value.all flag.admits then takeOptions topic rest
    else .error .refused

/-- What comes of the words behind one that is too many: help, or nothing. -/
def surplus {α : Type} : Except Usage α → Except Usage α
  | .error (.help topic) => .error (.help topic)
  | _ => .error .refused

/-- Reads the words behind two dashes. -/
def readBehindDashes (stage : Stage) (words : List String) : Except Usage Parsed :=
  match stage, words with
  | .open, [] => .ok ⟨[], none⟩
  | .open, [word] => .ok ⟨[], some word⟩
  | .justRead, [] => .ok ⟨[], none⟩
  | _, _ => .error .refused

/-- Reads the words behind the name of a command. -/
def readWords (g : Grammar) (stage : Stage) : List String → Except Usage Parsed
  | [] => .ok ⟨[], none⟩
  | word :: rest =>
    if word = "--" then readBehindDashes stage rest
    else
      match interpret g.table word.toList with
      | .ambiguous => .error .refused
      | .refused => .error .refused
      | .unknown => surplus (readWords g stage rest)
      | .argument =>
        if stage = .open then
          (readWords g .justRead rest).map fun p => { p with argument := some word }
        else surplus (readWords g stage rest)
      | .options given =>
        match pending given with
        | (complete, none) => do
          takeOptions g.topic complete
          return (← readWords g stage.behindOption rest).addOptions complete
        | (complete, some flag) =>
          match rest with
          | [] => .error .refused
          | value :: rest =>
            if value ≠ "--" && interpret g.table value.toList = .argument then do
              let complete := complete ++ [(flag, some value)]
              takeOptions g.topic complete
              return (← readWords g stage.behindOption rest).addOptions complete
            else .error .refused

/-- Whether a word before the first two dashes is ambiguous. -/
def hasAmbiguous (table : Table) (words : List String) : Bool :=
  (words.takeWhile (· ≠ "--")).any fun word => interpret table word.toList = .ambiguous

/-- Reads the words behind the name of a command, unless one of them is ambiguous. -/
def Grammar.read (g : Grammar) (stage : Stage) (words : List String) : Except Usage Parsed :=
  if hasAmbiguous g.table words then .error .refused else readWords g stage words

def scanGrammar : Grammar where
  topic := .scan
  table := commonOptions ++
    [("-o".toList, .output), ("--output".toList, .output), ("-f".toList, .formats),
     ("--formats".toList, .formats), ("--include-internal".toList, .includeInternal),
     ("--include-private".toList, .includePrivate), ("--no-events".toList, .noEvents),
     ("--no-errors".toList, .noErrors), ("--no-recursive".toList, .noRecursive)]

def infoGrammar : Grammar := ⟨.info, commonOptions⟩

def selectorGrammar : Grammar := ⟨.selector, commonOptions ++ [("--kind".toList, .kind)]⟩

def serveGrammar : Grammar :=
  ⟨.serve, commonOptions ++ [("--host".toList, .listenHost), ("--port".toList, .listenPort)]⟩

/-- The path of a command without an argument. -/
def defaultPath : String := "."

/-- Reads a command from its name and the words behind it. The service is not started by a command
line, so only its help can be asked for. -/
def readCommand (verbose : Bool) (name : String) (words : List String) :
    Except Usage Invocation :=
  match name with
  | "scan" => do
    let p ← scanGrammar.read .open words
    return ⟨verbose || p.has .verbose,
      .scan (p.argument.getD defaultPath) (p.value? .output) (p.value? .formats)
        (p.has .includeInternal) (p.has .includePrivate) (p.has .noEvents) (p.has .noErrors)
        (p.has .noRecursive)⟩
  | "info" => do
    let p ← infoGrammar.read .open words
    return ⟨verbose || p.has .verbose, .info (p.argument.getD defaultPath)⟩
  | "selector" => do
    let p ← selectorGrammar.read .open words
    let kind := (p.value? .kind).bind SignatureKind.ofName?
    match p.argument with
    | none => .error .refused
    | some sig =>
      if p.has .kind && kind.isNone then .error .kindLost
      else return ⟨verbose || p.has .verbose, .selector sig (kind.getD .function)⟩
  | "serve" => do
    let _ ← serveGrammar.read .past words
    .error .refused
  | _ => .error .refused

/-- Reads the words in front of the name of the command, and the command. -/
def readInvocation (verbose : Bool) : List String → Except Usage Invocation
  | [] => .error .refused
  | word :: rest =>
    if word = "--" then .error .refused
    else
      match interpret commonOptions word.toList with
      | .ambiguous => .error .refused
      | .refused => .error .refused
      | .unknown => surplus (readInvocation verbose rest)
      | .argument => readCommand verbose word rest
      | .options given =>
        if given.any (·.flag = .help) then .error (.help .program) else readInvocation true rest

/-- Reads a command line. -/
def parse (words : List String) : Except Usage Invocation :=
  if hasAmbiguous commonOptions words then .error .refused else readInvocation false words

end AbiIndex.Command
