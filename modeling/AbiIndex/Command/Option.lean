import AbiIndex.Text.Digit

/-!
# Options on a command line

A word that starts with a dash is an option if a table lists its spelling. A long spelling may be
cut short as long as it stays unambiguous, and may carry its value behind an equals sign. Short
options may be written together, and the last of them may carry its value. An equals sign behind the
first of them is skipped.
-/

namespace AbiIndex.Command

/-- What an option asks for. -/
inductive Flag where
  | help
  | verbose
  | output
  | formats
  | includeInternal
  | includePrivate
  | noEvents
  | noErrors
  | noRecursive
  | kind
  | listenHost
  | listenPort
deriving DecidableEq

/-- Whether the option has a value. -/
def Flag.takesValue : Flag → Bool
  | output => true
  | formats => true
  | kind => true
  | listenHost => true
  | listenPort => true
  | _ => false

/-- The spellings of options. -/
abbrev Table := List (List Char × Flag)

/-- The spellings that every command knows. -/
def commonOptions : Table :=
  [("-h".toList, .help), ("--help".toList, .help), ("-v".toList, .verbose),
   ("--verbose".toList, .verbose)]

/-- An option with its value, if the value is part of the same word. -/
structure Given where
  flag : Flag
  value : Option (List Char)
deriving DecidableEq

/-- What a word on the command line is. -/
inductive Word where
  | argument
  | options (given : List Given)
  /-- A short form of several options. -/
  | ambiguous
  /-- An option that there is not. -/
  | unknown
  /-- An option with something behind it that it cannot have. -/
  | refused
deriving DecidableEq

/-- The options in a word of short ones: `flag`, and those spelled by the letters behind it. An
option that takes a value takes the rest of the word. None comes of a letter that spells no
option. -/
def cluster (table : Table) (flag : Flag) (rest : List Char) : Option (List Given) :=
  if flag.takesValue then some [⟨flag, some rest⟩]
  else
    match rest with
    | [] => none
    | c :: more =>
      match table.lookup ['-', c] with
      | none => none
      | some next =>
        if more = [] then some [⟨flag, none⟩, ⟨next, none⟩]
        else (cluster table next more).map (⟨flag, none⟩ :: ·)

/-- The short option with more behind it in the same word. -/
def shortOption (table : Table) (flag : Flag) (rest : List Char) : Word :=
  match cluster table flag rest with
  | some given => .options given
  | none => .refused

/-- The long option with its value behind an equals sign. -/
def assigned (flag : Flag) (value : List Char) : Word :=
  if flag.takesValue then .options [⟨flag, some value⟩] else .refused

/-- Whether a word is a negative number. A line feed at its end does not count. -/
def isNegativeNumber (word : List Char) : Bool :=
  let word := if word.getLast? = some '\n' then word.dropLast else word
  match word with
  | '-' :: rest =>
    let whole := rest.takeWhile Text.isDecimalDigit
    match rest.dropWhile Text.isDecimalDigit with
    | [] => whole ≠ []
    | '.' :: fraction => fraction ≠ [] && fraction.all Text.isDecimalDigit
    | _ => false
  | _ => false

/-- What becomes of a word that spells no option: an argument if it is a number or holds a space. -/
def unknownWord (word : List Char) : Word :=
  if isNegativeNumber word || ' ' ∈ word then .argument else .unknown

/-- A long option that may be cut short. -/
def longOption (table : Table) (word : List Char) : Word :=
  let spelled := word.takeWhile (· ≠ '=')
  match table.filter fun o => spelled.isPrefixOf o.1 with
  | [(_, flag)] =>
    match word.dropWhile (· ≠ '=') with
    | '=' :: value => assigned flag value
    | _ => .options [⟨flag, none⟩]
  | [] => unknownWord word
  | _ => .ambiguous

/-- A short option with letters behind it. -/
def shortOptions (table : Table) (word : List Char) : Word :=
  match table.lookup (word.take 2) with
  | none => unknownWord word
  | some flag => shortOption table flag (word.drop 2)

/-- What a word is. -/
def interpret (table : Table) (word : List Char) : Word :=
  match word with
  | '-' :: c :: _ =>
    let isLong := c = '-'
    let value := (word.dropWhile (· ≠ '=')).drop 1
    -- a full spelling comes before a longer one that it begins
    match table.lookup word, table.lookup (word.takeWhile (· ≠ '=')) with
    | some flag, _ => .options [⟨flag, none⟩]
    | none, some flag => if isLong then assigned flag value else shortOption table flag value
    | none, none => if isLong then longOption table word else shortOptions table word
  | _ => .argument

end AbiIndex.Command
