import AbiIndex.Yaml.Tag

/-!
# Reading tokens

Block collections open where an entry or a key is indented further than the one around it, and close
where the indentation falls back. A key is known only when its colon comes, so the place of a
possible key is kept until then. A key must fit into one line of at most 1024 characters.
-/

namespace AbiIndex.Yaml

/-- The place of a token that may turn out to be a key. -/
structure PossibleKey where
  tokenNumber : Nat
  /-- Whether it has to be a key because of its indentation. -/
  required : Bool
  index : Nat
  line : Nat
  column : Nat

/-- The state of the tokenizer. -/
structure Tokenizer where
  cursor : Cursor
  tokens : Array Token
  indent : Int
  /-- The indentations around the present one. -/
  outer : List Int
  keyAllowed : Bool
  /-- The possible key in the present collection. -/
  possibleKey : Option PossibleKey
  /-- The possible keys in front of the flow collections that are open. -/
  outerKeys : List (Option PossibleKey)

namespace Tokenizer

def start (text : List Char) : Tokenizer :=
  ⟨.start text, #[], -1, [], true, none, []⟩

def inFlow (s : Tokenizer) : Bool := s.outerKeys ≠ []

def column (s : Tokenizer) : Int := s.cursor.column

/-- Adds a token for the next characters. -/
def emit (s : Tokenizer) (t : Token) (width : Nat) : Tokenizer :=
  { s with tokens := s.tokens.push t, cursor := s.cursor.skip width }

/-- Skips white space and comments. Behind a line break outside flow collections a key may start. -/
def skipGap (inFlow : Bool) (keyAllowed : Bool) (c : Cursor) : Bool × Cursor :=
  let c₁ := c.skip (c.rest.takeWhile (· = ' ')).length
  let c₂ :=
    if c₁.rest.head? = some '#' then c₁.skip (c₁.rest.takeWhile fun ch => !isBreak ch).length
    else c₁
  if c₂.rest.head?.any isBreak then
    if _h : c₂.next.rest.length < c.rest.length then
      skipGap inFlow (keyAllowed || !inFlow) c₂.next
    else (keyAllowed, c₂)
  else (keyAllowed, c₂)
termination_by c.rest.length

/-- Closes the block collections that are indented further than a column. -/
def closeBlocks (column : Int) (s : Tokenizer) : Tokenizer :=
  match _h : s.outer with
  | [] => s
  | i :: rest =>
    if column < s.indent then
      closeBlocks column { s with tokens := s.tokens.push .blockEnd, indent := i, outer := rest }
    else s
termination_by s.outer.length
decreasing_by simp [_h]

/-- Opens a block collection if a column is indented further than the present one. -/
def openBlock (s : Tokenizer) (column : Int) : Bool × Tokenizer :=
  if s.indent < column then
    (true, { s with indent := column, outer := s.indent :: s.outer })
  else (false, s)

/-- Puts a token in front of those from a number on. -/
def insert (s : Tokenizer) (n : Nat) (t : Token) : Tokenizer :=
  { s with tokens := (s.tokens.extract 0 n).push t ++ s.tokens.extract n }

/-- Forgets the possible key of the present collection, which must not be required. -/
def dropKey (s : Tokenizer) : Option Tokenizer :=
  if s.possibleKey.any (·.required) then none else some { s with possibleKey := none }

/-- Notes that the next token may be a key. -/
def noteKey (s : Tokenizer) : Option Tokenizer :=
  if s.keyAllowed then
    s.dropKey.map fun s =>
      let required := !s.inFlow && s.indent = s.column
      let c := s.cursor
      { s with possibleKey := some ⟨s.tokens.size, required, c.index, c.line, c.column⟩ }
  else some s

/-- Whether a possible key can no longer be one. -/
def isStale (c : Cursor) (k : PossibleKey) : Bool :=
  k.line ≠ c.line || k.index + 1024 < c.index

/-- Forgets the possible keys that can no longer be keys. -/
def dropStaleKeys (s : Tokenizer) : Option Tokenizer :=
  if (s.possibleKey :: s.outerKeys).any fun k => k.any fun k => isStale s.cursor k && k.required
  then none
  else
    let fresh := fun k : Option PossibleKey => k.filter fun k => !isStale s.cursor k
    some { s with possibleKey := fresh s.possibleKey, outerKeys := s.outerKeys.map fresh }

/-- A mark of the start or the end of the document. -/
def separator (s : Tokenizer) (t : Token) : Option Tokenizer := do
  let s ← (closeBlocks (-1) s).dropKey
  return { s with keyAllowed := false }.emit t 3

/-- The opening bracket of a flow collection. -/
def flowStart (s : Tokenizer) (t : Token) : Option Tokenizer := do
  let s ← s.noteKey
  return { s with
    outerKeys := s.possibleKey :: s.outerKeys
    possibleKey := none
    keyAllowed := true }.emit t 1

/-- The closing bracket of a flow collection. -/
def flowEnd (s : Tokenizer) (t : Token) : Option Tokenizer :=
  match s.outerKeys with
  | [] => none
  | k :: rest =>
    some ({ s with outerKeys := rest, possibleKey := k, keyAllowed := false }.emit t 1)

/-- The comma in a flow collection. -/
def flowEntry (s : Tokenizer) : Option Tokenizer := do
  let s ← s.dropKey
  return { s with keyAllowed := true }.emit .flowEntry 1

/-- An indicator that opens a block collection if it is indented further, outside flow
collections. -/
def blockIndicator (s : Tokenizer) (collection t : Token) (keyAllowed : Bool) :
    Option Tokenizer := do
  let s ←
    if s.inFlow then some s
    else if !s.keyAllowed then none
    else
      match s.openBlock s.column with
      | (true, s') => some { s' with tokens := s'.tokens.push collection }
      | (false, s') => some s'
  let s ← s.dropKey
  return { s with keyAllowed := keyAllowed }.emit t 1

/-- The colon behind a key. -/
def keyEnd (s : Tokenizer) : Option Tokenizer :=
  match s.possibleKey with
  | some k =>
    -- the key has been read already, so its mark goes in front of it
    let s := { s with possibleKey := none, keyAllowed := false }.insert k.tokenNumber .key
    let s :=
      if s.inFlow then s
      else
        match s.openBlock k.column with
        | (true, s') => s'.insert k.tokenNumber .mappingStart
        | (false, s') => s'
    some (s.emit .value 1)
  | none => s.blockIndicator .mappingStart .value (!s.inFlow)

/-- A quoted text. -/
def quoted (s : Tokenizer) (quote : Char) : Except Fault Tokenizer := do
  let s ← orMalformed s.noteKey
  let r ← readQuoted quote s.cursor.next
  return { s with
    tokens := s.tokens.push (.scalar r.text false)
    cursor := r.cursor
    keyAllowed := false }

/-- A plain text. -/
def plain (s : Tokenizer) : Option Tokenizer := do
  let s ← s.noteKey
  let (r, broken) := readPlain s.inFlow (s.indent + 1) s.cursor
  return { s with
    tokens := s.tokens.push (.scalar r.text true)
    cursor := r.cursor
    keyAllowed := broken }

/-- A tag. -/
def tag (s : Tokenizer) : Option Tokenizer := do
  let s ← s.noteKey
  let (t, c) ← readTag s.cursor.next
  return { s with tokens := s.tokens.push (.tag t), cursor := c, keyAllowed := false }

/-- A reference. -/
def reference (s : Tokenizer) : Option Tokenizer := do
  let s ← s.noteKey
  let c ← readReference s.cursor.next
  return { s with tokens := s.tokens.push .reference, cursor := c, keyAllowed := false }

/-- The characters that start no plain text. -/
def indicators : List Char :=
  ['-', '?', ':', ',', '[', ']', '\x7b', '\x7d', '#', '&', '*', '!', '|', '>', '\'', '"', '%', '@',
   '\x60']

/-- Whether a plain text can start here. -/
def startsPlain (inFlow : Bool) (c : Char) (rest : List Char) : Bool :=
  (!isSpace c && c ∉ indicators)
    || (!atSpace rest && (c = '-' || (!inFlow && (c = '?' || c = ':'))))

/-- Reads the next token behind white space, unless it is a quoted text. Directives, names
of nodes and block texts are refused. -/
def mark (s : Tokenizer) (c : Char) (rest : List Char) : Option Tokenizer :=
  match c with
  | '[' => s.flowStart .flowSequenceStart
  | '\x7b' => s.flowStart .flowMappingStart
  | ']' => s.flowEnd .flowSequenceEnd
  | '\x7d' => s.flowEnd .flowMappingEnd
  | ',' => s.flowEntry
  | '!' => s.tag
  | '*' => s.reference
  | _ =>
    if c = '-' && atSpace rest then s.blockIndicator .sequenceStart .entry true
    else if c = '?' && (s.inFlow || atSpace rest) then
      s.blockIndicator .mappingStart .key (!s.inFlow)
    else if c = ':' && (s.inFlow || atSpace rest) then s.keyEnd
    else if startsPlain s.inFlow c rest then s.plain
    else none

/-- Reads the next token behind white space. -/
def step (s : Tokenizer) (c : Char) (rest : List Char) : Except Fault Tokenizer :=
  if s.cursor.column = 0 && s.cursor.atSeparator then
    orMalformed (s.separator (if c = '-' then .documentStart else .documentEnd))
  else if c = '\'' || c = '"' then s.quoted c
  else orMalformed (s.mark c rest)

/-- The state behind the white space and the comments in front of the next token. -/
def advance (s : Tokenizer) : Except Fault Tokenizer := do
  let (keyAllowed, cursor) := skipGap s.inFlow s.keyAllowed s.cursor
  let s ← orMalformed ({ s with keyAllowed := keyAllowed, cursor := cursor }.dropStaleKeys)
  -- indentation means nothing inside flow collections
  return if s.inFlow then s else closeBlocks s.column s

/-- The state at the end of a text. -/
def finish (s : Tokenizer) : Except Fault Tokenizer :=
  orMalformed (if s.inFlow then s else closeBlocks (-1) s).dropKey

/-- The number of tokens that are certain: no key can be put in front of them any more. -/
def certain (s : Tokenizer) : Nat :=
  let fresh := (s.possibleKey :: s.outerKeys).filterMap fun k => k.filter (!isStale s.cursor ·)
  (fresh.map (·.tokenNumber)).foldl min s.tokens.size

/-- The tokens that are certain, and the fault that keeps the others from becoming so. -/
def stop (s : Tokenizer) (f : Fault) : List Token := s.tokens.toList.take s.certain ++ [.fault f]

/-- Reads all tokens from a place on, as far as there are tokens. -/
def run (s : Tokenizer) : List Token :=
  match s.advance with
  | .error f => s.stop f
  | .ok s' =>
    match s'.cursor.rest with
    | [] =>
      match s'.finish with
      | .error f => s.stop f
      | .ok last => last.tokens.toList
    | c :: rest =>
      match s'.step c rest with
      | .error f => s.stop f
      | .ok next =>
        if _h : next.cursor.rest.length < s.cursor.rest.length then run next
        else s.stop .malformed
termination_by s.cursor.rest.length

end Tokenizer

/-- The tokens of a text. A byte order mark in front is skipped. -/
def tokens (text : List Char) : List Token :=
  if text.all isPrintable then
    let s := Tokenizer.start text
    let c := if text.head? = some '\ufeff' then s.cursor.next else s.cursor
    Tokenizer.run { s with cursor := c }
  else [.fault .malformed]

end AbiIndex.Yaml
