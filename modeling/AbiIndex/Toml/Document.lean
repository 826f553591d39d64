import AbiIndex.Text.Lines
import AbiIndex.Toml.Scalar

/-!
# TOML documents

`parse` reads a document into a table; it fails on every text that is no document. Besides the
values, a document has rules on how tables may be opened: a table is declared once, a table that a
header or a dotted key has opened is closed to dotted keys elsewhere, and inline tables and arrays
cannot be extended.
-/

namespace AbiIndex.Toml

/-- White space inside a line. -/
def isGap (c : Char) : Bool := c = ' ' || c = '\t'

def skipGap (cs : List Char) : List Char := cs.dropWhile isGap

/-- The text behind a comment, if one starts here; `none` if the comment holds a control
character. -/
def skipComment (cs : List Char) : Option (List Char) :=
  match cs with
  | '#' :: rest =>
    if (rest.takeWhile (· ≠ '\n')).any isControl then none else some (rest.dropWhile (· ≠ '\n'))
  | _ => some cs

/-- The text behind all white space, line breaks and comments. -/
def skipLines : Nat → List Char → Option (List Char)
  | 0, cs => some cs
  | fuel + 1, cs =>
    match cs.dropWhile fun c => isGap c || c = '\n' with
    | '#' :: rest =>
      match skipComment ('#' :: rest) with
      | none => none
      | some rest => skipLines fuel rest
    | rest => some rest

def isBareKeyChar (c : Char) : Bool := c.isAlphanum || c = '-' || c = '_'

/-- One part of a key: bare, or in quotes. -/
def readKeyPart (cs : List Char) : Read String :=
  match cs with
  | [] => none
  | c :: _ =>
    if isBareKeyChar c then
      some (String.ofList (cs.takeWhile isBareKeyChar), cs.dropWhile isBareKeyChar)
    else readLineText cs

/-- A key of one or more parts with points between them, and white space behind it. -/
def readKey : Nat → List Char → Read (List String)
  | 0, _ => none
  | fuel + 1, cs =>
    match readKeyPart cs with
    | none => none
    | some (part, rest) =>
      match skipGap rest with
      | '.' :: more =>
        (readKey fuel (skipGap more)).map fun (parts, rest) => (part :: parts, rest)
      | rest => some ([part], rest)

/-- Whether `key` starts with one of the given keys. -/
def startsWithAny (keys : List (List String)) (key : List String) : Bool :=
  keys.any fun k => k.isPrefixOf key

mutual

/-- A value. -/
def readValue : Nat → List Char → Except Fault (Value × List Char)
  | 0, _ => .error .malformed
  | fuel + 1, cs =>
    match cs with
    | '"' :: _ | '\'' :: _ => do
      let (s, rest) ← orMalformed (readText cs)
      return (.text s, rest)
    | '[' :: rest => do
      let (items, rest) ← readItems fuel rest
      return (.array items, rest)
    | '\x7b' :: rest =>
      match skipGap rest with
      | '\x7d' :: rest => .ok (.table [], rest)
      | rest => do
        let (t, rest) ← readPairs fuel [] [] rest
        return (.table t, rest)
    | _ => do
      let rest ← readScalar cs
      return (.scalar, rest)

/-- The items of an array up to its closing bracket; a comma may stand behind the last one. -/
def readItems : Nat → List Char → Except Fault (List Value × List Char)
  | 0, _ => .error .malformed
  | fuel + 1, cs => do
    match ← orMalformed (skipLines fuel cs) with
    | ']' :: rest => return ([], rest)
    | cs =>
      let (v, rest) ← readValue fuel cs
      match ← orMalformed (skipLines fuel rest) with
      | ']' :: rest => return ([v], rest)
      | ',' :: rest =>
        let (vs, rest) ← readItems fuel rest
        return (v :: vs, rest)
      | _ => throw .malformed

/-- The pairs of an inline table up to its closing brace, added to the table `t`; the keys in
`frozen` cannot be extended. -/
def readPairs : Nat → Table → List (List String) → List Char → Except Fault (Table × List Char)
  | 0, _, _, _ => .error .malformed
  | fuel + 1, t, frozen, cs => do
    match readKey fuel cs with
    | some (key, '=' :: rest) =>
      let (v, rest) ← readValue fuel (skipGap rest)
      if startsWithAny frozen key then throw .malformed
      let t ← orMalformed (t.change false (Table.add (key.getLastD "") v) key.dropLast)
      match skipGap rest with
      | '\x7d' :: rest => return (t, rest)
      | ',' :: rest =>
        let frozen := match v with
          | .array _ | .table _ => key :: frozen
          | _ => frozen
        readPairs fuel t frozen (skipGap rest)
      | _ => throw .malformed
    | _ => throw .malformed

end

/-- A document that has been read in part. -/
structure Document where
  table : Table
  /-- The table that the last header has opened. -/
  header : List String
  /-- Tables that no header may declare again and no dotted key may extend. -/
  declared : List (List String)
  /-- Tables that dotted keys have opened since the last header, which will be declared with the
  next one. -/
  opened : List (List String)
  /-- Inline tables and arrays. -/
  frozen : List (List String)

namespace Document

/-- Opens a table by its header. -/
def declare (doc : Document) (key : List String) : Option Document :=
  if doc.declared.contains key || startsWithAny doc.frozen key then none
  else
    (doc.table.change true some key).map fun table =>
      { doc with table, header := key, declared := key :: doc.declared }

/-- Opens a new table of an array of tables by its header. What was declared inside the previous one
may be declared again. -/
def append (doc : Document) (key : List String) : Option Document :=
  if startsWithAny doc.frozen key then none
  else
    (doc.table.change true (Table.appendTable (key.getLastD "")) key.dropLast).map fun table =>
      { doc with
        table, header := key
        -- the new table starts without the declarations of the one before
        declared := key :: doc.declared.filter fun k => !key.isPrefixOf k
        frozen := doc.frozen.filter fun k => !key.isPrefixOf k }

/-- Sets a value in the current table. -/
def assign (doc : Document) (key : List String) (v : Value) : Option Document :=
  let parents := (List.range (key.length - 1)).map fun i => doc.header ++ key.take (i + 1)
  let owner := doc.header ++ key.dropLast
  if parents.any doc.declared.contains || startsWithAny doc.frozen owner then none
  else
    (doc.table.change true (Table.add (key.getLastD "") v) owner).map fun table =>
      { doc with
        table
        opened := parents ++ doc.opened
        frozen := match v with
          | .array _ | .table _ => (doc.header ++ key) :: doc.frozen
          | _ => doc.frozen }

/-- The document before a header: what dotted keys have opened counts as declared. -/
def close (doc : Document) : Document :=
  { doc with declared := doc.opened ++ doc.declared, opened := [] }

/-- One statement: a header or an assignment. -/
def readStatement (doc : Document) (cs : List Char) : Except Fault (Document × List Char) := do
  let fuel := cs.length + 1
  match cs with
  | '[' :: '[' :: rest =>
    match readKey fuel (skipGap rest) with
    | some (key, ']' :: ']' :: rest) => return (← orMalformed (doc.close.append key), rest)
    | _ => throw .malformed
  | '[' :: rest =>
    match readKey fuel (skipGap rest) with
    | some (key, ']' :: rest) => return (← orMalformed (doc.close.declare key), rest)
    | _ => throw .malformed
  | _ =>
    match readKey fuel cs with
    | some (key, '=' :: rest) =>
      let (v, rest) ← readValue fuel (skipGap rest)
      return (← orMalformed (doc.assign key v), rest)
    | _ => throw .malformed

/-- Statements, one a line, up to the end of the text. -/
def readAll : Nat → Document → List Char → Except Fault Document
  | 0, _, _ => .error .malformed
  | fuel + 1, doc, cs => do
    match skipGap cs with
    | [] => return doc
    | '\n' :: rest => readAll fuel doc rest
    | c :: rest =>
      let (doc, rest) ← if c = '#' then pure (doc, c :: rest) else readStatement doc (c :: rest)
      match ← orMalformed (skipComment (skipGap rest)) with
      | [] => return doc
      | '\n' :: rest => readAll fuel doc rest
      | _ => throw .malformed

end Document

/-- The table of a document, or the first fault of a text that is none. -/
def parse (text : List Char) : Except Fault Table := do
  let cs := Text.joinCrLf text
  let doc ← Document.readAll (cs.length + 1) ⟨[], [], [], [], []⟩ cs
  return doc.table

end AbiIndex.Toml
