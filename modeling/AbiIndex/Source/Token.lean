import AbiIndex.Source.Lexeme
import AbiIndex.Text.Lines

/-!
# Tokens

The lexemes that declarations are made of, each with its place in the text, its line, the number of
braces and parentheses that are open around it, and the documentation comment in front of it. White
space and comments leave no token. The two delimiters of a pair carry the same depth; a closing
delimiter without a partner leaves the depth at zero.
-/

namespace AbiIndex.Source

open AbiIndex.Text

/-- The kinds of lexeme that become a token. -/
inductive TokenKind where
  | word
  | number
  | quoted
  | mark
deriving DecidableEq

/-- A lexeme that can take part in a declaration. The value of a quoted literal is the text between
its quotes; `start` and `stop` count characters from the beginning of the source. -/
structure Token where
  kind : TokenKind
  value : String
  start : Nat
  stop : Nat
  line : Nat
  depth : Nat
  parenDepth : Nat
  doc : Option String
deriving DecidableEq

/-- The mark that opens a block. -/
abbrev blockOpen : String := "\x7b"

/-- The mark that closes a block. -/
abbrev blockClose : String := "\x7d"

namespace Token

/-- Whether the token is the given punctuation mark. -/
def isMark (t : Token) (value : String) : Bool := t.kind = .mark && t.value = value

/-- Whether the token is the given word. -/
def isWord (t : Token) (value : String) : Bool := t.kind = .word && t.value = value

end Token

/-- A documentation comment that waits for the next token. `runLine` is the line of the last of
its lines if it is a run of line comments that a comment on the next line continues. -/
structure PendingDoc where
  text : String
  runLine : Option Nat
deriving DecidableEq

namespace Lexeme

/-- The kind and value of the token that a lexeme becomes, if it becomes one. -/
def token? : Lexeme → Option (TokenKind × String)
  | quoted _ body => some (.quoted, String.ofList body)
  | word text => some (.word, String.ofList text)
  | number text => some (.number, String.ofList text)
  | mark text => some (.mark, String.ofList text)
  | _ => none

/-- The line of a documentation comment of exactly three slashes. -/
def docLine? : Lexeme → Option (List Char)
  | lineComment ('/' :: '/' :: _) => none
  | lineComment ('/' :: body) => some (trim body)
  | _ => none

/-- A line of a documentation block without its leading star and the blank behind it. -/
def dropStar (line : List Char) : List Char :=
  match trim line with
  | '*' :: ' ' :: rest => trimEnd rest
  | '*' :: rest => trimEnd rest
  | rest => trimEnd rest

/-- The text of a documentation block, which opens with exactly two stars. -/
def docBlock? : Lexeme → Option (List Char)
  | blockComment ('*' :: c :: body) =>
    if c = '*' then none
    else some (trim (['\n'].intercalate ((splitLines (c :: body)).map dropStar)))
  | _ => none

end Lexeme

/-- The documentation after a lexeme that is no token and starts on line `line`. A line comment
continues a run that ended on the line before; every other documentation comment starts anew. -/
def PendingDoc.next (line : Nat) (pending : Option PendingDoc) (l : Lexeme) : Option PendingDoc :=
  match l.docLine?, l.docBlock? with
  | some text, _ =>
    match pending with
    | some doc =>
      -- a run goes on only on the very next line
      if doc.runLine = some (line - 1) then
        some ⟨doc.text ++ "\n" ++ String.ofList text, some line⟩
      else some ⟨String.ofList text, some line⟩
    | none => some ⟨String.ofList text, some line⟩
  | none, some text => some ⟨String.ofList text, none⟩
  | none, none => pending

/-- The place of the next lexeme. -/
structure Cursor where
  offset : Nat
  line : Nat
  depth : Nat
  parenDepth : Nat
  doc : Option PendingDoc

namespace Cursor

/-- The beginning of a text. -/
def start : Cursor := ⟨0, 1, 0, 0, none⟩

/-- The place behind a lexeme, with the documentation `doc` waiting. -/
def past (here : Cursor) (l : Lexeme) (doc : Option PendingDoc) : Cursor where
  offset := here.offset + l.text.length
  line := here.line + l.text.count '\n'
  depth := if l = .mark ['{'] then here.depth + 1 else if l = .mark ['}'] then here.depth - 1
    else here.depth
  parenDepth := if l = .mark ['('] then here.parenDepth + 1
    else if l = .mark [')'] then here.parenDepth - 1 else here.parenDepth
  doc := doc

/-- The token of the lexeme `l` at this place. -/
def token (here : Cursor) (l : Lexeme) (kind : TokenKind) (value : String) : Token where
  kind := kind
  value := value
  start := here.offset
  stop := here.offset + l.text.length
  line := here.line
  depth := if l = .mark ['}'] then here.depth - 1 else here.depth
  parenDepth := if l = .mark [')'] then here.parenDepth - 1 else here.parenDepth
  doc := here.doc.map (·.text)

end Cursor

/-- The tokens of a sequence of lexemes that starts at the given place. -/
def tokensFrom : Cursor → List Lexeme → List Token
  | _, [] => []
  | here, l :: rest =>
    match l.token? with
    | some (kind, value) => here.token l kind value :: tokensFrom (here.past l none) rest
    | none => tokensFrom (here.past l (PendingDoc.next here.line here.doc l)) rest

/-- A text cannot be read because what opens on the given line is never closed. -/
structure Unterminated where
  what : Unclosed
  line : Nat
deriving DecidableEq

/-- The wording of the failure. -/
def Unterminated.message (e : Unterminated) : String :=
  let opened := match e.what with
    | .comment => "Unterminated block comment"
    | .quote => "Unterminated string literal"
  s!"{opened} (line {e.line})"

/-- The tokens of a source text. -/
def tokenize (text : List Char) : Except Unterminated (List Token) :=
  let scan := Lexeme.scan text
  match scan.failure with
  | none => .ok (tokensFrom .start scan.lexemes)
  | some what => .error ⟨what, 1 + (scan.lexemes.flatMap Lexeme.text).count '\n'⟩

end AbiIndex.Source
