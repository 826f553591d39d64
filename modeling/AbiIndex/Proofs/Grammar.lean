import AbiIndex.Proofs.Delimiting
import AbiIndex.Source.Unit

/-!
# Abstract source units

The declarations of a source file as trees, and how they are written. A tree carries the proofs that
its names are no words with a meaning of their own where they stand, and that what it keeps as plain
tokens is balanced, so every tree can be written. Apart from its lexemes each tree has the
declaration that it stands for, with the line of its keyword.

## Key results

- `TypeExpr.phrase`, `ParameterExpr.phrase`, `SpecifierExpr.phrase`: what is written inside a
  statement neither ends it nor leaves a parenthesis open
- `MemberExpr.block`, `Item.block`: the braces of a member and of a whole contract are balanced
-/

namespace AbiIndex.Grammar

open AbiIndex.Source
open Lexeme (sign term)

/-! ## Names and arguments -/

/-- A word. -/
structure Ident where
  text : String
  solid : (term text).isSolid

/-- A name with its qualifiers in front. -/
structure Dotted where
  first : Ident
  more : List Ident

namespace Dotted

def names (d : Dotted) : List String := d.first.text :: d.more.map (·.text)

/-- The name without its qualifiers. -/
def last (d : Dotted) : String := (d.first.text :: d.more.map (·.text)).getLast (List.cons_ne_nil _ _)

def lexemes (d : Dotted) : List Lexeme :=
  term d.first.text :: d.more.flatMap fun n => [sign ".", term n.text]

end Dotted

/-- What stands between the parentheses of an invocation. -/
structure Arguments where
  lexemes : List Lexeme
  phrase : Phrase lexemes

/-- The parts of a list with commas in between. -/
def listed : List (List Lexeme) → List Lexeme
  | [] => []
  | part :: parts => part ++ parts.flatMap (sign "," :: ·)

/-! ## Types -/

/-- What stands between the parentheses of a function type. -/
structure TypeArguments extends Arguments where
  brackets : bracketsMatch lexemes

/-- The name of a type. -/
inductive NamedType where
  | elementary (name : Ident) (known : isElementary name.text)
  | addressPayable
  | user (path : Dotted)
      (free : isElementary path.first.text = false ∧ path.first.text ∉ ["mapping", "function"])

/-- What stands between the brackets of an array type. -/
inductive Length where
  | unstated
  | literal (digits : List Char) (solid : (Lexeme.number digits).isSolid)
  | constant (path : Dotted)

/-- What follows the parameters of a function type. -/
inductive TypeSuffix where
  | word (text : String) (known : text ∈ TypeRef.functionTypeWords)
  | returns (values : TypeArguments)

inductive TypeExpr where
  | named (type : NamedType)
  | mapping (key : NamedType) (value : TypeExpr)
  | function (parameters : TypeArguments) (suffixes : List TypeSuffix)
  | array (base : TypeExpr) (length : Length)

namespace NamedType

def lexemes : NamedType → List Lexeme
  | elementary name _ => [term name.text]
  | addressPayable => [term "address", term "payable"]
  | user path _ => path.lexemes

def ref : NamedType → TypeRef
  | elementary name _ => .elementary name.text
  | addressPayable => .elementary "address payable"
  | user path _ => .user path.names

end NamedType

namespace Length

def lexemes : Length → List Lexeme
  | unstated => []
  | literal digits _ => [.number digits]
  | constant path => path.lexemes

def text : Length → Option String
  | unstated => none
  | literal digits _ => some (String.ofList digits)
  | constant path => some (".".intercalate path.names)

end Length

def TypeSuffix.lexemes : TypeSuffix → List Lexeme
  | word text _ => [term text]
  | returns values => term "returns" :: inParens values.lexemes

namespace TypeExpr

def lexemes : TypeExpr → List Lexeme
  | named type => type.lexemes
  | mapping key value =>
    term "mapping" :: inParens (key.lexemes ++ sign "=>" :: value.lexemes)
  | function parameters suffixes =>
    term "function" :: (inParens parameters.lexemes ++ suffixes.flatMap TypeSuffix.lexemes)
  | array base length => base.lexemes ++ sign "[" :: (length.lexemes ++ [sign "]"])

/-- The type as it is read. A function type is kept word for word. -/
def ref : TypeExpr → TypeRef
  | named type => type.ref
  | mapping key value => .mapping key.ref value.ref
  | function parameters suffixes =>
    .function (" ".intercalate ((function parameters suffixes).lexemes.map Lexeme.value))
  | array base length => .array base.ref length.text

/-- The words that belong to the type if they follow it. -/
def absorbs : TypeExpr → List String
  | named (.elementary name _) => if name.text = "address" then ["payable"] else []
  | function _ _ => TypeRef.functionTypeWords
  | _ => []

end TypeExpr

/-! ## Parameters -/

/-- The words behind the type of a parameter. -/
def parameterWords (indexed : Bool) (location : Option {w // w ∈ Parameter.dataLocations})
    (name : Option Ident) : List String :=
  (if indexed then ["indexed"] else []) ++ location.toList.map (·.val) ++ name.toList.map (·.text)

/-- A parameter, a struct field or a returned value. -/
structure ParameterExpr (allowIndexed : Bool) where
  type : TypeExpr
  indexed : Bool
  location : Option {w // w ∈ Parameter.dataLocations}
  name : Option Ident
  indexed_allowed : indexed → allowIndexed
  name_free : ∀ n ∈ name, n.text ∉ Parameter.dataLocations ∧ (allowIndexed → n.text ≠ "indexed")
  /-- The type ends where it should. -/
  type_ends : ∀ w ∈ (parameterWords indexed location name).head?, w ∉ type.absorbs

namespace ParameterExpr

variable {allowIndexed : Bool}

def words (p : ParameterExpr allowIndexed) : List String :=
  parameterWords p.indexed p.location p.name

def lexemes (p : ParameterExpr allowIndexed) : List Lexeme := p.type.lexemes ++ p.words.map term

def parameter (p : ParameterExpr allowIndexed) : Parameter :=
  ⟨(p.name.map (·.text)).getD "", p.type.ref, p.indexed⟩

end ParameterExpr

/-- A list of parameters between its parentheses. -/
def parameterList {allowIndexed : Bool} (ps : List (ParameterExpr allowIndexed)) : List Lexeme :=
  inParens (listed (ps.map (·.lexemes)))

/-! ## Functions -/

/-- The words with a meaning of their own in the header of a function. -/
def headerWords : List String :=
  ["public", "external", "internal", "private", "pure", "view", "payable", "nonpayable",
   "constant", "virtual", "override", "returns"]

/-- The name of a modifier or of a base contract and the arguments that are given to it. -/
structure Invocation where
  path : Dotted
  arguments : Option Arguments

def Invocation.lexemes (i : Invocation) : List Lexeme :=
  i.path.lexemes ++ i.arguments.toList.flatMap fun a => inParens a.lexemes

/-- One part of a function header. -/
inductive SpecifierExpr where
  | visibility (v : Visibility)
  | mutability (m : Mutability)
  | virtual
  | override (bases : Option Arguments)
  | modifier (i : Invocation) (free : i.path.first.text ∉ headerWords)
  | returns (values : List (ParameterExpr false))

namespace SpecifierExpr

def lexemes : SpecifierExpr → List Lexeme
  | visibility v => [term v.name]
  | mutability m => [term m.name]
  | virtual => [term "virtual"]
  | override bases => term "override" :: bases.toList.flatMap fun a => inParens a.lexemes
  | modifier i _ => i.lexemes
  | returns values => term "returns" :: parameterList values

def specifier : SpecifierExpr → Specifier
  | visibility v => .visibility v
  | mutability m => .mutability m
  | virtual => .virtual
  | override _ => .override
  | modifier i _ => .modifier (".".intercalate i.path.names)
  | returns values => .returns (values.map (·.parameter))

end SpecifierExpr

/-- What a function is called. -/
inductive FunctionHead where
  | named (name : Ident)
  | constructor
  | fallback
  | receive

namespace FunctionHead

def lexemes : FunctionHead → List Lexeme
  | named name => [term "function", term name.text]
  | constructor => [term "constructor"]
  | fallback => [term "fallback"]
  | receive => [term "receive"]

def name : FunctionHead → String
  | named name => name.text
  | constructor => "constructor"
  | fallback => "fallback"
  | receive => "receive"

def kind : FunctionHead → FunctionKind
  | named _ => .function
  | constructor => .constructor
  | fallback => .fallback
  | receive => .receive

end FunctionHead

/-- What ends a function: a `;`, or a body of any tokens. -/
inductive FunctionEnd where
  | semicolon
  | body (ls : List Lexeme) (block : Block ls)

def FunctionEnd.lexemes : FunctionEnd → List Lexeme
  | semicolon => [sign ";"]
  | body ls _ => inBraces ls

/-- The visibility of a function that states none. Constructors are public, fallback and receive
functions external. Any other function is external in an interface, where it can be nothing else,
and internal everywhere else. -/
def unstatedVisibility : FunctionKind → ContractKind → Visibility
  | .constructor, _ => .pub
  | .fallback, _ => .external
  | .receive, _ => .external
  | .function, .interface => .external
  | .function, .contract => .internal
  | .function, .library => .internal
  | .function, .abstract => .internal

theorem defaultVisibility_eq (kind : FunctionKind) (scope : ContractKind) :
    Member.defaultVisibility kind (some scope) = unstatedVisibility kind scope := by
  cases kind <;> cases scope <;> rfl

structure FunctionExpr where
  head : FunctionHead
  parameters : List (ParameterExpr false)
  visibility : Option Visibility
  mutability : Option Mutability
  isVirtual : Bool
  /-- Whether the function overrides another, and the bases that it states then. -/
  overriding : Option (Option Arguments)
  modifiers : List {i : Invocation // i.path.first.text ∉ headerWords}
  returns : Option (List (ParameterExpr false))
  ending : FunctionEnd

namespace FunctionExpr

def specifiers (f : FunctionExpr) : List SpecifierExpr :=
  f.visibility.toList.map .visibility ++ f.mutability.toList.map .mutability
    ++ (if f.isVirtual then [.virtual] else []) ++ f.overriding.toList.map .override
    ++ f.modifiers.map (fun i => .modifier i.val i.property)
    ++ f.returns.toList.map .returns

def lexemes (f : FunctionExpr) : List Lexeme :=
  f.head.lexemes ++ parameterList f.parameters
    ++ f.specifiers.flatMap SpecifierExpr.lexemes ++ f.ending.lexemes

/-- The function in a contract of the given kind. -/
def decl (scope : ContractKind) (line : Nat) (f : FunctionExpr) : FunctionDecl where
  name := f.head.name
  parameters := f.parameters.map (·.parameter)
  kind := f.head.kind
  visibility := f.visibility.getD (unstatedVisibility f.head.kind scope)
  mutability := f.mutability.getD .nonpayable
  visibilityExplicit := f.visibility.isSome
  returns := (f.returns.getD []).map (·.parameter)
  modifiers := f.modifiers.map fun i => ".".intercalate i.val.path.names
  isVirtual := f.isVirtual
  isOverride := f.overriding.isSome
  line := line
  natspec := none

/-- The report on an ordinary function that states no visibility outside an interface. -/
def reports (path : String) (scope : ContractKind) (line : Nat) (f : FunctionExpr) :
    List Diagnostic :=
  if f.head.kind = .function ∧ f.visibility = none ∧ scope ≠ .interface then
    [⟨.implicitVisibility,
      s!"function {f.head.name} declares no visibility; treated as internal", some path, some line,
      some s!"function {f.head.name}"⟩]
  else []

end FunctionExpr

/-! ## Other declarations -/

structure EventExpr where
  name : Ident
  parameters : List (ParameterExpr true)
  anonymous : Bool

structure ErrorExpr where
  name : Ident
  parameters : List (ParameterExpr false)

structure StructExpr where
  name : Ident
  fields : List (ParameterExpr false)

structure EnumExpr where
  name : Ident
  members : List Ident

structure ValueTypeExpr where
  name : Ident
  underlying : TypeExpr

/-- The words that announce a declaration. -/
def declarationWords : List String :=
  ["pragma", "import", "abstract", "contract", "interface", "library", "function", "constructor",
   "fallback", "receive", "modifier", "event", "error", "struct", "enum", "type"]

/-- A constant with a number as its value. -/
structure ConstantExpr where
  type : TypeExpr
  visibility : Option Visibility
  name : Ident
  value : List Char
  solid : (Lexeme.number value).isSolid
  /-- The type does not announce another declaration. -/
  type_opens : ∀ w ∈ declarationWords, type.lexemes.head? ≠ some (term w)
  type_free : term "constant" ∉ type.lexemes

/-- What can be declared in a contract and outside of it. -/
inductive DeclarationExpr where
  | event (e : EventExpr)
  | error (e : ErrorExpr)
  | struct (s : StructExpr)
  | enum (e : EnumExpr)
  | valueType (v : ValueTypeExpr)
  | constant (c : ConstantExpr)

/-- What stands in front of the word `constant`. -/
def ConstantExpr.front (c : ConstantExpr) : List Lexeme :=
  c.type.lexemes ++ c.visibility.toList.map fun v => term v.name

namespace DeclarationExpr

def lexemes : DeclarationExpr → List Lexeme
  | event e =>
    [term "event", term e.name.text] ++ parameterList e.parameters
      ++ (if e.anonymous then [term "anonymous"] else []) ++ [sign ";"]
  | error e => [term "error", term e.name.text] ++ parameterList e.parameters ++ [sign ";"]
  | struct s =>
    [term "struct", term s.name.text] ++ inBraces (s.fields.flatMap fun f => f.lexemes ++ [sign ";"])
  | enum e =>
    [term "enum", term e.name.text] ++ inBraces (listed (e.members.map fun n => [term n.text]))
  | valueType v =>
    [term "type", term v.name.text, term "is"] ++ v.underlying.lexemes ++ [sign ";"]
  | constant c =>
    c.front ++ [term "constant", term c.name.text, sign "=", .number c.value, sign ";"]

/-- What is declared, if the first lexeme stands at the given place. The line of a constant is that
of the word `constant`. -/
def member (layout : Layout) (here : Cursor) : DeclarationExpr → Member
  | event e => .event ⟨e.name.text, e.parameters.map (·.parameter), e.anonymous, here.line, none⟩
  | error e => .error ⟨e.name.text, e.parameters.map (·.parameter), here.line, none⟩
  | struct s => .struct ⟨s.name.text, s.fields.map (·.parameter), here.line⟩
  | enum e => .enum ⟨e.name.text, e.members.map (·.text), here.line⟩
  | valueType v => .valueType ⟨v.name.text, v.underlying.ref, here.line⟩
  | constant c =>
    .constant ⟨c.name.text, String.ofList c.value, (here.through layout c.front).line⟩

end DeclarationExpr

/-! ## Contracts and files -/

/-- A member of a contract. -/
inductive MemberExpr where
  | function (f : FunctionExpr)
  | declaration (d : DeclarationExpr)

namespace MemberExpr

def lexemes : MemberExpr → List Lexeme
  | function f => f.lexemes
  | declaration d => d.lexemes

/-- What a member of a contract of the given kind gives: its declaration, and what is reported on
it. -/
def members (layout : Layout) (path : String) (scope : ContractKind) (here : Cursor) :
    MemberExpr → List Member
  | function f =>
    (f.reports path scope here.line).map .diagnostic ++ [.function (f.decl scope here.line)]
  | declaration d => [d.member layout here]

end MemberExpr

/-- What the members of a contract give, one behind the other. -/
def membersFrom (layout : Layout) (path : String) (scope : ContractKind) :
    Cursor → List MemberExpr → List Member
  | _, [] => []
  | here, m :: ms =>
    m.members layout path scope here ++
      membersFrom layout path scope (here.through layout m.lexemes) ms

structure ContractExpr where
  kind : ContractKind
  name : Ident
  bases : List Invocation
  members : List MemberExpr

namespace ContractExpr

def keywords : ContractKind → List Lexeme
  | .contract => [term "contract"]
  | .interface => [term "interface"]
  | .library => [term "library"]
  | .abstract => [term "abstract", term "contract"]

def inheritance : List Invocation → List Lexeme
  | [] => []
  | base :: bases => term "is" :: listed ((base :: bases).map Invocation.lexemes)

/-- The contract up to its body. -/
def head (c : ContractExpr) : List Lexeme :=
  keywords c.kind ++ term c.name.text :: inheritance c.bases

def lexemes (c : ContractExpr) : List Lexeme :=
  c.head ++ inBraces (c.members.flatMap MemberExpr.lexemes)

/-- What the body of the contract gives. -/
def bodyMembers (layout : Layout) (path : String) (here : Cursor) (c : ContractExpr) :
    List Member :=
  membersFrom layout path c.kind
    ((here.through layout c.head).after layout (sign blockOpen)) c.members

/-- The contract, if its first lexeme stands at the given place. Of a dotted base name the last part
counts. -/
def decl (layout : Layout) (path : String) (here : Cursor) (c : ContractExpr) : ContractDecl where
  name := c.name.text
  kind := c.kind
  bases := c.bases.map (·.path.last)
  functions := (c.bodyMembers layout path here).filterMap Member.function?
  events := (c.bodyMembers layout path here).filterMap Member.event?
  errors := (c.bodyMembers layout path here).filterMap Member.error?
  structs := (c.bodyMembers layout path here).filterMap Member.struct?
  enums := (c.bodyMembers layout path here).filterMap Member.enum?
  valueTypes := (c.bodyMembers layout path here).filterMap Member.valueType?
  constants := (c.bodyMembers layout path here).filterMap Member.constant?
  modifiers := []
  line := here.line
  natspec := none

end ContractExpr

/-- A declaration at file level. -/
inductive Item where
  | contract (c : ContractExpr)
  | declaration (d : DeclarationExpr)

namespace Item

def lexemes : Item → List Lexeme
  | contract c => c.lexemes
  | declaration d => d.lexemes

/-- What the declaration gives; the reports on the members of a contract are passed on. -/
def members (layout : Layout) (path : String) (here : Cursor) : Item → List Member
  | contract c =>
    ((c.bodyMembers layout path here).filterMap Member.diagnostic?).map .diagnostic
      ++ [.contract (c.decl layout path here)]
  | declaration d => [d.member layout here]

end Item

/-- What the declarations of a file give, one behind the other. -/
def itemsFrom (layout : Layout) (path : String) : Cursor → List Item → List Member
  | _, [] => []
  | here, i :: is =>
    i.members layout path here ++ itemsFrom layout path (here.through layout i.lexemes) is

/-- The text of a file in the given layout. -/
def print (layout : Layout) (file : List Item) : List Char :=
  spell layout (file.flatMap Item.lexemes)

/-- The declarations of a file, each kind in the order of the text. -/
def unit (layout : Layout) (path : String) (file : List Item) : SourceUnit :=
  let members := itemsFrom layout path .start file
  { path
    category := Category.ofPath path
    pragma := none
    imports := []
    contracts := members.filterMap Member.contract?
    structs := members.filterMap Member.struct?
    enums := members.filterMap Member.enum?
    valueTypes := members.filterMap Member.valueType?
    constants := members.filterMap Member.constant?
    errors := members.filterMap Member.error?
    events := members.filterMap Member.event?
    diagnostics := members.filterMap Member.diagnostic? }

/-! ## Phrases -/

theorem Ident.phrase (n : Ident) : Phrase [term n.text] := Phrase.word n.solid

theorem Dotted.phrase (d : Dotted) : Phrase d.lexemes := by
  apply Phrase.cons d.first.phrase
  apply Phrase.flatMap
  intro n _
  exact Phrase.cons (by decide) n.phrase

theorem phrase_listed {parts : List (List Lexeme)} (h : ∀ part ∈ parts, Phrase part) :
    Phrase (listed parts) := by
  cases parts with
  | nil => exact Phrase.nil
  | cons part parts =>
    apply (h part List.mem_cons_self).append
    apply Phrase.flatMap
    intro other hother
    exact Phrase.cons (by decide) (h other (List.mem_cons_of_mem part hother))

theorem NamedType.phrase (t : NamedType) : Phrase t.lexemes := by
  cases t with
  | elementary name known => exact name.phrase
  | addressPayable => exact Phrase.cons (by decide) (by decide)
  | user path free => exact path.phrase

theorem Length.phrase (n : Length) : Phrase n.lexemes := by
  cases n with
  | unstated => exact Phrase.nil
  | literal digits solid =>
    refine ⟨?_, ?_, ?_⟩
    · intro l hl
      rw [lexemes, List.mem_singleton] at hl
      rwa [hl]
    · simp [parensMatch, lexemes, closes, sign]
    · simp [staysInStatement, lexemes, statementEnds, sign]
  | constant path => exact path.phrase

theorem TypeSuffix.phrase (s : TypeSuffix) : Phrase s.lexemes := by
  cases s with
  | word text known =>
    have hall : ∀ w ∈ TypeRef.functionTypeWords, Phrase [term w] := by decide
    exact hall text known
  | returns values => exact Phrase.cons (by decide) values.phrase.inParens

/-- A type neither ends a statement nor leaves a parenthesis open. -/
theorem TypeExpr.phrase (t : TypeExpr) : Phrase t.lexemes := by
  induction t with
  | named type => exact type.phrase
  | mapping key value ih =>
    apply Phrase.cons (by decide)
    exact (key.phrase.append (Phrase.cons (by decide) ih)).inParens
  | function parameters suffixes =>
    apply Phrase.cons (by decide)
    exact parameters.phrase.inParens.append (Phrase.flatMap fun s _ => s.phrase)
  | array base length ih =>
    apply ih.append
    exact Phrase.cons (by decide) (length.phrase.append (by decide))

theorem ParameterExpr.phrase {allowIndexed : Bool} (p : ParameterExpr allowIndexed) :
    Phrase p.lexemes := by
  apply p.type.phrase.append
  have hwords : ∀ w ∈ p.words, Phrase [term w] := by
    intro w hw
    simp only [words, parameterWords, List.mem_append, List.mem_map, Option.mem_toList] at hw
    rcases hw with (hw | ⟨location, -, rfl⟩) | ⟨n, -, rfl⟩
    · have : w = "indexed" := by
        split at hw
        · exact List.mem_singleton.1 hw
        · cases hw
      rw [this]
      decide
    · have hall : ∀ w ∈ Parameter.dataLocations, Phrase [term w] := by decide
      exact hall _ location.property
    · exact n.phrase
  rw [List.map_eq_flatMap]
  exact Phrase.flatMap hwords

theorem phrase_parameterList {allowIndexed : Bool} (ps : List (ParameterExpr allowIndexed)) :
    Phrase (listed (ps.map (·.lexemes))) := by
  apply phrase_listed
  intro part hpart
  obtain ⟨p, -, rfl⟩ := List.mem_map.1 hpart
  exact p.phrase

theorem phrase_arguments (arguments : Option Arguments) :
    Phrase (arguments.toList.flatMap fun a => inParens a.lexemes) :=
  Phrase.flatMap fun a _ => a.phrase.inParens

theorem Invocation.phrase (i : Invocation) : Phrase i.lexemes :=
  i.path.phrase.append (phrase_arguments i.arguments)

theorem SpecifierExpr.phrase (s : SpecifierExpr) : Phrase s.lexemes := by
  cases s with
  | visibility v => cases v <;> decide
  | mutability m => cases m <;> decide
  | virtual => decide
  | override bases => exact Phrase.cons (by decide) (phrase_arguments bases)
  | modifier i free => exact i.phrase
  | returns values => exact Phrase.cons (by decide) (phrase_parameterList values).inParens

theorem ConstantExpr.phrase_front (c : ConstantExpr) : Phrase c.front := by
  apply c.type.phrase.append
  rcases c.visibility with _ | v
  · exact Phrase.nil
  · cases v <;> decide

/-! ## Blocks -/

theorem FunctionExpr.block (f : FunctionExpr) : Block f.lexemes := by
  have hhead : Phrase f.head.lexemes := by
    rcases f.head with name | _ | _ | _
    · exact Phrase.cons (by decide) name.phrase
    all_goals decide
  have hend : Block f.ending.lexemes := by
    rcases f.ending with _ | ⟨ls, block⟩
    · exact Block.semicolon
    · exact block.inBraces
  apply Block.append _ hend
  -- up to its end a function is one phrase
  apply Phrase.block
  exact (hhead.append (phrase_parameterList f.parameters).inParens).append
    (Phrase.flatMap fun s _ => s.phrase)

theorem DeclarationExpr.block (d : DeclarationExpr) : Block d.lexemes := by
  cases d with
  | event e =>
    refine Block.append (Phrase.block ?_) Block.semicolon
    apply Phrase.append
    · exact (Phrase.cons (by decide) e.name.phrase).append
        (phrase_parameterList e.parameters).inParens
    · split <;> decide
  | error e =>
    refine Block.append (Phrase.block ?_) Block.semicolon
    exact (Phrase.cons (by decide) e.name.phrase).append (phrase_parameterList e.parameters).inParens
  | struct s =>
    refine Block.append (Phrase.block (Phrase.cons (by decide) s.name.phrase)) (Block.inBraces ?_)
    apply Block.flatMap
    intro f _
    exact f.phrase.block.append Block.semicolon
  | enum e =>
    refine Block.append (Phrase.block (Phrase.cons (by decide) e.name.phrase)) (Block.inBraces ?_)
    apply Phrase.block
    apply phrase_listed
    intro part hpart
    obtain ⟨n, -, rfl⟩ := List.mem_map.1 hpart
    exact n.phrase
  | valueType v =>
    refine Block.append (Phrase.block ?_) Block.semicolon
    exact Phrase.append (Phrase.cons (by decide) (Phrase.cons v.name.phrase (by decide)))
      v.underlying.phrase
  | constant c =>
    have hvalue : Phrase [.number c.value] := (Length.literal c.value c.solid).phrase
    refine Block.append c.phrase_front.block ?_
    exact (Phrase.cons (by decide) (Phrase.cons c.name.phrase
      (Phrase.cons (by decide) hvalue))).block.append Block.semicolon

theorem MemberExpr.block (m : MemberExpr) : Block m.lexemes := by
  cases m with
  | function f => exact f.block
  | declaration d => exact d.block

theorem ContractExpr.phrase_inheritance (bases : List Invocation) :
    Phrase (inheritance bases) := by
  cases bases with
  | nil => exact Phrase.nil
  | cons base bases =>
    apply Phrase.cons (by decide)
    apply phrase_listed
    intro part hpart
    obtain ⟨i, -, rfl⟩ := List.mem_map.1 hpart
    exact i.phrase

theorem Item.block (i : Item) : Block i.lexemes := by
  cases i with
  | contract c =>
    have hkeywords : Phrase (ContractExpr.keywords c.kind) := by cases c.kind <;> decide
    apply Block.append _ (Block.inBraces (Block.flatMap fun m _ => m.block))
    exact (hkeywords.append (Phrase.cons c.name.phrase
      (ContractExpr.phrase_inheritance c.bases))).block
  | declaration d => exact d.block

end AbiIndex.Grammar
