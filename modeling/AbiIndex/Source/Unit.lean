import AbiIndex.Source.Category
import AbiIndex.Source.Member

/-!
# Source units

`walk` goes through a scope and collects its members. A construct that fails to be a declaration is
reported and passed over up to the end of its statement; what stands before and behind it is read
as if it were not there. `SourceUnit.extract` walks a whole file.
-/

namespace AbiIndex.Source

namespace Member

def diagnostic? : Member → Option Diagnostic
  | diagnostic d => some d
  | _ => none

def pragma? : Member → Option String
  | pragma text => some text
  | _ => none

def importOf? : Member → Option String
  | importOf path => some path
  | _ => none

def function? : Member → Option FunctionDecl
  | function d => some d
  | _ => none

def event? : Member → Option EventDecl
  | event d => some d
  | _ => none

def error? : Member → Option ErrorDecl
  | error d => some d
  | _ => none

def struct? : Member → Option StructDecl
  | struct d => some d
  | _ => none

def enum? : Member → Option EnumDecl
  | enum d => some d
  | _ => none

def valueType? : Member → Option ValueTypeDecl
  | valueType d => some d
  | _ => none

def constant? : Member → Option ConstantDecl
  | constant d => some d
  | _ => none

def modifier? : Member → Option String
  | modifier name => some name
  | _ => none

def contract? : Member → Option ContractDecl
  | contract d => some d
  | _ => none

end Member

/-- The contract with the given head and members. Contracts, pragmas and imports among its members
do not belong to it. -/
def ContractDecl.ofMembers (keyword : Token) (head : Member.ContractHead) (ms : List Member) :
    ContractDecl where
  name := head.name
  kind := head.kind
  bases := head.bases
  functions := ms.filterMap Member.function?
  events := ms.filterMap Member.event?
  errors := ms.filterMap Member.error?
  structs := ms.filterMap Member.struct?
  enums := ms.filterMap Member.enum?
  valueTypes := ms.filterMap Member.valueType?
  constants := ms.filterMap Member.constant?
  modifiers := ms.filterMap Member.modifier?
  line := keyword.line
  natspec := Member.documentation keyword

/-- The report of a contract whose body has no end, if it has none. -/
def Member.unclosedBody (origin : Origin) (keyword : Token) (head : ContractHead) : List Member :=
  if head.closed then []
  else
    let construct := s!"{head.kind.name} {head.name}"
    [origin.report .malformedDeclaration s!"{construct} body is never closed" keyword construct]

/-- The report of a malformed construct that starts with the token `t`. -/
def Member.malformed (origin : Origin) (t : Token) (rest : List Token) (e : Malformed) : Member :=
  origin.report .malformedDeclaration e.message t (construct t rest)

/-- The members of a scope. Of the members of a contract inside it the reports are passed on, and
the others make up the contract. -/
def walk (origin : Origin) (scope : Option ContractKind) (ts : List Token) : List Member :=
  match ts with
  | [] => []
  | t :: rest =>
    -- an empty statement, or a brace left over from unbalanced input
    if _hend : t.isMark ";" ∨ t.isMark blockClose then walk origin scope rest
    else if Member.opensDeclaration t rest then
      if Member.isContractKeyword t.value then
        match _h : Member.readContract t rest with
        | .error e =>
          Member.malformed origin t rest e :: walk origin scope (Member.skipStatement rest)
        | .ok head =>
          let members := walk origin (some head.kind) head.body
          Member.unclosedBody origin t head
            ++ (members.filterMap Member.diagnostic?).map .diagnostic
            ++ .contract (ContractDecl.ofMembers t head members)
            :: walk origin scope head.after
      else
        match _h : Member.read origin scope t rest with
        | .error e =>
          Member.malformed origin t rest e :: walk origin scope (Member.skipStatement rest)
        | .ok (members, after) => members ++ walk origin scope after
    else
      -- no declaration: only a literal constant is noted
      let statement := Member.splitStatement t.depth (t :: rest)
      ((Member.constantOf statement.1).map .constant).toList ++ walk origin scope statement.2
termination_by ts.length
decreasing_by
  · simp
  · have := Member.skipStatement_length rest
    simp only [List.length_cons]
    omega
  · have := (Member.readContract_length _h).1
    simp only [List.length_cons]
    omega
  · have := (Member.readContract_length _h).2
    simp only [List.length_cons]
    omega
  · have := Member.skipStatement_length rest
    simp only [List.length_cons]
    omega
  · have := Member.read_length _h
    simp only [List.length_cons]
    omega
  · exact Member.splitStatement_length_lt (by simp_all)

/-- The declarations of one file, before any name in them is looked up. -/
structure SourceUnit where
  path : String
  category : Category
  pragma : Option String
  imports : List String
  contracts : List ContractDecl
  structs : List StructDecl
  enums : List EnumDecl
  valueTypes : List ValueTypeDecl
  constants : List ConstantDecl
  errors : List ErrorDecl
  events : List EventDecl
  diagnostics : List Diagnostic
deriving DecidableEq

namespace SourceUnit

/-- The unit with the given members at file level. The first pragma counts; functions and modifiers
outside contracts are left out. -/
def ofMembers (path : String) (category : Category) (ms : List Member) : SourceUnit where
  path := path
  category := category
  pragma := ms.findSome? Member.pragma?
  imports := ms.filterMap Member.importOf?
  contracts := ms.filterMap Member.contract?
  structs := ms.filterMap Member.struct?
  enums := ms.filterMap Member.enum?
  valueTypes := ms.filterMap Member.valueType?
  constants := ms.filterMap Member.constant?
  errors := ms.filterMap Member.error?
  events := ms.filterMap Member.event?
  diagnostics := ms.filterMap Member.diagnostic?

/-- The declarations of a token sequence. The text may be left empty if it is not at hand. -/
def ofTokens (path : String) (category : Category) (text : List Char) (ts : List Token) :
    SourceUnit :=
  ofMembers path category (walk ⟨path, text⟩ none ts)

/-- The declarations of a source text, in the given category. -/
def extractAs (category : Category) (text : List Char) (path : String) :
    Except Unterminated SourceUnit :=
  (tokenize text).map (ofTokens path category text)

/-- The declarations of a source text, in the category of its path. -/
def extract (text : List Char) (path : String) : Except Unterminated SourceUnit :=
  extractAs (Category.ofPath path) text path

/-- The first contract of the given name. -/
def contract? (unit : SourceUnit) (name : String) : Option ContractDecl :=
  unit.contracts.find? (·.name = name)

end SourceUnit

end AbiIndex.Source
