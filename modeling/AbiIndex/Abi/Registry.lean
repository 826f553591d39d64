import AbiIndex.Abi.TypeError
import AbiIndex.Graph
import AbiIndex.Source.Unit

/-!
# The registry of names

All names of a project that can stand for a type or for an array length, each with the scope in
which it is declared: a file, or a contract in a file. A name is looked up in a contract and its
bases, then in the file, then in the whole project, where it must be unique.
-/

namespace AbiIndex.Abi

open AbiIndex.Source

/-- A file, or a contract in a file. -/
structure Scope where
  path : String
  contract : Option String
deriving DecidableEq

/-- What a name can stand for. -/
inductive Defined where
  | struct (d : StructDecl)
  | enum (d : EnumDecl)
  | valueType (d : ValueTypeDecl)
  | constant (d : ConstantDecl)
  | contract (d : ContractDecl)
deriving DecidableEq

namespace Defined

def name : Defined → String
  | struct d => d.name
  | enum d => d.name
  | valueType d => d.name
  | constant d => d.name
  | contract d => d.name

def line : Defined → Nat
  | struct d => d.line
  | enum d => d.line
  | valueType d => d.line
  | constant d => d.line
  | contract d => d.line

/-- The word for this kind of definition. -/
def kindName : Defined → String
  | struct _ => "struct"
  | enum _ => "enum"
  | valueType _ => "value_type"
  | constant _ => "constant"
  | contract _ => "contract"

def isEnum : Defined → Bool
  | enum _ => true
  | _ => false

def isContract : Defined → Bool
  | contract _ => true
  | _ => false

end Defined

/-- A declaration and the scope that holds it. -/
structure Definition where
  scope : Scope
  decl : Defined
deriving DecidableEq

namespace Definition

def name (d : Definition) : String := d.decl.name

/-- What tells two definitions apart: their scope and their name. -/
abbrev Identity := Scope × String

def identity (d : Definition) : Identity := (d.scope, d.name)

end Definition

/-- A contract and the file that declares it. -/
structure Located where
  path : String
  decl : ContractDecl

/-- The names of a project, in the order of their declaration. -/
structure Registry where
  definitions : List Definition
  contracts : List Located

namespace Registry

/-- The definitions of one scope by kind, one kind after the other. -/
def definitionsOf (scope : Scope) (structs : List StructDecl) (enums : List EnumDecl)
    (valueTypes : List ValueTypeDecl) (constants : List ConstantDecl) : List Definition :=
  (structs.map Defined.struct ++ enums.map Defined.enum ++ valueTypes.map Defined.valueType
    ++ constants.map Defined.constant).map (Definition.mk scope)

/-- The definitions of a file, followed by each of its contracts and what that defines. -/
def definitionsOfUnit (unit : SourceUnit) : List Definition :=
  definitionsOf ⟨unit.path, none⟩ unit.structs unit.enums unit.valueTypes unit.constants
    ++ unit.contracts.flatMap fun c =>
      ⟨⟨unit.path, none⟩, .contract c⟩
        :: definitionsOf ⟨unit.path, some c.name⟩ c.structs c.enums c.valueTypes c.constants

/-- The registry of some files. -/
def ofUnits (units : List SourceUnit) : Registry where
  definitions := units.flatMap definitionsOfUnit
  contracts := units.flatMap fun unit => unit.contracts.map (Located.mk unit.path)

/-- The contract of the given name: the first one in the file `path`, if a file is given and has
one, or else the only one in the project. -/
def contract? (reg : Registry) (name : String) (path : Option String) : Option Located :=
  let candidates := reg.contracts.filter (·.decl.name = name)
  match candidates.find? (fun c => some c.path = path) with
  | some c => some c
  | none =>
    match candidates with
    | [c] => some c
    | _ => none

/-- The first definition of a name in a scope. -/
def inScope (reg : Registry) (scope : Scope) (name : String) : Option Definition :=
  reg.definitions.find? fun d => d.scope = scope && d.name = name

/-- The bases of the contract `key.2` as the file `key.1` sees it, each with its file. Bases that
cannot be told are left out. -/
def bases (reg : Registry) (key : String × String) : List (String × String) :=
  match reg.contract? key.2 (some key.1) with
  | none => []
  | some c =>
    c.decl.bases.filterMap fun base =>
      (reg.contract? base (some c.path)).map fun found => (found.path, base)

/-- A contract and all its bases, depth first and from left to right. -/
def chain (reg : Registry) (key : String × String) : List (String × String) :=
  preorder reg.bases (key :: reg.contracts.map fun c => (c.path, c.decl.name)) [key]

/-- The first definition of a name in a contract or one of its bases. -/
def inChain (reg : Registry) (key : String × String) (name : String) : Option Definition :=
  (reg.chain key).findSome? fun (path, contract) => reg.inScope ⟨path, some contract⟩ name

/-- All definitions of a name with different identities, in the order of their first declaration.
Of several with the same identity the last one counts. -/
def named (reg : Registry) (name : String) : List Definition :=
  let all := reg.definitions.filter (·.name = name)
  (all.map (·.identity)).eraseDups.filterMap fun id => all.reverse.find? (·.identity = id)

/-- The definition of a name in the whole project. Several contracts of one name are as good as
one, and so are several enums, since only their kind matters. -/
def unique (reg : Registry) (name : String) : Except TypeError Definition :=
  match reg.named name with
  | [] => .error (.unknown name)
  | [d] => .ok d
  | d :: more =>
    if (d :: more).all (·.decl.isContract) || (d :: more).all (·.decl.isEnum) then .ok d
    else .error (.ambiguous name (more.length + 1))

/-- Looks up a name: in the contract and its bases, in the file, and in the project. -/
def resolve (reg : Registry) (scope : Scope) (name : String) : Except TypeError Definition :=
  match scope.contract.bind fun c => reg.inChain (scope.path, c) name with
  | some d => .ok d
  | none =>
    match reg.inScope ⟨scope.path, none⟩ name with
    | some d => .ok d
    | none => reg.unique name

/-- Looks up a dotted name. Of two parts the first may be a contract that has, or inherits, the
second; in all other cases the last part is looked up in the project. -/
def resolvePath (reg : Registry) (scope : Scope) (parts : List String) :
    Except TypeError Definition :=
  match parts with
  | [] => .error .noName
  | [name] => reg.resolve scope name
  | [owner, name] =>
    match (reg.contract? owner (some scope.path)).bind fun c =>
        reg.inChain (c.path, c.decl.name) name with
    | some d => .ok d
    | none => reg.unique name
  -- of longer names, as of those behind an import alias, only the last part says something
  | _ :: _ :: more => reg.unique (more.getLastD "")

/-! ## What is found is in the registry -/

theorem mem_of_inScope {reg : Registry} {scope : Scope} {name : String} {d : Definition}
    (h : reg.inScope scope name = some d) : d ∈ reg.definitions :=
  List.mem_of_find?_eq_some h

theorem mem_of_inChain {reg : Registry} {key : String × String} {name : String} {d : Definition}
    (h : reg.inChain key name = some d) : d ∈ reg.definitions := by
  obtain ⟨_, _, h⟩ := List.exists_of_findSome?_eq_some h
  exact mem_of_inScope h

theorem mem_of_named {reg : Registry} {name : String} {d : Definition}
    (h : d ∈ reg.named name) : d ∈ reg.definitions := by
  obtain ⟨_, _, h⟩ := List.mem_filterMap.1 h
  have := List.mem_of_find?_eq_some h
  exact (List.mem_filter.1 (List.mem_reverse.1 this)).1

theorem mem_of_unique {reg : Registry} {name : String} {d : Definition}
    (h : reg.unique name = .ok d) : d ∈ reg.definitions := by
  unfold unique at h
  split at h
  · simp at h
  · rename_i d' heq
    simp only [Except.ok.injEq] at h
    exact mem_of_named (by rw [heq, h]; simp)
  · rename_i d' more _ heq
    split at h
    · simp only [Except.ok.injEq] at h
      exact mem_of_named (by rw [heq, h]; simp)
    · simp at h

theorem mem_of_resolve {reg : Registry} {scope : Scope} {name : String} {d : Definition}
    (h : reg.resolve scope name = .ok d) : d ∈ reg.definitions := by
  unfold resolve at h
  split at h
  · rename_i d' heq
    obtain ⟨c, _, hc⟩ := Option.bind_eq_some_iff.1 heq
    simp only [Except.ok.injEq] at h
    exact h ▸ mem_of_inChain hc
  · split at h
    · rename_i heq
      simp only [Except.ok.injEq] at h
      exact h ▸ mem_of_inScope heq
    · exact mem_of_unique h

/-- Only definitions of the registry are found. -/
theorem mem_of_resolvePath {reg : Registry} {scope : Scope} {parts : List String} {d : Definition}
    (h : reg.resolvePath scope parts = .ok d) : d ∈ reg.definitions := by
  unfold resolvePath at h
  split at h
  · simp at h
  · exact mem_of_resolve h
  · split at h
    · rename_i heq
      obtain ⟨c, _, hc⟩ := Option.bind_eq_some_iff.1 heq
      simp only [Except.ok.injEq] at h
      exact h ▸ mem_of_inChain hc
    · exact mem_of_unique h
  · exact mem_of_unique h

end Registry

end AbiIndex.Abi
