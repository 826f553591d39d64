import AbiIndex.Source.Declaration

/-!
# Malformed declarations

The ways in which a construct can fail to be the declaration that its keyword announces, and how
each is worded. The text `within` names the construct that is read, such as `event Transfer`.
-/

namespace AbiIndex.Source

/-- Why a construct is not a declaration. -/
inductive Malformed where
  | pragmaUnterminated
  | importUnterminated
  | abstractAlone
  | contractUnnamed (kind : ContractKind)
  | contractWithoutBody (kind : ContractKind) (name : String)
  | beforeContractBody (found : String)
  | inInheritance (found : String)
  | baseArguments
  | parametersMissing (within : String)
  | parametersUnbalanced (within : String)
  | inHeader (found function : String)
  | returnsMissing (function : String)
  | returnsUnbalanced (function : String)
  | overrideUnbalanced (function : String)
  | modifierArguments (modifier : String)
  | functionWithoutEnd (function : String)
  | functionUnclosed (function : String)
  | unterminated (within : String)
  | fieldsMissing (struct : String)
  | fieldsUnclosed (struct : String)
  | fieldUnterminated (struct : String)
  | membersMissing (enum : String)
  | membersUnclosed (enum : String)
  | typeWithoutIs (name : String)
  | typeTrailing (name : String)
  | emptyEntry (within : String)
  | typeMissing (within : String)
  | typeExpected (found within : String)
  | unexpected (found within : String)
  | unexpectedAfter (found name within : String)
  | bracketsUnbalanced (within : String)
  | mappingUnopened (within : String)
  | mappingUnbalanced (within : String)
  | mappingWithoutArrow (within : String)
  | functionTypeUnopened (within : String)
  | functionTypeUnbalanced (within : String)
deriving DecidableEq

/-- The wording of the failure. -/
def Malformed.message : Malformed → String
  | pragmaUnterminated => "pragma is missing its terminating ';'"
  | importUnterminated => "import is missing its terminating ';'"
  | abstractAlone => "'abstract' must be followed by 'contract'"
  | contractUnnamed kind => s!"{kind.name} declaration has no name"
  | contractWithoutBody kind name => s!"{kind.name} {name} has no body"
  | beforeContractBody found => s!"unexpected '{found}' before contract body"
  | inInheritance found => s!"unexpected '{found}' in inheritance list"
  | baseArguments => "unbalanced base constructor arguments"
  | parametersMissing within => s!"{within} has no parameter list"
  | parametersUnbalanced within => s!"{within} has an unbalanced parameter list"
  | inHeader found function => s!"unexpected '{found}' in header of function {function}"
  | returnsMissing function => s!"function {function} has 'returns' without a list"
  | returnsUnbalanced function => s!"function {function} has an unbalanced returns list"
  | overrideUnbalanced function => s!"function {function} has an unbalanced override list"
  | modifierArguments modifier => s!"unbalanced arguments to modifier {modifier}"
  | functionWithoutEnd function => s!"function {function} has neither a body nor ';'"
  | functionUnclosed function => s!"function {function} body is never closed"
  | unterminated within => s!"{within} is not terminated by ';'"
  | fieldsMissing struct => s!"struct {struct} has no field list"
  | fieldsUnclosed struct => s!"struct {struct} field list is never closed"
  | fieldUnterminated struct => s!"struct {struct} has a field without ';'"
  | membersMissing enum => s!"enum {enum} has no member list"
  | membersUnclosed enum => s!"enum {enum} member list is never closed"
  | typeWithoutIs name => s!"type {name} is missing 'is'"
  | typeTrailing name => s!"type {name} has trailing tokens"
  | emptyEntry within => s!"empty entry in {within}"
  | typeMissing within => s!"missing type in {within}"
  | typeExpected found within => s!"expected a type but found '{found}' in {within}"
  | unexpected found within => s!"unexpected '{found}' in {within}"
  | unexpectedAfter found name within => s!"unexpected '{found}' after '{name}' in {within}"
  | bracketsUnbalanced within => s!"unbalanced array brackets in {within}"
  | mappingUnopened within => s!"mapping without '(' in {within}"
  | mappingUnbalanced within => s!"unbalanced mapping in {within}"
  | mappingWithoutArrow within => s!"mapping without '=>' in {within}"
  | functionTypeUnopened within => s!"function type without parameters in {within}"
  | functionTypeUnbalanced within => s!"unbalanced function type in {within}"

end AbiIndex.Source
