import AbiIndex.Proofs.DeclarationReading

/-!
# Functions with any header

A function in a contract is read as it is written, in whatever order its specifiers stand and
whatever unbalanced tokens stand around it, and reading goes on right behind it.

## Key results

- `WrittenFunction.readFunction_in_text`: the declaration and the report that a written function
  gives
-/

namespace AbiIndex.Grammar

open AbiIndex.Source
open Lexeme (sign term)

namespace WrittenFunction

variable (f : WrittenFunction)

/-- The first visibility that is stated. -/
def visibility? : Option Visibility := (f.specifiers.filterMap Specifier.visibility?).head?

/-- The declaration in a contract of the given kind. -/
def decl (scope : ContractKind) : FunctionDecl where
  name := f.name
  parameters := f.parameters
  kind := f.kind
  visibility := f.visibility?.getD (unstatedVisibility f.kind scope)
  mutability := (f.specifiers.filterMap Specifier.mutability?).head?.getD .nonpayable
  visibilityExplicit := f.visibility?.isSome
  returns := (f.specifiers.filterMap Specifier.returns?).getLast?.getD []
  modifiers := f.specifiers.filterMap Specifier.modifier?
  isVirtual := .virtual ∈ f.specifiers
  isOverride := .override ∈ f.specifiers
  line := f.keyword.line
  natspec := Member.documentation f.keyword

/-- The report on an ordinary function that states no visibility outside an interface. -/
def reports (origin : Origin) (scope : ContractKind) : List Member :=
  if f.kind = .function ∧ f.visibility? = none ∧ scope ≠ .interface then
    [origin.report .implicitVisibility
      s!"function {f.name} declares no visibility; treated as internal" f.keyword
      s!"function {f.name}"]
  else []

/-- What the parts of a header state together. -/
theorem functionMembers_eq (origin : Origin) (scope : ContractKind) :
    Member.functionMembers origin (some scope) f.keyword f.name f.kind f.parameters f.specifiers =
      f.reports origin scope ++ [.function (f.decl scope)] := by
  have hvisibility : f.specifiers.findSome? Specifier.visibility? = f.visibility? := by
    rw [visibility?, List.head?_filterMap]
  have hmutability : f.specifiers.findSome? Specifier.mutability? =
      (f.specifiers.filterMap Specifier.mutability?).head? := by
    rw [List.head?_filterMap]
  have hany : ∀ s : Specifier, f.specifiers.any (· = s) = decide (s ∈ f.specifiers) := by
    intro s
    rw [Bool.eq_iff_iff, List.any_eq_true, decide_eq_true_eq]
    simp
  have hdecl : f.decl scope = ⟨f.name, f.parameters, f.kind,
      f.visibility?.getD (unstatedVisibility f.kind scope),
      (f.specifiers.findSome? Specifier.mutability?).getD .nonpayable, f.visibility?.isSome,
      (f.specifiers.filterMap Specifier.returns?).getLastD [],
      f.specifiers.filterMap Specifier.modifier?, f.specifiers.any (· = .virtual),
      f.specifiers.any (· = .override), f.keyword.line, Member.documentation f.keyword⟩ := by
    rw [decl, hmutability, hany, hany, List.getLastD_eq_getLast?]
  rw [Member.functionMembers.eq_def, hvisibility, hdecl, reports, defaultVisibility_eq]
  cases f.kind with
  | function =>
    by_cases hreport : f.visibility? = none ∧ scope ≠ .interface
    · rw [if_pos ⟨rfl, hreport⟩]
      exact if_pos (by simpa using hreport)
    · rw [if_neg fun h => hreport h.2]
      exact if_neg (by simpa using hreport)
  | _ => rfl

/-- A function is read as it is written, whatever stands around it. -/
theorem readFunction_in_text {text : List Char} {all rest : List Token}
    (hall : tokenize text = .ok all) (hin : f.tokens ++ rest <:+: all) (origin : Origin)
    (scope : ContractKind) :
    Member.readFunction origin (some scope) f.keyword (f.behind ++ rest) =
      .ok (f.reports origin scope ++ [.function (f.decl scope)], rest) ∧
    walk origin (some scope) (f.tokens ++ rest) =
      f.reports origin scope ++ .function (f.decl scope) :: walk origin (some scope) rest := by
  have htokens : f.tokens <:+: all := (List.prefix_append f.tokens rest).isInfix.trans hin
  obtain ⟨_, hbraces⟩ := (Gauge.braces.marked_of_tokenize hall).of_isInfix htokens
  obtain ⟨_, hparens⟩ := (Gauge.parens.marked_of_tokenize hall).of_isInfix htokens
  have hread := f.readFunction_eq hbraces hparens origin (some scope) rest
  have hwalk := f.walk_eq hbraces hparens origin (some scope) rest
  rw [f.functionMembers_eq] at hread hwalk
  rw [List.append_assoc] at hwalk
  exact ⟨hread, hwalk⟩

end WrittenFunction

/-- A parameter of the type `uint`. -/
def uintParameter (name : Ident) (h : name.text ∉ Parameter.dataLocations) :
    ParameterExpr false where
  type := .named (.elementary ⟨"uint", by decide⟩ (by decide))
  indexed := false
  location := none
  name := some name
  indexed_allowed := by simp
  name_free := by
    rintro n ⟨⟩
    exact ⟨h, by simp⟩
  type_ends := by simp [TypeExpr.absorbs]

/-- Specifiers in no usual order, some of them twice, and no visibility among them. -/
def peekSpecifiers : List SpecifierExpr :=
  [.modifier ⟨⟨⟨"m", by decide⟩, [⟨"k", by decide⟩]⟩, some ⟨[.number ['1']], by decide⟩⟩
      (by decide),
    .returns [], .mutability .view,
    .override (some ⟨[term "A", sign ",", term "B"], by decide⟩), .mutability .pure,
    .returns [uintParameter ⟨"b", by decide⟩ (by decide)],
    .virtual, .modifier ⟨⟨⟨"only", by decide⟩, []⟩, none⟩ (by decide)]

/-- What is declared by a function with these specifiers. -/
def peekDecl (visibility : Visibility) : FunctionDecl where
  name := "peek"
  parameters := [⟨"a", .elementary "uint", false⟩]
  kind := .function
  visibility := visibility
  mutability := .view
  visibilityExplicit := false
  returns := [⟨"b", .elementary "uint", false⟩]
  modifiers := ["m.k", "only"]
  isVirtual := true
  isOverride := true
  line := 1
  natspec := none

/-- A function is read as it is written, although a parenthesis without a partner stands in front of
it and a brace without one behind it. It states no visibility, which makes it internal in a contract
and is reported there; in an interface it is external. -/
theorem readFunction_in_text_peek :
    let text := ("contract C \x7b ) ; function peek ( uint a ) m . k ( 1 ) returns ( ) view " ++
      "override ( A , B ) pure returns ( uint b ) virtual only " ++
      "\x7b \x7b \x7d \x7d \x7d \x7d ").toList
    ∃ (f : WrittenFunction) (all rest : List Token),
      tokenize text = .ok all ∧ f.tokens ++ rest <:+: all ∧
      f.specifiers = peekSpecifiers.map SpecifierExpr.specifier ∧
      ∀ path,
        walk ⟨path, text⟩ (some .contract) (f.tokens ++ rest) =
          .diagnostic ⟨.implicitVisibility,
            "function peek declares no visibility; treated as internal", some path, some 1,
            some "function peek"⟩ ::
          .function (peekDecl .internal) :: walk ⟨path, text⟩ (some .contract) rest ∧
        walk ⟨path, text⟩ (some .interface) (f.tokens ++ rest) =
          .function (peekDecl .external) :: walk ⟨path, text⟩ (some .interface) rest := by
  intro text
  let layout : Layout := fun _ => .space
  let front := [term "contract", term "C", sign blockOpen, sign ")", sign ";"]
  let head : FunctionHead := .named ⟨"peek", by decide⟩
  let parameters := [uintParameter ⟨"a", by decide⟩ (by decide)]
  let ending : FunctionEnd := .body [sign blockOpen, sign blockClose] ⟨by decide, by decide⟩
  let written := head.lexemes ++ parameterList parameters
    ++ peekSpecifiers.flatMap SpecifierExpr.lexemes ++ ending.lexemes
  let behind := [sign blockClose, sign blockClose]
  obtain ⟨f, keyword, htokens, hkeyword, hname, hkind, hparameters, hspecifiers⟩ :=
    exists_written layout (Cursor.start.through layout front) head parameters peekSpecifiers ending
  have htext : text = spell layout (front ++ (written ++ behind)) := by decide +kernel
  have hall := tokenize_spell
    (by decide +kernel : ∀ l ∈ front ++ (written ++ behind), l.isSolid)
    (separates_of_ne_nil (fun _ => List.cons_ne_nil _ _) .start _ : Separates layout .start _)
  rw [← htext] at hall
  have hin : f.tokens ++ tokens layout ((Cursor.start.through layout front).through layout written)
      behind <:+: tokens layout .start (front ++ (written ++ behind)) := by
    rw [htokens, ← tokens_append, tokens_append layout .start front]
    exact (List.suffix_append _ _).isInfix
  refine ⟨f, _, _, hall, hin, hspecifiers, fun path => ?_⟩
  have hread := fun scope => (f.readFunction_in_text hall hin ⟨path, text⟩ scope).2
  simp only [WrittenFunction.reports, WrittenFunction.decl, WrittenFunction.visibility?, hkind,
    hname, hparameters, hspecifiers, hkeyword] at hread
  exact ⟨hread .contract, hread .interface⟩

end AbiIndex.Grammar
