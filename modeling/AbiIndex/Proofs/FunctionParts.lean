import AbiIndex.Proofs.DepthMatching
import AbiIndex.Proofs.ReaderEquations
import AbiIndex.Proofs.TypeReading
import Mathlib.Data.List.Forall2

/-!
# Functions part by part

A function in a contract is written with a keyword, a list of parameters, specifiers in any order
and any number, and a body or a `;`. Each part is read up to its own end, whatever comments stand in
it, and the function up to the end of the last one.

## Key results

- `IsSpecifier.read`: a specifier is read up to its own end
- `readAll_of_specified`: so is a sequence of them
- `WrittenFunction.readFunction_eq`, `WrittenFunction.walk_eq`: so is a function
-/

namespace AbiIndex.Grammar

open AbiIndex.Source

/-! ## The parts of a function -/

/-- Tokens in parentheses. The parentheses inside have their partners there, and no statement ends
and no block begins or ends among them. -/
inductive Enclosed (inside : List Token) : List Token → Prop
  | intro {opening closing : Token} (hopening : opening.isMark "(") (hclosing : closing.isMark ")")
      (hbalanced : parensMatch (inside.map Token.lexeme))
      (hstatement : ∀ t ∈ inside, t.endsStatement = false) :
      Enclosed inside (opening :: (inside ++ [closing]))

/-- Tokens in parentheses, or none at all. -/
inductive OptionalList : List Token → Prop
  | absent : OptionalList []
  | present {inside ts : List Token} (h : Enclosed inside ts) : OptionalList ts

/-- A name with its qualifiers in front, as tokens and as words. -/
inductive DottedTokens : List Token → List String → Prop
  | single {t : Token} {name : String} (ht : t.isWord name) : DottedTokens [t] [name]
  | cons {t dot : Token} {ts : List Token} {name : String} {names : List String}
      (ht : t.isWord name) (hdot : dot.isMark ".") (h : DottedTokens ts names) :
      DottedTokens (t :: dot :: ts) (name :: names)

/-- The tokens of one part of a function header, and what it states. -/
inductive IsSpecifier : List Token → Specifier → Prop
  | visibility {t : Token} (v : Visibility) (ht : t.isWord v.name) : IsSpecifier [t] (.visibility v)
  | mutability {t : Token} (m : Mutability) (ht : t.isWord m.name) : IsSpecifier [t] (.mutability m)
  | constant {t : Token} (ht : t.isWord "constant") : IsSpecifier [t] (.mutability .view)
  | virtual {t : Token} (ht : t.isWord "virtual") : IsSpecifier [t] .virtual
  | override {t : Token} {bases : List Token} (ht : t.isWord "override")
      (hbases : OptionalList bases) : IsSpecifier (t :: bases) .override
  | returns {t : Token} {inside ts : List Token} {values : List Parameter} (ht : t.isWord "returns")
      (hts : Enclosed inside ts) (hvalues : Parameter.readList false inside = .ok values) :
      IsSpecifier (t :: ts) (.returns values)
  | modifier {path arguments : List Token} {names : List String} (hpath : DottedTokens path names)
      (hfree : ∀ w ∈ names.head?, w ∉ headerWords) (harguments : OptionalList arguments) :
      IsSpecifier (path ++ arguments) (.modifier (".".intercalate names))

/-- The keyword of a function and the tokens of its name, what the function is called and its kind.
The functions without a selector have a keyword of their own and go by it. -/
inductive IsHead : Token → List Token → String → FunctionKind → Prop
  | named {keyword t : Token} {name : String} (hkeyword : keyword.isWord "function")
      (ht : t.isWord name) : IsHead keyword [t] name .function
  | special {keyword : Token} {kind : FunctionKind} (hkind : kind ≠ .function)
      (hkeyword : keyword.isWord kind.name) : IsHead keyword [] kind.name kind

/-- What ends a function: a `;`, or a block in which every brace has its partner. -/
inductive IsEnding : List Token → Prop
  | semicolon {t : Token} (ht : t.isMark ";") : IsEnding [t]
  | block {opening closing : Token} {body : List Token} (hopening : opening.isMark blockOpen)
      (hclosing : closing.isMark blockClose) (hbalanced : bracesMatch (body.map Token.lexeme)) :
      IsEnding (opening :: (body ++ [closing]))

/-- The tokens of a function declaration, and what they state part by part. -/
structure WrittenFunction where
  keyword : Token
  nameTokens : List Token
  name : String
  kind : FunctionKind
  isHead : IsHead keyword nameTokens name kind
  inside : List Token
  listTokens : List Token
  enclosed : Enclosed inside listTokens
  parameters : List Parameter
  readable : Parameter.readList false inside = .ok parameters
  header : List (List Token)
  specifiers : List Specifier
  specified : List.Forall₂ IsSpecifier header specifiers
  ending : List Token
  isEnding : IsEnding ending

namespace WrittenFunction

variable (f : WrittenFunction)

/-- The tokens behind the keyword. -/
def behind : List Token := f.nameTokens ++ (f.listTokens ++ (f.header.flatten ++ f.ending))

def tokens : List Token := f.keyword :: f.behind

end WrittenFunction

/-! ## Parts in parentheses -/

/-- The tokens are neither arguments nor the continuation of a name in front of them. -/
def StartsAnew (rest : List Token) : Prop :=
  ∀ t ∈ rest.head?, t.isMark "(" = false ∧ t.isMark "." = false

section Parentheses

variable {level : Nat} {inside ts rest : List Token}

theorem Enclosed.exists_cons (h : Enclosed inside ts) :
    ∃ opening more, ts = opening :: more ∧ opening.isMark "(" := by
  cases h with
  | intro hopening _ _ _ => exact ⟨_, _, rfl, hopening⟩

/-- A part in parentheses is cut at its own end. -/
theorem Enclosed.close (h : Enclosed inside ts) (hmarked : Gauge.parens.Marked level ts)
    (rest : List Token) :
    ∃ opening closing, ts = opening :: (inside ++ [closing]) ∧ opening.isMark "(" ∧
      closeParenInStatement opening (inside ++ [closing] ++ rest) =
        some ⟨inside, closing, rest⟩ := by
  cases h with
  | @intro opening closing hopening hclosing hbalanced hstatement =>
    refine ⟨opening, closing, rfl, hopening, ?_⟩
    rw [List.append_assoc]
    exact closeParenInStatement_of_marked hmarked hopening hclosing hbalanced hstatement rest

theorem OptionalList.skip (h : OptionalList ts) (hmarked : Gauge.parens.Marked level ts)
    (hrest : StartsAnew rest) : Specifier.skipParens (ts ++ rest) = some rest := by
  cases h with
  | absent =>
    cases rest with
    | nil => rfl
    | cons t more =>
      rw [List.nil_append, Specifier.skipParens, if_neg (by simp [(hrest t rfl).1])]
  | present h =>
    obtain ⟨opening, closing, rfl, hopening, hclose⟩ := h.close hmarked rest
    rw [List.cons_append, Specifier.skipParens, if_pos hopening, hclose]
    rfl

/-- A name ends in front of a list. -/
theorem OptionalList.not_dot (h : OptionalList ts)
    (hrest : ∀ t ∈ rest.head?, t.isMark "." = false) :
    ∀ t ∈ (ts ++ rest).head?, t.isMark "." = false := by
  intro t ht
  cases h with
  | absent => exact hrest t ht
  | present h =>
    obtain ⟨opening, more, rfl, hopening⟩ := h.exists_cons
    cases ht
    exact Token.isMark_eq_false_of_ne hopening (by decide)

theorem Enclosed.readReturns (h : Enclosed inside ts) {values : List Parameter}
    (hvalues : Parameter.readList false inside = .ok values)
    (hmarked : Gauge.parens.Marked level ts) (function : String) (rest : List Token) :
    Specifier.readReturns function (ts ++ rest) = .ok (.returns values, rest) := by
  obtain ⟨opening, closing, rfl, hopening, hclose⟩ := h.close hmarked rest
  rw [List.cons_append, Specifier.readReturns, if_pos hopening, hclose]
  dsimp only
  rw [hvalues]

theorem Enclosed.readParenthesised (h : Enclosed inside ts) {allowIndexed : Bool}
    {parameters : List Parameter}
    (hparameters : Parameter.readList allowIndexed inside = .ok parameters)
    (hmarked : Gauge.parens.Marked level ts) (within : String) (rest : List Token) :
    Parameter.readParenthesised allowIndexed within (ts ++ rest) = .ok (parameters, rest) := by
  obtain ⟨opening, closing, rfl, hopening, hclose⟩ := h.close hmarked rest
  rw [List.cons_append, Parameter.readParenthesised, if_pos hopening, hclose]
  dsimp only
  rw [hparameters]

end Parentheses

/-! ## Specifiers -/

theorem Token.kind_value_of_isWord {t : Token} {v : String} (h : t.isWord v) :
    t.kind = .word ∧ t.value = v := by
  rwa [Token.isWord, Bool.and_eq_true, decide_eq_true_eq, decide_eq_true_eq] at h

/-- A name is read up to its last part. -/
theorem DottedTokens.readDotted {path : List Token} {names : List String}
    (h : DottedTokens path names) : ∃ first more words, path = first :: more ∧
      names = first.value :: words ∧ first.kind = .word ∧
      ∀ rest : List Token, (∀ t ∈ rest.head?, t.isMark "." = false) →
        Source.readDotted (more ++ rest) = (words, rest) := by
  induction h with
  | @single t name ht =>
    obtain ⟨hkind, rfl⟩ := Token.kind_value_of_isWord ht
    exact ⟨t, [], [], rfl, rfl, hkind, fun rest hrest => readDotted_of_not_dot hrest⟩
  | @cons t dot ts name names ht hdot _ ih =>
    obtain ⟨hkind, rfl⟩ := Token.kind_value_of_isWord ht
    obtain ⟨first, more, words, rfl, rfl, hfirst, hread⟩ := ih
    refine ⟨t, _, _, rfl, rfl, hkind, fun rest hrest => ?_⟩
    rw [List.cons_append, List.cons_append, Source.readDotted, if_pos ⟨hdot, hfirst⟩,
      hread rest hrest]

/-- A word without a meaning of its own in a header names a modifier. -/
theorem read_modifier {function : String} {t : Token} (hkind : t.kind = .word)
    (h : t.value ∉ headerWords) (rest : List Token) :
    Specifier.read function t rest = Specifier.readModifier t.value rest := by
  generalize ht : t.value = text at h
  have hvisibility : Visibility.ofName? text = none := by
    unfold Visibility.ofName?
    split <;> first | rfl | exact absurd (by decide) h
  have hmutability : Mutability.ofWord? text = none := by
    unfold Mutability.ofWord?
    split <;> first | rfl | exact absurd (by decide) h
  rw [Specifier.read, if_neg (by simp [hkind]), ht, hvisibility, hmutability]
  -- `virtual`, `override` and `returns` are left, and excluded as well
  dsimp only
  split
  · exact absurd (by decide) h
  · exact absurd (by decide) h
  · exact absurd (by decide) h
  · rfl

namespace IsSpecifier

variable {ts : List Token} {s : Specifier}

/-- A specifier starts with a word and is read up to its own end, in front of anything that cannot
belong to it. -/
theorem read (h : IsSpecifier ts s) : ∃ t more, ts = t :: more ∧ t.kind = .word ∧
    ∀ {level : Nat} {rest : List Token}, Gauge.parens.Marked level ts → StartsAnew rest →
      ∀ function, Specifier.read function t (more ++ rest) = .ok (s, rest) := by
  cases h with
  | @visibility t v ht =>
    obtain ⟨hkind, hvalue⟩ := Token.kind_value_of_isWord ht
    refine ⟨t, [], rfl, hkind, fun _ _ function => ?_⟩
    rw [Specifier.read, if_neg (by simp [hkind]), hvalue]
    cases v <;> rfl
  | @mutability t m ht =>
    obtain ⟨hkind, hvalue⟩ := Token.kind_value_of_isWord ht
    refine ⟨t, [], rfl, hkind, fun _ _ function => ?_⟩
    rw [Specifier.read, if_neg (by simp [hkind]), hvalue]
    cases m <;> rfl
  | @constant t ht =>
    obtain ⟨hkind, hvalue⟩ := Token.kind_value_of_isWord ht
    refine ⟨t, [], rfl, hkind, fun _ _ function => ?_⟩
    rw [Specifier.read, if_neg (by simp [hkind]), hvalue]
    rfl
  | @virtual t ht =>
    obtain ⟨hkind, hvalue⟩ := Token.kind_value_of_isWord ht
    refine ⟨t, [], rfl, hkind, fun _ _ function => ?_⟩
    rw [Specifier.read, if_neg (by simp [hkind]), hvalue]
    rfl
  | @override t bases ht hbases =>
    obtain ⟨hkind, hvalue⟩ := Token.kind_value_of_isWord ht
    refine ⟨t, bases, rfl, hkind, fun hmarked hrest function => ?_⟩
    rw [Specifier.read, if_neg (by simp [hkind]), hvalue, hbases.skip hmarked.2 hrest]
    rfl
  | @returns t inside ts values ht hts hvalues =>
    obtain ⟨hkind, hvalue⟩ := Token.kind_value_of_isWord ht
    refine ⟨t, ts, rfl, hkind, fun hmarked _ function => ?_⟩
    rw [Specifier.read, if_neg (by simp [hkind]), hvalue]
    exact hts.readReturns hvalues hmarked.2 function _
  | @modifier path arguments names hpath hfree harguments =>
    -- the name ends in front of the arguments, and these in front of what starts anew
    obtain ⟨first, more, words, rfl, rfl, hfirst, hdotted⟩ := hpath.readDotted
    refine ⟨first, more ++ arguments, rfl, hfirst, fun hmarked hrest function => ?_⟩
    have hskip := harguments.skip (Gauge.marked_append.1 hmarked).2 hrest
    rw [read_modifier hfirst (hfree _ rfl), List.append_assoc, Specifier.readModifier,
      hdotted _ (harguments.not_dot fun t ht => (hrest t ht).2)]
    dsimp only
    rw [hskip]

end IsSpecifier

/-- The header goes on behind a specifier. -/
theorem readAll_cons {function : String} {t : Token} {rest more after : List Token}
    {s : Specifier} {specifiers : List Specifier} {ending : Token}
    (hend : ¬ (t.isMark blockOpen ∨ t.isMark ";"))
    (hread : Specifier.read function t rest = .ok (s, more))
    (hmore : Specifier.readAll function more = .ok (specifiers, ending, after)) :
    Specifier.readAll function (t :: rest) = .ok (s :: specifiers, ending, after) := by
  rw [Specifier.readAll_step, if_neg hend, hread]
  dsimp only
  rw [hmore]

/-- What follows a specifier is the next one or the end of the header, and starts anew. -/
theorem startsAnew_of_specified {header : List (List Token)} {specifiers : List Specifier}
    (h : List.Forall₂ IsSpecifier header specifiers) {ending : Token}
    (hending : ending.isMark blockOpen ∨ ending.isMark ";") (rest : List Token) :
    StartsAnew (header.flatten ++ ending :: rest) := by
  intro t ht
  cases h with
  | nil =>
    cases ht
    rcases hending with hending | hending <;>
      exact ⟨Token.isMark_eq_false_of_ne hending (by decide),
        Token.isMark_eq_false_of_ne hending (by decide)⟩
  | cons hs _ =>
    obtain ⟨u, more, rfl, hkind, -⟩ := hs.read
    cases ht
    exact ⟨Token.isMark_eq_false_of_word hkind _, Token.isMark_eq_false_of_word hkind _⟩

/-- A header is read specifier by specifier, up to what ends it. -/
theorem readAll_of_specified {header : List (List Token)} {specifiers : List Specifier}
    (h : List.Forall₂ IsSpecifier header specifiers) {ending : Token}
    (hending : ending.isMark blockOpen ∨ ending.isMark ";") {level : Nat}
    (hmarked : Gauge.parens.Marked level header.flatten) (function : String) (rest : List Token) :
    Specifier.readAll function (header.flatten ++ ending :: rest) =
      .ok (specifiers, ending, rest) := by
  induction h generalizing level with
  | nil =>
    rw [List.flatten_nil, List.nil_append, Specifier.readAll, if_pos hending]
  | @cons ts s header specifiers hs h ih =>
    -- behind the first specifier the others stand at a level of their own
    obtain ⟨hhere, hbehind⟩ := Gauge.marked_append.1 hmarked
    obtain ⟨t, more, rfl, hkind, hread⟩ := hs.read
    have hanew := startsAnew_of_specified h hending rest
    have hend : ¬ (t.isMark blockOpen ∨ t.isMark ";") := by
      simp [Token.isMark_eq_false_of_word hkind]
    rw [List.flatten_cons, List.append_assoc]
    exact readAll_cons hend (hread hhere hanew function) (ih hbehind)

/-! ## Functions -/

namespace IsHead

variable {keyword : Token} {nameTokens : List Token} {name : String} {kind : FunctionKind}

theorem functionName_eq (h : IsHead keyword nameTokens name kind) (rest : List Token) :
    Member.functionName keyword (nameTokens ++ rest) = (name, kind, rest) := by
  cases h with
  | named hkeyword ht =>
    obtain ⟨hkind, rfl⟩ := Token.kind_value_of_isWord ht
    rw [Member.functionName.eq_def, (Token.kind_value_of_isWord hkeyword).2]
    exact if_pos hkind
  | special hkind hkeyword =>
    rw [Member.functionName.eq_def, (Token.kind_value_of_isWord hkeyword).2]
    cases kind with
    | function => exact absurd rfl hkind
    | constructor => rfl
    | fallback => rfl
    | receive => rfl

/-- The keyword `function` with a name is no variable of a function type. -/
theorem not_variable (h : IsHead keyword nameTokens name kind) :
    ¬ (keyword.value = "function" ∧ kind = .fallback) := by
  rintro ⟨hvalue, rfl⟩
  cases h with
  | special hkind hkeyword =>
    rw [(Token.kind_value_of_isWord hkeyword).2] at hvalue
    exact absurd hvalue (by decide)

/-- In front of a list of parameters the keyword announces a function and nothing else. -/
theorem announces (h : IsHead keyword nameTokens name kind) {opening : Token}
    (hopening : opening.isMark "(") (more : List Token) :
    keyword.kind = .word ∧ Member.opensDeclaration keyword (nameTokens ++ opening :: more) ∧
      Member.isContractKeyword keyword.value = false ∧
      ∀ origin scope rest, Member.read origin scope keyword rest =
        Member.readFunction origin scope keyword rest := by
  cases h with
  | named hkeyword _ =>
    obtain ⟨hkind, hvalue⟩ := Token.kind_value_of_isWord hkeyword
    refine ⟨hkind, ?_, by rw [hvalue]; decide, fun origin scope rest => ?_⟩
    · rw [Member.opensDeclaration, hkind, hvalue]
      rfl
    · rw [Member.read_eq, hvalue]
      rfl
  | special hkind hkeyword =>
    obtain ⟨hword, hvalue⟩ := Token.kind_value_of_isWord hkeyword
    refine ⟨hword, ?_, ?_, fun origin scope rest => ?_⟩
    · have hspecial : kind.name ∈ ["fallback", "receive", "constructor"] := by
        cases kind with
        | function => exact absurd rfl hkind
        | _ => decide
      rw [Member.opensDeclaration, hword, hvalue, if_pos hspecial]
      simpa using hopening
    · rw [hvalue]
      cases kind <;> decide
    · rw [Member.read_eq, hvalue]
      cases kind <;> rfl

end IsHead

/-- What ends a function is passed over as a whole. -/
theorem IsEnding.pass {ts : List Token} (h : IsEnding ts) {level : Nat}
    (hmarked : Gauge.braces.Marked level ts) (rest : List Token) :
    ∃ opening more, ts = opening :: more ∧ (opening.isMark ";" ∧ more = [] ∨
      opening.isMark blockOpen ∧
        ∃ c, closeBrace opening (more ++ rest) = some c ∧ c.after = rest) := by
  cases h with
  | semicolon ht => exact ⟨_, _, rfl, .inl ⟨ht, rfl⟩⟩
  | @block opening closing body hopening hclosing hbalanced =>
    refine ⟨opening, body ++ [closing], rfl, .inr ⟨hopening, ⟨body, closing, rest⟩, ?_, rfl⟩⟩
    rw [List.append_assoc]
    exact closeBrace_of_marked hmarked hopening hclosing hbalanced rest

namespace WrittenFunction

variable (f : WrittenFunction)

/-- A function is read up to its end, a body being passed over. -/
theorem readFunction_eq {braceLevel parenLevel : Nat}
    (hbraces : Gauge.braces.Marked braceLevel f.tokens)
    (hparens : Gauge.parens.Marked parenLevel f.tokens) (origin : Origin)
    (scope : Option ContractKind) (rest : List Token) :
    Member.readFunction origin scope f.keyword (f.behind ++ rest) =
      .ok (Member.functionMembers origin scope f.keyword f.name f.kind f.parameters f.specifiers,
        rest) := by
  -- the parameters, the header and the ending, each with what is open in front of it
  obtain ⟨hlist, hmore⟩ := Gauge.marked_append.1 (Gauge.marked_append.1 hparens.2).2
  obtain ⟨hheader, -⟩ := Gauge.marked_append.1 hmore
  have hsuffix : f.ending <:+: f.tokens :=
    ⟨f.keyword :: (f.nameTokens ++ (f.listTokens ++ f.header.flatten)), [], by
      simp [tokens, behind]⟩
  obtain ⟨_, hending⟩ := hbraces.of_isInfix hsuffix
  obtain ⟨opening, more, hsplit, hends⟩ := f.isEnding.pass hending rest
  have hopens : opening.isMark blockOpen ∨ opening.isMark ";" :=
    hends.symm.imp And.left And.left
  have hbehind : f.behind ++ rest =
      f.nameTokens ++ (f.listTokens ++ (f.header.flatten ++ opening :: (more ++ rest))) := by
    simp only [behind, hsplit, List.append_assoc, List.cons_append]
  rw [Member.readFunction, hbehind, f.isHead.functionName_eq]
  dsimp only
  rw [f.enclosed.readParenthesised f.readable hlist]
  dsimp only
  rw [readAll_of_specified f.specified hopens hheader]
  dsimp only
  rcases hends with ⟨hsemicolon, rfl⟩ | ⟨hblock, c, hc, hafter⟩
  · have hblock : opening.isMark blockOpen = false :=
      Token.isMark_eq_false_of_ne hsemicolon (by decide)
    rw [hblock, if_neg Bool.false_ne_true, if_neg fun h => f.isHead.not_variable ⟨h.1, h.2.1⟩]
    rfl
  · rw [if_pos hblock, hc]
    dsimp only
    rw [hafter]

/-- A function gives what it declares, and reading goes on right behind it. -/
theorem walk_eq {braceLevel parenLevel : Nat} (hbraces : Gauge.braces.Marked braceLevel f.tokens)
    (hparens : Gauge.parens.Marked parenLevel f.tokens) (origin : Origin)
    (scope : Option ContractKind) (rest : List Token) :
    walk origin scope (f.tokens ++ rest) =
      Member.functionMembers origin scope f.keyword f.name f.kind f.parameters f.specifiers ++
        walk origin scope rest := by
  obtain ⟨opening, more, hlist, hopening⟩ := f.enclosed.exists_cons
  have hbehind : f.behind ++ rest =
      f.nameTokens ++ opening :: (more ++ (f.header.flatten ++ f.ending) ++ rest) := by
    simp only [behind, hlist, List.append_assoc, List.cons_append]
  obtain ⟨hword, hopens, hcontract, hmember⟩ := f.isHead.announces hopening
    (more ++ (f.header.flatten ++ f.ending) ++ rest)
  rw [← hbehind] at hopens
  have hends : ¬ (f.keyword.isMark ";" ∨ f.keyword.isMark blockClose) := by
    simp [Token.isMark_eq_false_of_word hword]
  rw [tokens, List.cons_append, walk_cons, if_neg hends, if_pos hopens, hcontract,
    if_neg Bool.false_ne_true, hmember, f.readFunction_eq hbraces hparens]

end WrittenFunction

end AbiIndex.Grammar
