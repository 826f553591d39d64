import AbiIndex.Abi.Resolution
import AbiIndex.Proofs.TypeGrammar

/-!
# What a failure takes along

A declaration with a type that has no canonical form gives a report and leaves the others alone,
except where a length cannot be converted or a value type stands for itself. These failures are not
reported, and end the work on the whole file.

## Key results

- `arrayLength_unconvertible`: the lengths that cannot be converted
- `uncontained_of_error`: all types that end the work lead to such a length or value type
- `resolveUnit_eq_error_iff`: the first declaration with such a type decides
- `parse_contained`: a file that can be tokenized is resolved declaration by declaration, unless one
  of its types is of this kind
-/

namespace AbiIndex.Abi

open AbiIndex.Source AbiIndex.Text

/-! ## Lengths that cannot be converted -/

/-- A literal without the line break at its end, if there is one. -/
def literalBody (text : String) : List Char :=
  if text.toList.getLast? = some '\n' then text.toList.dropLast else text.toList

/-- The text passes for an integer literal and cannot be converted: a hexadecimal one without any
digit, a decimal one with too many digits, or one whose value has too many digits. -/
inductive Unconvertible (text : String) : Prop
  | noDigits {x : Char} {rest : List Char} (hbody : literalBody text = '0' :: x :: rest)
      (hx : x = 'x' ∨ x = 'X') (hne : rest ≠ []) (hrest : ∀ c ∈ rest, c = '_')
  | tooManyDigits (hbody : ∀ c ∈ literalBody text, c.isDigit ∨ c = '_')
      (h : Number.maxDigits < ((literalBody text).filter Char.isDigit).length)
  | tooLarge {n : Nat} (hn : integerLiteral text = .ok (some n))
      (h : Nat.pow 10 Number.maxDigits ≤ n)

/-- How a literal fails that cannot be converted. -/
inductive TypeError.IsConversion : TypeError → Prop
  | emptyLiteral (text : String) : IsConversion (.emptyLiteral text)
  | oversized (e : Number.TooLong) : IsConversion (.oversized e)

theorem hexValue?_of_isDigit {c : Char} (h : c.isDigit) : ∃ n, hexValue? c = some n := by
  have hrange : '0' ≤ c ∧ c ≤ '9' := by
    simpa [Char.isDigit, Char.le_def] using h
  exact ⟨_, by rw [hexValue?, if_pos hrange]⟩

/-- Underscores have no value. -/
theorem length_filterMap_hexValue? {cs : List Char} (h : ∀ c ∈ cs, c.isDigit ∨ c = '_') :
    (cs.filterMap hexValue?).length = (cs.filter Char.isDigit).length := by
  induction cs with
  | nil => rfl
  | cons c cs ih =>
    obtain ⟨hc, hcs⟩ := List.forall_mem_cons.1 h
    rcases hc with hc | rfl
    · obtain ⟨n, hn⟩ := hexValue?_of_isDigit hc
      rw [List.filterMap_cons_some hn, List.filter_cons_of_pos hc, List.length_cons,
        List.length_cons, ih hcs]
    · have hnone : hexValue? '_' = none := by decide
      rw [List.filterMap_cons_none hnone, List.filter_cons_of_neg (by decide), ih hcs]

theorem decimal_error {cs : List Char} {e : TypeError}
    (h : integerLiteral.decimal cs = .error e) :
    (∀ c ∈ cs, c.isDigit ∨ c = '_') ∧ Number.maxDigits < (cs.filter Char.isDigit).length ∧
      e.IsConversion := by
  cases cs with
  | nil => cases h
  | cons c rest =>
    rw [integerLiteral.decimal] at h
    split at h
    · rename_i hdigits
      have hbody : ∀ d ∈ c :: rest, d.isDigit ∨ d = '_' := by
        refine List.forall_mem_cons.2 ⟨.inl hdigits.1, fun d hd => ?_⟩
        simpa using List.all_eq_true.1 hdigits.2 d hd
      refine ⟨hbody, ?_⟩
      rw [← length_filterMap_hexValue? hbody]
      split at h
      · cases h
      · rename_i hread
        cases h
        rw [Number.readDecimal] at hread
        split at hread
        · rename_i hlength
          exact ⟨hlength, .oversized _⟩
        · cases hread
    · cases h

theorem integerLiteral_error {text : String} {e : TypeError}
    (h : integerLiteral text = .error e) : Unconvertible text ∧ e.IsConversion := by
  have hbody : (if text.toList.getLast? = some '\n' then text.toList.dropLast else text.toList) =
      literalBody text := rfl
  unfold integerLiteral at h
  simp only [hbody] at h
  split at h
  · rename_i x rest heq
    split at h
    -- hexadecimal digits have no limit, so that only their absence fails
    · rename_i hhex
      split at h
      · rename_i hunderscores
        cases h
        refine ⟨.noDigits heq hhex.1 hhex.2.1 fun c hc => ?_, .emptyLiteral _⟩
        simpa using List.all_eq_true.1 hunderscores c hc
      · cases h
    · obtain ⟨hdigits, hlength, he⟩ := decimal_error h
      exact ⟨.tooManyDigits hdigits hlength, he⟩
  · obtain ⟨hdigits, hlength, he⟩ := decimal_error h
    exact ⟨.tooManyDigits hdigits hlength, he⟩

/-- The failures that are not reported. -/
def TypeError.IsFatal (e : TypeError) : Prop := e.diagnosticKind? = none

theorem lengthText_error {n : Nat} {e : TypeError} (h : lengthText n = .error e) :
    Nat.pow 10 Number.maxDigits ≤ n ∧ e.IsConversion := by
  constructor
  · by_contra hlt
    rw [lengthText_eq_ok_iff.2 ⟨Nat.lt_of_not_le hlt, rfl⟩] at h
    cases h
  · unfold lengthText at h
    split at h
    · cases h
    · cases h
      exact .oversized _

/-- In the scope, the text between brackets is a literal that cannot be converted, or the name of a
constant with such a literal. -/
inductive BadLength (reg : Registry) (scope : Scope) (text : String) : Prop
  | literal (h : Unconvertible text)
  | constant (home : Scope) (c : ConstantDecl)
      (hd : reg.resolvePath scope ((pieces (· = '.') text.toList).map String.ofList)
        = .ok ⟨home, .constant c⟩)
      (h : Unconvertible c.value)

/-- How a name or a length fails that stands for nothing of use. -/
inductive TypeError.IsUnresolved : TypeError → Prop
  | unknown (name : String) : IsUnresolved (.unknown name)
  | ambiguous (name : String) (count : Nat) : IsUnresolved (.ambiguous name count)
  | lengthNotInteger (length : String) : IsUnresolved (.lengthNotInteger length)
  | lengthNotConstant (length : String) : IsUnresolved (.lengthNotConstant length)
  | constantNotLiteral (length : String) : IsUnresolved (.constantNotLiteral length)

/-- What stands for nothing of use is reported. -/
theorem TypeError.IsUnresolved.not_isFatal {e : TypeError} (h : e.IsUnresolved) : ¬ e.IsFatal := by
  cases h <;> exact nofun

theorem unique_error {reg : Registry} {name : String} {e : TypeError}
    (h : reg.unique name = .error e) : e.IsUnresolved := by
  unfold Registry.unique at h
  split at h
  · cases h
    exact .unknown _
  · cases h
  · split at h
    · cases h
    · cases h
      exact .ambiguous _ _

theorem resolvePath_error {reg : Registry} {scope : Scope} {parts : List String} {e : TypeError}
    (h : reg.resolvePath scope parts = .error e) : parts = [] ∧ e = .noName ∨ e.IsUnresolved := by
  unfold Registry.resolvePath at h
  split at h
  · cases h
    exact .inl ⟨rfl, rfl⟩
  · unfold Registry.resolve at h
    split at h
    · cases h
    · split at h
      · cases h
      · exact .inr (unique_error h)
  · split at h
    · cases h
    · exact .inr (unique_error h)
  · exact .inr (unique_error h)

/-- A length fails because a literal cannot be converted, its own or that of a constant, or because
it stands for no literal. -/
theorem arrayLength_error {reg : Registry} {scope : Scope} {text : String} {e : TypeError}
    (h : arrayLength reg scope text = .error e) :
    BadLength reg scope text ∧ e.IsConversion ∨ e.IsUnresolved := by
  rcases bind_eq_error_iff.1 h with h | ⟨value, hvalue, h⟩
  · exact .inl ((integerLiteral_error h).imp_left .literal)
  cases value with
  | some n => exact .inl ((lengthText_error h).imp_left fun hn => .literal (.tooLarge hvalue hn))
  | none =>
    dsimp only at h
    split at h
    · rcases bind_eq_error_iff.1 h with h | ⟨⟨home, decl⟩, hd, h⟩
      -- a text between brackets has parts, so that it is the name of something
      · have hparts : (pieces (· = '.') text.toList).map String.ofList ≠ [] := by
          simpa using pieces_ne_nil _ _
        exact .inr ((resolvePath_error h).resolve_left fun hnone => hparts hnone.1)
      cases decl with
      | constant c =>
        rcases bind_eq_error_iff.1 h with h | ⟨value, hvalue, h⟩
        · exact .inl ((integerLiteral_error h).imp_left (.constant home c hd))
        cases value with
        | some n =>
          exact .inl ((lengthText_error h).imp_left fun hn =>
            .constant home c hd (.tooLarge hvalue hn))
        | none =>
          cases h
          exact .inr (.constantNotLiteral _)
      | _ =>
        cases h
        exact .inr (.lengthNotConstant _)
    · cases h
      exact .inr (.lengthNotInteger _)

/-- A length that cannot be converted is a literal, directly or by the name of a constant. -/
theorem arrayLength_unconvertible {reg : Registry} {scope : Scope} {text : String} {e : TypeError}
    (h : arrayLength reg scope text = .error e) (he : e.IsFatal) : BadLength reg scope text := by
  rcases arrayLength_error h with ⟨hbad, -⟩ | hunresolved
  · exact hbad
  · exact absurd he hunresolved.not_isFatal

/-! ## Types that end the work -/

/-- The second type is the first one without array brackets and with value types replaced by what
they stand for, any number of times. -/
inductive Unfolds (reg : Registry) (scope : Scope) (type : TypeRef) : Scope → TypeRef → Prop
  | refl : Unfolds reg scope type scope type
  | element {home : Scope} {base : TypeRef} {length : Option String}
      (h : Unfolds reg scope type home (.array base length)) : Unfolds reg scope type home base
  | valueType {home : Scope} {path : List String} {d : Definition} {v : ValueTypeDecl}
      (h : Unfolds reg scope type home (.user path)) (hd : reg.resolvePath home path = .ok d)
      (hv : d.decl = .valueType v) : Unfolds reg scope type d.scope v.underlying

/-- A value type that stands for itself, or for an array of itself. -/
def IsEndless (reg : Registry) (d : Definition) : Prop :=
  ∃ v scope path, d.decl = .valueType v ∧ Unfolds reg d.scope v.underlying scope (.user path) ∧
    reg.resolvePath scope path = .ok d

/-- The value types that are being replaced lead to the type at hand. -/
def LeadTo (reg : Registry) (unfolding : List Definition) (scope : Scope) (type : TypeRef) : Prop :=
  ∀ d ∈ unfolding, ∃ v, d.decl = .valueType v ∧ Unfolds reg d.scope v.underlying scope type

namespace LeadTo

variable {reg : Registry} {unfolding : List Definition} {scope : Scope}

theorem nil {type : TypeRef} : LeadTo reg [] scope type := List.forall_mem_nil _

theorem element {base : TypeRef} {length : Option String}
    (h : LeadTo reg unfolding scope (.array base length)) : LeadTo reg unfolding scope base := by
  intro d hd
  obtain ⟨v, hv, hunfolds⟩ := h d hd
  exact ⟨v, hv, .element hunfolds⟩

theorem replace {path : List String} {d : Definition} {v : ValueTypeDecl}
    (h : LeadTo reg unfolding scope (.user path)) (hd : reg.resolvePath scope path = .ok d)
    (hv : d.decl = .valueType v) : LeadTo reg (d :: unfolding) d.scope v.underlying := by
  intro d' hd'
  rcases List.mem_cons.1 hd' with rfl | hd'
  · exact ⟨v, hv, .refl⟩
  · obtain ⟨v', hv', hunfolds⟩ := h d' hd'
    exact ⟨v', hv', .valueType hunfolds hd hv⟩

theorem isEndless {path : List String} {d : Definition}
    (h : LeadTo reg unfolding scope (.user path)) (hd : reg.resolvePath scope path = .ok d)
    (hmem : d ∈ unfolding) : IsEndless reg d := by
  obtain ⟨v, hv, hunfolds⟩ := h d hmem
  exact ⟨v, _, path, hv, hunfolds, hd⟩

end LeadTo

/-- The type leads, through array elements, what value types stand for and the fields of structs, to
a length that cannot be converted or to a value type that stands for itself. -/
inductive Uncontained (reg : Registry) : Scope → TypeRef → Prop
  | length {scope : Scope} {text : String} (base : TypeRef) (h : BadLength reg scope text) :
      Uncontained reg scope (.array base (some text))
  | element {scope : Scope} {base : TypeRef} (length : Option String)
      (h : Uncontained reg scope base) : Uncontained reg scope (.array base length)
  | endless {scope : Scope} {path : List String} {d : Definition}
      (hd : reg.resolvePath scope path = .ok d) (h : IsEndless reg d) :
      Uncontained reg scope (.user path)
  | valueType {scope : Scope} {path : List String} {d : Definition} {v : ValueTypeDecl}
      (hd : reg.resolvePath scope path = .ok d) (hv : d.decl = .valueType v)
      (h : Uncontained reg d.scope v.underlying) : Uncontained reg scope (.user path)
  | struct {scope : Scope} {path : List String} {d : Definition} {s : StructDecl}
      {field : Parameter} (hd : reg.resolvePath scope path = .ok d) (hs : d.decl = .struct s)
      (hfield : field ∈ s.fields) (h : Uncontained reg d.scope field.type) :
      Uncontained reg scope (.user path)

/-- A failure that is not reported comes from a length that cannot be converted or from a value type
that stands for itself. -/
theorem uncontained_of_error {reg : Registry} (hreg : reg.IsWritten)
    {expanding : List Definition.Identity} {unfolding : List Definition} {scope : Scope}
    {type : TypeRef} {e : TypeError} (htype : type.IsWritten)
    (hunfolding : LeadTo reg unfolding scope type)
    (h : canonicalWithin reg expanding unfolding scope type = .error e) (he : e.IsFatal) :
    Uncontained reg scope type := by
  fun_induction canonicalWithin reg expanding unfolding scope type generalizing e with
  | case1 => cases h
  | case2 => cases h
  | case3 => exact htype.elim
  | case4 =>
    cases h
    cases he
  | case5 expanding unfolding scope base length ih =>
    rcases bind_eq_error_iff.1 h with h | ⟨element, -, h⟩
    · exact .element length (ih htype hunfolding.element h he)
    · cases length with
      | none => cases h
      | some text =>
        rcases bind_eq_error_iff.1 h with h | ⟨_, _, ⟨⟩⟩
        exact .length base (arrayLength_unconvertible h he)
  | case6 _ _ _ path e' he' =>
    cases h
    have hunresolved := (resolvePath_error he').resolve_left fun hnone => htype hnone.1
    exact absurd he hunresolved.not_isFatal
  | case7 => cases h
  | case8 => cases h
  | case9 =>
    cases h
    cases he
  | case10 _ unfolding _ path d hd v hv hmem => exact .endless hd (hunfolding.isEndless hd hmem)
  | case11 _ unfolding scope path d hd v hv _ ih =>
    have hwritten : v.underlying.IsWritten := by
      have := hreg d (Registry.mem_of_resolvePath hd)
      rwa [hv] at this
    exact .valueType hd hv (ih hwritten (hunfolding.replace hd hv) h he)
  | case12 =>
    cases h
    cases he
  | case13 _ _ _ path d hd s hs _ ih =>
    rcases bind_eq_error_iff.1 h with h | ⟨_, _, ⟨⟩⟩
    obtain ⟨before, field, after, hfields, -, hfield⟩ := mapM_eq_error_iff.1 h
    have hmem : field ∈ s.fields := by
      rw [hfields]
      simp
    have hwritten : field.type.IsWritten := by
      have := hreg d (Registry.mem_of_resolvePath hd)
      rw [hs] at this
      exact this field hmem
    exact .struct hd hs hmem (ih field hwritten .nil hfield he)

/-! ## Declarations one by one -/

namespace Declared

variable {reg : Registry} {path : String} {d : Declared} {e : TypeError}

/-- The first parameter of the declaration without a canonical type has none because of `e`. -/
def FailsWith (reg : Registry) (path : String) (d : Declared) (e : TypeError) : Prop :=
  ∃ before p after, d.parameters = before ++ p :: after ∧
    (∀ q ∈ before, ∃ t, canonical reg ⟨path, d.contract⟩ q.type = .ok t) ∧
    canonical reg ⟨path, d.contract⟩ p.type = .error e

/-- What becomes of a declaration by itself: its record, or the report why it has none. -/
inductive Outcome (reg : Registry) (path : String) (d : Declared) : Record ⊕ Diagnostic → Prop
  | record {types : List String} (h : List.Forall₂
      (fun p t => canonical reg ⟨path, d.contract⟩ p.type = .ok t) d.parameters types) :
      Outcome reg path d (.inl (d.record path types))
  | dropped {e : TypeError} {kind : DiagnosticKind} (h : d.FailsWith reg path e)
      (hkind : e.diagnosticKind? = some kind) : Outcome reg path d (.inr (d.dropped path kind e))

theorem resolve_eq_ok_iff {o : Record ⊕ Diagnostic} :
    d.resolve reg path = .ok o ↔ d.Outcome reg path o := by
  unfold resolve
  constructor
  · intro h
    split at h
    · rename_i types htypes
      cases h
      exact .record (mapM_eq_ok_iff.1 htypes)
    · rename_i e he
      split at h
      · rename_i kind hkind
        cases h
        exact .dropped (mapM_eq_error_iff.1 he) hkind
      · cases h
  · rintro (h | ⟨h, hkind⟩)
    · rw [mapM_eq_ok_iff.2 h]
    · rw [mapM_eq_error_iff.2 h]
      dsimp only
      rw [hkind]

/-- A declaration has only one outcome. -/
theorem Outcome.unique {o o' : Record ⊕ Diagnostic} (h : d.Outcome reg path o)
    (h' : d.Outcome reg path o') : o = o' :=
  Except.ok.inj ((resolve_eq_ok_iff.2 h).symm.trans (resolve_eq_ok_iff.2 h'))

theorem resolve_eq_error_iff :
    d.resolve reg path = .error e ↔ d.FailsWith reg path e ∧ e.IsFatal := by
  unfold resolve
  constructor
  · intro h
    split at h
    · cases h
    · rename_i e' he
      split at h
      · cases h
      · rename_i hkind
        cases h
        exact ⟨mapM_eq_error_iff.1 he, hkind⟩
  · rintro ⟨h, hfatal⟩
    rw [mapM_eq_error_iff.2 h]
    dsimp only
    rw [hfatal]

/-- A declaration that ends the work has a parameter whose type is to blame. -/
theorem FailsWith.exists_uncontained (h : d.FailsWith reg path e) (he : e.IsFatal)
    (hreg : reg.IsWritten) (hd : ∀ p ∈ d.parameters, p.type.IsWritten) :
    ∃ p ∈ d.parameters, Uncontained reg ⟨path, d.contract⟩ p.type := by
  obtain ⟨before, p, after, hsplit, -, hp⟩ := h
  have hmem : p ∈ d.parameters := by
    rw [hsplit]
    simp
  exact ⟨p, hmem, uncontained_of_error hreg (hd p hmem) .nil hp he⟩

end Declared

/-! ## Files -/

section Files

variable {reg : Registry} {unit : SourceUnit}

/-- A file is resolved if every declaration has an outcome of its own. -/
theorem resolveUnit_eq_ok_iff {resolved : ResolvedUnit} :
    resolveUnit reg unit = .ok resolved ↔
      ∃ outcomes, List.Forall₂ (Declared.Outcome reg unit.path) (Declared.ofUnit unit) outcomes ∧
        resolved = ⟨unit, outcomes.filterMap Sum.getLeft?, outcomes.filterMap Sum.getRight?⟩ := by
  rw [resolveUnit, bind_eq_ok_iff]
  simp only [mapM_eq_ok_iff, Declared.resolve_eq_ok_iff]
  constructor
  · rintro ⟨outcomes, houtcomes, ⟨⟩⟩
    exact ⟨outcomes, houtcomes, rfl⟩
  · rintro ⟨outcomes, houtcomes, rfl⟩
    exact ⟨outcomes, houtcomes, rfl⟩

/-- The first declaration with a failure that is not reported ends the work. -/
theorem resolveUnit_eq_error_iff {e : TypeError} :
    resolveUnit reg unit = .error e ↔
      ∃ before d after, Declared.ofUnit unit = before ++ d :: after ∧
        (∀ d' ∈ before, ∃ o, d'.Outcome reg unit.path o) ∧
        d.FailsWith reg unit.path e ∧ e.IsFatal := by
  rw [resolveUnit, bind_eq_error_iff, mapM_eq_error_iff]
  simp only [Declared.resolve_eq_ok_iff, Declared.resolve_eq_error_iff]
  constructor
  · rintro (h | ⟨_, _, ⟨⟩⟩)
    exact h
  · exact .inl

/-- If no type leads to a length that cannot be converted or to a value type that stands for itself,
every declaration of the file has an outcome of its own. -/
theorem exists_resolveUnit (hreg : reg.IsWritten) (hunit : unit.IsWritten)
    (h : ∀ d ∈ Declared.ofUnit unit, ∀ p ∈ d.parameters,
      ¬ Uncontained reg ⟨unit.path, d.contract⟩ p.type) :
    ∃ resolved, resolveUnit reg unit = .ok resolved := by
  cases hresolve : resolveUnit reg unit with
  | ok resolved => exact ⟨resolved, rfl⟩
  | error e =>
    obtain ⟨before, d, after, hsplit, -, hfails, hfatal⟩ := resolveUnit_eq_error_iff.1 hresolve
    have hmem : d ∈ Declared.ofUnit unit := by
      rw [hsplit]
      simp
    obtain ⟨p, hp, hbad⟩ :=
      hfails.exists_uncontained hfatal hreg (Declared.isSignature hunit hmem).2
    exact absurd hbad (h d hmem p hp)

end Files

/-- A file that can be read is resolved against its own names. -/
theorem parse_of_extract {text : List Char} {path : String} {unit : SourceUnit}
    (h : SourceUnit.extract text path = .ok unit) :
    parse text path = (resolveUnit (Registry.ofUnits [unit]) unit).mapError .type := by
  rw [parse, h]
  dsimp only
  cases resolveUnit (Registry.ofUnits [unit]) unit <;> rfl

/-- A file gives no result if and only if it cannot be tokenized, or the first declaration with a
failure that is not reported has such a failure. Where no parameter type leads to a length that cannot
be converted or to a value type that stands for itself, the file is resolved, and each of its
declarations gives its own record or its own report. -/
theorem parse_contained (text : List Char) (path : String) :
    (∀ e, parse text path = .error (.unterminated e) ↔ tokenize text = .error e) ∧
    ∀ unit, SourceUnit.extract text path = .ok unit →
      (∀ e, parse text path = .error (.type e) ↔
        ∃ before d after, Declared.ofUnit unit = before ++ d :: after ∧
          (∀ d' ∈ before, ∃ o, d'.Outcome (Registry.ofUnits [unit]) path o) ∧
          d.FailsWith (Registry.ofUnits [unit]) path e ∧ e.IsFatal) ∧
      ((∀ d ∈ Declared.ofUnit unit, ∀ p ∈ d.parameters,
          ¬ Uncontained (Registry.ofUnits [unit]) ⟨path, d.contract⟩ p.type) →
        ∃ outcomes, List.Forall₂ (Declared.Outcome (Registry.ofUnits [unit]) path)
            (Declared.ofUnit unit) outcomes ∧
          parse text path =
            .ok ⟨unit, outcomes.filterMap Sum.getLeft?, outcomes.filterMap Sum.getRight?⟩) := by
  constructor
  · intro e
    rw [parse, SourceUnit.extract, SourceUnit.extractAs]
    cases tokenize text with
    | error e' => simp [Except.map]
    | ok ts =>
      simp only [Except.map]
      split <;> simp
  · intro unit hunit
    obtain rfl : unit.path = path := by
      obtain ⟨ts, -, rfl⟩ := SourceUnit.extractAs_eq_ok_iff.1 hunit
      rfl
    have hwritten := SourceUnit.isWritten_of_extractAs hunit
    have hunits : ∀ u ∈ [unit], u.IsWritten := by simpa using hwritten
    rw [parse_of_extract hunit]
    refine ⟨fun e => ?_, fun hcontained => ?_⟩
    · rw [← resolveUnit_eq_error_iff]
      cases resolveUnit (Registry.ofUnits [unit]) unit <;> simp [Except.mapError]
    · obtain ⟨resolved, hresolved⟩ :=
        exists_resolveUnit (Registry.isWritten_ofUnits hunits) hwritten hcontained
      obtain ⟨outcomes, houtcomes, rfl⟩ := resolveUnit_eq_ok_iff.1 hresolved
      exact ⟨outcomes, houtcomes, by rw [hresolved, Except.mapError]⟩

/-! ## Two files -/

/-- An error of one parameter, and an error without parameters behind it. -/
def twoErrors (p : Parameter) : SourceUnit :=
  .ofMembers "A.sol" .contracts [.error ⟨"A", [p], 1, none⟩, .error ⟨"B", [], 1, none⟩]

/-- A parameter that is a mapping costs its declaration the record, and the one behind it keeps its
own. A length without digits takes both along. -/
theorem parse_contained_twoErrors :
    let mapping : TypeRef := .mapping (.elementary "bool") (.elementary "bool")
    let first : Declared := .ofError none ⟨"A", [⟨"m", mapping, false⟩], 1, none⟩
    let second : Declared := .ofError none ⟨"B", [], 1, none⟩
    parse "error A(mapping(bool => bool) m); error B();".toList "A.sol" =
      .ok ⟨twoErrors ⟨"m", mapping, false⟩, [second.record "A.sol" []],
        [first.dropped "A.sol" .invalidParameterType (.mapping "mapping(bool => bool)")]⟩ ∧
    parse "error A(uint[0x_] a); error B();".toList "A.sol" =
      .error (.type (.emptyLiteral "0x")) := by
  intro mapping first second
  constructor
  · have hunit : SourceUnit.extract "error A(mapping(bool => bool) m); error B();".toList "A.sol" =
        .ok (twoErrors ⟨"m", mapping, false⟩) := eq_ok_of_toOption (by decide +kernel)
    have hmapping : canonical (Registry.ofUnits [twoErrors ⟨"m", mapping, false⟩])
        ⟨"A.sol", none⟩ mapping = .error (.mapping "mapping(bool => bool)") := by
      rw [canonical, canonicalWithin]
      rfl
    have hfirst : first.Outcome (Registry.ofUnits [twoErrors ⟨"m", mapping, false⟩]) "A.sol"
        (.inr (first.dropped "A.sol" .invalidParameterType (.mapping "mapping(bool => bool)"))) :=
      .dropped ⟨[], _, [], rfl, by simp, hmapping⟩ rfl
    have hsecond : second.Outcome (Registry.ofUnits [twoErrors ⟨"m", mapping, false⟩]) "A.sol"
        (.inl (second.record "A.sol" [])) := .record .nil
    -- a mapping has no length and is no name
    have hcontained : ∀ d ∈ Declared.ofUnit (twoErrors ⟨"m", mapping, false⟩), ∀ p ∈ d.parameters,
        ¬ Uncontained (Registry.ofUnits [twoErrors ⟨"m", mapping, false⟩]) ⟨"A.sol", d.contract⟩
          p.type := by
      have hall : ∀ d ∈ [first, second], ∀ p ∈ d.parameters, p.type = mapping := by
        simp [first, second, Declared.ofError]
      intro d hd p hp hbad
      rw [hall d hd p hp] at hbad
      dsimp only [mapping] at hbad
      cases hbad
    obtain ⟨outcomes, houtcomes, hparse⟩ := ((parse_contained _ "A.sol").2 _ hunit).2 hcontained
    obtain ⟨o, os, ho, hos, rfl⟩ := List.forall₂_cons_left_iff.1 houtcomes
    obtain ⟨o', os', ho', hos', rfl⟩ := List.forall₂_cons_left_iff.1 hos
    obtain rfl := List.forall₂_nil_left_iff.1 hos'
    obtain rfl := ho.unique hfirst
    obtain rfl := ho'.unique hsecond
    exact hparse
  · have hunit : SourceUnit.extract "error A(uint[0x_] a); error B();".toList "A.sol" =
        .ok (twoErrors ⟨"a", .array (.elementary "uint") (some "0x_"), false⟩) :=
      eq_ok_of_toOption (by decide +kernel)
    have hcanonical : canonical (Registry.ofUnits
        [twoErrors ⟨"a", .array (.elementary "uint") (some "0x_"), false⟩]) ⟨"A.sol", none⟩
        (.array (.elementary "uint") (some "0x_")) = .error (.emptyLiteral "0x") := by
      rw [canonical, canonicalWithin, canonicalWithin]
      rfl
    refine (((parse_contained _ "A.sol").2 _ hunit).1 _).2 ⟨[], _, _, rfl, by simp, ?_, rfl⟩
    exact ⟨[], _, [], rfl, by simp, hcanonical⟩

end AbiIndex.Abi
