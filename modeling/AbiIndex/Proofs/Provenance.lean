import AbiIndex.Proofs.Lexing
import AbiIndex.Proofs.ReaderEquations
import AbiIndex.Proofs.Traversal

/-!
# Names and types that come from a source

Every name of a declaration is a word of the source, and every type in it is one that can be written:
a built-in type goes by a word that names one, a named type has at least one part, and no type is
missing. The readers never make up a token, so that this holds of what they find as soon as it holds
of the tokens.

## Key results

- `TypeRef.read_spec`: the types that are read are written ones
- `walk_isWritten`: so are those of the members of a scope
- `SourceUnit.isWritten_of_extractAs`: so are those of a whole file
-/

namespace AbiIndex.Source

open AbiIndex.Text

/-! ## Words -/

/-- Whether a text is a word. -/
def isName (s : String) : Bool := (Lexeme.word s.toList).isSolid

/-- A token that is a word has a word as its value. -/
def Token.IsSpelled (t : Token) : Prop := t.kind = .word → isName t.value

/-- All words of a sequence are words. -/
def Spelled (ts : List Token) : Prop := ∀ t ∈ ts, t.IsSpelled

theorem isWritten_of_mem_scan (cs : List Char) : ∀ l ∈ (Lexeme.scan cs).lexemes, l.IsWritten := by
  fun_induction Lexeme.scan cs with
  | case1 => simp
  | case2 => simp
  | case3 c rest l after hread ih =>
    intro l' hl'
    rcases List.mem_cons.1 hl' with rfl | hl'
    · exact (Lexeme.isWritten_of_read hread).1
    · exact ih l' hl'

theorem spelled_tokensFrom {ls : List Lexeme} (hls : ∀ l ∈ ls, l.IsWritten) (here : Cursor) :
    Spelled (tokensFrom here ls) := by
  induction ls generalizing here with
  | nil => simp [tokensFrom, Spelled]
  | cons l ls ih =>
    obtain ⟨hl, hls⟩ := List.forall_mem_cons.1 hls
    rw [tokensFrom]
    split
    · rename_i kind value htoken
      refine List.forall_mem_cons.2 ⟨?_, ih hls _⟩
      rintro rfl
      cases l with
      | word text =>
        cases htoken
        show (Lexeme.word (String.ofList text).toList).isSolid = true
        rw [String.toList_ofList]
        exact hl
      | _ => cases htoken
    · exact ih hls _

theorem spelled_of_tokenize {text : List Char} {ts : List Token} (h : tokenize text = .ok ts) :
    Spelled ts := by
  obtain ⟨-, rfl⟩ := tokenize_eq_ok_iff.1 h
  exact spelled_tokensFrom (isWritten_of_mem_scan text) _

namespace Spelled

variable {ts ts' : List Token} {t : Token}

theorem of_subset (h : Spelled ts) (hsub : ts' ⊆ ts) : Spelled ts' := fun t ht => h t (hsub ht)

theorem of_suffix (h : Spelled ts) (hsuf : ts' <:+ ts) : Spelled ts' := h.of_subset hsuf.subset

theorem tail (h : Spelled (t :: ts)) : Spelled ts := (List.forall_mem_cons.1 h).2

end Spelled

/-- The parts of a cut come from the sequence that was cut. -/
theorem Cut.parts_of_eq {ts : List Token} {c : Cut} (h : ts = c.before ++ c.hit :: c.after) :
    c.before ⊆ ts ∧ c.after <:+ ts := by
  subst h
  exact ⟨List.subset_append_left _ _, (List.suffix_cons _ _).trans (List.suffix_append _ _)⟩

theorem cutWhere_parts {hit stop : Token → Bool} {ts : List Token} {c : Cut}
    (h : cutWhere hit stop ts = some c) : c.before ⊆ ts ∧ c.after <:+ ts :=
  Cut.parts_of_eq (cutWhere_eq h)

theorem closeNested_parts {opener closer : String} {nesting : Nat} {ts : List Token} {c : Cut}
    (h : closeNested opener closer nesting ts = some c) : c.before ⊆ ts ∧ c.after <:+ ts :=
  Cut.parts_of_eq (closeNested_eq h)

theorem readDotted_suffix (ts : List Token) : (readDotted ts).2 <:+ ts := by
  fun_induction readDotted ts with
  | case1 dot name rest _ ih =>
    exact ih.trans ((List.suffix_cons _ _).trans (List.suffix_cons _ _))
  | case2 => exact List.suffix_rfl
  | case3 => exact List.suffix_rfl

/-! ## Types -/

namespace TypeRef

/-- A type as it can stand in a source. -/
def IsWritten : TypeRef → Prop
  | elementary name => name = "address payable" ∨ isElementary name ∧ isName name
  | user path => path ≠ []
  | array base _ => base.IsWritten
  | mapping key value => key.IsWritten ∧ value.IsWritten
  | function _ => True
  | absent => False

theorem skipFunctionWords_suffix {within : String} {ts rest : List Token}
    (h : skipFunctionWords within ts = .ok rest) : rest <:+ ts := by
  fun_induction skipFunctionWords within ts with
  | case1 =>
    cases h
    exact List.suffix_rfl
  | case2 t more _ ih => exact (ih h).trans (List.suffix_cons _ _)
  | case3 => cases h
  | case4 t more _ _ c hc ih =>
    have hafter := (closeNested_parts hc).2
    exact ((ih h).trans hafter).trans ((List.drop_suffix _ _).trans (List.suffix_cons _ _))
  | case5 =>
    cases h
    exact List.suffix_rfl

theorem readFunctionType_spec {within : String} {keyword : Token} {ts rest : List Token}
    {type : TypeRef} (h : readFunctionType within keyword ts = .ok (type, rest)) :
    type.IsWritten ∧ rest <:+ ts := by
  cases ts with
  | nil => cases h
  | cons t more =>
    rw [readFunctionType] at h
    split at h
    · split at h
      · cases h
      · rename_i c hc
        split at h
        · cases h
        · rename_i after hafter
          cases h
          refine ⟨trivial, ?_⟩
          exact ((skipFunctionWords_suffix hafter).trans (closeNested_parts hc).2).trans
            (List.suffix_cons _ _)
    · cases h

theorem readBrackets_spec {within : String} {base type : TypeRef} {ts rest : List Token}
    (hbase : base.IsWritten) (h : readBrackets within base ts = .ok (type, rest)) :
    type.IsWritten ∧ rest <:+ ts := by
  fun_induction readBrackets within base ts with
  | case1 =>
    cases h
    exact ⟨hbase, List.suffix_rfl⟩
  | case2 => cases h
  | case3 base t more _ c hc length ih =>
    obtain ⟨htype, hrest⟩ := ih hbase h
    exact ⟨htype, (hrest.trans (closeNested_parts hc).2).trans (List.suffix_cons _ _)⟩
  | case4 =>
    cases h
    exact ⟨hbase, List.suffix_rfl⟩

theorem readNamed_spec {first : Token} (hkind : first.kind = .word) (hfirst : first.IsSpelled)
    (rest : List Token) :
    (readNamed first rest).1.IsWritten ∧ (readNamed first rest).2 <:+ rest := by
  unfold readNamed
  split
  · rename_i helementary
    have hname : (elementary first.value).IsWritten := .inr ⟨helementary, hfirst hkind⟩
    cases rest with
    | nil => exact ⟨hname, List.suffix_rfl⟩
    | cons t more =>
      dsimp only
      split
      · exact ⟨.inl rfl, List.suffix_cons _ _⟩
      · exact ⟨hname, List.suffix_rfl⟩
  · exact ⟨List.cons_ne_nil _ _, readDotted_suffix rest⟩

/-- A mapping is a written type if its key and its value are, which are shorter sequences. -/
theorem readMapping_spec {within : String} {ts rest : List Token} {type : TypeRef}
    (hts : Spelled ts)
    (hread : ∀ {inner after : List Token} {part : TypeRef}, inner.length < ts.length →
      Spelled inner → read within inner = .ok (part, after) → part.IsWritten)
    (h : readMapping within ts = .ok (type, rest)) : type.IsWritten ∧ rest <:+ ts := by
  cases ts with
  | nil => cases h
  | cons p inside =>
    rw [readMapping] at h
    split at h
    · split at h
      · cases h
      rename_i c hc
      split at h
      · cases h
      rename_i arrow harrow
      obtain ⟨⟨key, _⟩, hkey, h⟩ := bind_eq_ok_iff.1 h
      obtain ⟨⟨value, _⟩, hvalue, h⟩ := bind_eq_ok_iff.1 h
      cases h
      -- the key stands in front of the arrow, the value behind it, and both inside the parentheses
      obtain ⟨hbefore, hafter⟩ := closeNested_parts hc
      obtain ⟨hkeys, hvalues⟩ := cutWhere_parts harrow
      have hinside := hts.tail.of_subset hbefore
      have hlength := closeNested_length hc
      have hlength' := cutWhere_length harrow
      rw [List.length_cons] at hread
      exact ⟨⟨hread (by omega) (hinside.of_subset hkeys) hkey,
        hread (by omega) (hinside.of_suffix hvalues) hvalue⟩, hafter.trans (List.suffix_cons _ _)⟩
    · cases h

/-- A type that is read from words is a written one, and the rest is what stands behind it. -/
theorem read_spec {within : String} {ts rest : List Token} {type : TypeRef} (hts : Spelled ts)
    (h : read within ts = .ok (type, rest)) : type.IsWritten ∧ rest <:+ ts := by
  induction hn : ts.length using Nat.strongRecOn generalizing ts rest type with
  | ind n ih =>
    cases ts with
    | nil =>
      rw [read] at h
      cases h
    | cons t more =>
      rw [List.length_cons] at hn
      -- whatever the type begins with, brackets may follow
      have hbrackets : ∀ base after, base.IsWritten ∧ after <:+ more →
          readBrackets within base after = .ok (type, rest) →
          type.IsWritten ∧ rest <:+ t :: more := by
        rintro base after ⟨hbase, hafter⟩ h
        obtain ⟨htype, hrest⟩ := readBrackets_spec hbase h
        exact ⟨htype, (hrest.trans hafter).trans (List.suffix_cons _ _)⟩
      rw [read_cons] at h
      split at h
      · obtain ⟨⟨base, after⟩, hmapping, h⟩ := bind_eq_ok_iff.1 h
        refine hbrackets base after (readMapping_spec hts.tail ?_ hmapping) h
        intro inner _ _ hlength hinner hread
        exact (ih inner.length (by omega) hinner hread rfl).1
      split at h
      · obtain ⟨⟨base, after⟩, hfunction, h⟩ := bind_eq_ok_iff.1 h
        exact hbrackets base after (readFunctionType_spec hfunction) h
      split at h
      · rename_i hkind
        exact hbrackets _ _ (readNamed_spec hkind (hts t List.mem_cons_self) more) h
      · cases h

end TypeRef

/-! ## Parameters -/

namespace Parameter

theorem readWords_type {allowIndexed : Bool} {within : String} {p q : Parameter} {ts : List Token}
    (h : readWords allowIndexed within p ts = .ok q) : q.type = p.type := by
  fun_induction readWords allowIndexed within p ts with
  | case1 =>
    cases h
    rfl
  | case2 => cases h
  | case3 p t rest _ _ ih => exact ih h
  | case4 p t rest _ _ _ ih => exact ih h
  | case5 => cases h
  | case6 p t rest _ _ _ _ ih => exact ih h

theorem read_spec {allowIndexed : Bool} {within : String} {ts : List Token} {p : Parameter}
    (hts : Spelled ts) (h : read allowIndexed within ts = .ok p) : p.type.IsWritten := by
  unfold read at h
  split at h
  · cases h
  split at h
  · cases h
  · rename_i type rest htype
    rw [readWords_type h]
    exact (TypeRef.read_spec hts htype).1

theorem splitAtCommas_subset (nesting : Int) (ts : List Token) :
    ∀ part ∈ splitAtCommas nesting ts, part ⊆ ts := by
  induction ts generalizing nesting with
  | nil => simp [splitAtCommas]
  | cons t rest ih =>
    have ih := ih (nesting + nestingStep t)
    intro part hpart
    simp only [splitAtCommas] at hpart
    split at hpart
    · rcases List.mem_cons.1 hpart with rfl | hpart
      · exact List.nil_subset _
      · exact List.subset_cons_of_subset t (ih part hpart)
    · split at hpart
      · rw [List.mem_singleton.1 hpart]
        exact List.cons_subset_cons t (List.nil_subset _)
      · rename_i first others heq
        rw [heq] at ih
        rcases List.mem_cons.1 hpart with rfl | hpart
        · exact List.cons_subset_cons t (ih first List.mem_cons_self)
        · exact List.subset_cons_of_subset t (ih part (List.mem_cons_of_mem _ hpart))

/-- The types of the parameters in a list are written ones. -/
theorem readList_spec {allowIndexed : Bool} {ts : List Token} {ps : List Parameter}
    (hts : Spelled ts) (h : readList allowIndexed ts = .ok ps) : ∀ p ∈ ps, p.type.IsWritten := by
  unfold readList at h
  split at h
  · cases h
    simp
  · intro p hp
    obtain ⟨part, hpart, hread⟩ := exists_of_mem_mapM h hp
    exact read_spec (hts.of_subset (splitAtCommas_subset 0 ts part hpart)) hread

theorem readParenthesised_spec {allowIndexed : Bool} {within : String} {ts rest : List Token}
    {ps : List Parameter} (hts : Spelled ts)
    (h : readParenthesised allowIndexed within ts = .ok (ps, rest)) :
    (∀ p ∈ ps, p.type.IsWritten) ∧ rest <:+ ts := by
  obtain ⟨t, more, c, rfl, -, hc, hlist, rfl⟩ := readParenthesised_eq_ok h
  obtain ⟨hbefore, hafter⟩ := cutWhere_parts hc
  exact ⟨readList_spec (hts.tail.of_subset hbefore) hlist, hafter.trans (List.suffix_cons _ _)⟩

end Parameter

/-! ## Headers -/

namespace Specifier

theorem skipParens_suffix {ts rest : List Token} (h : skipParens ts = some rest) : rest <:+ ts := by
  rcases skipParens_eq_some h with rfl | ⟨t, more, c, rfl, -, hc, rfl⟩
  · exact List.suffix_rfl
  · exact (cutWhere_parts hc).2.trans (List.suffix_cons _ _)

theorem readReturns_suffix {function : String} {ts rest : List Token} {s : Specifier}
    (h : readReturns function ts = .ok (s, rest)) : rest <:+ ts := by
  obtain ⟨t, more, c, values, rfl, -, hc, -, -, rfl⟩ := readReturns_eq_ok h
  exact (cutWhere_parts hc).2.trans (List.suffix_cons _ _)

theorem readModifier_suffix {first : String} {ts rest : List Token} {s : Specifier}
    (h : readModifier first ts = .ok (s, rest)) : rest <:+ ts :=
  (skipParens_suffix (readModifier_eq_ok h).2).trans (readDotted_suffix ts)

theorem read_suffix {function : String} {t : Token} {ts rest : List Token} {s : Specifier}
    (h : read function t ts = .ok (s, rest)) : rest <:+ ts := by
  obtain ⟨-, rfl | hparens | hreturns | hmodifier⟩ := read_eq_ok h
  · exact List.suffix_rfl
  · exact skipParens_suffix hparens
  · exact readReturns_suffix hreturns
  · exact readModifier_suffix hmodifier

theorem readAll_suffix {function : String} {ts rest : List Token} {ending : Token}
    {specifiers : List Specifier} (h : readAll function ts = .ok (specifiers, ending, rest)) :
    rest <:+ ts := by
  fun_induction readAll function ts generalizing specifiers with
  | case1 => cases h
  | case2 t more =>
    cases h
    exact List.suffix_cons _ _
  | case3 => cases h
  | case4 => cases h
  | case5 t more _ s after hs specifiers' ending' rest' hall ih =>
    cases h
    exact ((ih hall).trans (read_suffix hs)).trans (List.suffix_cons _ _)

end Specifier

/-! ## Declarations -/

/-- A declaration with parameters is named by a word, and its parameters are of written types. -/
def IsSignature (name : String) (parameters : List Parameter) : Prop :=
  isName name ∧ ∀ p ∈ parameters, p.type.IsWritten

/-- The functions with a selector, the events and the errors of a contract are named by words, and
all types in it are written ones. -/
structure ContractDecl.IsWritten (c : ContractDecl) : Prop where
  functions : ∀ d ∈ c.functions, d.kind = .function → IsSignature d.name d.parameters
  events : ∀ d ∈ c.events, IsSignature d.name d.parameters
  errors : ∀ d ∈ c.errors, IsSignature d.name d.parameters
  structs : ∀ d ∈ c.structs, ∀ p ∈ d.fields, p.type.IsWritten
  valueTypes : ∀ d ∈ c.valueTypes, d.underlying.IsWritten

namespace Member

def IsWritten : Member → Prop
  | function d => d.kind = .function → IsSignature d.name d.parameters
  | event d => IsSignature d.name d.parameters
  | error d => IsSignature d.name d.parameters
  | struct d => ∀ p ∈ d.fields, p.type.IsWritten
  | valueType d => d.underlying.IsWritten
  | contract d => d.IsWritten
  | _ => True

variable {ts rest : List Token} {ms : List Member}

theorem readPragma_spec {origin : Origin} (h : readPragma origin ts = .ok (ms, rest)) :
    (∀ m ∈ ms, m.IsWritten) ∧ rest <:+ ts := by
  obtain ⟨c, hc, rfl, rfl | ⟨text, rfl⟩⟩ := readPragma_eq_ok h
  · exact ⟨by simp, (cutWhere_parts hc).2⟩
  · exact ⟨by simp [IsWritten], (cutWhere_parts hc).2⟩

theorem readImport_spec (h : readImport ts = .ok (ms, rest)) :
    (∀ m ∈ ms, m.IsWritten) ∧ rest <:+ ts := by
  obtain ⟨c, hc, rfl, rfl | ⟨path, rfl⟩⟩ := readImport_eq_ok h
  · exact ⟨by simp, (cutWhere_parts hc).2⟩
  · exact ⟨by simp [IsWritten], (cutWhere_parts hc).2⟩

/-- Only a function that is named by a word has a selector. -/
theorem functionName_spec (keyword : Token) (hts : Spelled ts) :
    ((functionName keyword ts).2.1 = .function → isName (functionName keyword ts).1) ∧
      (functionName keyword ts).2.2 <:+ ts := by
  unfold functionName
  split
  · exact ⟨nofun, List.suffix_rfl⟩
  · exact ⟨nofun, List.suffix_rfl⟩
  · exact ⟨nofun, List.suffix_rfl⟩
  · cases ts with
    | nil => exact ⟨nofun, List.suffix_rfl⟩
    | cons t more =>
      dsimp only
      split
      · rename_i hkind
        exact ⟨fun _ => hts t List.mem_cons_self hkind, List.suffix_cons _ _⟩
      · exact ⟨nofun, List.suffix_rfl⟩

theorem functionMembers_spec (origin : Origin) (scope : Option ContractKind) (keyword : Token)
    {name : String} {kind : FunctionKind} {parameters : List Parameter}
    (specifiers : List Specifier) (hname : kind = .function → isName name)
    (hparameters : ∀ p ∈ parameters, p.type.IsWritten) :
    ∀ m ∈ functionMembers origin scope keyword name kind parameters specifiers, m.IsWritten := by
  unfold functionMembers
  dsimp only
  intro m hm
  split at hm
  · cases hm
  · split at hm
    -- a report on the visibility may stand in front of the function
    · rcases List.mem_cons.1 hm with rfl | hm
      · trivial
      · rw [List.mem_singleton.1 hm]
        exact fun hkind => ⟨hname hkind, hparameters⟩
    · rw [List.mem_singleton.1 hm]
      exact fun hkind => ⟨hname hkind, hparameters⟩
  · rw [List.mem_singleton.1 hm]
    exact fun hkind => ⟨hname hkind, hparameters⟩

theorem readFunction_spec {origin : Origin} {scope : Option ContractKind} {keyword : Token}
    (hts : Spelled ts) (h : readFunction origin scope keyword ts = .ok (ms, rest)) :
    (∀ m ∈ ms, m.IsWritten) ∧ rest <:+ ts := by
  obtain ⟨hname, hafterName⟩ := functionName_spec keyword hts
  obtain ⟨parameters, header, specifiers, ending, behind, hparameters, hspecifiers, hms, hend⟩ :=
    readFunction_eq_ok h
  obtain ⟨hwritten, hsuffix⟩ :=
    Parameter.readParenthesised_spec (hts.of_suffix hafterName) hparameters
  have hbehind : behind <:+ ts :=
    ((Specifier.readAll_suffix hspecifiers).trans hsuffix).trans hafterName
  constructor
  · rcases hms with rfl | rfl
    · simp
    · exact functionMembers_spec origin scope keyword specifiers hname hwritten
  · rcases hend with ⟨-, c, hc, rfl⟩ | ⟨-, rfl⟩
    · exact (cutWhere_parts hc).2.trans hbehind
    · exact hbehind

theorem readEvent_spec {keyword : Token} {name : String} (hname : isName name) (hts : Spelled ts)
    (h : readEvent keyword name ts = .ok (ms, rest)) :
    (∀ m ∈ ms, m.IsWritten) ∧ rest <:+ ts := by
  obtain ⟨parameters, more, t, anonymous, hparameters, hrest, -, rfl⟩ := readEvent_eq_ok h
  obtain ⟨hwritten, hmore⟩ := Parameter.readParenthesised_spec hts hparameters
  refine ⟨List.forall_mem_singleton.2 ⟨hname, hwritten⟩, .trans ?_ hmore⟩
  rcases hrest with rfl | ⟨word, -, rfl⟩
  · exact List.suffix_cons _ _
  · exact (List.suffix_cons _ _).trans (List.suffix_cons _ _)

theorem readError_spec {keyword : Token} {name : String} (hname : isName name) (hts : Spelled ts)
    (h : readError keyword name ts = .ok (ms, rest)) :
    (∀ m ∈ ms, m.IsWritten) ∧ rest <:+ ts := by
  obtain ⟨parameters, t, hparameters, -, rfl⟩ := readError_eq_ok h
  obtain ⟨hwritten, hmore⟩ := Parameter.readParenthesised_spec hts hparameters
  exact ⟨List.forall_mem_singleton.2 ⟨hname, hwritten⟩, (List.suffix_cons _ _).trans hmore⟩

theorem splitFields_subset (depth : Nat) (ts : List Token) :
    ∀ field ∈ (splitFields depth ts).1, field ⊆ ts := by
  induction ts with
  | nil => simp [splitFields]
  | cons t rest ih =>
    intro field hfield
    simp only [splitFields] at hfield
    split at hfield
    · rcases List.mem_cons.1 hfield with rfl | hfield
      · exact List.nil_subset _
      · exact List.subset_cons_of_subset t (ih field hfield)
    · split at hfield
      · cases hfield
      · rename_i first others heq
        rw [heq] at ih
        rcases List.mem_cons.1 hfield with rfl | hfield
        · exact List.cons_subset_cons t (ih first List.mem_cons_self)
        · exact List.subset_cons_of_subset t (ih field (List.mem_cons_of_mem _ hfield))

theorem readStruct_spec {keyword : Token} {name : String} (hts : Spelled ts)
    (h : readStruct keyword name ts = .ok (ms, rest)) :
    (∀ m ∈ ms, m.IsWritten) ∧ rest <:+ ts := by
  obtain ⟨t, more, c, fields, rfl, -, hc, hfields, rfl, rfl⟩ := readStruct_eq_ok h
  obtain ⟨hbefore, hafter⟩ := cutWhere_parts hc
  refine ⟨List.forall_mem_singleton.2 fun p hp => ?_, hafter.trans (List.suffix_cons _ _)⟩
  obtain ⟨field, hfield, hread⟩ := exists_of_mem_mapM hfields hp
  have hsubset := splitFields_subset t.depth c.before field hfield
  exact Parameter.read_spec (hts.tail.of_subset (List.Subset.trans hsubset hbefore)) hread

theorem readEnum_spec {keyword : Token} {name : String}
    (h : readEnum keyword name ts = .ok (ms, rest)) :
    (∀ m ∈ ms, m.IsWritten) ∧ rest <:+ ts := by
  obtain ⟨t, more, c, rfl, -, hc, rfl, rfl⟩ := readEnum_eq_ok h
  exact ⟨by simp [IsWritten], (cutWhere_parts hc).2.trans (List.suffix_cons _ _)⟩

theorem readValueType_spec {keyword : Token} {name : String} (hts : Spelled ts)
    (h : readValueType keyword name ts = .ok (ms, rest)) :
    (∀ m ∈ ms, m.IsWritten) ∧ rest <:+ ts := by
  obtain ⟨t, more, c, underlying, rfl, -, hc, hunderlying, rfl, rfl⟩ := readValueType_eq_ok h
  obtain ⟨hbefore, hafter⟩ := cutWhere_parts hc
  refine ⟨List.forall_mem_singleton.2 ?_, hafter.trans (List.suffix_cons _ _)⟩
  exact (TypeRef.read_spec (hts.tail.of_subset hbefore) hunderlying).1

theorem splitStatement_suffix (depth : Nat) (ts : List Token) :
    (splitStatement depth ts).2 <:+ ts :=
  ⟨(splitStatement depth ts).1, splitStatement_append depth ts⟩

theorem skipStatement_suffix (ts : List Token) : skipStatement ts <:+ ts := by
  cases ts with
  | nil => exact List.suffix_rfl
  | cons t rest => exact splitStatement_suffix _ _

theorem contractKind_suffix {keyword : Token} {kind : ContractKind}
    (h : contractKind keyword ts = .ok (kind, rest)) : rest <:+ ts := by
  unfold contractKind at h
  repeat' split at h
  all_goals cases h
  all_goals first | exact List.suffix_rfl | exact List.suffix_cons _ _

theorem readContract_parts {keyword : Token} {head : ContractHead}
    (h : readContract keyword ts = .ok head) : head.body ⊆ ts ∧ head.after <:+ ts := by
  obtain ⟨kind, name, more, c, bases, hkind, -, hc, -, hbody⟩ := readContract_eq_ok h
  have hafter : c.after <:+ ts :=
    ((cutWhere_parts hc).2.trans (List.suffix_cons _ _)).trans (contractKind_suffix hkind)
  rcases hbody with ⟨-, rfl⟩ | ⟨body, hbody, rfl⟩
  · exact ⟨hafter.subset, List.nil_suffix⟩
  · obtain ⟨hbefore, hbehind⟩ := cutWhere_parts hbody
    exact ⟨List.Subset.trans hbefore hafter.subset, hbehind.trans hafter⟩

/-- What stands in front of a name announces a declaration only if the name is a word. -/
theorem isName_of_opensDeclaration {t name : Token} {more : List Token}
    {reader : Token → String → List Token → Reading} (hts : Spelled (name :: more))
    (hopens : opensDeclaration t (name :: more)) (hreader : namedReader? t.value = some reader) :
    isName name.value := by
  apply hts name List.mem_cons_self
  have hkeyword : t.value ∈ ["event", "error", "struct", "enum", "type", "modifier"] := by
    unfold namedReader? at hreader
    split at hreader <;> simp_all
  have hother : t.value ∉ ["fallback", "receive", "constructor"] := by
    simp only [List.mem_cons, List.not_mem_nil, or_false] at hkeyword
    rcases hkeyword with h | h | h | h | h | h <;> rw [h] <;> decide
  unfold opensDeclaration at hopens
  rw [if_neg hother, if_pos hkeyword, Bool.and_eq_true] at hopens
  exact of_decide_eq_true hopens.2

theorem read_spec {origin : Origin} {scope : Option ContractKind} {t : Token} (hts : Spelled ts)
    (hopens : opensDeclaration t ts) (h : read origin scope t ts = .ok (ms, rest)) :
    (∀ m ∈ ms, m.IsWritten) ∧ rest <:+ ts := by
  rw [read_eq] at h
  split at h
  · exact readPragma_spec h
  split at h
  · exact readImport_spec h
  split at h
  · rename_i reader name more hreader
    have hname := isName_of_opensDeclaration hts hopens hreader
    have hspec : (∀ m ∈ ms, m.IsWritten) ∧ rest <:+ more := by
      rcases namedReader?_cases hreader with rfl | rfl | rfl | rfl | rfl | rfl
      · exact readEvent_spec hname hts.tail h
      · exact readError_spec hname hts.tail h
      · exact readStruct_spec hts.tail h
      · exact readEnum_spec h
      · exact readValueType_spec hts.tail h
      · cases h
        exact ⟨by simp [IsWritten], skipStatement_suffix more⟩
    exact ⟨hspec.1, hspec.2.trans (List.suffix_cons _ _)⟩
  · exact readFunction_spec hts h

end Member

/-! ## Files -/

/-- What is picked from members that are written is written. -/
theorem Member.isWritten_of_mem_filterMap {α : Type} {pick : Member → Option α} {wrap : α → Member}
    (hpick : ∀ m d, pick m = some d → m = wrap d) {ms : List Member}
    (h : ∀ m ∈ ms, m.IsWritten) {d : α} (hd : d ∈ ms.filterMap pick) : (wrap d).IsWritten := by
  obtain ⟨m, hm, hd⟩ := List.mem_filterMap.1 hd
  rw [← hpick m d hd]
  exact h m hm

section Picks

variable {ms : List Member} (h : ∀ m ∈ ms, m.IsWritten)

include h

theorem isWritten_functions : ∀ d ∈ ms.filterMap Member.function?, (Member.function d).IsWritten :=
  fun _ => Member.isWritten_of_mem_filterMap (fun m _ hd => by cases m <;> cases hd; rfl) h

theorem isWritten_events : ∀ d ∈ ms.filterMap Member.event?, (Member.event d).IsWritten :=
  fun _ => Member.isWritten_of_mem_filterMap (fun m _ hd => by cases m <;> cases hd; rfl) h

theorem isWritten_errors : ∀ d ∈ ms.filterMap Member.error?, (Member.error d).IsWritten :=
  fun _ => Member.isWritten_of_mem_filterMap (fun m _ hd => by cases m <;> cases hd; rfl) h

theorem isWritten_structs : ∀ d ∈ ms.filterMap Member.struct?, (Member.struct d).IsWritten :=
  fun _ => Member.isWritten_of_mem_filterMap (fun m _ hd => by cases m <;> cases hd; rfl) h

theorem isWritten_valueTypes :
    ∀ d ∈ ms.filterMap Member.valueType?, (Member.valueType d).IsWritten :=
  fun _ => Member.isWritten_of_mem_filterMap (fun m _ hd => by cases m <;> cases hd; rfl) h

theorem isWritten_contracts : ∀ d ∈ ms.filterMap Member.contract?, (Member.contract d).IsWritten :=
  fun _ => Member.isWritten_of_mem_filterMap (fun m _ hd => by cases m <;> cases hd; rfl) h

theorem ContractDecl.isWritten_ofMembers (keyword : Token) (head : Member.ContractHead) :
    (ofMembers keyword head ms).IsWritten where
  functions := isWritten_functions h
  events := isWritten_events h
  errors := isWritten_errors h
  structs := isWritten_structs h
  valueTypes := isWritten_valueTypes h

end Picks

/-- A turn records what is written, if this is what a walk finds in the body of a contract. -/
theorem turn_isWritten (origin : Origin) (scope : Option ContractKind) {t : Token}
    {rest : List Token} (hts : Spelled (t :: rest))
    (hbody : ∀ head, Member.readContract t rest = .ok head →
      ∀ m ∈ walk origin (some head.kind) head.body, m.IsWritten) :
    (∀ m ∈ (turn origin scope t rest).1, m.IsWritten) ∧ Spelled (turn origin scope t rest).2 := by
  have hturn := turns_turn origin scope t rest
  generalize turn origin scope t rest = made at hturn ⊢
  cases hturn with
  | mark => exact ⟨List.forall_mem_nil _, hts.tail⟩
  | malformed =>
    exact ⟨List.forall_mem_singleton.2 trivial,
      hts.tail.of_suffix (Member.skipStatement_suffix rest)⟩
  | @contract head _ _ read =>
    obtain ⟨-, hafter⟩ := Member.readContract_parts read
    refine ⟨List.forall_mem_append.2 ⟨List.forall_mem_append.2 ⟨?_, ?_⟩, ?_⟩,
      hts.tail.of_suffix hafter⟩
    · unfold Member.unclosedBody
      split
      · simp
      · simp [Origin.report, Member.IsWritten]
    · intro m hm
      obtain ⟨d, -, rfl⟩ := List.mem_map.1 hm
      trivial
    · exact List.forall_mem_singleton.2 (ContractDecl.isWritten_ofMembers (hbody head read) t head)
  | declaration _ opens read =>
    obtain ⟨hmembers, hafter⟩ := Member.read_spec hts.tail opens read
    exact ⟨hmembers, hts.tail.of_suffix hafter⟩
  | statement =>
    -- a constant has no type to look at
    refine ⟨fun m hm => ?_, hts.of_suffix (Member.splitStatement_suffix _ _)⟩
    obtain ⟨d, -, rfl⟩ := Option.map_eq_some_iff.1 (Option.mem_toList.1 hm)
    trivial

/-- The members of a scope have names and types that are written in it. -/
theorem walk_isWritten (origin : Origin) (scope : Option ContractKind) {ts : List Token}
    (hts : Spelled ts) : ∀ m ∈ walk origin scope ts, m.IsWritten := by
  induction scope, ts using walk_induction origin with
  | nil scope =>
    rw [walk]
    exact List.forall_mem_nil _
  | cons scope t rest hbody hrest =>
    obtain ⟨hrecords, hspelled⟩ := turn_isWritten origin scope hts fun head hread =>
      hbody head hread (hts.tail.of_subset (Member.readContract_parts hread).1)
    rw [walk_eq_turn]
    exact List.forall_mem_append.2 ⟨hrecords, hrest hspelled⟩

/-- The names and the types of a file are written in it. -/
structure SourceUnit.IsWritten (unit : SourceUnit) : Prop where
  contracts : ∀ c ∈ unit.contracts, c.IsWritten
  events : ∀ d ∈ unit.events, IsSignature d.name d.parameters
  errors : ∀ d ∈ unit.errors, IsSignature d.name d.parameters
  structs : ∀ d ∈ unit.structs, ∀ p ∈ d.fields, p.type.IsWritten
  valueTypes : ∀ d ∈ unit.valueTypes, d.underlying.IsWritten

theorem SourceUnit.isWritten_of_extractAs {category : Category} {text : List Char} {path : String}
    {unit : SourceUnit} (h : extractAs category text path = .ok unit) : unit.IsWritten := by
  obtain ⟨ts, hts, rfl⟩ := extractAs_eq_ok_iff.1 h
  have hmembers := walk_isWritten ⟨path, text⟩ none (spelled_of_tokenize hts)
  exact {
    contracts := isWritten_contracts hmembers
    events := isWritten_events hmembers
    errors := isWritten_errors hmembers
    structs := isWritten_structs hmembers
    valueTypes := isWritten_valueTypes hmembers }

end AbiIndex.Source
