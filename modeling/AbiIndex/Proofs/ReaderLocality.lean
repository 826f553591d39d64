import AbiIndex.Proofs.ScopeWalk

/-!
# Readers and the end of a statement

A reader stops at the end of the statement that it reads. If that end is in view, then nothing
changes with what stands behind it: the reader says the same, and leaves more.

## Key results

- `showsEnd`: the end of the statement at the front of a sequence is in view
- `Local`: a reader does not look behind that end
- `readFunction_local` and the like, `readContract_append`: the readers of declarations are local
- `readDirective_append`: a directive is read up to its `;`
-/

namespace AbiIndex.Source

/-! ## The end of a statement in view -/

/-- Whether the end of the statement at the front of a sequence is in view. A block has to be closed
for that. -/
def showsEnd : List Token → Bool
  | [] => false
  | t :: rest =>
    if t.isMark blockOpen then (closeBrace t rest).isSome else t.endsStatement || showsEnd rest

theorem exists_of_showsEnd {ts : List Token} (h : showsEnd ts) : ∃ t ∈ ts, t.endsStatement := by
  induction ts with
  | nil => cases h
  | cons t rest ih =>
    rw [showsEnd] at h
    split at h
    · exact ⟨t, List.mem_cons_self, Token.endsStatement_iff.2 (.inl ‹_›)⟩
    · rcases Bool.or_eq_true_iff.1 h with ht | hrest
      · exact ⟨t, List.mem_cons_self, ht⟩
      · obtain ⟨u, hu, hends⟩ := ih hrest
        exact ⟨u, List.mem_cons_of_mem t hu, hends⟩

/-- The end stays in view further on in the statement. -/
theorem showsEnd_of_onward {ts rest : List Token} (h : Onward ts rest) :
    showsEnd ts = showsEnd rest := by
  obtain ⟨taken, htaken, rfl⟩ := h
  induction taken with
  | nil => rfl
  | cons t taken ih =>
    obtain ⟨ht, htaken⟩ := List.forall_mem_cons.1 htaken
    have hopen : t.isMark blockOpen = false := by
      rw [Bool.eq_false_iff] at ht ⊢
      exact fun h => ht (Token.endsStatement_iff.2 (.inl h))
    simp [showsEnd, hopen, ht, ih htaken]

/-- A cut does not look behind the first token that it can stop at. -/
theorem cutWhere_append_right {hit stop : Token → Bool} {ts : List Token}
    (h : ∃ t ∈ ts, hit t || stop t) (tail : List Token) :
    cutWhere hit stop (ts ++ tail) =
      (cutWhere hit stop ts).map fun c => { c with after := c.after ++ tail } := by
  induction ts with
  | nil => simp at h
  | cons t ts ih =>
    simp only [List.cons_append, cutWhere]
    split
    · rfl
    split
    · rfl
    · rename_i hhit hstop
      have hts : ∃ t ∈ ts, hit t || stop t := by
        obtain ⟨u, hu, hends⟩ := h
        rcases List.mem_cons.1 hu with rfl | hu
        · simp [hhit, hstop] at hends
        · exact ⟨u, hu, hends⟩
      rw [ih hts, Option.map_map, Option.map_map]
      rfl

/-- A cut that nothing stops and that fails, fails as well if tokens are taken out. -/
theorem cutWhere_eq_none_of_subset {hit stop : Token → Bool} (hstop : ∀ t, stop t = false)
    {ts ts' : List Token} (h : cutWhere hit stop ts = none) (hsub : ts' ⊆ ts) :
    cutWhere hit stop ts' = none :=
  (cutWhere_eq_none_iff hstop).2 fun t ht => (cutWhere_eq_none_iff hstop).1 h t (hsub ht)

/-- A cut stays where it is if something changes behind it. -/
theorem cutWhere_replace {hit stop : Token → Bool} {ts : List Token} {c : Cut}
    (h : cutWhere hit stop ts = some c) (after : List Token) :
    cutWhere hit stop (c.before ++ c.hit :: after) = some { c with after := after } := by
  obtain ⟨hbefore, hhit⟩ := cutWhere_before h
  exact cutWhere_append hbefore hhit

section Readers

variable {ts : List Token} (tail : List Token)

/-- The reading with more tokens behind what is left. -/
def extend {α : Type} (reading : Except Malformed (α × List Token)) :
    Except Malformed (α × List Token) :=
  reading.map fun found => (found.1, found.2 ++ tail)

theorem closeParenInStatement_append (h : showsEnd ts) (opening : Token) :
    closeParenInStatement opening (ts ++ tail) =
      (closeParenInStatement opening ts).map fun c => { c with after := c.after ++ tail } := by
  obtain ⟨t, ht, hends⟩ := exists_of_showsEnd h
  exact cutWhere_append_right ⟨t, ht, Bool.or_eq_true_iff.2 (.inr hends)⟩ tail

theorem closeBrace_append {opening : Token} (h : (closeBrace opening ts).isSome) :
    closeBrace opening (ts ++ tail) =
      (closeBrace opening ts).map fun c => { c with after := c.after ++ tail } := by
  obtain ⟨c, hc⟩ := Option.isSome_iff_exists.1 h
  have hhit := (cutWhere_before hc).2
  refine cutWhere_append_right ⟨c.hit, ?_, Bool.or_eq_true_iff.2 (.inl hhit)⟩ tail
  rw [cutWhere_eq hc]
  simp

theorem readDotted_append (h : showsEnd ts) :
    readDotted (ts ++ tail) = ((readDotted ts).1, (readDotted ts).2 ++ tail) := by
  fun_induction readDotted ts with
  | case1 dot name rest hdot ih =>
    have honward : Onward (dot :: name :: rest) rest :=
      .cons (Token.endsStatement_eq_false_of_isMark hdot.1 (by decide))
        (.cons (Token.endsStatement_eq_false_of_word hdot.2) (.refl _))
    rw [showsEnd_of_onward honward] at h
    simp [readDotted, hdot, ih h]
  | case2 dot name rest hdot => simp [readDotted, hdot]
  | case3 ts hshort =>
    cases ts with
    | nil => cases h
    | cons t rest =>
      cases rest with
      | cons name rest => exact absurd rfl (hshort t name rest)
      | nil =>
        -- a single token in which the end is in view is no point
        have hends : t.isMark blockOpen = false ∧ t.endsStatement := by
          simpa [showsEnd, closeBrace, cutWhere] using h
        have hdot : t.isMark "." = false := by
          rw [Bool.eq_false_iff]
          intro hdot
          rw [Token.endsStatement_eq_false_of_isMark hdot (by decide)] at hends
          cases hends.2
        cases tail with
        | nil => rfl
        | cons name tail => simp [readDotted, hdot]

variable {tail}

theorem extend_ok {α : Type} {reading : Except Malformed (α × List Token)} {a : α}
    (seen : List Token) (h : extend tail reading = .ok (a, seen ++ tail)) (tail' : List Token) :
    extend tail' reading = .ok (a, seen ++ tail') := by
  cases reading with
  | error e => cases h
  | ok found =>
    simp only [extend, Except.map, Except.ok.injEq, Prod.mk.injEq, List.append_cancel_right_eq]
      at h ⊢
    exact h

theorem extend_error {α : Type} {reading : Except Malformed (α × List Token)} {e : Malformed}
    (h : extend tail reading = .error e) (tail' : List Token) :
    extend tail' reading = .error e := by
  cases reading with
  | error e' => exact h
  | ok found => cases h

/-- What a reader says does not depend on what stands behind the end of its statement. -/
def Local {α : Type} (reader : List Token → Except Malformed (α × List Token)) : Prop :=
  ∀ ts tail, showsEnd ts → reader (ts ++ tail) = extend tail (reader ts)

end Readers

theorem ne_nil_of_showsEnd {ts : List Token} (h : showsEnd ts) : ts ≠ [] := by
  rintro rfl
  cases h

/-- Behind a token that does not end the statement the end is still in view. -/
theorem showsEnd_tail {t : Token} {ts : List Token} (ht : t.endsStatement = false)
    (h : showsEnd (t :: ts)) : showsEnd ts := by
  rwa [showsEnd_of_onward (.cons ht (.refl ts))] at h

theorem Parameter.readParenthesised_local (allowIndexed : Bool) (within : String) :
    Local (readParenthesised allowIndexed within) := by
  intro ts tail h
  cases ts with
  | nil => cases h
  | cons t rest =>
    rw [List.cons_append, readParenthesised, readParenthesised]
    split
    · rename_i hopen
      have hrest := showsEnd_tail (Token.endsStatement_eq_false_of_isMark hopen (by decide)) h
      rw [closeParenInStatement_append tail hrest]
      cases closeParenInStatement t rest with
      | none => rfl
      | some c => dsimp only [Option.map]; cases readList allowIndexed c.before <;> rfl
    · rfl

namespace Specifier

theorem skipParens_append {ts : List Token} (h : showsEnd ts) (tail : List Token) :
    skipParens (ts ++ tail) = (skipParens ts).map (· ++ tail) := by
  cases ts with
  | nil => cases h
  | cons t rest =>
    rw [List.cons_append, skipParens, skipParens]
    split
    · rename_i hopen
      have hrest := showsEnd_tail (Token.endsStatement_eq_false_of_isMark hopen (by decide)) h
      rw [closeParenInStatement_append tail hrest]
      cases closeParenInStatement t rest <;> rfl
    · rfl

theorem readReturns_local (function : String) : Local (readReturns function) := by
  intro ts tail h
  cases ts with
  | nil => cases h
  | cons t rest =>
    rw [List.cons_append, readReturns, readReturns]
    split
    · rename_i hopen
      have hrest := showsEnd_tail (Token.endsStatement_eq_false_of_isMark hopen (by decide)) h
      rw [closeParenInStatement_append tail hrest]
      cases closeParenInStatement t rest with
      | none => rfl
      | some c => dsimp only [Option.map]; cases Parameter.readList false c.before <;> rfl
    · rfl

theorem readModifier_local (first : String) : Local (readModifier first) := by
  intro ts tail h
  have hrest : showsEnd (readDotted ts).2 := by rwa [← showsEnd_of_onward (readDotted_onward ts)]
  unfold readModifier
  rw [readDotted_append tail h, skipParens_append hrest]
  cases skipParens (readDotted ts).2 <;> rfl

theorem read_append (function : String) {t : Token} {ts : List Token} (h : showsEnd (t :: ts))
    (tail : List Token) : read function t (ts ++ tail) = extend tail (read function t ts) := by
  unfold read
  split
  · rfl
  rename_i hkind
  have hrest := showsEnd_tail (Token.endsStatement_eq_false_of_word (not_not.1 hkind)) h
  split
  · rfl
  · rfl
  split
  · rfl
  · rw [skipParens_append hrest]
    cases skipParens ts <;> rfl
  · exact readReturns_local function ts tail hrest
  · exact readModifier_local _ ts tail hrest

theorem readAll_append (function : String) {ts : List Token} (h : showsEnd ts)
    (tail : List Token) : readAll function (ts ++ tail) =
      (readAll function ts).map fun found => (found.1, found.2.1, found.2.2 ++ tail) := by
  induction hn : ts.length using Nat.strongRecOn generalizing ts with
  | ind n ih =>
    cases ts with
    | nil => cases h
    | cons t rest =>
      rw [List.cons_append, readAll_step, readAll_step, read_append function h tail]
      split
      · rfl
      cases hread : read function t rest with
      | error e => rfl
      | ok found =>
        obtain ⟨s, more⟩ := found
        have hlen : more.length < n := by
          have := read_length hread
          simp only [List.length_cons] at hn
          omega
        have hmore : showsEnd more := by rwa [← showsEnd_of_onward (read_onward hread)]
        dsimp only [extend, Except.map]
        rw [ih _ hlen hmore rfl]
        cases readAll function more <;> rfl

end Specifier

namespace Member

theorem functionName_append {keyword : Token} {ts : List Token} (h : ts ≠ [])
    (tail : List Token) : functionName keyword (ts ++ tail) =
      ((functionName keyword ts).1, (functionName keyword ts).2.1,
        (functionName keyword ts).2.2 ++ tail) := by
  cases ts with
  | nil => exact absurd rfl h
  | cons t rest =>
    unfold functionName
    split
    · rfl
    · rfl
    · rfl
    · simp only [List.cons_append]
      split <;> rfl

theorem readFunction_local (origin : Origin) (scope : Option ContractKind) (keyword : Token) :
    Local (readFunction origin scope keyword) := by
  intro ts tail h
  have hname := showsEnd_of_onward (functionName_onward keyword ts)
  unfold readFunction
  rw [functionName_append (ne_nil_of_showsEnd h)]
  rw [h] at hname
  generalize functionName keyword ts = named at hname ⊢
  obtain ⟨name, kind, rest⟩ := named
  dsimp only at hname ⊢
  rw [Parameter.readParenthesised_local _ _ _ tail hname.symm]
  cases hparams : Parameter.readParenthesised false s!"function {name}" rest with
  | error e => rfl
  | ok found =>
    obtain ⟨parameters, rest⟩ := found
    rw [showsEnd_of_onward (Parameter.readParenthesised_onward hparams)] at hname
    dsimp only [extend, Except.map]
    rw [Specifier.readAll_append name hname.symm tail]
    cases hspec : Specifier.readAll name rest with
    | error e => rfl
    | ok found =>
      obtain ⟨specifiers, ending, rest⟩ := found
      rw [showsEnd_of_onward (Specifier.readAll_onward hspec).1] at hname
      dsimp only [Except.map]
      split
      -- the body is closed in view
      · rename_i hopen
        rw [showsEnd, if_pos hopen] at hname
        rw [closeBrace_append tail hname.symm]
        cases closeBrace ending rest <;> rfl
      · split <;> rfl

theorem readEvent_local (keyword : Token) (name : String) : Local (readEvent keyword name) := by
  intro ts tail h
  unfold readEvent
  rw [Parameter.readParenthesised_local _ _ _ tail h]
  cases hparams : Parameter.readParenthesised true s!"event {name}" ts with
  | error e => rfl
  | ok found =>
    obtain ⟨parameters, rest⟩ := found
    rw [showsEnd_of_onward (Parameter.readParenthesised_onward hparams)] at h
    cases rest with
    | nil => cases h
    | cons t rest =>
      dsimp only [extend, Except.map]
      cases hanonymous : t.isWord "anonymous" with
      | true =>
        have hword : t.kind = .word := by
          simp only [Token.isWord, Bool.and_eq_true, decide_eq_true_eq] at hanonymous
          exact hanonymous.1
        have hrest := showsEnd_tail (Token.endsStatement_eq_false_of_word hword) h
        cases rest with
        | nil => cases hrest
        | cons u rest =>
          simp only [List.cons_append, List.head?_cons, Option.map_some, Option.getD_some,
            hanonymous, if_true, List.drop_succ_cons, List.drop_zero]
          split <;> rfl
      | false =>
        simp only [List.cons_append, List.head?_cons, Option.map_some, Option.getD_some,
          hanonymous, Bool.false_eq_true, if_false]
        split <;> rfl

theorem readError_local (keyword : Token) (name : String) : Local (readError keyword name) := by
  intro ts tail h
  unfold readError
  rw [Parameter.readParenthesised_local _ _ _ tail h]
  cases hparams : Parameter.readParenthesised false s!"error {name}" ts with
  | error e => rfl
  | ok found =>
    obtain ⟨parameters, rest⟩ := found
    rw [showsEnd_of_onward (Parameter.readParenthesised_onward hparams)] at h
    cases rest with
    | nil => cases h
    | cons t rest =>
      dsimp only [extend, Except.map, List.cons_append]
      split <;> rfl

theorem readStruct_local (keyword : Token) (name : String) : Local (readStruct keyword name) := by
  intro ts tail h
  cases ts with
  | nil => cases h
  | cons t rest =>
    rw [List.cons_append, readStruct, readStruct]
    split
    · rename_i hopen
      rw [showsEnd, if_pos hopen] at h
      rw [closeBrace_append tail h]
      cases closeBrace t rest with
      | none => rfl
      | some c =>
        dsimp only [Option.map]
        cases (splitFields t.depth c.before).1.mapM (Parameter.read false s!"struct {name}") with
        | error e => rfl
        | ok fields => dsimp only; split <;> rfl
    · rfl

theorem readEnum_local (keyword : Token) (name : String) : Local (readEnum keyword name) := by
  intro ts tail h
  cases ts with
  | nil => cases h
  | cons t rest =>
    rw [List.cons_append, readEnum, readEnum]
    split
    · rename_i hopen
      rw [showsEnd, if_pos hopen] at h
      rw [closeBrace_append tail h]
      cases closeBrace t rest <;> rfl
    · rfl

/-- A cut at one of the marks that end a statement does not look further if it stops at all of
them. -/
theorem cutAtMark_append {value : String} {stops : List String} {ts : List Token}
    (hall : ∀ v ∈ statementEnds, v = value ∨ v ∈ stops) (h : showsEnd ts) (tail : List Token) :
    cutAtMark value stops (ts ++ tail) =
      (cutAtMark value stops ts).map fun c => { c with after := c.after ++ tail } := by
  obtain ⟨t, ht, hends⟩ := exists_of_showsEnd h
  refine cutWhere_append_right ⟨t, ht, ?_⟩ tail
  simp only [Token.endsStatement, Bool.and_eq_true, decide_eq_true_eq] at hends
  simpa [Token.isMark, hends.1] using hall _ hends.2

theorem readValueType_local (keyword : Token) (name : String) :
    Local (readValueType keyword name) := by
  intro ts tail h
  cases ts with
  | nil => cases h
  | cons t rest =>
    rw [List.cons_append, readValueType, readValueType]
    split
    · rename_i his
      have hword : t.kind = .word := by
        simp only [Token.isWord, Bool.and_eq_true, decide_eq_true_eq] at his
        exact his.1
      have hrest := showsEnd_tail (Token.endsStatement_eq_false_of_word hword) h
      rw [cutAtMark_append (by decide) hrest]
      cases cutAtMark ";" [blockOpen, blockClose] rest with
      | none => rfl
      | some c =>
        dsimp only [Option.map]
        cases TypeRef.read s!"type {name}" c.before with
        | error e => rfl
        | ok found =>
          obtain ⟨type, more⟩ := found
          cases more <;> rfl
    · rfl

theorem contractKind_append {keyword : Token} {ts : List Token} (h : ts ≠ [])
    (tail : List Token) : contractKind keyword (ts ++ tail) =
      extend tail (contractKind keyword ts) := by
  cases ts with
  | nil => exact absurd rfl h
  | cons t rest =>
    unfold contractKind
    split
    · rfl
    · rfl
    · simp only [List.cons_append]
      split <;> rfl
    · rfl

theorem readContract_append {keyword : Token} {ts : List Token} (h : showsEnd ts)
    (tail : List Token) : readContract keyword (ts ++ tail) =
      (readContract keyword ts).map fun head => { head with after := head.after ++ tail } := by
  unfold readContract
  rw [contractKind_append (ne_nil_of_showsEnd h)]
  cases hkind : contractKind keyword ts with
  | error e => rfl
  | ok found =>
    obtain ⟨kind, rest⟩ := found
    rw [showsEnd_of_onward (contractKind_onward hkind)] at h
    cases rest with
    | nil => cases h
    | cons name rest =>
      dsimp only [extend, Except.map, List.cons_append]
      rw [readContractOf, readContractOf]
      split
      · rename_i hname
        have hrest := showsEnd_tail (Token.endsStatement_eq_false_of_word hname) h
        rw [cutAtMark_append (by decide) hrest]
        cases hcut : cutAtMark blockOpen [";", blockClose] rest with
        | none => rfl
        | some c =>
          -- the body is closed in view
          obtain ⟨honward, hopen⟩ := cutAtMark_onward (by decide) hcut
          rw [showsEnd_of_onward honward, showsEnd, if_pos hopen] at hrest
          dsimp only [Option.map]
          cases readInheritance c.before with
          | error e => rfl
          | ok bases =>
            dsimp only
            rw [closeBrace_append tail hrest]
            obtain ⟨body, hbody⟩ := Option.isSome_iff_exists.1 hrest
            rw [hbody]
            rfl
      · rfl

section Directives

variable {origin : Origin} {scope : Option ContractKind} {t : Token}

/-- A declaration other than a directive or a modifier is read up to the end of its statement. -/
theorem read_append {ts : List Token} (hopens : opensDeclaration t ts)
    (hdirective : isDirective t.value = false) (hmodifier : t.value ≠ "modifier")
    (h : showsEnd ts) (tail : List Token) :
    read origin scope t (ts ++ tail) = extend tail (read origin scope t ts) := by
  have hwords : t.value ≠ "pragma" ∧ t.value ≠ "import" := by simpa [isDirective] using hdirective
  simp only [read_eq, if_neg hwords.1, if_neg hwords.2]
  cases hreader : namedReader? t.value with
  | none => exact readFunction_local origin scope t ts tail h
  | some reader =>
    obtain ⟨name, more, rfl, hname⟩ := exists_name_of_namedReader? hopens hreader
    have hmore := showsEnd_tail (Token.endsStatement_eq_false_of_word hname) h
    dsimp only [List.cons_append]
    have hlocal : Local (reader t name.value) := by
      unfold namedReader? at hreader
      split at hreader
      · cases hreader
        exact readEvent_local _ _
      · cases hreader
        exact readError_local _ _
      · cases hreader
        exact readStruct_local _ _
      · cases hreader
        exact readEnum_local _ _
      · cases hreader
        exact readValueType_local _ _
      · exact absurd ‹_› hmodifier
      · cases hreader
    exact hlocal more tail hmore

/-- A directive is read up to its `;`. -/
theorem readDirective_append {ts : List Token} (hdirective : isDirective t.value)
    (h : ∃ u ∈ ts, u.isMark ";") (tail : List Token) :
    read origin scope t (ts ++ tail) = extend tail (read origin scope t ts) := by
  have hcut : cutAtMark ";" [] (ts ++ tail) =
      (cutAtMark ";" [] ts).map fun c => { c with after := c.after ++ tail } := by
    obtain ⟨u, hu, hend⟩ := h
    exact cutWhere_append_right ⟨u, hu, Bool.or_eq_true_iff.2 (.inl hend)⟩ tail
  simp only [read_eq]
  split
  · rw [readPragma, readPragma, hcut]
    cases cutAtMark ";" [] ts with
    | none => rfl
    | some c =>
      dsimp only [Option.map]
      cases c.before with
      | nil => rfl
      | cons word version =>
        dsimp only
        split
        · split <;> rfl
        · rfl
  · rename_i hpragma
    have himport : t.value = "import" := by simpa [isDirective, hpragma] using hdirective
    rw [if_pos himport, if_pos himport, readImport, readImport, hcut]
    cases cutAtMark ";" [] ts with
    | none => rfl
    | some c =>
      dsimp only [Option.map]
      split <;> rfl

end Directives

end Member

end AbiIndex.Source
