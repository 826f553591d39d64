import AbiIndex.Proofs.Delimiting
import AbiIndex.Proofs.Provenance

/-!
# A walk turn by turn

A walk through a scope makes one turn after the other. Each turn starts at a token, records what it
finds there, and goes on behind it; a contract is entered before the walk goes on behind it. This
module says where turns end: a declaration, whether it can be read or not, ends where its statement
ends. Only directives look for their `;` by themselves.

## Key results

- `Comes`: the places that the walk through a file comes to, also inside its contracts
- `exists_place_of_mem_walk`: everything that a walk finds is recorded in one of its turns
- `read_after`, `readContract_after`: a declaration ends where its statement ends
-/

namespace AbiIndex.Source

/-! ## Within a statement -/

/-- The rest stands further on in the same statement. -/
def Onward (ts rest : List Token) : Prop :=
  ∃ taken, (∀ t ∈ taken, t.endsStatement = false) ∧ ts = taken ++ rest

namespace Onward

variable {ts mid rest : List Token} {t : Token}

theorem refl (ts : List Token) : Onward ts ts := ⟨[], by simp, rfl⟩

theorem cons (ht : t.endsStatement = false) (h : Onward ts rest) : Onward (t :: ts) rest := by
  obtain ⟨taken, htaken, rfl⟩ := h
  exact ⟨t :: taken, List.forall_mem_cons.2 ⟨ht, htaken⟩, rfl⟩

theorem trans (h : Onward ts mid) (h' : Onward mid rest) : Onward ts rest := by
  obtain ⟨taken, htaken, rfl⟩ := h
  obtain ⟨taken', htaken', rfl⟩ := h'
  refine ⟨taken ++ taken', fun t ht => ?_, by simp⟩
  exact (List.mem_append.1 ht).elim (htaken t) (htaken' t)

end Onward

/-- Nothing in front of a cut stops it or is a hit. -/
theorem cutWhere_before {hit stop : Token → Bool} {ts : List Token} {c : Cut}
    (h : cutWhere hit stop ts = some c) :
    (∀ t ∈ c.before, hit t = false ∧ stop t = false) ∧ hit c.hit := by
  induction ts generalizing c with
  | nil => cases h
  | cons t ts ih =>
    simp only [cutWhere] at h
    split at h
    · cases h
      exact ⟨by simp, ‹_›⟩
    split at h
    · cases h
    · obtain ⟨c', hc', rfl⟩ := Option.map_eq_some_iff.1 h
      obtain ⟨hbefore, hhit⟩ := ih hc'
      exact ⟨List.forall_mem_cons.2 ⟨by simp_all, hbefore⟩, hhit⟩

/-- A cut that nothing stops fails only if there is no hit. -/
theorem cutWhere_eq_none_iff {hit stop : Token → Bool} (hstop : ∀ t, stop t = false)
    {ts : List Token} : cutWhere hit stop ts = none ↔ ∀ t ∈ ts, hit t = false := by
  induction ts with
  | nil => simp [cutWhere]
  | cons t ts ih =>
    rw [cutWhere, List.forall_mem_cons, ← ih]
    cases hit t <;> simp [hstop]

/-- A parenthesis in a statement is closed in the same statement. -/
theorem closeParenInStatement_onward {opening : Token} {ts : List Token} {c : Cut}
    (h : closeParenInStatement opening ts = some c) : Onward ts c.after := by
  obtain ⟨hbefore, hhit⟩ := cutWhere_before h
  rw [cutWhere_eq h]
  refine ⟨c.before ++ [c.hit], fun t ht => ?_, by simp⟩
  rcases List.mem_append.1 ht with ht | ht
  · exact (hbefore t ht).2
  · rw [List.mem_singleton.1 ht]
    exact Token.endsStatement_eq_false_of_isMark (Bool.and_eq_true_iff.1 hhit).1 (by decide)

theorem readDotted_onward (ts : List Token) : Onward ts (readDotted ts).2 := by
  fun_induction readDotted ts with
  | case1 dot name rest h ih =>
    exact .cons (Token.endsStatement_eq_false_of_isMark h.1 (by decide))
      (.cons (Token.endsStatement_eq_false_of_word h.2) ih)
  | case2 => exact .refl _
  | case3 => exact .refl _

theorem Parameter.readParenthesised_onward {allowIndexed : Bool} {within : String}
    {ts rest : List Token} {ps : List Parameter}
    (h : readParenthesised allowIndexed within ts = .ok (ps, rest)) : Onward ts rest := by
  obtain ⟨t, more, c, rfl, hopen, hc, -, rfl⟩ := readParenthesised_eq_ok h
  exact .cons (Token.endsStatement_eq_false_of_isMark hopen (by decide))
    (closeParenInStatement_onward hc)

namespace Specifier

theorem skipParens_onward {ts rest : List Token} (h : skipParens ts = some rest) :
    Onward ts rest := by
  rcases skipParens_eq_some h with rfl | ⟨t, more, c, rfl, hopen, hc, rfl⟩
  · exact .refl _
  · exact .cons (Token.endsStatement_eq_false_of_isMark hopen (by decide))
      (closeParenInStatement_onward hc)

theorem readReturns_onward {function : String} {ts rest : List Token} {s : Specifier}
    (h : readReturns function ts = .ok (s, rest)) : Onward ts rest := by
  obtain ⟨t, more, c, values, rfl, hopen, hc, -, -, rfl⟩ := readReturns_eq_ok h
  exact .cons (Token.endsStatement_eq_false_of_isMark hopen (by decide))
    (closeParenInStatement_onward hc)

theorem readModifier_onward {first : String} {ts rest : List Token} {s : Specifier}
    (h : readModifier first ts = .ok (s, rest)) : Onward ts rest :=
  (readDotted_onward ts).trans (skipParens_onward (readModifier_eq_ok h).2)

theorem read_onward {function : String} {t : Token} {ts rest : List Token} {s : Specifier}
    (h : read function t ts = .ok (s, rest)) : Onward (t :: ts) rest := by
  obtain ⟨hkind, hrest⟩ := read_eq_ok h
  apply Onward.cons (Token.endsStatement_eq_false_of_word hkind)
  rcases hrest with rfl | hparens | hreturns | hmodifier
  · exact .refl _
  · exact skipParens_onward hparens
  · exact readReturns_onward hreturns
  · exact readModifier_onward hmodifier

/-- A header ends at the first token that ends a statement. -/
theorem readAll_onward {function : String} {ts rest : List Token} {ending : Token}
    {specifiers : List Specifier} (h : readAll function ts = .ok (specifiers, ending, rest)) :
    Onward ts (ending :: rest) ∧ (ending.isMark blockOpen ∨ ending.isMark ";") := by
  fun_induction readAll function ts generalizing specifiers with
  | case1 => cases h
  | case2 t more hend =>
    cases h
    exact ⟨.refl _, hend⟩
  | case3 => cases h
  | case4 => cases h
  | case5 t more _ s after hs specifiers' ending' rest' hall ih =>
    cases h
    obtain ⟨honward, hend⟩ := ih hall
    exact ⟨(read_onward hs).trans honward, hend⟩

end Specifier

/-! ## Where declarations end -/

namespace Member

/-- On the way to the end of a statement its depth does not matter, nor where it started. -/
theorem splitStatement_of_onward {ts rest : List Token} (h : Onward ts rest) (depth : Nat) :
    (splitStatement depth ts).2 = (splitStatement depth rest).2 := by
  obtain ⟨taken, htaken, rfl⟩ := h
  induction taken with
  | nil => rfl
  | cons t taken ih =>
    obtain ⟨ht, htaken⟩ := List.forall_mem_cons.1 htaken
    have hmarks : t.isMark blockOpen = false ∧ t.isMark blockClose = false ∧
        t.isMark ";" = false := by
      simpa [Token.endsStatement_iff] using Bool.eq_false_iff.1 ht
    rw [List.cons_append, splitStatement]
    simp [hmarks, ih htaken]

/-- What stands behind a `;` or behind the block that a token opens. -/
theorem splitStatement_semicolon {t : Token} (h : t.isMark ";") (depth : Nat) (rest : List Token) :
    (splitStatement depth (t :: rest)).2 = rest := by
  have hclose : t.isMark blockClose = false := Token.isMark_eq_false_of_ne h (by decide)
  simp [splitStatement, h, hclose]

theorem splitStatement_block {t : Token} (h : t.isMark blockOpen) (depth : Nat)
    (rest : List Token) : (splitStatement depth (t :: rest)).2 =
      match closeBrace t rest with
      | none => []
      | some c => c.after := by
  have hclose : t.isMark blockClose = false := Token.isMark_eq_false_of_ne h (by decide)
  have hend : t.isMark ";" = false := Token.isMark_eq_false_of_ne h (by decide)
  rw [splitStatement]
  simp only [hclose, hend, h]
  cases closeBrace t rest <;> rfl

theorem skipStatement_of_onward {ts rest : List Token} (h : Onward ts rest) :
    ∃ depth, skipStatement ts = (splitStatement depth rest).2 := by
  cases ts with
  | nil =>
    obtain ⟨taken, -, heq⟩ := h
    rw [(List.append_eq_nil_iff.1 heq.symm).2]
    exact ⟨0, rfl⟩
  | cons t ts => exact ⟨t.depth, splitStatement_of_onward h t.depth⟩

theorem functionName_onward (keyword : Token) (ts : List Token) :
    Onward ts (functionName keyword ts).2.2 := by
  unfold functionName
  split
  · exact .refl _
  · exact .refl _
  · exact .refl _
  · split
    · split
      · rename_i hkind
        exact .cons (Token.endsStatement_eq_false_of_word hkind) (.refl _)
      · exact .refl _
    · exact .refl _

theorem readFunction_after {origin : Origin} {scope : Option ContractKind} {keyword : Token}
    {ts after : List Token} {ms : List Member}
    (h : readFunction origin scope keyword ts = .ok (ms, after)) : after = skipStatement ts := by
  obtain ⟨parameters, header, specifiers, ending, behind, hparameters, hspecifiers, -, hend⟩ :=
    readFunction_eq_ok h
  obtain ⟨hheader, hending⟩ := Specifier.readAll_onward hspecifiers
  have honward := ((functionName_onward keyword ts).trans
    (Parameter.readParenthesised_onward hparameters)).trans hheader
  obtain ⟨depth, hskip⟩ := skipStatement_of_onward honward
  rw [hskip]
  rcases hend with ⟨hopen, c, hc, rfl⟩ | ⟨hopen, rfl⟩
  · rw [splitStatement_block hopen, hc]
  · rw [splitStatement_semicolon (hending.resolve_left hopen)]

/-- What is left of a named declaration does not depend on whether the end is looked for from its
name or from behind it. -/
theorem readEvent_after {keyword : Token} {name : String} {ts after : List Token}
    {ms : List Member} (h : readEvent keyword name ts = .ok (ms, after)) (depth : Nat) :
    after = (splitStatement depth ts).2 := by
  obtain ⟨parameters, more, t, anonymous, hparameters, hrest, hend, -⟩ := readEvent_eq_ok h
  -- the word in between, if it is there, stays in the statement
  have hmore : Onward more (t :: after) := by
    rcases hrest with rfl | ⟨word, hword, rfl⟩
    · exact .refl _
    · simp only [Token.isWord, Bool.and_eq_true, decide_eq_true_eq] at hword
      exact .cons (Token.endsStatement_eq_false_of_word hword.1) (.refl _)
  rw [splitStatement_of_onward ((Parameter.readParenthesised_onward hparameters).trans hmore),
    splitStatement_semicolon hend]

theorem readError_after {keyword : Token} {name : String} {ts after : List Token}
    {ms : List Member} (h : readError keyword name ts = .ok (ms, after)) (depth : Nat) :
    after = (splitStatement depth ts).2 := by
  obtain ⟨parameters, t, hparameters, hend, -⟩ := readError_eq_ok h
  rw [splitStatement_of_onward (Parameter.readParenthesised_onward hparameters),
    splitStatement_semicolon hend]

theorem readStruct_after {keyword : Token} {name : String} {ts after : List Token}
    {ms : List Member} (h : readStruct keyword name ts = .ok (ms, after)) (depth : Nat) :
    after = (splitStatement depth ts).2 := by
  obtain ⟨t, more, c, fields, rfl, hopen, hc, -, -, rfl⟩ := readStruct_eq_ok h
  rw [splitStatement_block hopen, hc]

theorem readEnum_after {keyword : Token} {name : String} {ts after : List Token}
    {ms : List Member} (h : readEnum keyword name ts = .ok (ms, after)) (depth : Nat) :
    after = (splitStatement depth ts).2 := by
  obtain ⟨t, more, c, rfl, hopen, hc, -, rfl⟩ := readEnum_eq_ok h
  rw [splitStatement_block hopen, hc]

/-- A cut at the first of the marks that end a statement, if this is the one looked for. -/
theorem cutAtMark_onward {value : String} {stops : List String} {ts : List Token} {c : Cut}
    (hall : ∀ v ∈ statementEnds, v = value ∨ v ∈ stops) (h : cutAtMark value stops ts = some c) :
    Onward ts (c.hit :: c.after) ∧ c.hit.isMark value := by
  obtain ⟨hbefore, hhit⟩ := cutWhere_before h
  refine ⟨⟨c.before, fun t ht => ?_, cutWhere_eq h⟩, hhit⟩
  obtain ⟨hvalue, hstop⟩ := hbefore t ht
  rw [Bool.eq_false_iff]
  intro hends
  simp only [Token.endsStatement, Bool.and_eq_true, decide_eq_true_eq] at hends
  simp only [Token.isMark, hends.1, decide_true, Bool.true_and, decide_eq_false_iff_not]
    at hvalue hstop
  exact (hall _ hends.2).elim hvalue hstop

theorem readValueType_after {keyword : Token} {name : String} {ts after : List Token}
    {ms : List Member} (h : readValueType keyword name ts = .ok (ms, after)) (depth : Nat) :
    after = (splitStatement depth ts).2 := by
  obtain ⟨t, more, c, underlying, rfl, his, hc, -, -, rfl⟩ := readValueType_eq_ok h
  simp only [Token.isWord, Bool.and_eq_true, decide_eq_true_eq] at his
  obtain ⟨honward, hhit⟩ := cutAtMark_onward (by decide) hc
  rw [splitStatement_of_onward (.cons (Token.endsStatement_eq_false_of_word his.1) honward),
    splitStatement_semicolon hhit]

/-- Whether a word announces a directive. -/
def isDirective (word : String) : Bool := word ∈ ["pragma", "import"]

/-- A directive that can be read ends at the first `;`, whatever stands in front of it. -/
theorem readDirective_after {origin : Origin} {scope : Option ContractKind} {t : Token}
    {rest after : List Token} {ms : List Member} (hdirective : isDirective t.value)
    (h : read origin scope t rest = .ok (ms, after)) :
    ∃ c, cutAtMark ";" [] rest = some c ∧ after = c.after := by
  rw [read_eq] at h
  split at h
  · obtain ⟨c, hc, hafter, -⟩ := readPragma_eq_ok h
    exact ⟨c, hc, hafter⟩
  · rename_i hpragma
    have himport : t.value = "import" := by simpa [isDirective, hpragma] using hdirective
    rw [if_pos himport] at h
    obtain ⟨c, hc, hafter, -⟩ := readImport_eq_ok h
    exact ⟨c, hc, hafter⟩

/-- Where there is a `;`, a directive can be read. -/
theorem exists_readDirective_eq_ok (origin : Origin) (scope : Option ContractKind) {t : Token}
    {rest : List Token} {c : Cut} (hdirective : isDirective t.value)
    (hcut : cutAtMark ";" [] rest = some c) : ∃ found, read origin scope t rest = .ok found := by
  simp only [read_eq]
  split
  · rw [readPragma, hcut]
    dsimp only
    repeat' split
    all_goals exact ⟨_, rfl⟩
  · rename_i hpragma
    have himport : t.value = "import" := by simpa [isDirective, hpragma] using hdirective
    rw [if_pos himport, readImport, hcut]
    dsimp only
    split
    all_goals exact ⟨_, rfl⟩

/-- Behind a keyword that wants a name stands a name. -/
theorem exists_name_of_namedReader? {t : Token} {rest : List Token}
    {reader : Token → String → List Token → Reading} (hopens : opensDeclaration t rest)
    (hreader : namedReader? t.value = some reader) :
    ∃ name more, rest = name :: more ∧ name.kind = .word := by
  have hkeyword : t.value ∈ ["event", "error", "struct", "enum", "type", "modifier"] := by
    unfold namedReader? at hreader
    split at hreader
    all_goals simp_all
  have hother : t.value ∉ ["fallback", "receive", "constructor"] := by
    intro hmem
    simp only [List.mem_cons, List.not_mem_nil, or_false] at hkeyword hmem
    rcases hmem with h | h | h <;> simp [h] at hkeyword
  rw [opensDeclaration, if_neg hother, if_pos hkeyword] at hopens
  cases rest with
  | nil => simp at hopens
  | cons name more => exact ⟨name, more, rfl, by simpa using (Bool.and_eq_true_iff.1 hopens).2⟩

/-- A declaration that can be read ends where its statement ends. The statement of a modifier is
taken to begin behind its name. -/
theorem read_after {origin : Origin} {scope : Option ContractKind} {t : Token}
    {rest after : List Token} {ms : List Member} (hopens : opensDeclaration t rest)
    (hdirective : isDirective t.value = false) (h : read origin scope t rest = .ok (ms, after)) :
    after = skipStatement rest ∨ t.value = "modifier" ∧
      ∃ name more, rest = name :: more ∧ name.kind = .word ∧ after = skipStatement more := by
  have hwords : t.value ≠ "pragma" ∧ t.value ≠ "import" := by simpa [isDirective] using hdirective
  rw [read_eq, if_neg hwords.1, if_neg hwords.2] at h
  cases hreader : namedReader? t.value with
  | none =>
    rw [hreader] at h
    exact .inl (readFunction_after h)
  | some reader =>
    obtain ⟨name, more, rfl, hname⟩ := exists_name_of_namedReader? hopens hreader
    rw [hreader] at h
    dsimp only at h
    have hfrom : skipStatement (name :: more) = (splitStatement name.depth more).2 :=
      splitStatement_of_onward (.cons (Token.endsStatement_eq_false_of_word hname) (.refl _)) _
    rw [hfrom]
    unfold namedReader? at hreader
    split at hreader
    all_goals cases hreader
    · exact .inl (readEvent_after h _)
    · exact .inl (readError_after h _)
    · exact .inl (readStruct_after h _)
    · exact .inl (readEnum_after h _)
    · exact .inl (readValueType_after h _)
    · cases h
      exact .inr ⟨‹_›, name, more, rfl, hname, rfl⟩

theorem contractKind_onward {keyword : Token} {ts rest : List Token} {kind : ContractKind}
    (h : contractKind keyword ts = .ok (kind, rest)) : Onward ts rest := by
  unfold contractKind at h
  split at h
  · cases h
    exact .refl _
  · cases h
    exact .refl _
  · split at h
    · split at h
      · rename_i hword
        cases h
        simp only [Token.isWord, Bool.and_eq_true, decide_eq_true_eq] at hword
        exact .cons (Token.endsStatement_eq_false_of_word hword.1) (.refl _)
      · cases h
    · cases h
  · cases h
    exact .refl _

/-- How a contract is read: its body starts behind the first brace, and goes up to the brace that
closes it or, if there is none, up to the end. -/
theorem readContract_cases {keyword : Token} {rest : List Token} {head : ContractHead}
    (h : readContract keyword rest = .ok head) :
    ∃ opening more, Onward rest (opening :: more) ∧ opening.isMark blockOpen ∧
      (closeBrace opening more = none ∧ head.body = more ∧ head.after = [] ∧ head.closed = false ∨
        ∃ c, closeBrace opening more = some c ∧ head.body = c.before ∧ head.after = c.after ∧
          head.closed = true) := by
  obtain ⟨kind, name, mid, c, bases, hkind, hname, hc, -, hbody⟩ := readContract_eq_ok h
  obtain ⟨honward, hhit⟩ := cutAtMark_onward (by decide) hc
  refine ⟨c.hit, c.after, (contractKind_onward hkind).trans
    (.cons (Token.endsStatement_eq_false_of_word hname) honward), hhit, ?_⟩
  rcases hbody with ⟨hclose, rfl⟩ | ⟨body, hclose, rfl⟩
  · exact .inl ⟨hclose, rfl, rfl, rfl⟩
  · exact .inr ⟨body, hclose, rfl, rfl, rfl⟩

/-- The contract with the body that `opening` opens in front of `more`. -/
def ContractHead.withBody (head : ContractHead) (opening : Token) (more : List Token) :
    ContractHead :=
  match closeBrace opening more with
  | none => { head with body := more, after := [], closed := false }
  | some c => { head with body := c.before, after := c.after, closed := true }

section Body

variable {front more : List Token} {opening : Token} {head : ContractHead}

/-- A mark that ends a statement is found where nothing in front of it ends one. -/
theorem cutAtMark_first {value : String} {stops : List String} (hvalue : value ∈ statementEnds)
    (hstops : ∀ v ∈ stops, v ∈ statementEnds) (hfront : ∀ u ∈ front, u.endsStatement = false)
    (hhit : opening.isMark value) :
    cutAtMark value stops (front ++ opening :: more) = some ⟨front, opening, more⟩ := by
  refine cutWhere_append (fun u hu => ?_) hhit
  have hends : ∀ v ∈ statementEnds, ¬(u.kind = .mark ∧ u.value = v) := by
    rintro v hv ⟨hkind, rfl⟩
    simpa [Token.endsStatement, hkind, hv] using hfront u hu
  constructor
  · simpa [Token.isMark] using hends value hvalue
  · simpa using fun hkind hmem => hends _ (hstops _ hmem) ⟨hkind, rfl⟩

theorem readContractOf_withBody {kind : ContractKind} (hfront : ∀ u ∈ front, u.endsStatement = false)
    (hopening : opening.isMark blockOpen)
    (h : readContractOf kind (front ++ opening :: more) = .ok head) (more' : List Token) :
    readContractOf kind (front ++ opening :: more') = .ok (head.withBody opening more') := by
  cases front with
  | nil =>
    have hkind : opening.kind = .mark := of_decide_eq_true (Bool.and_eq_true_iff.1 hopening).1
    simp [readContractOf, hkind] at h
  | cons name front =>
    have hrest := (List.forall_mem_cons.1 hfront).2
    rw [List.cons_append, readContractOf, cutAtMark_first (by decide) (by decide) hrest hopening]
      at h ⊢
    split at h
    · rename_i hname
      rw [if_pos hname]
      dsimp only at h ⊢
      cases hbases : readInheritance front with
      | error e =>
        rw [hbases] at h
        cases h
      | ok bases =>
        rw [hbases] at h
        dsimp only at h ⊢
        have hname : head.kind = kind ∧ head.name = name.value ∧ head.bases = bases := by
          split at h <;> cases h <;> exact ⟨rfl, rfl, rfl⟩
        rw [ContractHead.withBody]
        cases closeBrace opening more' <;> simp [hname]
    · cases h

/-- What stands in front of the body of a contract does not depend on the body. -/
theorem readContract_withBody {keyword : Token} (hfront : ∀ u ∈ front, u.endsStatement = false)
    (hopening : opening.isMark blockOpen)
    (h : readContract keyword (front ++ opening :: more) = .ok head) (more' : List Token) :
    readContract keyword (front ++ opening :: more') = .ok (head.withBody opening more') := by
  unfold readContract contractKind at h ⊢
  split at h
  · cases h
  rename_i kind rest hkind
  split at hkind
  · cases hkind
    exact readContractOf_withBody hfront hopening h more'
  · cases hkind
    exact readContractOf_withBody hfront hopening h more'
  · cases front with
    | nil =>
      have hword : opening.isWord "contract" = false := by
        have : opening.kind = .mark := of_decide_eq_true (Bool.and_eq_true_iff.1 hopening).1
        simp [Token.isWord, this]
      simp [hword] at hkind
    | cons u front =>
      simp only [List.cons_append] at hkind ⊢
      split at hkind
      · rename_i hword
        rw [if_pos hword]
        cases hkind
        exact readContractOf_withBody (List.forall_mem_cons.1 hfront).2 hopening h more'
      · cases hkind
  · cases hkind
    exact readContractOf_withBody hfront hopening h more'

theorem withBody_of_readContract {keyword : Token} (hfront : ∀ u ∈ front, u.endsStatement = false)
    (hopening : opening.isMark blockOpen)
    (h : readContract keyword (front ++ opening :: more) = .ok head) :
    head.withBody opening more = head := by
  have hbody := readContract_withBody hfront hopening h more
  rw [h, Except.ok.injEq] at hbody
  exact hbody.symm

end Body

theorem readContract_after {keyword : Token} {rest : List Token} {head : ContractHead}
    (h : readContract keyword rest = .ok head) : head.after = skipStatement rest := by
  obtain ⟨opening, more, honward, hopening, hbody⟩ := readContract_cases h
  obtain ⟨depth, hskip⟩ := skipStatement_of_onward honward
  rw [hskip, splitStatement_block hopening]
  rcases hbody with ⟨hclose, -, hafter, -⟩ | ⟨c, hclose, -, hafter, -⟩
  · rw [hclose, hafter]
  · rw [hclose, hafter]

end Member

/-- Where the turn at the token `t` can end. -/
inductive EndsTurn (t : Token) (rest : List Token) : List Token → Prop
  /-- An empty statement, or a brace left over. -/
  | empty (h : t.isMark ";" ∨ t.isMark blockClose) : EndsTurn t rest rest
  /-- A declaration, or a directive without its `;`. -/
  | declaration (h : t.kind = .word) : EndsTurn t rest (Member.skipStatement rest)
  | directive {c : Cut} (h : t.kind = .word) (hdirective : Member.isDirective t.value)
      (hc : cutAtMark ";" [] rest = some c) : EndsTurn t rest c.after
  | modifier {name : Token} {more : List Token} (h : t.kind = .word) (hrest : rest = name :: more)
      (hname : name.kind = .word) : EndsTurn t rest (Member.skipStatement more)
  | statement (h : t.isMark ";" = false) (h' : t.isMark blockClose = false) :
      EndsTurn t rest (Member.splitStatement t.depth (t :: rest)).2

theorem turn_ends (origin : Origin) (scope : Option ContractKind) (t : Token)
    (rest : List Token) : EndsTurn t rest (turn origin scope t rest).2 := by
  have hword (hopens : Member.opensDeclaration t rest) : t.kind = .word :=
    of_decide_eq_true (Bool.and_eq_true_iff.1 hopens).1
  have hturn := turns_turn origin scope t rest
  generalize turn origin scope t rest = made at hturn ⊢
  cases hturn with
  | mark ends => exact .empty ends
  | malformed _ opens => exact .declaration (hword opens)
  | contract _ opens read =>
    dsimp only
    rw [Member.readContract_after read]
    exact .declaration (hword opens)
  | declaration _ opens read =>
    cases hdirective : Member.isDirective t.value with
    | true =>
      obtain ⟨c, hc, hafter⟩ := Member.readDirective_after hdirective read
      rw [hafter]
      exact .directive (hword opens) hdirective hc
    | false =>
      rcases Member.read_after opens hdirective read with
        hafter | ⟨-, name, more, hrest, hname, hafter⟩
      · rw [hafter]
        exact .declaration (hword opens)
      · rw [hafter]
        exact .modifier (hword opens) hrest hname
  | statement clear => exact .statement clear.1 clear.2

/-- A directive that has its `;` ends there. -/
theorem turn_directive {t : Token} {rest : List Token} {c : Cut} (hkind : t.kind = .word)
    (hdirective : Member.isDirective t.value) (hc : cutAtMark ";" [] rest = some c)
    (origin : Origin) (scope : Option ContractKind) : (turn origin scope t rest).2 = c.after := by
  have hend : ¬(t.isMark ";" ∨ t.isMark blockClose) := by
    simp [Token.isMark_eq_false_of_word hkind]
  have hword : t.value = "pragma" ∨ t.value = "import" := by
    simpa [Member.isDirective] using hdirective
  have hopens : Member.opensDeclaration t rest := by
    rcases hword with hword | hword <;> simp [Member.opensDeclaration, hkind, hword]
  have hkeyword : ¬Member.isContractKeyword t.value := by
    rcases hword with hword | hword <;> simp [Member.isContractKeyword, hword]
  obtain ⟨⟨ms, after⟩, hread⟩ := Member.exists_readDirective_eq_ok origin scope hdirective hc
  obtain ⟨c', hc', hafter⟩ := Member.readDirective_after hdirective hread
  rw [turn, if_neg hend, if_pos hopens, if_neg hkeyword, hread]
  dsimp only
  rw [hafter]
  rw [hc, Option.some.injEq] at hc'
  rw [hc']

theorem EndsTurn.suffix {t : Token} {rest after : List Token} (h : EndsTurn t rest after) :
    after <:+ t :: rest := by
  cases h with
  | empty => exact List.suffix_cons _ _
  | declaration => exact (Member.skipStatement_suffix rest).trans (List.suffix_cons _ _)
  | @directive c h hdirective hc =>
    have hparts := cutWhere_eq hc
    exact ⟨t :: c.before ++ [c.hit], by simp [hparts]⟩
  | @modifier name more h hrest hname =>
    rw [hrest]
    exact (Member.skipStatement_suffix more).trans
      ((List.suffix_cons _ _).trans (List.suffix_cons _ _))
  | statement => exact Member.splitStatement_suffix _ _

/-! ## Places -/

/-- A place that the walk through a file comes to. -/
structure Place where
  /-- The kind of the contract that the place is in. -/
  scope : Option ContractKind
  /-- The depth of the scope: zero in a file, one more than that of the opening brace in a
  contract. -/
  depth : Nat
  /-- All tokens in front of the place. -/
  before : List Token
  /-- The turns that were made in the scope. -/
  passed : List (Token × List Token)
  /-- What is left of the scope. -/
  here : List Token
  /-- What stands behind the scope. -/
  beyond : List Token

/-- The walk through a file comes to a place: it starts in front of everything, makes a turn, or
enters the body of a contract. -/
inductive Comes (origin : Origin) (ts : List Token) : Place → Prop
  | start : Comes origin ts ⟨none, 0, [], [], ts, []⟩
  | next {scope : Option ContractKind} {depth : Nat} {before taken rest beyond : List Token}
      {passed : List (Token × List Token)} {t : Token}
      (h : Comes origin ts ⟨scope, depth, before, passed, t :: rest, beyond⟩)
      (htaken : t :: rest = taken ++ (turn origin scope t rest).2) :
      Comes origin ts ⟨scope, depth, before ++ taken, passed ++ [(t, rest)],
        (turn origin scope t rest).2, beyond⟩
  | enter {scope : Option ContractKind} {depth : Nat} {before front rest back beyond : List Token}
      {passed : List (Token × List Token)} {t opening : Token} {head : Member.ContractHead}
      (h : Comes origin ts ⟨scope, depth, before, passed, t :: rest, beyond⟩)
      (hopens : Member.opensDeclaration t rest) (hkeyword : Member.isContractKeyword t.value)
      (hhead : Member.readContract t rest = .ok head)
      (hrest : rest = front ++ opening :: (head.body ++ back))
      (hfront : ∀ u ∈ front, u.endsStatement = false) (hopening : opening.isMark blockOpen) :
      Comes origin ts ⟨some head.kind, opening.depth + 1, before ++ t :: front ++ [opening], [],
        head.body, back ++ beyond⟩

/-- A place is in the file. -/
theorem Comes.tokens_eq {origin : Origin} {ts : List Token} {p : Place} (h : Comes origin ts p) :
    ts = p.before ++ p.here ++ p.beyond := by
  induction h with
  | start => simp
  | next h htaken ih =>
    rw [ih]
    simp only [List.append_assoc, List.append_cancel_left_eq]
    rw [← List.append_assoc, ← htaken]
  | enter h hopens hkeyword hhead hrest hfront hopening ih =>
    rw [ih, hrest]
    simp

/-- The place `q` comes after the place `p` in the same scope. -/
structure Later (p q : Place) : Prop where
  scope : q.scope = p.scope
  depth : q.depth = p.depth
  beyond : q.beyond = p.beyond
  here : q.here <:+ p.here

/-- Everything that a walk finds from a place on is recorded in one of its turns. -/
theorem exists_place_of_mem_walk {origin : Origin} {ts : List Token} {p : Place}
    (hp : Comes origin ts p) {m : Member} (hm : m ∈ walk origin p.scope p.here) :
    ∃ q t rest, Comes origin ts q ∧ Later p q ∧ q.here = t :: rest ∧
      m ∈ (turn origin q.scope t rest).1 := by
  induction hn : p.here.length using Nat.strongRecOn generalizing p with
  | ind n ih =>
    obtain ⟨scope, depth, before, passed, here, beyond⟩ := p
    cases here with
    | nil =>
      rw [walk] at hm
      cases hm
    | cons t rest =>
      rw [walk_eq_turn, List.mem_append] at hm
      rcases hm with hm | hm
      · exact ⟨_, t, rest, hp, ⟨rfl, rfl, rfl, List.suffix_rfl⟩, rfl, hm⟩
      -- it is found later, in the rest of the scope
      · have hsuffix := (turn_ends origin scope t rest).suffix
        obtain ⟨taken, htaken⟩ := hsuffix
        subst hn
        obtain ⟨q, u, more, hq, hlater, hrest⟩ :=
          ih _ (turn_length origin scope t rest) (hp.next htaken.symm) hm rfl
        refine ⟨q, u, more, hq, ?_, hrest⟩
        exact ⟨hlater.scope, hlater.depth, hlater.beyond, hlater.here.trans ⟨taken, htaken⟩⟩

end AbiIndex.Source
