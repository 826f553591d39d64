import AbiIndex.Proofs.ReaderLocality

/-!
# Malformed constructs stand alone

A construct that cannot be read is reported and passed over up to the end of its statement. Nothing
else depends on it: if its tokens are taken out of the file, the walk finds the same, without the
report. This rests on two facts. No reader looks behind the end of the statement that it reads, and
no walk carries anything from one turn to the next.

## Key results

- `turn_replace`: a turn is the same if something changes behind it
- `Comes.walk_replace`: a change at a place is a change of the walk through the whole file
- `extract_without_malformed`: a malformed construct harms only itself
-/

namespace AbiIndex.Source

/-- A body with fewer tokens ends at the same brace. -/
theorem Member.ContractHead.withBody_subset {head : ContractHead} {opening : Token}
    {body back : List Token}
    (hhead : head.withBody opening (head.body ++ back) = head) (hsub : body ⊆ head.body) :
    head.withBody opening (body ++ back) = { head with body := body } := by
  rw [withBody] at hhead ⊢
  cases hclose : closeBrace opening (head.body ++ back) with
  | none =>
    rw [hclose] at hhead
    have hback : head.body ++ back = head.body := congrArg ContractHead.body hhead
    rw [List.append_right_eq_self.1 hback, List.append_nil] at hclose ⊢
    have hclose' : closeBrace opening body = none :=
      cutWhere_eq_none_of_subset (fun _ => rfl) hclose hsub
    rw [hclose', ← hhead]
  | some c =>
    rw [hclose] at hhead
    have hbody : c.before = head.body := congrArg ContractHead.body hhead
    obtain ⟨hbefore, hhit⟩ := cutWhere_before hclose
    have hback : back = c.hit :: c.after := by
      have := cutWhere_eq hclose
      rwa [hbody, List.append_cancel_left_eq] at this
    rw [hbody] at hbefore
    have hclose' : closeBrace opening (body ++ back) = some ⟨body, c.hit, c.after⟩ := by
      rw [hback]
      exact cutWhere_append (fun t ht => hbefore t (hsub ht)) hhit
    rw [hclose', ← hhead]

/-! ## A change behind a turn -/

/-- `X'` can stand for `X` behind a turn: it has no other tokens, and a brace at the front of `X`
that may have ended the turn stays. -/
structure Swap (X X' : List Token) : Prop where
  ne_nil : X ≠ []
  subset : X' ⊆ X
  brace : ∀ t Y, X = t :: Y → t.isMark blockClose → ∃ Y', X' = t :: Y'

/-- A change behind a first token that stays. -/
theorem Swap.cons {X X' : List Token} (h : X' ⊆ X) (t : Token) : Swap (t :: X) (t :: X') where
  ne_nil := by simp
  subset := List.cons_subset_cons t h
  brace u Y heq _ := ⟨X', by rw [(List.cons.inj heq).1]⟩

theorem append_subset_append {X X' : List Token} (h : X' ⊆ X) (front back : List Token) :
    front ++ (X' ++ back) ⊆ front ++ (X ++ back) := by
  intro t ht
  simp only [List.mem_append] at ht ⊢
  exact ht.imp_right (Or.imp_left (h ·))

theorem head?_append_eq {s X X' : List Token} (hs : s ≠ []) : (s ++ X).head? = (s ++ X').head? := by
  rw [List.head?_append_of_ne_nil s hs, List.head?_append_of_ne_nil s hs]

/-- The end of the statement `s` is in view in front of what differs. -/
def Shared (s X X' : List Token) : Prop :=
  ∃ seen Y Y', X = seen ++ Y ∧ X' = seen ++ Y' ∧ showsEnd (s ++ seen)

section Replace

variable {s X X' : List Token}

theorem Shared.cons {t : Token} (ht : t.isMark blockOpen = false) (h : Shared s X X') :
    Shared (t :: s) X X' := by
  obtain ⟨seen, Y, Y', hX, hX', hshow⟩ := h
  exact ⟨seen, Y, Y', hX, hX', by simp [showsEnd, ht, hshow]⟩

theorem Shared.of_showsEnd (h : showsEnd s) (X X' : List Token) : Shared s X X' :=
  ⟨[], X, X', rfl, rfl, by rwa [List.append_nil]⟩

/-- A reader that ends in front of the change reads the same, if it does not look further than to
the end of its statement. -/
theorem Shared.read_ok {α : Type} {reader : List Token → Except Malformed (α × List Token)} {a : α}
    (hs : Shared s X X')
    (hlocal : ∀ seen tail, showsEnd (s ++ seen) →
      reader (s ++ seen ++ tail) = extend tail (reader (s ++ seen)))
    (h : reader (s ++ X) = .ok (a, X)) : reader (s ++ X') = .ok (a, X') := by
  obtain ⟨seen, Y, Y', rfl, rfl, hshow⟩ := hs
  rw [← List.append_assoc, hlocal _ _ hshow] at h ⊢
  exact extend_ok seen h Y'

theorem Shared.read_error {α : Type} {reader : List Token → Except Malformed (α × List Token)}
    {e : Malformed} (hs : Shared s X X')
    (hlocal : ∀ seen tail, showsEnd (s ++ seen) →
      reader (s ++ seen ++ tail) = extend tail (reader (s ++ seen)))
    (h : reader (s ++ X) = .error e) : reader (s ++ X') = .error e := by
  obtain ⟨seen, Y, Y', rfl, rfl, hshow⟩ := hs
  rw [← List.append_assoc, hlocal _ _ hshow] at h ⊢
  exact extend_error h Y'

end Replace

namespace Member

/-- A statement ends at the same place if something changes behind it. -/
theorem splitStatement_replace {depth : Nat} {ts s X X' : List Token} (hswap : Swap X X')
    (h : splitStatement depth ts = (s, X)) :
    splitStatement depth (s ++ X') = (s, X') ∧ Shared s X X' := by
  fun_induction splitStatement depth ts generalizing s X with
  | case1 =>
    cases h
    exact absurd rfl hswap.ne_nil
  | case2 t rest hclose =>
    -- the brace that ends the statement stays
    cases h
    obtain ⟨Y', rfl⟩ := hswap.brace t rest rfl hclose.1
    refine ⟨by simp [splitStatement, hclose], [t], rest, Y', rfl, rfl, ?_⟩
    have hopen : t.isMark blockOpen = false := Token.isMark_eq_false_of_ne hclose.1 (by decide)
    simp [showsEnd, hopen, Token.endsStatement_iff.2 (.inr (.inl hclose.1))]
  | case3 t rest hclose hend =>
    cases h
    refine ⟨by simp [splitStatement, hclose, hend], .of_showsEnd ?_ _ _⟩
    have hopen : t.isMark blockOpen = false := Token.isMark_eq_false_of_ne hend (by decide)
    simp [showsEnd, hopen, Token.endsStatement_iff.2 (.inr (.inr hend))]
  | case4 =>
    cases h
    exact absurd rfl hswap.ne_nil
  | case5 t rest hclose hend hopen c hc =>
    cases h
    have hcut (after : List Token) : closeBrace t (c.before ++ c.hit :: after) =
        some { c with after := after } := cutWhere_replace hc after
    refine ⟨by simp [splitStatement, hclose, hend, hopen, hcut], .of_showsEnd ?_ _ _⟩
    simp [showsEnd, hopen, hcut]
  | case6 t rest hclose hend hopen ih =>
    cases h
    obtain ⟨hsplit, hshared⟩ := ih hswap rfl
    refine ⟨?_, hshared.cons (by simpa using hopen)⟩
    rw [List.cons_append, splitStatement, if_neg hclose, if_neg hend, if_neg hopen, hsplit]

/-- Where the next statement begins stays as well. -/
theorem skipStatement_replace {s X X' : List Token} (hswap : Swap X X')
    (h : skipStatement (s ++ X) = X) :
    s ≠ [] ∧ skipStatement (s ++ X') = X' ∧ Shared s X X' := by
  cases s with
  | nil =>
    -- a brace does not close a block around itself, so that something is taken
    exfalso
    cases X with
    | nil => exact hswap.ne_nil rfl
    | cons first more =>
      have hparts := splitStatement_append first.depth (first :: more)
      rw [List.nil_append, skipStatement] at h
      rw [h, List.append_left_eq_self] at hparts
      simp only [splitStatement, Nat.lt_irrefl, and_false, if_false] at hparts
      repeat' split at hparts
      all_goals cases hparts
  | cons first s =>
    have hparts := splitStatement_append first.depth (first :: s ++ X)
    rw [List.cons_append, skipStatement, ← List.cons_append] at h
    rw [h] at hparts
    have hsplit : splitStatement first.depth (first :: s ++ X) = (first :: s, X) :=
      Prod.ext (List.append_cancel_right hparts) h
    obtain ⟨hsplit', hshared⟩ := splitStatement_replace hswap hsplit
    refine ⟨by simp, ?_, hshared⟩
    rw [List.cons_append, skipStatement, ← List.cons_append, hsplit']

/-- Whether a token announces a declaration is seen from the token behind it. -/
theorem opensDeclaration_congr {rest rest' : List Token} (h : rest.head? = rest'.head?)
    (t : Token) : opensDeclaration t rest = opensDeclaration t rest' := by
  simp only [opensDeclaration, h]

theorem malformed_congr {rest rest' : List Token} (h : rest.head? = rest'.head?) (origin : Origin)
    (t : Token) (e : Malformed) : malformed origin t rest e = malformed origin t rest' e := by
  have hconstruct : construct t rest = construct t rest' := by
    cases rest <;> cases rest' <;> simp_all [construct]
  simp only [malformed, hconstruct]

section Replace

variable {origin : Origin} {scope : Option ContractKind} {t : Token} {s X X' : List Token}

/-- A directive without a `;` cannot be read, whatever stands there. -/
theorem readDirective_eq_nil {rest : List Token} (hdirective : isDirective t.value)
    (hcut : cutAtMark ";" [] rest = none) :
    read origin scope t rest = read origin scope t [] := by
  simp only [read_eq]
  split
  · rw [readPragma, hcut]
    rfl
  · rename_i hpragma
    have himport : t.value = "import" := by simpa [isDirective, hpragma] using hdirective
    rw [if_pos himport, if_pos himport, readImport, hcut]
    rfl

/-- A directive without its `;` still has none if tokens are taken out. -/
theorem readDirective_error {rest rest' : List Token} {e : Malformed}
    (hdirective : isDirective t.value) (h : read origin scope t rest = .error e)
    (hsub : rest' ⊆ rest) : read origin scope t rest' = .error e := by
  cases hcut : cutAtMark ";" [] rest with
  | some c =>
    obtain ⟨found, hfound⟩ := exists_readDirective_eq_ok origin scope hdirective hcut
    rw [hfound] at h
    cases h
  | none =>
    have hcut' : cutAtMark ";" [] rest' = none :=
      cutWhere_eq_none_of_subset (by simp) hcut hsub
    rw [readDirective_eq_nil hdirective hcut', ← readDirective_eq_nil hdirective hcut, h]

/-- A directive that ends in front of the change reads the same. -/
theorem readDirective_ok {ms : List Member} (hdirective : isDirective t.value)
    (h : read origin scope t (s ++ X) = .ok (ms, X)) (X' : List Token) :
    s ≠ [] ∧ read origin scope t (s ++ X') = .ok (ms, X') := by
  obtain ⟨c, hc, rfl⟩ := readDirective_after hdirective h
  have hs : s = c.before ++ [c.hit] := by
    have hparts := cutWhere_eq hc
    rw [← List.singleton_append, ← List.append_assoc, List.append_cancel_right_eq] at hparts
    exact hparts
  have hend : ∃ u ∈ s, u.isMark ";" := ⟨c.hit, by simp [hs], (cutWhere_before hc).2⟩
  rw [readDirective_append hdirective hend] at h ⊢
  exact ⟨by simp [hs], extend_ok [] h X'⟩

/-- In front of a change, a declaration is seen up to the end of its statement. -/
theorem read_append_of_opens (hs : s ≠ []) (hopens : opensDeclaration t (s ++ X))
    (hdirective : isDirective t.value = false) (hmodifier : t.value ≠ "modifier")
    (seen tail : List Token) (hshow : showsEnd (s ++ seen)) :
    read origin scope t (s ++ seen ++ tail) = extend tail (read origin scope t (s ++ seen)) := by
  refine read_append ?_ hdirective hmodifier hshow tail
  rw [← hopens]
  exact opensDeclaration_congr (head?_append_eq hs) t

/-- A modifier gives its name and passes over its statement. -/
theorem read_modifier {rest : List Token} (hopens : opensDeclaration t rest)
    (hmodifier : t.value = "modifier") : ∃ name more, rest = name :: more ∧
      ∀ ts, read origin scope t (name :: ts) = .ok ([.modifier name.value], skipStatement ts) := by
  obtain ⟨name, more, hrest, -⟩ := exists_name_of_namedReader? hopens
    (show namedReader? t.value = some _ by rw [hmodifier]; rfl)
  exact ⟨name, more, hrest, fun ts => by simp [read, hmodifier, readModifier]⟩

/-- The declaration at a token reads the same if something changes behind it. -/
theorem read_ok_replace {ms : List Member} (hswap : Swap X X')
    (hopens : opensDeclaration t (s ++ X)) (h : read origin scope t (s ++ X) = .ok (ms, X)) :
    s ≠ [] ∧ read origin scope t (s ++ X') = .ok (ms, X') := by
  cases hdirective : isDirective t.value with
  | true => exact readDirective_ok hdirective h X'
  | false =>
    by_cases hmodifier : t.value = "modifier"
    · obtain ⟨name, more, hrest, hread⟩ := read_modifier hopens hmodifier
      rw [hrest, hread, Except.ok.injEq, Prod.mk.injEq] at h
      obtain ⟨rfl, hskip⟩ := h
      cases s with
      | nil =>
        have hlen := skipStatement_length more
        rw [hskip, ← List.nil_append X, hrest, List.length_cons] at hlen
        omega
      | cons first s =>
        obtain ⟨rfl, rfl⟩ := List.cons.inj hrest
        rw [List.cons_append, hread, (skipStatement_replace hswap hskip).2.1]
        exact ⟨by simp, rfl⟩
    · have hskip : skipStatement (s ++ X) = X := by
        rcases read_after hopens hdirective h with hafter | ⟨hword, -⟩
        · exact hafter.symm
        · exact absurd hword hmodifier
      obtain ⟨hs, -, hshared⟩ := skipStatement_replace hswap hskip
      exact ⟨hs, hshared.read_ok (read_append_of_opens hs hopens hdirective hmodifier) h⟩

/-- And it fails in the same way. -/
theorem read_error_replace {e : Malformed} (hswap : Swap X X')
    (hopens : opensDeclaration t (s ++ X)) (h : read origin scope t (s ++ X) = .error e)
    (hskip : skipStatement (s ++ X) = X) : read origin scope t (s ++ X') = .error e := by
  cases hdirective : isDirective t.value with
  | true =>
    refine readDirective_error hdirective h (List.append_subset.2 ⟨?_, ?_⟩)
    · exact List.subset_append_left s X
    · exact List.Subset.trans hswap.subset (List.subset_append_right s X)
  | false =>
    by_cases hmodifier : t.value = "modifier"
    · obtain ⟨name, more, hrest, hread⟩ := read_modifier hopens hmodifier
      rw [hrest, hread] at h
      cases h
    · obtain ⟨hs, -, hshared⟩ := skipStatement_replace hswap hskip
      exact hshared.read_error (read_append_of_opens hs hopens hdirective hmodifier) h

theorem readContract_ok_replace {head : ContractHead} (hswap : Swap X X')
    (h : readContract t (s ++ X) = .ok head) (hafter : head.after = X) :
    s ≠ [] ∧ readContract t (s ++ X') = .ok { head with after := X' } := by
  have hskip : skipStatement (s ++ X) = X := by rw [← readContract_after h, hafter]
  obtain ⟨hs, -, seen, Y, Y', rfl, rfl, hshow⟩ := skipStatement_replace hswap hskip
  refine ⟨hs, ?_⟩
  rw [← List.append_assoc, readContract_append hshow] at h ⊢
  cases hread : readContract t (s ++ seen) with
  | error e =>
    rw [hread] at h
    cases h
  | ok head' =>
    rw [hread] at h
    cases h
    rw [← List.append_cancel_right hafter]
    rfl

theorem readContract_error_replace {e : Malformed} (hswap : Swap X X')
    (h : readContract t (s ++ X) = .error e) (hskip : skipStatement (s ++ X) = X) :
    readContract t (s ++ X') = .error e := by
  obtain ⟨-, -, seen, Y, Y', rfl, rfl, hshow⟩ := skipStatement_replace hswap hskip
  rw [← List.append_assoc, readContract_append hshow] at h ⊢
  cases hread : readContract t (s ++ seen) with
  | error e' =>
    rw [hread] at h
    exact h
  | ok head =>
    rw [hread] at h
    cases h

/-- A statement that takes nothing stops at once at a closing brace. -/
theorem splitStatement_eq_nil {depth : Nat} {ts : List Token} (h : (splitStatement depth ts).1 = [])
    (hne : ts ≠ []) : ∃ t rest, ts = t :: rest ∧ t.isMark blockClose := by
  fun_cases splitStatement depth ts with
  | case1 => exact absurd rfl hne
  | case2 t rest hclose => exact ⟨t, rest, rfl, hclose.1⟩
  | case3 t rest hclose hend => simp [splitStatement, hclose, hend] at h
  | case4 t rest hclose hend hopen hc => simp [splitStatement, hclose, hend, hopen, hc] at h
  | case5 t rest hclose hend hopen c hc => simp [splitStatement, hclose, hend, hopen, hc] at h
  | case6 t rest hclose hend hopen => simp [splitStatement, hclose, hend, hopen] at h

/-- Whether a token announces a declaration does not change with what stands behind its
statement. -/
theorem opensDeclaration_replace (hswap : Swap X X')
    (h : splitStatement t.depth (t :: s ++ X) = (t :: s, X)) :
    opensDeclaration t (s ++ X) = opensDeclaration t (s ++ X') := by
  cases s with
  | cons u s => exact opensDeclaration_congr rfl t
  | nil =>
    by_cases hkind : t.kind = .word
    -- a word that is a statement of its own stands in front of the brace that ends it
    · have hmark := Token.isMark_eq_false_of_word hkind
      simp only [List.cons_append, List.nil_append] at h ⊢
      rw [splitStatement] at h
      simp only [hmark, Bool.false_eq_true, false_and, if_false, Prod.mk.injEq, List.cons.injEq,
        true_and] at h
      obtain ⟨u, Y, hX, hclose⟩ := splitStatement_eq_nil h.1 hswap.ne_nil
      obtain ⟨Y', hX'⟩ := hswap.brace u Y hX hclose
      rw [hX, hX']
      exact opensDeclaration_congr rfl t
    · simp [opensDeclaration, hkind]

end Replace

end Member

/-- A turn is the same if something changes behind it. -/
theorem turn_replace {origin : Origin} {scope : Option ContractKind} {t : Token}
    {s X X' : List Token} {ms : List Member} (hswap : Swap X X')
    (h : turn origin scope t (s ++ X) = (ms, X)) : turn origin scope t (s ++ X') = (ms, X') := by
  rw [turn] at h ⊢
  split at h
  · rename_i hend
    obtain ⟨rfl, hX⟩ := Prod.mk.inj h
    rw [if_pos hend, List.append_left_eq_self.1 hX]
    rfl
  rename_i hend
  rw [if_neg hend]
  split at h
  · rename_i hopens
    have hopens' (hs : s ≠ []) : Member.opensDeclaration t (s ++ X') := by
      rw [← hopens]
      exact Member.opensDeclaration_congr (head?_append_eq hs) t
    split at h
    · rename_i hkeyword
      cases hread : Member.readContract t (s ++ X) with
      | error e =>
        rw [hread] at h
        obtain ⟨rfl, hskip⟩ := Prod.mk.inj h
        obtain ⟨hs, hskip', -⟩ := Member.skipStatement_replace hswap hskip
        rw [if_pos (hopens' hs), if_pos hkeyword,
          Member.readContract_error_replace hswap hread hskip]
        dsimp only
        rw [hskip', Member.malformed_congr (head?_append_eq hs)]
      | ok head =>
        rw [hread] at h
        obtain ⟨rfl, hafter⟩ := Prod.mk.inj h
        obtain ⟨hs, hread'⟩ := Member.readContract_ok_replace hswap hread hafter
        rw [if_pos (hopens' hs), if_pos hkeyword, hread']
        rfl
    · rename_i hkeyword
      cases hread : Member.read origin scope t (s ++ X) with
      | error e =>
        rw [hread] at h
        obtain ⟨rfl, hskip⟩ := Prod.mk.inj h
        obtain ⟨hs, hskip', -⟩ := Member.skipStatement_replace hswap hskip
        rw [if_pos (hopens' hs), if_neg hkeyword,
          Member.read_error_replace hswap hopens hread hskip]
        dsimp only
        rw [hskip', Member.malformed_congr (head?_append_eq hs)]
      | ok found =>
        rw [hread] at h
        subst h
        obtain ⟨hs, hread'⟩ := Member.read_ok_replace hswap hopens hread
        rw [if_pos (hopens' hs), if_neg hkeyword, hread']
  · rename_i hopens
    obtain ⟨rfl, hX⟩ := Prod.mk.inj h
    have hsplit : Member.splitStatement t.depth (t :: s ++ X) = (t :: s, X) := by
      have hparts := Member.splitStatement_append t.depth (t :: s ++ X)
      rw [List.cons_append, hX, ← List.cons_append] at hparts
      exact Prod.ext (List.append_cancel_right hparts) hX
    have hsplit' := (Member.splitStatement_replace hswap hsplit).1
    rw [Member.opensDeclaration_replace hswap hsplit] at hopens
    rw [if_neg hopens, ← List.cons_append, ← List.cons_append, hsplit, hsplit']

/-! ## A change of the whole file -/

/-- The members `ms'` are the members `ms` without one report. -/
def Drops (d : Diagnostic) (ms ms' : List Member) : Prop :=
  ∃ xs ys, ms = xs ++ .diagnostic d :: ys ∧ ms' = xs ++ ys

namespace Drops

variable {d : Diagnostic} {ms ms' : List Member}

theorem append (h : Drops d ms ms') (xs ys : List Member) :
    Drops d (xs ++ ms ++ ys) (xs ++ ms' ++ ys) := by
  obtain ⟨before, after, rfl, rfl⟩ := h
  exact ⟨xs ++ before, after ++ ys, by simp, by simp⟩

/-- Of the other members none is lost. -/
theorem filterMap_eq {α : Type} (h : Drops d ms ms') (pick : Member → Option α)
    (hpick : pick (.diagnostic d) = none) : ms'.filterMap pick = ms.filterMap pick := by
  obtain ⟨xs, ys, rfl, rfl⟩ := h
  simp [hpick]

theorem diagnostics (h : Drops d ms ms') : ∃ xs ys, ms.filterMap Member.diagnostic? = xs ++ d :: ys ∧
    ms'.filterMap Member.diagnostic? = xs ++ ys := by
  obtain ⟨xs, ys, rfl, rfl⟩ := h
  exact ⟨xs.filterMap Member.diagnostic?, ys.filterMap Member.diagnostic?,
    by simp [Member.diagnostic?], by simp⟩

/-- The reports of a contract are passed on. -/
theorem passedOn (h : Drops d ms ms') : Drops d ((ms.filterMap Member.diagnostic?).map .diagnostic)
    ((ms'.filterMap Member.diagnostic?).map .diagnostic) := by
  obtain ⟨xs, ys, hms, hms'⟩ := h.diagnostics
  rw [hms, hms']
  exact ⟨xs.map .diagnostic, ys.map .diagnostic, by simp, by simp⟩

/-- A contract does not show the reports among its members. -/
theorem contract_eq (h : Drops d ms ms') (keyword : Token) (head : Member.ContractHead) :
    ContractDecl.ofMembers keyword head ms' = ContractDecl.ofMembers keyword head ms := by
  simp only [ContractDecl.ofMembers, h.filterMap_eq Member.function? rfl,
    h.filterMap_eq Member.event? rfl, h.filterMap_eq Member.error? rfl,
    h.filterMap_eq Member.struct? rfl, h.filterMap_eq Member.enum? rfl,
    h.filterMap_eq Member.valueType? rfl, h.filterMap_eq Member.constant? rfl,
    h.filterMap_eq Member.modifier? rfl]

theorem unit_eq (h : Drops d ms ms') (path : String) (category : Category) :
    ∃ xs ys, (SourceUnit.ofMembers path category ms).diagnostics = xs ++ d :: ys ∧
      SourceUnit.ofMembers path category ms' =
        { SourceUnit.ofMembers path category ms with diagnostics := xs ++ ys } := by
  obtain ⟨xs, ys, hms, hms'⟩ := h.diagnostics
  refine ⟨xs, ys, hms, ?_⟩
  have hpragma : ms'.findSome? Member.pragma? = ms.findSome? Member.pragma? := by
    obtain ⟨xs, ys, rfl, rfl⟩ := h
    rw [List.findSome?_append, List.findSome?_append, List.findSome?_cons]
    rfl
  simp only [SourceUnit.ofMembers, hms', hpragma, h.filterMap_eq Member.importOf? rfl,
    h.filterMap_eq Member.contract? rfl, h.filterMap_eq Member.struct? rfl,
    h.filterMap_eq Member.enum? rfl, h.filterMap_eq Member.valueType? rfl,
    h.filterMap_eq Member.constant? rfl, h.filterMap_eq Member.error? rfl,
    h.filterMap_eq Member.event? rfl]

end Drops

/-- A report that goes in the body of a contract goes in the turn at the contract. -/
theorem walk_contract_replace {origin : Origin} {scope : Option ContractKind} {t opening : Token}
    {front back body : List Token} {head : Member.ContractHead} {d : Diagnostic}
    (hopens : Member.opensDeclaration t (front ++ opening :: (head.body ++ back)))
    (hkeyword : Member.isContractKeyword t.value)
    (hhead : Member.readContract t (front ++ opening :: (head.body ++ back)) = .ok head)
    (hfront : ∀ u ∈ front, u.endsStatement = false) (hopening : opening.isMark blockOpen)
    (hsub : body ⊆ head.body)
    (hdrops : Drops d (walk origin (some head.kind) head.body) (walk origin (some head.kind) body)) :
    Drops d (walk origin scope (t :: (front ++ opening :: (head.body ++ back))))
      (walk origin scope (t :: (front ++ opening :: (body ++ back)))) := by
  -- the contract ends at the same brace
  have hbody := Member.withBody_of_readContract hfront hopening hhead
  have hhead' := Member.readContract_withBody hfront hopening hhead (body ++ back)
  rw [Member.ContractHead.withBody_subset hbody hsub] at hhead'
  have hopens' : Member.opensDeclaration t (front ++ opening :: (body ++ back)) := by
    rw [← hopens]
    refine Member.opensDeclaration_congr ?_ t
    cases front <;> rfl
  have hend : ¬(t.isMark ";" ∨ t.isMark blockClose) := by
    have hkind : t.kind = .word := of_decide_eq_true (Bool.and_eq_true_iff.1 hopens).1
    simp [Token.isMark_eq_false_of_word hkind]
  rw [walk_cons, walk_cons, if_neg hend, if_neg hend, if_pos hopens, if_pos hopens',
    if_pos hkeyword, if_pos hkeyword, hhead, hhead']
  dsimp only
  rw [hdrops.contract_eq]
  exact hdrops.passedOn.append _ _

/-- A change at a place that takes one report away takes it away from the walk through the whole
file. -/
theorem Comes.walk_replace {origin : Origin} {ts : List Token} {p : Place} {here : List Token}
    {d : Diagnostic} (h : Comes origin ts p) (hswap : Swap p.here here)
    (hdrops : Drops d (walk origin p.scope p.here) (walk origin p.scope here)) :
    Drops d (walk origin none ts) (walk origin none (p.before ++ here ++ p.beyond)) := by
  induction h generalizing here with
  | start => simpa using hdrops
  | @next scope depth before taken rest beyond passed t _ htaken ih =>
    have hlen := turn_length origin scope t rest
    generalize hturn : turn origin scope t rest = found at *
    obtain ⟨ms, after⟩ := found
    dsimp only at *
    cases taken with
    | nil =>
      rw [htaken] at hlen
      exact absurd hlen (Nat.lt_irrefl _)
    | cons u taken =>
      obtain ⟨rfl, rfl⟩ := List.cons.inj htaken
      have hsub : taken ++ here ⊆ taken ++ after := by
        simpa using append_subset_append hswap.subset taken []
      have hwhole := ih (Swap.cons hsub t) (by
        rw [walk_eq_turn, hturn, walk_eq_turn, turn_replace hswap hturn]
        simpa using hdrops.append ms [])
      simpa using hwhole
  | @enter scope depth before front rest back beyond passed t opening head _ hopens hkeyword hhead
      hrest hfront hopening ih =>
    subst hrest
    dsimp only at hswap hdrops ih ⊢
    have hsub : front ++ opening :: (here ++ back) ⊆ front ++ opening :: (head.body ++ back) := by
      simpa using append_subset_append hswap.subset (front ++ [opening]) back
    have hwhole := ih (Swap.cons hsub t)
      (walk_contract_replace hopens hkeyword hhead hfront hopening hswap.subset hdrops)
    simpa using hwhole

/-- Why the construct that a token announces is malformed, if it is. -/
def fault? (origin : Origin) (scope : Option ContractKind) (t : Token) (rest : List Token) :
    Option Malformed :=
  if Member.opensDeclaration t rest then
    if Member.isContractKeyword t.value then
      match Member.readContract t rest with
      | .error e => some e
      | .ok _ => none
    else
      match Member.read origin scope t rest with
      | .error e => some e
      | .ok _ => none
  else none

/-- The turn at a malformed construct reports it, and nothing else. -/
theorem turn_of_fault {origin : Origin} {scope : Option ContractKind} {t : Token}
    {rest : List Token} {e : Malformed} (h : fault? origin scope t rest = some e) :
    t.kind = .word ∧ turn origin scope t rest =
      ([Member.malformed origin t rest e], Member.skipStatement rest) := by
  rw [fault?] at h
  split at h
  · rename_i hopens
    have hkind : t.kind = .word := of_decide_eq_true (Bool.and_eq_true_iff.1 hopens).1
    have hend : ¬(t.isMark ";" ∨ t.isMark blockClose) := by
      simp [Token.isMark_eq_false_of_word hkind]
    refine ⟨hkind, ?_⟩
    split at h
    · rename_i hkeyword
      split at h
      · rename_i hread
        cases h
        rw [turn, if_neg hend, if_pos hopens, if_pos hkeyword, hread]
      · cases h
    · rename_i hkeyword
      split at h
      · rename_i hread
        cases h
        rw [turn, if_neg hend, if_pos hopens, if_neg hkeyword, hread]
      · cases h
  · cases h

/-- **A malformed construct harms only itself.** Let the walk through a text come to a construct that
cannot be read, at the token of index `i`, and go on at the token of index `j`. The text has a report
on the construct, and without the tokens from `i` up to `j` everything is the same but for this
report. -/
theorem extract_without_malformed {text : List Char} {ts : List Token}
    (htokens : tokenize text = .ok ts) (path : String) (category : Category) {p : Place}
    (hplace : Comes ⟨path, text⟩ ts p) {t : Token} {rest : List Token} (hhere : p.here = t :: rest)
    {e : Malformed} (hfault : fault? ⟨path, text⟩ p.scope t rest = some e) :
    let i := p.before.length
    let j := i + ((t :: rest).length - (turn ⟨path, text⟩ p.scope t rest).2.length)
    ∃ unit xs ys, SourceUnit.extractAs category text path = .ok unit ∧
      unit.diagnostics = xs ++ ⟨.malformedDeclaration, e.message, some path, some t.line,
        some (Member.construct t rest)⟩ :: ys ∧
      SourceUnit.ofTokens path category text (ts.take i ++ ts.drop j) =
        { unit with diagnostics := xs ++ ys } := by
  intro i j
  obtain ⟨hkind, hturn⟩ := turn_of_fault hfault
  obtain ⟨taken, htaken⟩ : (turn ⟨path, text⟩ p.scope t rest).2 <:+ t :: rest :=
    (turn_ends _ _ t rest).suffix
  -- the construct is what stands between `i` and `j`
  have hcut : ts.take i ++ ts.drop j =
      p.before ++ (turn ⟨path, text⟩ p.scope t rest).2 ++ p.beyond := by
    have hlen : (t :: rest).length - (turn ⟨path, text⟩ p.scope t rest).2.length =
        taken.length := by
      rw [← htaken, List.length_append]
      omega
    have hts : ts = p.before ++ (taken ++ ((turn ⟨path, text⟩ p.scope t rest).2 ++ p.beyond)) := by
      rw [hplace.tokens_eq, hhere, ← htaken]
      simp
    have htake : ts.take i = p.before := by
      rw [hts]
      exact List.take_left
    have hdrop : ts.drop j = (turn ⟨path, text⟩ p.scope t rest).2 ++ p.beyond := by
      rw [← List.drop_drop, hlen, hts, List.drop_left, List.drop_left]
    rw [htake, hdrop, List.append_assoc]
  have hswap : Swap p.here (turn ⟨path, text⟩ p.scope t rest).2 := by
    rw [hhere]
    refine ⟨by simp, List.IsSuffix.subset ⟨taken, htaken⟩, fun u Y heq hclose => ?_⟩
    rw [← (List.cons.inj heq).1] at hclose
    rw [Token.isMark_eq_false_of_word hkind] at hclose
    cases hclose
  have hdrops : Drops ⟨.malformedDeclaration, e.message, some path, some t.line,
      some (Member.construct t rest)⟩ (walk ⟨path, text⟩ p.scope p.here)
      (walk ⟨path, text⟩ p.scope (turn ⟨path, text⟩ p.scope t rest).2) := by
    refine ⟨[], _, ?_, (List.nil_append _).symm⟩
    rw [hhere, walk_eq_turn, hturn]
    rfl
  obtain ⟨xs, ys, hdiagnostics, hunit⟩ := (hplace.walk_replace hswap hdrops).unit_eq path category
  refine ⟨_, xs, ys, SourceUnit.extractAs_eq_ok_iff.2 ⟨ts, htokens, rfl⟩, hdiagnostics, ?_⟩
  rw [hcut]
  exact hunit

/-- In `contract A{error E;error F();}` the first error is malformed. -/
theorem extract_without_malformed_error :
    let text := "contract A\x7berror E;error F();\x7d".toList
    ∃ ts unit xs ys, tokenize text = .ok ts ∧
      SourceUnit.extractAs .contracts text "A.sol" = .ok unit ∧
      unit.diagnostics = xs ++ ⟨.malformedDeclaration, (Malformed.parametersMissing "error E").message,
        some "A.sol", some 1, some "error E"⟩ :: ys ∧
      SourceUnit.ofTokens "A.sol" .contracts text (ts.take 3 ++ ts.drop 6) =
        { unit with diagnostics := xs ++ ys } := by
  intro text
  let tok (kind : TokenKind) (value : String) (start depth : Nat) : Token :=
    ⟨kind, value, start, start + value.length, 1, depth, 0, none⟩
  let body : List Token := [tok .word "error" 11 1, tok .word "E" 17 1, tok .mark ";" 18 1,
    tok .word "error" 19 1, tok .word "F" 25 1, tok .mark "(" 26 1, tok .mark ")" 27 1,
    tok .mark ";" 28 1]
  let keyword := tok .word "contract" 0 0
  let name := tok .word "A" 9 0
  let opening := tok .mark blockOpen 10 0
  let ts := [keyword, name, opening] ++ body ++ [tok .mark blockClose 29 0]
  have htokens : tokenize text = .ok ts :=
    tokenize_eq_ok_iff.2 ⟨by decide +kernel, by decide +kernel⟩
  have hplace : Comes ⟨"A.sol", text⟩ ts ⟨some .contract, 1, [keyword, name, opening], [], body,
      [tok .mark blockClose 29 0]⟩ := by
    have hhead : Member.readContract keyword (ts.drop 1) =
        .ok ⟨.contract, "A", [], body, [], true⟩ := rfl
    have hrest : ts.drop 1 = [name] ++ opening :: (body ++ [tok .mark blockClose 29 0]) := rfl
    exact .enter .start (by decide) (by decide) hhead hrest (by decide) (by decide)
  obtain ⟨unit, xs, ys, h⟩ := extract_without_malformed htokens "A.sol" .contracts hplace rfl
    (show fault? _ _ _ _ = some (.parametersMissing "error E") from rfl)
  exact ⟨ts, unit, xs, ys, htokens, h⟩

end AbiIndex.Source
