import AbiIndex.Proofs.DepthMatching
import AbiIndex.Proofs.ScopeWalk

/-!
# Declarations at the depth of their scope

The depth of a token counts the braces that are open around it. A walk goes through a scope at one
depth: zero in a file, one more than that of the opening brace in a contract. It keeps to this depth
from turn to turn, since statements end at their own depth. Only a directive may not, as it ends at
the first `;` whatever stands in between. And only constants are looked for inside the blocks of a
statement.

## Key results

- `leveled_of_tokenize`: the depths of the tokens of a text follow its braces
- `InScope.turn`: a turn that is no straying directive leaves the walk at the depth of its scope
- `Comes.inScope`, `Comes.depth_ne_of_strays`: a scope is left by straying directives, and only by
  them
- `declared_at_scope_depth`: where declarations start
-/

namespace AbiIndex.Source

/-! ## Levels -/

/-- How many braces are open behind a token, if `level` were open in front of it. -/
def levelPast (level : Nat) (t : Token) : Nat :=
  if t.isMark blockOpen then level + 1 else if t.isMark blockClose then level - 1 else level

/-- The depths of the tokens follow their braces, where `level` braces are open at first. A closing
brace has the depth of the one that it closes. -/
def Leveled : Nat → List Token → Prop
  | _, [] => True
  | level, t :: ts =>
    t.depth = (if t.isMark blockClose then level - 1 else level) ∧ Leveled (levelPast level t) ts

theorem leveled_iff {level : Nat} {ts : List Token} :
    Leveled level ts ↔ Gauge.braces.Marked level ts := by
  induction ts generalizing level with
  | nil => exact Iff.rfl
  | cons t ts ih => exact and_congr_right fun _ => ih

theorem leveled_append {level : Nat} {xs ys : List Token} :
    Leveled level (xs ++ ys) ↔ Leveled level xs ∧ Leveled (xs.foldl levelPast level) ys := by
  rw [leveled_iff, leveled_iff, leveled_iff, Gauge.marked_append]
  rfl

/-- Tokens are cut out of their surroundings together with their level. -/
theorem Leveled.suffix {level : Nat} {xs ys : List Token} (h : Leveled level (xs ++ ys)) :
    ∃ level', Leveled level' ys := ⟨_, (leveled_append.1 h).2⟩

theorem leveled_of_tokenize {text : List Char} {ts : List Token} (h : tokenize text = .ok ts) :
    Leveled 0 ts := leveled_iff.2 (Gauge.braces.marked_of_tokenize h)

/-- The tokens of a scope at the given depth, or what is left of them: none of them closes a block
around the scope. -/
structure InScope (depth : Nat) (ts : List Token) : Prop where
  leveled : Leveled depth ts
  closers : ∀ t ∈ ts, t.isMark blockClose → depth ≤ t.depth

namespace InScope

variable {depth : Nat} {t : Token} {ts rest : List Token}

theorem nil (depth : Nat) : InScope depth [] := ⟨trivial, by simp⟩

/-- Every turn starts at the depth of the scope. -/
theorem depth_eq (h : InScope depth (t :: ts)) : t.depth = depth := by
  have ht := h.leveled.1
  split at ht
  · rename_i hclose
    have := h.closers t List.mem_cons_self hclose
    omega
  · exact ht

/-- The scope goes on behind a token that opens no block. A brace without a partner does not leave
a file. -/
theorem tail (h : InScope depth (t :: ts)) (hopen : t.isMark blockOpen = false) :
    InScope depth ts := by
  refine ⟨?_, fun u hu => h.closers u (List.mem_cons_of_mem t hu)⟩
  have hts := h.leveled.2
  have hdepth := h.depth_eq
  have ht := h.leveled.1
  rw [levelPast, hopen] at hts
  split at ht
  · rename_i hclose
    rw [if_neg Bool.false_ne_true, if_pos hclose] at hts
    rwa [← ht, hdepth] at hts
  · rename_i hclose
    rwa [if_neg Bool.false_ne_true, if_neg hclose] at hts

/-- Behind an opening brace, one more is open. -/
theorem leveled_block (h : InScope depth (t :: ts)) (hopen : t.isMark blockOpen) :
    Leveled (depth + 1) ts := by
  have hts := h.leveled.2
  rwa [levelPast, if_pos hopen] at hts

/-- No token of a scope is less deep than the scope. -/
theorem le_depth (h : InScope depth ts) : ∀ u ∈ ts, depth ≤ u.depth := by
  -- the level may rise on the way, but does not fall below the scope
  have hlevel (level : Nat) (hle : depth ≤ level) (hts : Leveled level ts)
      (hclosers : ∀ u ∈ ts, u.isMark blockClose → depth ≤ u.depth) :
      ∀ u ∈ ts, depth ≤ u.depth := by
    clear h
    induction ts generalizing level with
    | nil => simp
    | cons u ts ih =>
      obtain ⟨hu, hts⟩ := hts
      obtain ⟨hclose, hclosers⟩ := List.forall_mem_cons.1 hclosers
      have hpast : depth ≤ levelPast level u := by
        rw [levelPast]
        split
        · omega
        split
        · rename_i hmark
          have := hclose hmark
          rw [if_pos hmark] at hu
          omega
        · exact hle
      refine List.forall_mem_cons.2 ⟨?_, ih _ hpast hts hclosers⟩
      split at hu
      · exact hclose ‹_›
      · omega
  exact hlevel depth (Nat.le_refl _) h.leveled h.closers

end InScope

/-- As long as no brace of a depth is closed, all braces that are closed are deeper. -/
theorem Leveled.deeper {level depth : Nat} {ts : List Token} (h : Leveled level ts)
    (hlevel : depth < level) (hclose : ∀ t ∈ ts, t.isMark blockClose → t.depth ≠ depth) :
    (∀ t ∈ ts, t.isMark blockClose → depth < t.depth) ∧ depth < ts.foldl levelPast level := by
  induction ts generalizing level with
  | nil => exact ⟨by simp, hlevel⟩
  | cons t ts ih =>
    obtain ⟨ht, hts⟩ := h
    obtain ⟨hne, hclose⟩ := List.forall_mem_cons.1 hclose
    have hdeeper : t.isMark blockClose → depth < t.depth := by
      intro hmark
      have := hne hmark
      rw [if_pos hmark] at ht
      omega
    have hpast : depth < levelPast level t := by
      rw [levelPast]
      split
      · omega
      split
      · rename_i hmark
        have := hdeeper hmark
        rw [if_pos hmark] at ht
        omega
      · exact hlevel
    obtain ⟨hrest, hend⟩ := ih hts hpast hclose
    exact ⟨List.forall_mem_cons.2 ⟨hdeeper, hrest⟩, hend⟩

section Blocks

variable {opening : Token} {ts : List Token}

/-- A block that is never closed is a scope of its own. -/
theorem inScope_of_unclosed (h : Leveled (opening.depth + 1) ts)
    (hclose : closeBrace opening ts = none) : InScope (opening.depth + 1) ts := by
  rw [closeBrace, cutWhere_eq_none_iff fun _ => rfl] at hclose
  refine ⟨h, (h.deeper (Nat.lt_succ_self _) fun t ht hmark => ?_).1⟩
  simpa [hmark] using hclose t ht

/-- A block that is closed is a scope of its own, and behind it the depth is that of its braces. -/
theorem inScope_of_closed {c : Cut} (h : Leveled (opening.depth + 1) ts)
    (hclose : closeBrace opening ts = some c) :
    InScope (opening.depth + 1) c.before ∧ Leveled opening.depth c.after := by
  obtain ⟨hbefore, hhit⟩ := cutWhere_before hclose
  rw [cutWhere_eq hclose, leveled_append] at h
  obtain ⟨hlevel, hafter⟩ := h
  have hdeeper := hlevel.deeper (Nat.lt_succ_self _) fun t ht hmark => by
    simpa [hmark] using (hbefore t ht).1
  refine ⟨⟨hlevel, hdeeper.1⟩, ?_⟩
  rw [Bool.and_eq_true, decide_eq_true_eq] at hhit
  have hopen : c.hit.isMark blockOpen = false := Token.isMark_eq_false_of_ne hhit.1 (by decide)
  obtain ⟨hdepth, hafter⟩ := hafter
  rw [if_pos hhit.1] at hdepth
  rw [levelPast, hopen, if_neg Bool.false_ne_true, if_pos hhit.1, ← hdepth, hhit.2] at hafter
  exact hafter

end Blocks

/-! ## Turns at the depth of a scope -/

namespace InScope

variable {depth : Nat} {t : Token} {ts rest : List Token}

/-- Behind a statement of the scope the scope goes on. -/
theorem splitStatement (h : InScope depth ts) :
    InScope depth (Member.splitStatement depth ts).2 := by
  fun_induction Member.splitStatement depth ts with
  | case1 => exact nil depth
  | case2 t rest hclose => exact h
  | case3 t rest hclose hend => exact h.tail (Token.isMark_eq_false_of_ne hend (by decide))
  | case4 => exact nil depth
  | case5 t rest hclose hend hopen c hc =>
    -- the block of the statement is closed at the depth of the scope
    have hblock : Leveled (t.depth + 1) rest := by
      rw [h.depth_eq]
      exact h.leveled_block hopen
    have hafter := (inScope_of_closed hblock hc).2
    rw [h.depth_eq] at hafter
    refine ⟨hafter, fun u hu => h.closers u (List.mem_cons_of_mem t ?_)⟩
    rw [cutWhere_eq hc]
    simp [hu]
  | case6 t rest hclose hend hopen ih => exact ih (h.tail (by simpa using hopen))

theorem skipStatement (h : InScope depth ts) : InScope depth (Member.skipStatement ts) := by
  cases ts with
  | nil => exact nil depth
  | cons t ts =>
    rw [Member.skipStatement, h.depth_eq]
    exact h.splitStatement

end InScope

/-- The token `t` starts a directive whose `;` stands at another depth. -/
def Strays (t : Token) (rest : List Token) : Prop :=
  t.kind = .word ∧ Member.isDirective t.value ∧
    ∃ c, cutAtMark ";" [] rest = some c ∧ c.hit.depth ≠ t.depth

/-- What stands behind a `;` has its depth. -/
theorem Leveled.cutAtMark {level : Nat} {ts : List Token} {c : Cut} (h : Leveled level ts)
    (hc : cutAtMark ";" [] ts = some c) : Leveled c.hit.depth c.after := by
  have hend : c.hit.isMark ";" := (cutWhere_before hc).2
  have hopen : c.hit.isMark blockOpen = false := Token.isMark_eq_false_of_ne hend (by decide)
  have hclose : c.hit.isMark blockClose = false := Token.isMark_eq_false_of_ne hend (by decide)
  rw [cutWhere_eq hc] at h
  obtain ⟨hdepth, hafter⟩ := (leveled_append.1 h).2
  rw [hclose, if_neg Bool.false_ne_true] at hdepth
  rw [levelPast, hopen, hclose, if_neg Bool.false_ne_true, if_neg Bool.false_ne_true,
    ← hdepth] at hafter
  exact hafter

/-- A turn leaves the walk at the depth of its scope, unless it is a straying directive. -/
theorem InScope.turn {depth : Nat} {t : Token} {rest : List Token} (h : InScope depth (t :: rest))
    (hstrays : ¬Strays t rest) (origin : Origin) (scope : Option ContractKind) :
    InScope depth (Source.turn origin scope t rest).2 := by
  have hword (hkind : t.kind = .word) : InScope depth rest :=
    h.tail (Token.isMark_eq_false_of_word hkind _)
  have hends := turn_ends origin scope t rest
  generalize (Source.turn origin scope t rest).2 = after at hends ⊢
  cases hends with
  | empty hend =>
    refine h.tail ?_
    rcases hend with hend | hend
    · exact Token.isMark_eq_false_of_ne hend (by decide)
    · exact Token.isMark_eq_false_of_ne hend (by decide)
  | declaration hkind => exact (hword hkind).skipStatement
  | @directive c hkind hdirective hc =>
    have hdepth : c.hit.depth = t.depth := by
      by_contra hne
      exact hstrays ⟨hkind, hdirective, c, hc, hne⟩
    have hafter := (hword hkind).leveled.cutAtMark hc
    rw [hdepth, h.depth_eq] at hafter
    refine ⟨hafter, fun u hu => (hword hkind).closers u ?_⟩
    rw [cutWhere_eq hc]
    simp [hu]
  | @modifier name more hkind hrest hname =>
    have hmore := hword hkind
    rw [hrest] at hmore
    exact (hmore.tail (Token.isMark_eq_false_of_word hname _)).skipStatement
  | statement hend hclose =>
    rw [h.depth_eq]
    exact h.splitStatement

/-! ## Places at the depth of their scope -/

/-- The tokens of a contract are a scope. -/
theorem inScope_body {level : Nat} {head : Member.ContractHead} {opening : Token}
    {back : List Token} (h : Leveled level (opening :: (head.body ++ back)))
    (hopening : opening.isMark blockOpen)
    (hhead : head.withBody opening (head.body ++ back) = head) :
    InScope (opening.depth + 1) head.body := by
  have hclose : opening.isMark blockClose = false := Token.isMark_eq_false_of_ne hopening (by decide)
  obtain ⟨hdepth, hmore⟩ := h
  rw [hclose, if_neg Bool.false_ne_true] at hdepth
  rw [levelPast, if_pos hopening, ← hdepth] at hmore
  rw [Member.ContractHead.withBody] at hhead
  cases hcut : closeBrace opening (head.body ++ back) with
  | none =>
    rw [hcut] at hhead
    have hbody : head.body ++ back = head.body := congrArg Member.ContractHead.body hhead
    rw [hbody] at hmore hcut
    exact inScope_of_unclosed hmore hcut
  | some c =>
    rw [hcut] at hhead
    have hbody : c.before = head.body := congrArg Member.ContractHead.body hhead
    rw [← hbody]
    exact (inScope_of_closed hmore hcut).1

section Places

variable {origin : Origin} {ts : List Token} {p : Place}

theorem Comes.leveled (hts : Leveled 0 ts) (h : Comes origin ts p) :
    ∃ level, Leveled level p.here := by
  rw [h.tokens_eq, List.append_assoc] at hts
  obtain ⟨level, hlevel⟩ := hts.suffix
  exact ⟨level, (leveled_append.1 hlevel).1⟩

/-- The walk keeps to the depth of its scope as long as no directive strays in it. -/
theorem Comes.inScope (hts : Leveled 0 ts) (h : Comes origin ts p)
    (hpassed : ∀ made ∈ p.passed, ¬Strays made.1 made.2) : InScope p.depth p.here := by
  induction h with
  | start => exact ⟨hts, fun t ht hclose => Nat.zero_le _⟩
  | next h htaken ih =>
    obtain ⟨hbefore, hlast⟩ := List.forall_mem_append.1 hpassed
    exact (ih hbefore).turn (hlast _ List.mem_cons_self) _ _
  | enter h hopens hkeyword hhead hrest hfront hopening ih =>
    -- whatever the depth in front of the contract is, its body is a scope
    obtain ⟨level, hlevel⟩ := h.leveled hts
    subst hrest
    rw [← List.cons_append] at hlevel
    obtain ⟨level', hbody⟩ := hlevel.suffix
    exact inScope_body hbody hopening (Member.withBody_of_readContract hfront hopening hhead)

/-- Behind the first directive that strays, the walk is at another depth. -/
theorem Comes.depth_ne_of_strays (hts : Leveled 0 ts) (h : Comes origin ts p)
    {earlier : List (Token × List Token)} {last : Token × List Token}
    (hpassed : p.passed = earlier ++ [last]) (hearlier : ∀ made ∈ earlier, ¬Strays made.1 made.2)
    (hlast : Strays last.1 last.2) {t : Token} {rest : List Token} (hhere : p.here = t :: rest)
    (hclose : t.isMark blockClose = false) : t.depth ≠ p.depth := by
  cases h with
  | start => simp at hpassed
  | enter => simp at hpassed
  | @next scope depth before taken more beyond passed first h htaken =>
    obtain ⟨rfl, hmade⟩ := List.append_inj' hpassed rfl
    cases hmade
    obtain ⟨hword, hdirective, c, hc, hne⟩ := hlast
    have hscope := h.inScope hts hearlier
    dsimp only at *
    have hlevel := (hscope.tail (Token.isMark_eq_false_of_word hword _)).leveled.cutAtMark hc
    rw [← turn_directive hword hdirective hc origin scope, hhere] at hlevel
    have hdepth := hlevel.1
    rw [hclose, if_neg Bool.false_ne_true] at hdepth
    rw [hdepth, ← hscope.depth_eq]
    exact hne

end Places

/-! ## Where declarations start -/

namespace Member

/-- The line that a declaration is recorded with. Modifiers are recorded by their name alone. -/
def line? : Member → Option Nat
  | function d => some d.line
  | event d => some d.line
  | error d => some d.line
  | struct d => some d.line
  | enum d => some d.line
  | valueType d => some d.line
  | constant d => some d.line
  | contract d => some d.line
  | _ => none

/-- The declaration is no constant and is recorded with the line of the token `t`. -/
def IsAt (t : Token) (m : Member) : Prop := m.constant? = none ∧ ∀ line ∈ m.line?, line = t.line

section Readers

variable {t : Token} {ts after : List Token} {ms : List Member}

theorem readPragma_isAt {origin : Origin} (h : readPragma origin ts = .ok (ms, after)) :
    ∀ m ∈ ms, m.IsAt t := by
  obtain ⟨c, -, -, rfl | ⟨text, rfl⟩⟩ := readPragma_eq_ok h
  · simp
  · simp [IsAt, constant?, line?]

theorem readImport_isAt (h : readImport ts = .ok (ms, after)) : ∀ m ∈ ms, m.IsAt t := by
  obtain ⟨c, -, -, rfl | ⟨path, rfl⟩⟩ := readImport_eq_ok h
  · simp
  · simp [IsAt, constant?, line?]

theorem functionMembers_isAt (origin : Origin) (scope : Option ContractKind) (name : String)
    (kind : FunctionKind) (parameters : List Parameter) (specifiers : List Specifier) :
    ∀ m ∈ functionMembers origin scope t name kind parameters specifiers, m.IsAt t := by
  unfold functionMembers
  dsimp only
  repeat' split
  all_goals simp [IsAt, constant?, line?, Origin.report]

theorem readFunction_isAt {origin : Origin} {scope : Option ContractKind}
    (h : readFunction origin scope t ts = .ok (ms, after)) : ∀ m ∈ ms, m.IsAt t := by
  obtain ⟨parameters, header, specifiers, ending, behind, -, -, rfl | rfl, -⟩ := readFunction_eq_ok h
  · simp
  · exact functionMembers_isAt _ _ _ _ _ _

/-- The readers of named declarations give one member each, which is no contract. -/
theorem exists_of_namedReader? {word name : String} {reader : Token → String → List Token → Reading}
    (hreader : namedReader? word = some reader) (h : reader t name ts = .ok (ms, after)) :
    ∃ m, ms = [m] ∧ m.IsAt t ∧ m.contract? = none := by
  rcases namedReader?_cases hreader with rfl | rfl | rfl | rfl | rfl | rfl
  · obtain ⟨_, _, _, _, _, _, _, rfl⟩ := readEvent_eq_ok h
    exact ⟨_, rfl, by simp [IsAt, constant?, line?], rfl⟩
  · obtain ⟨_, _, _, _, rfl⟩ := readError_eq_ok h
    exact ⟨_, rfl, by simp [IsAt, constant?, line?], rfl⟩
  · obtain ⟨_, _, _, _, _, _, _, _, rfl, _⟩ := readStruct_eq_ok h
    exact ⟨_, rfl, by simp [IsAt, constant?, line?], rfl⟩
  · obtain ⟨_, _, _, _, _, _, rfl, _⟩ := readEnum_eq_ok h
    exact ⟨_, rfl, by simp [IsAt, constant?, line?], rfl⟩
  · obtain ⟨_, _, _, _, _, _, _, _, rfl, _⟩ := readValueType_eq_ok h
    exact ⟨_, rfl, by simp [IsAt, constant?, line?], rfl⟩
  · cases h
    exact ⟨_, rfl, by simp [IsAt, constant?, line?], rfl⟩

/-- What is read at a keyword starts there. -/
theorem read_isAt {origin : Origin} {scope : Option ContractKind}
    (h : read origin scope t ts = .ok (ms, after)) : ∀ m ∈ ms, m.IsAt t := by
  rw [read_eq] at h
  split at h
  · exact readPragma_isAt h
  split at h
  · exact readImport_isAt h
  split at h
  · obtain ⟨m, rfl, hat, -⟩ := exists_of_namedReader? ‹_› h
    exact List.forall_mem_singleton.2 hat
  · exact readFunction_isAt h

end Readers

/-- A constant stands at the first word `constant` of its statement. -/
theorem constantOf_eq_some {ts : List Token} {d : ConstantDecl} (h : constantOf ts = some d) :
    ∃ front u back, ts = front ++ u :: back ∧ (∀ v ∈ front, v.isWord "constant" = false) ∧
      u.isWord "constant" ∧ d.line = u.line := by
  induction ts with
  | nil => cases h
  | cons t ts ih =>
    unfold constantOf at h
    split at h
    · refine ⟨[], t, ts, rfl, by simp, ‹_›, ?_⟩
      split at h
      · split at h
        · cases h
          rfl
        · cases h
      · cases h
    · rename_i hword
      obtain ⟨front, u, back, rfl, hfront, hu, hline⟩ := ih h
      refine ⟨t :: front, u, back, rfl, ?_, hu, hline⟩
      exact List.forall_mem_cons.2 ⟨by simpa using hword, hfront⟩

end Member

/-- What the turn at `t` records starts at the token `u`, behind the tokens `front` of its
statement. A constant starts at the first word `constant` in its statement, everything else at
`t`. -/
inductive StartsAt (t : Token) (rest : List Token) : Member → List Token → Token → Prop
  | keyword {m : Member} (h : m.IsAt t) : StartsAt t rest m [] t
  | constant {d : ConstantDecl} {front back : List Token} {u : Token}
      (hs : (Member.splitStatement t.depth (t :: rest)).1 = front ++ u :: back)
      (hfirst : ∀ v ∈ front, v.isWord "constant" = false) (hu : u.isWord "constant")
      (hline : d.line = u.line) : StartsAt t rest (.constant d) front u

theorem exists_startsAt {origin : Origin} {scope : Option ContractKind} {t : Token}
    {rest : List Token} {m : Member} (hm : m ∈ (turn origin scope t rest).1)
    (hdeclares : m.diagnostic? = none) :
    t.isMark blockClose = false ∧ ∃ front u, StartsAt t rest m front u := by
  have hturn := turns_turn origin scope t rest
  generalize turn origin scope t rest = made at hturn hm
  cases hturn with
  | mark => cases hm
  | malformed clear =>
    rw [List.mem_singleton] at hm
    rw [hm] at hdeclares
    cases hdeclares
  | @contract head clear =>
    rw [List.mem_append, List.mem_append, List.mem_singleton] at hm
    rcases hm with (hm | hm) | rfl
    -- reports, of the contract itself or passed on from inside it
    · unfold Member.unclosedBody at hm
      split at hm
      · cases hm
      · rw [List.mem_singleton] at hm
        rw [hm] at hdeclares
        cases hdeclares
    · obtain ⟨d, -, rfl⟩ := List.mem_map.1 hm
      cases hdeclares
    · exact ⟨clear.2, [], t, .keyword ⟨rfl, by simp [Member.line?, ContractDecl.ofMembers]⟩⟩
  | declaration clear _ read => exact ⟨clear.2, [], t, .keyword (Member.read_isAt read m hm)⟩
  | statement clear =>
    obtain ⟨d, hd, rfl⟩ := Option.map_eq_some_iff.1 (Option.mem_toList.1 hm)
    obtain ⟨front, u, back, hs, hfront, hu, hline⟩ := Member.constantOf_eq_some hd
    exact ⟨clear.2, front, u, .constant hs hfront hu hline⟩

/-- What stands in a block is deeper, and the brace in front of it opens the block. -/
theorem depth_eq_iff_of_block {depth : Nat} {t u : Token} {inner front back : List Token}
    (hopen : t.isMark blockOpen) (hinner : ∀ v ∈ inner, v.kind = .word → depth + 1 ≤ v.depth)
    (hu : u.kind = .word) (hs : t :: inner = front ++ u :: back) :
    u.depth = depth ↔ ∀ v ∈ front, v.isMark blockOpen = false := by
  cases front with
  | nil =>
    obtain ⟨rfl, -⟩ := List.cons.inj hs
    rw [Token.isMark_eq_false_of_word hu] at hopen
    cases hopen
  | cons v front =>
    obtain ⟨rfl, rfl⟩ := List.cons.inj hs
    have hdeeper := hinner u (by simp) hu
    simp only [List.forall_mem_cons, hopen, Bool.true_eq_false, false_and, iff_false]
    omega

/-- In a statement of a scope a word has the depth of the scope, unless it stands in a block. -/
theorem InScope.statement_depth {depth : Nat} {ts front back : List Token} {u : Token}
    (h : InScope depth ts) (hs : (Member.splitStatement depth ts).1 = front ++ u :: back)
    (hu : u.kind = .word) : u.depth = depth ↔ ∀ v ∈ front, v.isMark blockOpen = false := by
  fun_induction Member.splitStatement depth ts generalizing front with
  | case1 => simp at hs
  | case2 => simp at hs
  | case3 t rest hclose hend =>
    cases front with
    | nil =>
      obtain ⟨rfl, -⟩ := List.cons.inj hs
      rw [Token.isMark_eq_false_of_word hu] at hend
      cases hend
    | cons v front => simp at hs
  | case4 t rest hclose hend hopen hc =>
    refine depth_eq_iff_of_block hopen (fun v hv _ => ?_) hu hs
    have hlevel : Leveled (t.depth + 1) rest := h.depth_eq ▸ h.leveled_block hopen
    have := (inScope_of_unclosed hlevel hc).le_depth v hv
    rwa [h.depth_eq] at this
  | case5 t rest hclose hend hopen c hc =>
    refine depth_eq_iff_of_block hopen (fun v hv hkind => ?_) hu hs
    have hlevel : Leveled (t.depth + 1) rest := h.depth_eq ▸ h.leveled_block hopen
    rcases List.mem_append.1 hv with hv | hv
    · have := (inScope_of_closed hlevel hc).1.le_depth v hv
      rwa [h.depth_eq] at this
    · have hhit := (cutWhere_before hc).2
      rw [← List.mem_singleton.1 hv, Token.isMark_eq_false_of_word hkind] at hhit
      cases hhit
  | case6 t rest hclose hend hopen ih =>
    have hrest := h.tail (by simpa using hopen)
    cases front with
    | nil =>
      obtain ⟨rfl, -⟩ := List.cons.inj hs
      simp [h.depth_eq]
    | cons v front =>
      obtain ⟨rfl, htail⟩ := List.cons.inj hs
      rw [List.forall_mem_cons, ih hrest htail]
      simp [hopen]

/-- A declaration starts at the depth of its scope, unless a block opens in front of it in its
statement. -/
theorem StartsAt.depth_eq_iff {depth : Nat} {t u : Token} {rest front : List Token} {m : Member}
    (h : StartsAt t rest m front u) (hscope : InScope depth (t :: rest)) :
    u.depth = depth ↔ ∀ v ∈ front, v.isMark blockOpen = false := by
  cases h with
  | keyword h => simp [hscope.depth_eq]
  | constant hs hfirst hu hline =>
    rw [hscope.depth_eq] at hs
    simp only [Token.isWord, Bool.and_eq_true, decide_eq_true_eq] at hu
    exact hscope.statement_depth hs hu.1

/-- **Where declarations start.** What the walk through a text finds in a scope, be it the file or
the body of a contract, starts at a token of the depth of the scope, as long as no directive in front
of it has strayed; except for a constant in a block of some other statement, which is deeper. Behind
the first directive that has strayed, the walk is not at the depth of the scope any more. -/
theorem declared_at_scope_depth {text : List Char} {ts : List Token}
    (htokens : tokenize text = .ok ts) (path : String) {p : Place}
    (hplace : Comes ⟨path, text⟩ ts p) {m : Member} (hm : m ∈ walk ⟨path, text⟩ p.scope p.here)
    (hdeclares : m.diagnostic? = none) :
    ∃ q t rest front u, Comes ⟨path, text⟩ ts q ∧ Later p q ∧ q.here = t :: rest ∧
      m ∈ (turn ⟨path, text⟩ q.scope t rest).1 ∧ StartsAt t rest m front u ∧
      ((∀ made ∈ q.passed, ¬Strays made.1 made.2) →
        (u.depth = p.depth ↔ ∀ v ∈ front, v.isMark blockOpen = false)) ∧
      (∀ earlier last, q.passed = earlier ++ [last] →
        (∀ made ∈ earlier, ¬Strays made.1 made.2) → Strays last.1 last.2 → t.depth ≠ p.depth) := by
  have hts := leveled_of_tokenize htokens
  obtain ⟨q, t, rest, hq, hlater, hhere, hturn⟩ := exists_place_of_mem_walk hplace hm
  obtain ⟨hclose, front, u, hstarts⟩ := exists_startsAt hturn hdeclares
  refine ⟨q, t, rest, front, u, hq, hlater, hhere, hturn, hstarts, ?_, ?_⟩
  · intro hpassed
    have hscope := hq.inScope hts hpassed
    rw [hhere, hlater.depth] at hscope
    exact hstarts.depth_eq_iff hscope
  · intro earlier last hpassed hearlier hlast
    rw [← hlater.depth]
    exact hq.depth_ne_of_strays hts hpassed hearlier hlast hhere hclose

/-- The event of `contract A{event E();}` starts one brace deeper than the contract. -/
theorem declared_at_scope_depth_event :
    let text := "contract A\x7bevent E();\x7d".toList
    ∃ ts p, tokenize text = .ok ts ∧ Comes ⟨"A.sol", text⟩ ts p ∧ p.depth = 1 ∧ p.passed = [] ∧
      Member.event ⟨"E", [], false, 1, none⟩ ∈ walk ⟨"A.sol", text⟩ p.scope p.here ∧
      ∃ q t rest front u, Comes ⟨"A.sol", text⟩ ts q ∧ Later p q ∧ q.here = t :: rest ∧
        StartsAt t rest (.event ⟨"E", [], false, 1, none⟩) front u ∧
        ((∀ made ∈ q.passed, ¬Strays made.1 made.2) →
          (u.depth = 1 ↔ ∀ v ∈ front, v.isMark blockOpen = false)) := by
  intro text
  let tok (kind : TokenKind) (value : String) (start depth : Nat) : Token :=
    ⟨kind, value, start, start + value.length, 1, depth, 0, none⟩
  let body : List Token := [tok .word "event" 11 1, tok .word "E" 17 1, tok .mark "(" 18 1,
    tok .mark ")" 19 1, tok .mark ";" 20 1]
  let keyword := tok .word "contract" 0 0
  let name := tok .word "A" 9 0
  let opening := tok .mark blockOpen 10 0
  let ts := [keyword, name, opening] ++ body ++ [tok .mark blockClose 21 0]
  have htokens : tokenize text = .ok ts :=
    tokenize_eq_ok_iff.2 ⟨by decide +kernel, by decide +kernel⟩
  have hplace : Comes ⟨"A.sol", text⟩ ts ⟨some .contract, 1, [keyword, name, opening], [], body,
      [tok .mark blockClose 21 0]⟩ := by
    have hhead : Member.readContract keyword (ts.drop 1) =
        .ok ⟨.contract, "A", [], body, [], true⟩ := rfl
    have hrest : ts.drop 1 = [name] ++ opening :: (body ++ [tok .mark blockClose 21 0]) := rfl
    exact .enter .start (by decide) (by decide) hhead hrest (by decide) (by decide)
  have hmem : Member.event ⟨"E", [], false, 1, none⟩ ∈
      walk ⟨"A.sol", text⟩ (some .contract) body := by
    rw [walk_eq_turn]
    exact List.mem_append_left _ (List.mem_singleton.2 rfl)
  obtain ⟨q, t, rest, front, u, hq, hlater, hhere, -, hstarts, hdepth, -⟩ :=
    declared_at_scope_depth htokens "A.sol" hplace hmem rfl
  exact ⟨ts, _, htokens, hplace, rfl, rfl, hmem, q, t, rest, front, u, hq, hlater, hhere, hstarts,
    hdepth⟩

end AbiIndex.Source
