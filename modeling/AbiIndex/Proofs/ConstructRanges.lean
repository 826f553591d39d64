import AbiIndex.Proofs.FaultIsolation
import AbiIndex.Proofs.ScopeDepth
import AbiIndex.Proofs.TokenPlaces

/-!
# The tokens of constructs

A walk goes through the tokens of a scope from its front to its end. Each turn takes at least one of
them, whether what starts there can be read, is malformed or declares nothing, and records at most
one construct. So the constructs of a scope stand in separate ranges of tokens, one behind the
other, and are listed by line.

## Key results

- `turn_single`: a turn records at most one construct
- `exists_token_of_mem_turn`: a construct has the line of a token that its turn takes
- `constructs_isRecorded`, `constructs_pairwise`: the ranges of the constructs of a scope
- `walk_moves_forward`: all this for every scope of a text, and the order of what is listed
-/

namespace AbiIndex.Source

/-! ## Ranges of tokens -/

/-- The tokens from the index `start` up to the index `stop`. -/
def tokenRange (ts : List Token) (start stop : Nat) : List Token := (ts.take stop).drop start

theorem tokenRange_append (front middle back : List Token) :
    tokenRange (front ++ middle ++ back) front.length (front.length + middle.length) = middle := by
  rw [tokenRange, ← List.length_append, List.take_left, List.drop_left]

/-- What is left of a range behind some of its tokens. -/
theorem tokenRange_append_rest (front taken rest back : List Token) :
    tokenRange (front ++ (taken ++ rest) ++ back) (front.length + taken.length)
      (front.length + (taken ++ rest).length) = rest := by
  have h := tokenRange_append (front ++ taken) rest back
  rw [List.length_append, Nat.add_assoc, ← List.length_append] at h
  simpa using h

/-! ## What a turn records -/

namespace Member

/-- Whether something was declared, rather than reported. -/
def isConstruct (m : Member) : Bool := m.diagnostic?.isNone

section Readers

variable {ts after : List Token} {ms : List Member}

/-- What a reader finds: at most one construct besides reports, and no contract. -/
structure IsFinding (ms : List Member) : Prop where
  single : (ms.filter isConstruct).length ≤ 1
  plain : ∀ m ∈ ms, m.contract? = none

theorem IsFinding.of_length_le (h : ms.length ≤ 1 ∧ ∀ m ∈ ms, m.contract? = none) :
    IsFinding ms := ⟨(List.length_filter_le _ _).trans h.1, h.2⟩

theorem readPragma_isFinding {origin : Origin} (h : readPragma origin ts = .ok (ms, after)) :
    IsFinding ms := by
  apply IsFinding.of_length_le
  obtain ⟨c, -, -, rfl | ⟨text, rfl⟩⟩ := readPragma_eq_ok h
  · simp
  · simp [contract?]

theorem readImport_isFinding (h : readImport ts = .ok (ms, after)) : IsFinding ms := by
  apply IsFinding.of_length_le
  obtain ⟨c, -, -, rfl | ⟨path, rfl⟩⟩ := readImport_eq_ok h
  · simp
  · simp [contract?]

/-- The report of a missing visibility stands beside its function. -/
theorem functionMembers_isFinding (origin : Origin) (scope : Option ContractKind) (keyword : Token)
    (name : String) (kind : FunctionKind) (parameters : List Parameter)
    (specifiers : List Specifier) :
    IsFinding (functionMembers origin scope keyword name kind parameters specifiers) := by
  unfold functionMembers
  dsimp only
  split
  · exact .of_length_le (by simp)
  · split
    · exact ⟨Nat.le_refl 1, by simp [Origin.report, contract?]⟩
    · exact .of_length_le (by simp [contract?])
  · exact .of_length_le (by simp [contract?])

theorem readFunction_isFinding {origin : Origin} {scope : Option ContractKind} {keyword : Token}
    (h : readFunction origin scope keyword ts = .ok (ms, after)) : IsFinding ms := by
  obtain ⟨parameters, header, specifiers, ending, behind, -, -, rfl | rfl, -⟩ := readFunction_eq_ok h
  · exact .of_length_le (by simp)
  · exact functionMembers_isFinding _ _ _ _ _ _ _

theorem read_isFinding {origin : Origin} {scope : Option ContractKind} {t : Token}
    (h : read origin scope t ts = .ok (ms, after)) : IsFinding ms := by
  rw [read_eq] at h
  split at h
  · exact readPragma_isFinding h
  split at h
  · exact readImport_isFinding h
  split at h
  · obtain ⟨m, rfl, -, hm⟩ := exists_of_namedReader? ‹_› h
    exact .of_length_le ⟨Nat.le_refl 1, List.forall_mem_singleton.2 hm⟩
  · exact readFunction_isFinding h

end Readers

end Member

section Turn

variable {origin : Origin} {scope : Option ContractKind} {t : Token} {rest : List Token}

/-- A turn records at most one construct. -/
theorem turn_single (origin : Origin) (scope : Option ContractKind) (t : Token)
    (rest : List Token) : ((turn origin scope t rest).1.filter Member.isConstruct).length ≤ 1 := by
  have hreports (ds : List Diagnostic) :
      (ds.map Member.diagnostic).filter Member.isConstruct = [] := by
    simp [Member.isConstruct, Member.diagnostic?]
  have hturn := turns_turn origin scope t rest
  generalize turn origin scope t rest = made at hturn ⊢
  cases hturn with
  | mark => exact Nat.zero_le 1
  | malformed => exact List.length_filter_le _ _
  | @contract head =>
    -- of a contract there are reports besides the contract itself
    have hbody : (Member.unclosedBody origin t head).filter Member.isConstruct = [] := by
      unfold Member.unclosedBody
      split
      · rfl
      · rfl
    rw [List.filter_append, List.filter_append, hbody, hreports]
    exact Nat.le_refl 1
  | declaration _ _ read => exact (Member.read_isFinding read).single
  | statement => exact (List.length_filter_le _ _).trans Option.length_toList_le

/-- A constant is noted in a statement that declares nothing else, and the turn takes the
statement. -/
theorem turn_of_constant {d : ConstantDecl} (h : .constant d ∈ (turn origin scope t rest).1) :
    (turn origin scope t rest).2 = (Member.splitStatement t.depth (t :: rest)).2 := by
  have hturn := turns_turn origin scope t rest
  generalize turn origin scope t rest = made at hturn h ⊢
  cases hturn with
  | mark => cases h
  | malformed => simp [Member.malformed, Origin.report] at h
  | contract => simp [Member.unclosedBody, Origin.report] at h
  | declaration _ _ read => cases (Member.read_isAt read _ h).1
  | statement => rfl

/-- A construct has the line of one of the tokens that its turn takes. -/
theorem exists_token_of_mem_turn {m : Member} (hm : m ∈ (turn origin scope t rest).1)
    (hconstruct : m.isConstruct) {line : Nat} (hline : m.line? = some line) :
    ∃ front u back, t :: rest = front ++ u :: (back ++ (turn origin scope t rest).2) ∧
      u.line = line := by
  obtain ⟨-, front, u, hstarts⟩ := exists_startsAt hm (Option.isNone_iff_eq_none.1 hconstruct)
  cases hstarts with
  | keyword hat =>
    obtain ⟨taken, htaken⟩ := (turn_ends origin scope t rest).suffix
    cases taken with
    | nil =>
      have hlength := turn_length origin scope t rest
      rw [← htaken] at hlength
      exact absurd hlength (Nat.lt_irrefl _)
    | cons first taken =>
      obtain ⟨rfl, -⟩ := List.cons.inj htaken
      exact ⟨[], first, taken, htaken.symm, (hat.2 line hline).symm⟩
  | @constant d _ back _ hsplit hfirst hu hat =>
    refine ⟨front, u, back, ?_, ?_⟩
    · have hparts := Member.splitStatement_append t.depth (t :: rest)
      rw [hsplit, ← turn_of_constant hm] at hparts
      rw [← hparts]
      simp
    · rw [← hat]
      exact Option.some.inj hline

end Turn

/-! ## Where turns are made -/

/-- In a scope that ends at the index `last`, the walk makes a turn at the token `t` of index `i`
and goes on at the index `j`. -/
structure Advances (origin : Origin) (scope : Option ContractKind) (ts : List Token)
    (last i j : Nat) (t : Token) (rest : List Token) : Prop where
  here : tokenRange ts i last = t :: rest
  next : (turn origin scope t rest).2 = tokenRange ts j last
  forward : i < j
  inside : j ≤ last
  /-- The tokens up to the one where the walk goes on say all that is recorded. -/
  own : turn origin scope t (rest.take (j - i)) =
    ((turn origin scope t rest).1, (turn origin scope t rest).2.take 1)
  /-- The name that is taken from behind a keyword stands there. -/
  named : Member.opensDeclaration t rest → (Member.namedReader? t.value).isSome →
    ∃ name, i + 1 < last ∧ ts[i + 1]? = some name ∧ name.kind = .word

section Advance

variable (origin : Origin) (scope : Option ContractKind) {t : Token} {rest taken : List Token}

/-- A turn does not need more than the first of the tokens behind those that it takes. -/
theorem turn_take (h : t :: rest = taken ++ (turn origin scope t rest).2) (hne : taken ≠ []) :
    turn origin scope t (rest.take taken.length) =
      ((turn origin scope t rest).1, (turn origin scope t rest).2.take 1) := by
  obtain ⟨s, rfl⟩ : ∃ s, taken = t :: s := by
    cases taken with
    | nil => exact absurd rfl hne
    | cons first s => exact ⟨s, by rw [(List.cons.inj h).1]⟩
  have hrest := (List.cons.inj h).2
  generalize hturn : turn origin scope t rest = found at *
  obtain ⟨ms, X⟩ := found
  change rest = s ++ X at hrest
  subst hrest
  have htake : (s ++ X).take (t :: s).length = s ++ X.take 1 := by
    rw [List.take_append, List.take_of_length_le (by simp)]
    simp
  rw [htake]
  cases X with
  | nil => simpa using hturn
  | cons u X =>
    refine turn_replace ⟨by simp, by simp, ?_⟩ hturn
    intro v Y heq _
    exact ⟨[], by rw [(List.cons.inj heq).1]; rfl⟩

/-- Wherever a walk makes a turn, it advances. -/
theorem advances (before beyond : List Token) (t : Token) (rest : List Token) :
    ∃ taken, t :: rest = taken ++ (turn origin scope t rest).2 ∧
      (t :: rest).length - (turn origin scope t rest).2.length = taken.length ∧
      Advances origin scope (before ++ (t :: rest) ++ beyond) (before.length + (t :: rest).length)
        before.length (before.length + taken.length) t rest := by
  obtain ⟨taken, htaken⟩ := (turn_ends origin scope t rest).suffix
  have hlength := congrArg List.length htaken
  have hless := turn_length origin scope t rest
  rw [List.length_append] at hlength
  have hne : taken ≠ [] := by
    rintro rfl
    rw [List.length_nil] at hlength
    omega
  refine ⟨taken, htaken.symm, by omega, tokenRange_append before (t :: rest) beyond, ?_, ?_, ?_,
    ?_, ?_⟩
  · generalize turn origin scope t rest = found at htaken ⊢
    rw [← htaken]
    exact (tokenRange_append_rest before taken found.2 beyond).symm
  · exact Nat.lt_add_of_pos_right (List.length_pos_iff.2 hne)
  · omega
  · rw [Nat.add_sub_cancel_left]
    exact turn_take origin scope htaken.symm hne
  · intro hopens hnamed
    obtain ⟨reader, hreader⟩ := Option.isSome_iff_exists.1 hnamed
    obtain ⟨name, more, rfl, hname⟩ := Member.exists_name_of_namedReader? hopens hreader
    refine ⟨name, by simp, ?_, hname⟩
    rw [List.append_assoc, List.getElem?_append_right (Nat.le_succ _)]
    simp

end Advance

/-! ## The constructs of a scope -/

/-- A construct that a walk records, and the range of tokens that its turn takes. -/
structure Construct where
  start : Nat
  stop : Nat
  member : Member

/-- The constructs of a scope whose tokens stand from the index `start` on, turn by turn. -/
def constructs (origin : Origin) (scope : Option ContractKind) (start : Nat) (ts : List Token) :
    List Construct :=
  match ts with
  | [] => []
  | t :: rest =>
    let found := turn origin scope t rest
    let stop := start + ((t :: rest).length - found.2.length)
    (found.1.filter Member.isConstruct).map (⟨start, stop, ·⟩)
      ++ constructs origin scope stop found.2
termination_by ts.length
decreasing_by exact turn_length origin scope t rest

/-- The construct is recorded by a turn in a scope that ends at the index `last`: the turn takes the
tokens of the construct, and has its line from one of them. -/
structure Construct.IsRecorded (c : Construct) (origin : Origin) (scope : Option ContractKind)
    (ts : List Token) (last : Nat) : Prop where
  turn : ∃ t rest, Advances origin scope ts last c.start c.stop t rest ∧
    c.member ∈ (Source.turn origin scope t rest).1 ∧ c.member.isConstruct
  line : ∀ line ∈ c.member.line?, ∃ k u, c.start ≤ k ∧ k < c.stop ∧ ts[k]? = some u ∧ u.line = line

section Constructs

variable (origin : Origin) (scope : Option ContractKind)

/-- Nothing that a walk declares is left out. -/
theorem map_member_constructs (start : Nat) (ts : List Token) :
    (constructs origin scope start ts).map (·.member) =
      (walk origin scope ts).filter Member.isConstruct := by
  fun_induction constructs origin scope start ts with
  | case1 start =>
    rw [walk]
    rfl
  | case2 start t rest found stop ih =>
    rw [walk_eq_turn, List.map_append, List.filter_append, ih]
    simp [found, Function.comp_def]

theorem isRecorded_of_mem_turn {before beyond taken rest : List Token} {t : Token} {m : Member}
    (htaken : t :: rest = taken ++ (turn origin scope t rest).2)
    (h : Advances origin scope (before ++ (t :: rest) ++ beyond)
      (before.length + (t :: rest).length) before.length (before.length + taken.length) t rest)
    (hm : m ∈ (turn origin scope t rest).1) (hconstruct : m.isConstruct) :
    Construct.IsRecorded ⟨before.length, before.length + taken.length, m⟩ origin scope
      (before ++ (t :: rest) ++ beyond) (before.length + (t :: rest).length) := by
  refine ⟨⟨t, rest, h, hm, hconstruct⟩, fun line hline => ?_⟩
  obtain ⟨front, u, back, hparts, hu⟩ := exists_token_of_mem_turn hm hconstruct hline
  have htaken' : taken = front ++ u :: back := by
    rw [htaken, ← List.cons_append, ← List.append_assoc] at hparts
    exact List.append_cancel_right hparts
  refine ⟨before.length + front.length, u, Nat.le_add_right _ _, ?_, ?_, hu⟩
  · rw [htaken', List.length_append, List.length_cons]
    dsimp only
    omega
  · rw [hparts, List.append_assoc, List.getElem?_append_right (Nat.le_add_right _ _),
      Nat.add_sub_cancel_left]
    simp

/-- Every construct of a scope is recorded there. -/
theorem constructs_isRecorded (before here beyond : List Token) :
    ∀ c ∈ constructs origin scope before.length here,
      c.IsRecorded origin scope (before ++ here ++ beyond) (before.length + here.length) := by
  generalize hstart : before.length = start
  fun_induction constructs origin scope start here generalizing before with
  | case1 start => simp
  | case2 start t rest found stop ih =>
    subst hstart
    obtain ⟨taken, htaken, hlength, hadvance⟩ := advances origin scope before beyond t rest
    rw [List.forall_mem_append]
    constructor
    · intro c hc
      obtain ⟨m, hm, rfl⟩ := List.mem_map.1 hc
      obtain ⟨hm, hconstruct⟩ := List.mem_filter.1 hm
      have hstop : stop = before.length + taken.length := congrArg (before.length + ·) hlength
      rw [hstop]
      exact isRecorded_of_mem_turn origin scope htaken hadvance hm hconstruct
    · -- the rest of the scope stands behind what the turn takes
      have hstop : (before ++ taken).length = stop := by
        rw [List.length_append, ← hlength]
      have hlast : stop + found.2.length = before.length + (t :: rest).length := by
        rw [← hstop, htaken, List.length_append, List.length_append, Nat.add_assoc]
      have hrest := ih (before ++ taken) hstop
      rwa [hlast, List.append_assoc before, ← htaken] at hrest

theorem le_start_of_mem_constructs (start : Nat) (ts : List Token) :
    ∀ c ∈ constructs origin scope start ts, start ≤ c.start := by
  fun_induction constructs origin scope start ts with
  | case1 start => simp
  | case2 start t rest found stop ih =>
    rw [List.forall_mem_append]
    constructor
    · intro c hc
      obtain ⟨m, -, rfl⟩ := List.mem_map.1 hc
      exact Nat.le_refl start
    · exact fun c hc => (Nat.le_add_right _ _).trans (ih c hc)

/-- The constructs of a scope stand one behind the other. -/
theorem constructs_pairwise (start : Nat) (ts : List Token) :
    (constructs origin scope start ts).Pairwise fun c d => c.stop ≤ d.start := by
  fun_induction constructs origin scope start ts with
  | case1 start => exact .nil
  | case2 start t rest found stop ih =>
    have hsingle : (found.1.filter Member.isConstruct).length ≤ 1 :=
      turn_single origin scope t rest
    rw [List.pairwise_append]
    refine ⟨?_, ih, fun c hc d hd => ?_⟩
    · -- there is no second construct in the turn
      refine List.pairwise_iff_getElem.2 fun i j hi hj hij => ?_
      rw [List.length_map] at hi hj
      omega
    · obtain ⟨m, -, rfl⟩ := List.mem_map.1 hc
      exact le_start_of_mem_constructs origin scope _ _ d hd

end Constructs

/-! ## The order of lines -/

/-- No token stands on an earlier line than one in front of it. -/
theorem pairwise_line_of_tokenize {text : List Char} {ts : List Token}
    (h : tokenize text = .ok ts) : ts.Pairwise fun t u => t.line ≤ u.line := by
  obtain ⟨ls, hlegible, -, hts⟩ := exists_legible_of_tokenize h
  have htiles := tiles_tokensFrom hlegible
  rw [← hts] at htiles
  refine htiles.ordered.imp_of_mem fun {t u} ht hu hle => ?_
  have hstart : t.start ≤ u.start := (htiles.nonempty t ht).le.trans hle
  rw [line_eq_count_take h ht, line_eq_count_take h hu]
  exact Nat.add_le_add_left ((List.take_prefix_take_left hstart).sublist.count_le _) 1

section Lines

variable {ts : List Token} (h : ts.Pairwise fun t u => t.line ≤ u.line)

include h

/-- A token further on stands on the same line or a later one. -/
theorem line_le_of_lt {i j : Nat} {t u : Token} (ht : ts[i]? = some t) (hu : ts[j]? = some u)
    (hij : i < j) : t.line ≤ u.line := by
  obtain ⟨hi, rfl⟩ := List.getElem?_eq_some_iff.1 ht
  obtain ⟨hj, rfl⟩ := List.getElem?_eq_some_iff.1 hu
  exact List.pairwise_iff_getElem.1 h i j hi hj hij

/-- A walk lists its constructs by line. -/
theorem pairwise_line_walk (origin : Origin) (scope : Option ContractKind) :
    ((walk origin scope ts).filterMap Member.line?).Pairwise (· ≤ ·) := by
  -- reports have no line of their own
  have hlines : (walk origin scope ts).filterMap Member.line? =
      (constructs origin scope 0 ts).filterMap (·.member.line?) := by
    have hmembers := map_member_constructs origin scope 0 ts
    rw [show (fun c : Construct => c.member.line?) = Member.line? ∘ Construct.member from rfl,
      ← List.filterMap_map, hmembers, List.filterMap_filter]
    congr 1
    funext m
    cases m <;> rfl
  have hrecorded := constructs_isRecorded origin scope [] ts []
  rw [List.append_nil, List.nil_append] at hrecorded
  rw [hlines, List.pairwise_filterMap]
  refine (constructs_pairwise origin scope 0 ts).imp_of_mem fun {c d} hc hd hcd => ?_
  intro m hm n hn
  obtain ⟨i, t, -, hi, ht, rfl⟩ := (hrecorded c hc).line m hm
  obtain ⟨j, u, hj, -, hu, rfl⟩ := (hrecorded d hd).line n hn
  exact line_le_of_lt h ht hu (by omega)

/-- So it lists the constructs of each kind by line. -/
theorem pairwise_line_pick {α : Type} {pick : Member → Option α} {line : α → Nat}
    (hpick : ∀ m d, pick m = some d → m.line? = some (line d)) (origin : Origin)
    (scope : Option ContractKind) :
    (((walk origin scope ts).filterMap pick).map line).Pairwise (· ≤ ·) := by
  have hwalk := pairwise_line_walk h origin scope
  rw [List.pairwise_filterMap] at hwalk
  rw [List.pairwise_map, List.pairwise_filterMap]
  exact hwalk.imp fun hmn d hd e he => hmn _ (hpick _ d hd) _ (hpick _ e he)

end Lines

/-- Each kind of declaration in the contract is listed by line. -/
structure ContractDecl.InLineOrder (c : ContractDecl) : Prop where
  functions : (c.functions.map (·.line)).Pairwise (· ≤ ·)
  events : (c.events.map (·.line)).Pairwise (· ≤ ·)
  errors : (c.errors.map (·.line)).Pairwise (· ≤ ·)
  structs : (c.structs.map (·.line)).Pairwise (· ≤ ·)
  enums : (c.enums.map (·.line)).Pairwise (· ≤ ·)
  valueTypes : (c.valueTypes.map (·.line)).Pairwise (· ≤ ·)
  constants : (c.constants.map (·.line)).Pairwise (· ≤ ·)

/-- Each kind of declaration in the file and in its contracts is listed by line. -/
structure SourceUnit.InLineOrder (unit : SourceUnit) : Prop where
  contracts : (unit.contracts.map (·.line)).Pairwise (· ≤ ·)
  events : (unit.events.map (·.line)).Pairwise (· ≤ ·)
  errors : (unit.errors.map (·.line)).Pairwise (· ≤ ·)
  structs : (unit.structs.map (·.line)).Pairwise (· ≤ ·)
  enums : (unit.enums.map (·.line)).Pairwise (· ≤ ·)
  valueTypes : (unit.valueTypes.map (·.line)).Pairwise (· ≤ ·)
  constants : (unit.constants.map (·.line)).Pairwise (· ≤ ·)
  inside : ∀ c ∈ unit.contracts, c.InLineOrder

/-- The contract that a turn records has the members that a walk finds in its body. -/
theorem exists_body_of_contract {origin : Origin} {scope : Option ContractKind} {t : Token}
    {rest : List Token} {c : ContractDecl} (h : .contract c ∈ (turn origin scope t rest).1) :
    ∃ head, Member.readContract t rest = .ok head ∧
      c = ContractDecl.ofMembers t head (walk origin (some head.kind) head.body) := by
  have hturn := turns_turn origin scope t rest
  generalize turn origin scope t rest = made at hturn h
  cases hturn with
  | mark => cases h
  | malformed => simp [Member.malformed, Origin.report] at h
  | @contract head _ _ read =>
    refine ⟨head, read, ?_⟩
    have hbody : .contract c ∉ Member.unclosedBody origin t head := by
      simp [Member.unclosedBody, Origin.report]
    simpa [hbody] using h
  | declaration _ _ read => cases (Member.read_isFinding read).plain _ h
  | statement => simp at h

/-- The body of a contract is a part of the tokens. -/
theorem Member.readContract_sublist {keyword : Token} {rest : List Token} {head : ContractHead}
    (h : readContract keyword rest = .ok head) : head.body.Sublist rest := by
  obtain ⟨opening, more, ⟨taken, -, rfl⟩, -, hbody⟩ := readContract_cases h
  have hmore : head.body.Sublist more := by
    rcases hbody with ⟨-, heq, -, -⟩ | ⟨c, hc, heq, -, -⟩
    · rw [heq]
    · rw [heq, cutWhere_eq hc]
      exact List.sublist_append_left _ _
  exact (hmore.cons opening).trans (List.sublist_append_right _ _)

section Units

variable {ts : List Token} (h : ts.Pairwise fun t u => t.line ≤ u.line)

include h

theorem inLineOrder_ofMembers (origin : Origin) (keyword : Token) {head : Member.ContractHead}
    (hbody : head.body.Sublist ts) :
    (ContractDecl.ofMembers keyword head (walk origin (some head.kind) head.body)).InLineOrder := by
  have hlines := h.sublist hbody
  constructor
  all_goals
    apply pairwise_line_pick hlines
    intro m d hd
    cases m <;> cases hd
    rfl

theorem inLineOrder_of_mem_walk (origin : Origin) (scope : Option ContractKind) {c : ContractDecl}
    (hc : .contract c ∈ walk origin scope ts) : c.InLineOrder := by
  have hmem : .contract c ∈ (constructs origin scope 0 ts).map (·.member) := by
    rw [map_member_constructs]
    exact List.mem_filter.2 ⟨hc, rfl⟩
  obtain ⟨recorded, hrecorded, hmember⟩ := List.mem_map.1 hmem
  obtain ⟨t, rest, hadvance, hturn, -⟩ :=
    (constructs_isRecorded origin scope [] ts [] recorded hrecorded).turn
  rw [hmember] at hturn
  obtain ⟨head, hhead, rfl⟩ := exists_body_of_contract hturn
  -- the body of the contract is a part of what is left of the scope
  have hrest : (t :: rest).Sublist ts := by
    rw [← hadvance.here, List.append_nil, List.nil_append]
    exact (List.drop_sublist _ _).trans (List.take_sublist _ _)
  exact inLineOrder_ofMembers h origin t
    ((Member.readContract_sublist hhead).trans ((List.sublist_cons_self t rest).trans hrest))

theorem inLineOrder_ofTokens (path : String) (category : Category) (text : List Char) :
    (SourceUnit.ofTokens path category text ts).InLineOrder := by
  refine ⟨?_, ?_, ?_, ?_, ?_, ?_, ?_, fun c hc => ?_⟩
  case refine_8 =>
    obtain ⟨m, hm, hcontract⟩ := List.mem_filterMap.1 hc
    cases m <;> cases hcontract
    exact inLineOrder_of_mem_walk h _ _ hm
  all_goals
    apply pairwise_line_pick h
    intro m d hd
    cases m <;> cases hd
    rfl

end Units

/-- **A walk moves forward.** Let the walk through a text come to a place in a scope, be it the file
or the body of a contract, at the index `first`, and let the scope end at the index `last`. The walk
is given the tokens between these indices, and no others. As long as there are some it makes a turn
and goes on further behind. What it declares from there on stands in ranges of tokens that follow
one another, and is listed by line, as is all that the unit of the text holds. -/
theorem walk_moves_forward {text : List Char} {ts : List Token} (htokens : tokenize text = .ok ts)
    (origin : Origin) (category : Category) {p : Place} (hplace : Comes origin ts p) :
    let first := p.before.length
    let last := first + p.here.length
    let cs := constructs origin p.scope first p.here
    (last ≤ ts.length ∧ p.here = tokenRange ts first last) ∧
    (∀ t rest, p.here = t :: rest → ∃ next, Advances origin p.scope ts last first next t rest) ∧
    cs.map (·.member) = (walk origin p.scope p.here).filter Member.isConstruct ∧
    (∀ c ∈ cs, first ≤ c.start ∧ c.IsRecorded origin p.scope ts last) ∧
    cs.Pairwise (fun c d => c.stop ≤ d.start) ∧
    ((walk origin p.scope p.here).filterMap Member.line?).Pairwise (· ≤ ·) ∧
    (SourceUnit.ofTokens origin.path category origin.text ts).InLineOrder := by
  intro first last cs
  have hts := hplace.tokens_eq
  have hlines := pairwise_line_of_tokenize htokens
  have hhere : p.here.Sublist ts := by
    rw [hts]
    exact (List.sublist_append_right _ _).trans (List.sublist_append_left _ _)
  refine ⟨⟨?_, ?_⟩, fun t rest heq => ?_, map_member_constructs origin p.scope first p.here,
    fun c hc => ⟨le_start_of_mem_constructs origin p.scope first p.here c hc, ?_⟩,
    constructs_pairwise origin p.scope first p.here,
    pairwise_line_walk (hlines.sublist hhere) origin p.scope, inLineOrder_ofTokens hlines _ _ _⟩
  · have hlength := congrArg List.length hts
    rw [List.length_append, List.length_append] at hlength
    omega
  · rw [hts]
    exact (tokenRange_append p.before p.here p.beyond).symm
  · obtain ⟨taken, -, -, hadvance⟩ := advances origin p.scope p.before p.beyond t rest
    rw [← heq, ← hts] at hadvance
    exact ⟨_, hadvance⟩
  · rw [hts]
    exact constructs_isRecorded origin p.scope p.before p.here p.beyond c hc

/-- The contract is not closed and its event is malformed; the error behind it is found. -/
theorem walk_moves_forward_unclosed :
    let text := "contract A\x7b\nevent E;\nerror F();".toList
    let origin : Origin := ⟨"A.sol", text⟩
    ∃ ts p, tokenize text = .ok ts ∧ Comes origin ts p ∧ p.before.length = 3 ∧
      p.here.length = 8 ∧
      (constructs origin p.scope 3 p.here).map (fun c => (c.start, c.stop)) = [(6, 11)] ∧
      (∀ t rest, p.here = t :: rest → ∃ next, Advances origin p.scope ts 11 3 next t rest) ∧
      (∀ c ∈ constructs origin p.scope 3 p.here, 3 ≤ c.start ∧ c.IsRecorded origin p.scope ts 11) ∧
      ((walk origin p.scope p.here).filterMap Member.line?).Pairwise (· ≤ ·) ∧
      (SourceUnit.ofTokens "A.sol" .contracts text ts).InLineOrder := by
  intro text origin
  let tok (kind : TokenKind) (value : String) (start line depth : Nat) : Token :=
    ⟨kind, value, start, start + value.length, line, depth, 0, none⟩
  let body : List Token := [tok .word "event" 12 2 1, tok .word "E" 18 2 1, tok .mark ";" 19 2 1,
    tok .word "error" 21 3 1, tok .word "F" 27 3 1, tok .mark "(" 28 3 1, tok .mark ")" 29 3 1,
    tok .mark ";" 30 3 1]
  let keyword := tok .word "contract" 0 1 0
  let name := tok .word "A" 9 1 0
  let opening := tok .mark blockOpen 10 1 0
  let ts := [keyword, name, opening] ++ body
  have htokens : tokenize text = .ok ts :=
    tokenize_eq_ok_iff.2 ⟨by decide +kernel, by decide +kernel⟩
  have hplace : Comes origin ts ⟨some .contract, 1, [keyword, name, opening], [], body, []⟩ := by
    have hhead : Member.readContract keyword (ts.drop 1) =
        .ok ⟨.contract, "A", [], body, [], false⟩ := rfl
    have hrest : ts.drop 1 = [name] ++ opening :: (body ++ []) := rfl
    exact .enter .start (by decide) (by decide) hhead hrest (by decide) (by decide)
  have hranges : (constructs origin (some .contract) 3 body).map (fun c => (c.start, c.stop)) =
      [(6, 11)] := by
    decide +kernel
  obtain ⟨-, hturns, -, hrecorded, -, hlines, hunit⟩ :=
    walk_moves_forward htokens origin .contracts hplace
  exact ⟨ts, _, htokens, hplace, rfl, rfl, hranges, hturns, hrecorded, hlines, hunit⟩

end AbiIndex.Source
