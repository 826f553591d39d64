import AbiIndex.Proofs.DepthMatching
import Mathlib.Order.Bounds.Basic

/-!
# The partner of a delimiter

The partner of an opening delimiter is found by counting: it is the first token up to which as many
delimiters are closed as opened. The search compares depths instead, which stay at zero where a text
closes more than it opens. Behind an opening delimiter that is still open they cannot be at zero, so
that the search finds the same token in every text that can be read.

## Key results

- `Gauge.Marked.cutWhere_eq_closeNested`: comparing depths and counting find the same token
- `closeNested_place_iff`: counting finds the first token up to which the numbers are equal
- `cutWhere_eq_filter`: marks that stop a search only take away what stands behind them
- `partner_exact`: the partners of braces and parentheses, with and without such marks
-/

namespace AbiIndex.Source

/-! ## Partners -/

/-- Between the tokens at two indices, these included, as many delimiters are closed as opened. -/
def Balances (opener closer : String) (ts : List Token) (i j : Nat) : Prop :=
  ((ts.take (j + 1)).drop i).countP (·.isMark opener) =
    ((ts.take (j + 1)).drop i).countP (·.isMark closer)

/-- The token at the index `j` is the first one behind that at `i`, and in front of the index
`stop`, up to which as many delimiters are closed as opened. -/
def IsPartner (opener closer : String) (ts : List Token) (i stop j : Nat) : Prop :=
  IsLeast {j | i < j ∧ j < stop ∧ j < ts.length ∧ Balances opener closer ts i j} j

/-- The tokens behind an index and in front of another. -/
def tokensBetween (ts : List Token) (i stop : Nat) : List Token := (ts.take stop).drop (i + 1)

/-- The index of the token that a cut behind the index `i` hits. -/
def Cut.index (i : Nat) (c : Cut) : Nat := i + 1 + c.before.length

/-! ## Comparing depths and counting -/

/-- If `nesting` delimiters more are open than those around a pair, the first closing delimiter with
the depth of the pair is the one that closes `nesting + 1` of them. -/
theorem Gauge.Marked.cutWhere_eq_closeNested {g : Gauge} {level nesting : Nat} {ts : List Token}
    (h : g.Marked (level + 1 + nesting) ts) :
    cutWhere (fun t => t.isMark g.closer && g.mark t = level) (fun _ => false) ts =
      closeNested g.opener g.closer nesting ts := by
  induction ts generalizing nesting with
  | nil => rfl
  | cons t ts ih =>
    obtain ⟨hmark, hts⟩ := h
    rw [past] at hts
    rw [cutWhere, closeNested.eq_def]
    dsimp only
    rw [if_neg Bool.false_ne_true]
    by_cases hopen : t.isMark g.opener
    · have hclose : t.isMark g.closer = false := Token.isMark_eq_false_of_ne hopen g.distinct.symm
      rw [if_pos hopen] at hts ⊢
      rw [Nat.add_assoc] at hts
      rw [hclose, Bool.false_and, if_neg Bool.false_ne_true, ih hts]
    rw [if_neg hopen] at hts ⊢
    by_cases hclose : t.isMark g.closer
    · rw [if_pos hclose] at hmark hts ⊢
      rw [hclose, Bool.true_and]
      cases nesting with
      | zero => rw [if_pos (by rw [decide_eq_true_eq]; omega)]
      | succ n =>
        -- an inner pair is closed, one level deeper at least
        rw [if_neg (by rw [decide_eq_true_eq]; omega)]
        exact congrArg _ (ih hts)
    · rw [if_neg hclose] at hts ⊢
      rw [Bool.eq_false_iff.2 hclose, Bool.false_and, if_neg Bool.false_ne_true, ih hts]

/-- Up to a token of the sequence, that one included, `nesting + 1` delimiters more are closed than
opened. -/
def Overtakes (opener closer : String) (nesting : Nat) (ts : List Token) (k : Nat) : Prop :=
  k < ts.length ∧ nesting + 1 + (ts.take (k + 1)).countP (·.isMark opener) =
    (ts.take (k + 1)).countP (·.isMark closer)

/-- What holds at no place in front of `d` holds first where it does behind `d`. -/
theorem isLeast_iff_of_shift {p q : Nat → Prop} {d : Nat} (hlow : ∀ j < d, ¬ p j)
    (hshift : ∀ k, p (d + k) ↔ q k) {j : Nat} :
    IsLeast {j | p j} j ↔ ∃ k, IsLeast {k | q k} k ∧ d + k = j := by
  have hfrom {j : Nat} (hj : p j) : ∃ k, j = d + k :=
    Nat.exists_eq_add_of_le (Nat.le_of_not_lt fun hlt => hlow j hlt hj)
  constructor
  · rintro ⟨hj, hleast⟩
    obtain ⟨k, rfl⟩ := hfrom hj
    refine ⟨k, ⟨(hshift k).1 hj, fun m hm => ?_⟩, rfl⟩
    exact Nat.le_of_add_le_add_left (hleast ((hshift m).2 hm))
  · rintro ⟨k, ⟨hk, hleast⟩, rfl⟩
    refine ⟨(hshift k).2 hk, fun j hj => ?_⟩
    obtain ⟨m, rfl⟩ := hfrom hj
    exact Nat.add_le_add_left (hleast ((hshift m).1 hj)) d

/-- Counting finds the first token up to which `nesting + 1` delimiters more are closed than
opened. -/
theorem closeNested_place_iff {opener closer : String} (hne : closer ≠ opener) {nesting k : Nat}
    {ts : List Token} :
    (closeNested opener closer nesting ts).map (·.before.length) = some k ↔
      IsLeast {k | Overtakes opener closer nesting ts k} k := by
  induction ts generalizing nesting k with
  | nil => simp [closeNested, Overtakes, IsLeast]
  | cons t ts ih =>
    have hcount (p : Token → Bool) (m : Nat) : ((t :: ts).take (m + 1)).countP p =
        (ts.take m).countP p + if p t then 1 else 0 := by
      rw [List.take_succ_cons, List.countP_cons]
    -- if the first token is not the one, the search goes on with another number of open delimiters
    have hnext {n : Nat} (hzero : ¬ Overtakes opener closer nesting (t :: ts) 0)
        (hsucc : ∀ k, Overtakes opener closer nesting (t :: ts) (1 + k) ↔
          Overtakes opener closer n ts k) :
        ((closeNested opener closer n ts).map fun c => { c with before := t :: c.before }).map
            (·.before.length) = some k ↔
          IsLeast {k | Overtakes opener closer nesting (t :: ts) k} k := by
      have hlow : ∀ j < 1, ¬ Overtakes opener closer nesting (t :: ts) j := by
        intro j hj
        rwa [Nat.lt_one_iff.1 hj]
      rw [isLeast_iff_of_shift hlow hsucc, Option.map_map]
      simp only [← ih, Option.map_eq_some_iff, Function.comp, List.length_cons, Nat.add_comm 1]
      constructor
      · rintro ⟨c, hc, rfl⟩
        exact ⟨_, ⟨c, hc, rfl⟩, rfl⟩
      · rintro ⟨_, ⟨c, hc, rfl⟩, rfl⟩
        exact ⟨c, hc, rfl⟩
    rw [closeNested.eq_def]
    dsimp only
    by_cases hopen : t.isMark opener
    · have hclose : t.isMark closer = false := Token.isMark_eq_false_of_ne hopen hne.symm
      rw [if_pos hopen]
      refine hnext ?_ fun k => ?_
      · simp [Overtakes, hopen, hclose]
      · simp only [Overtakes, hcount, Nat.add_comm 1, List.length_cons, hopen, hclose, if_true,
          Bool.false_eq_true, if_false]
        omega
    rw [if_neg hopen]
    by_cases hclose : t.isMark closer
    · rw [if_pos hclose]
      cases nesting with
      | zero =>
        have hzero : Overtakes opener closer 0 (t :: ts) 0 := by simp [Overtakes, hopen, hclose]
        rw [Option.map_some, Option.some_inj]
        constructor
        · rintro rfl
          exact ⟨hzero, fun m _ => Nat.zero_le m⟩
        · rintro ⟨-, hleast⟩
          exact (Nat.le_zero.1 (hleast hzero)).symm
      | succ n =>
        refine hnext ?_ fun k => ?_
        · simp [Overtakes, hopen, hclose]
        · simp only [Overtakes, hcount, Nat.add_comm 1, List.length_cons, hopen, hclose, if_true,
            Bool.false_eq_true, if_false]
          omega
    · rw [if_neg hclose]
      refine hnext ?_ fun k => ?_
      · simp [Overtakes, hopen, hclose]
      · simp only [Overtakes, hcount, Nat.add_comm 1, List.length_cons, hopen, hclose,
          Bool.false_eq_true, if_false]
        omega

/-! ## Cuts with and without stops -/

/-- What stops a cut takes away the cuts in front of whose hit it stands. -/
theorem cutWhere_eq_filter (hit stop : Token → Bool) (ts : List Token) :
    cutWhere hit stop ts =
      (cutWhere hit (fun _ => false) ts).filter fun c => !c.before.any stop := by
  induction ts with
  | nil => rfl
  | cons t ts ih =>
    rw [cutWhere, cutWhere, if_neg Bool.false_ne_true, ih]
    split
    · rfl
    cases cutWhere hit (fun _ => false) ts with
    | none => simp
    | some c => by_cases hstop : stop t <;> simp [Option.filter, hstop, apply_ite]

section Index

theorem exists_drop_eq_append (ts : List Token) (i stop : Nat) :
    ∃ back, ts.drop (i + 1) = tokensBetween ts i stop ++ back := by
  rw [tokensBetween, List.drop_take]
  exact ⟨_, (List.take_append_drop _ _).symm⟩

/-- In front of what a cut hits stand the tokens with the indices in between. -/
theorem mem_before_iff {ts : List Token} {i stop : Nat} {c : Cut} {t : Token}
    (h : tokensBetween ts i stop = c.before ++ c.hit :: c.after) :
    t ∈ c.before ↔ ∃ k, i < k ∧ k < c.index i ∧ ts[k]? = some t := by
  obtain ⟨back, hback⟩ := exists_drop_eq_append ts i stop
  have hplace : ∀ m < c.before.length, c.before[m]? = ts[i + 1 + m]? := by
    intro m hm
    rw [← List.getElem?_drop, hback, h, List.append_assoc, List.getElem?_append_left hm]
  rw [List.mem_iff_getElem?, Cut.index]
  constructor
  · rintro ⟨m, hm⟩
    have hlt := (List.getElem?_eq_some_iff.1 hm).1
    exact ⟨i + 1 + m, by omega, by omega, hplace m hlt ▸ hm⟩
  · rintro ⟨k, hik, hkj, hk⟩
    obtain ⟨m, rfl⟩ := Nat.exists_eq_add_of_le hik
    exact ⟨m, (hplace m (by omega)).trans hk⟩

variable {opener closer : String} {ts : List Token} {i : Nat} {opening : Token}

/-- The tokens from an opening delimiter on are balanced where those behind it close one more than
they open. -/
theorem balances_iff_overtakes (hne : closer ≠ opener) (hi : ts[i]? = some opening)
    (hopening : opening.isMark opener) (stop k : Nat) :
    (i < i + 1 + k ∧ i + 1 + k < stop ∧ i + 1 + k < ts.length ∧
        Balances opener closer ts i (i + 1 + k)) ↔
      Overtakes opener closer 0 (tokensBetween ts i stop) k := by
  have hclose : opening.isMark closer = false := Token.isMark_eq_false_of_ne hopening hne.symm
  obtain ⟨hlt, hget⟩ := List.getElem?_eq_some_iff.1 hi
  have hdrop : ts.drop i = opening :: ts.drop (i + 1) := by
    rw [List.drop_eq_getElem_cons hlt, hget]
  have hpart : (ts.take (i + 1 + k + 1)).drop i = opening :: (ts.drop (i + 1)).take (k + 1) := by
    rw [List.drop_take, hdrop, show i + 1 + k + 1 - i = k + 1 + 1 by omega, List.take_succ_cons]
  have hbetween : tokensBetween ts i stop = (ts.drop (i + 1)).take (stop - (i + 1)) :=
    List.drop_take
  rw [Balances, Overtakes, hpart, hbetween, List.length_take, List.length_drop, List.take_take,
    List.countP_cons, List.countP_cons, if_pos hopening, hclose, if_neg Bool.false_ne_true]
  by_cases hk : i + 1 + k < stop
  · rw [Nat.min_eq_left (show k + 1 ≤ stop - (i + 1) by omega)]
    omega
  · exact iff_of_false (fun h => hk h.2.1) fun h => by have := h.1; omega

/-- The partner of an opening delimiter is the token that counting finds. -/
theorem closeNested_index_iff (hne : closer ≠ opener) (hi : ts[i]? = some opening)
    (hopening : opening.isMark opener) (stop j : Nat) :
    (closeNested opener closer 0 (tokensBetween ts i stop)).map (Cut.index i) = some j ↔
      IsPartner opener closer ts i stop j := by
  rw [IsPartner, isLeast_iff_of_shift (d := i + 1) (fun j hj h => by omega)
    (balances_iff_overtakes hne hi hopening stop)]
  simp only [← closeNested_place_iff hne, Option.map_eq_some_iff, Cut.index]
  constructor
  · rintro ⟨c, hc, rfl⟩
    exact ⟨_, ⟨c, hc, rfl⟩, rfl⟩
  · rintro ⟨_, ⟨c, hc, rfl⟩, rfl⟩
    exact ⟨c, hc, rfl⟩

/-- In a text that can be read, the depth of an opening delimiter finds its partner. -/
theorem Gauge.cutWhere_index_iff (g : Gauge) {text : List Char} (h : tokenize text = .ok ts)
    (hi : ts[i]? = some opening) (hopening : opening.isMark g.opener) (stop j : Nat) :
    (cutWhere (fun t => t.isMark g.closer && g.mark t = g.mark opening) (fun _ => false)
        (tokensBetween ts i stop)).map (Cut.index i) = some j ↔
      IsPartner g.opener g.closer ts i stop j := by
  have hclose : opening.isMark g.closer = false :=
    Token.isMark_eq_false_of_ne hopening g.distinct.symm
  -- the tokens are marked from the beginning of the text on, so also behind the opening delimiter
  obtain ⟨hlt, rfl⟩ := List.getElem?_eq_some_iff.1 hi
  have hsplit : ts = ts.take i ++ ts[i] :: ts.drop (i + 1) := by
    rw [← List.drop_eq_getElem_cons hlt, List.take_append_drop]
  have hmarked := g.marked_of_tokenize h
  rw [hsplit, Gauge.marked_append] at hmarked
  obtain ⟨hmark, hrest⟩ := hmarked.2
  rw [hclose, if_neg Bool.false_ne_true] at hmark
  rw [Gauge.past, if_pos hopening, ← hmark] at hrest
  obtain ⟨back, hback⟩ := exists_drop_eq_append ts i stop
  rw [hback, Gauge.marked_append] at hrest
  have hbetween : g.Marked (g.mark ts[i] + 1 + 0) (tokensBetween ts i stop) := hrest.1
  rw [hbetween.cutWhere_eq_closeNested, closeNested_index_iff g.distinct hi hopening]

end Index

/-- The depth of an opening delimiter finds its partner, if it has one, in every text that can be
read: braces, parentheses, and parentheses within one statement. -/
theorem partner_exact {text : List Char} {ts : List Token} (h : tokenize text = .ok ts) {i : Nat}
    {opening : Token} (hi : ts[i]? = some opening) (stop j : Nat) :
    (opening.isMark blockOpen →
      ((closeBrace opening (tokensBetween ts i stop)).map (Cut.index i) = some j ↔
        IsPartner blockOpen blockClose ts i stop j)) ∧
    (opening.isMark "(" →
      ((closeParen opening (tokensBetween ts i stop)).map (Cut.index i) = some j ↔
        IsPartner "(" ")" ts i stop j) ∧
      ((closeParenInStatement opening (tokensBetween ts i stop)).map (Cut.index i) = some j ↔
        IsPartner "(" ")" ts i stop j ∧
          ∀ k t, i < k → k < j → ts[k]? = some t → t.endsStatement = false)) := by
  refine ⟨fun hopening => Gauge.braces.cutWhere_index_iff h hi hopening stop j,
    fun hopening => ?_⟩
  have hparen := Gauge.parens.cutWhere_index_iff h hi hopening stop j
  refine ⟨hparen, ?_⟩
  rw [closeParenInStatement, cutWhere_eq_filter]
  refine Iff.trans ?_ (and_congr_left' hparen)
  simp only [Option.map_eq_some_iff, Option.filter_eq_some_iff, Bool.not_eq_true',
    List.any_eq_false]
  constructor
  · rintro ⟨c, ⟨hc, hstop⟩, rfl⟩
    refine ⟨⟨c, hc, rfl⟩, fun k t hik hkj hk => ?_⟩
    exact Bool.eq_false_iff.2 (hstop t ((mem_before_iff (cutWhere_eq hc)).2 ⟨k, hik, hkj, hk⟩))
  · rintro ⟨⟨c, hc, rfl⟩, hstop⟩
    refine ⟨c, ⟨hc, fun t ht => ?_⟩, rfl⟩
    obtain ⟨k, hik, hkj, hk⟩ := (mem_before_iff (cutWhere_eq hc)).1 ht
    exact Bool.eq_false_iff.1 (hstop k t hik hkj hk)

/-- Closing delimiters without a partner stand in front of the braces, and one that is never closed
behind them. A block opens between the first parentheses, so that they do not lie within one
statement. -/
theorem partner_exact_strayClosers :
    ∃ ts, tokenize ['}', ')', '{', '(', '{', ')', '}', '(', ')', '}', '{'] = .ok ts ∧
      IsPartner blockOpen blockClose ts 2 11 9 ∧
      (∀ j, ¬ IsPartner blockOpen blockClose ts 2 9 j) ∧
      IsPartner "(" ")" ts 3 11 5 ∧
      ¬ ∀ k t, 3 < k → k < 5 → ts[k]? = some t → t.endsStatement = false := by
  have hclosed : (Lexeme.scan
      ['}', ')', '{', '(', '{', ')', '}', '(', ')', '}', '{']).failure = none := by decide +kernel
  have htokens := tokenize_eq_ok_iff.2 ⟨hclosed, rfl⟩
  refine ⟨_, htokens, ?_⟩
  generalize hts : tokensFrom .start _ = ts at htokens ⊢
  have hbrace : (ts[2]?.map fun t => (t.isMark blockOpen,
      (closeBrace t (tokensBetween ts 2 11)).map (Cut.index 2),
      (closeBrace t (tokensBetween ts 2 9)).map (Cut.index 2))) = some (true, some 9, none) := by
    rw [← hts]
    decide +kernel
  have hparen : (ts[3]?.map fun t => (t.isMark "(",
      (closeParen t (tokensBetween ts 3 11)).map (Cut.index 3),
      (closeParenInStatement t (tokensBetween ts 3 11)).map (Cut.index 3))) =
      some (true, some 5, none) := by
    rw [← hts]
    decide +kernel
  obtain ⟨brace, hbrace, hfound⟩ := Option.map_eq_some_iff.1 hbrace
  obtain ⟨paren, hparen, hfound'⟩ := Option.map_eq_some_iff.1 hparen
  simp only [Prod.mk.injEq] at hfound hfound'
  have hpartner := ((partner_exact htokens hparen 11 5).2 hfound'.1).1.1 hfound'.2.1
  refine ⟨((partner_exact htokens hbrace 11 9).1 hfound.1).1 hfound.2.1, fun j hj => ?_, hpartner,
    fun hstatement => ?_⟩
  · have := ((partner_exact htokens hbrace 9 j).1 hfound.1).2 hj
    rw [hfound.2.2] at this
    cases this
  · have := ((partner_exact htokens hparen 11 5).2 hfound'.1).2.2 ⟨hpartner, hstatement⟩
    rw [hfound'.2.2] at this
    cases this

end AbiIndex.Source
