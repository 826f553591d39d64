import AbiIndex.Source.Token

/-!
# Delimited parts of a token sequence

Cutting a token sequence at a delimiter. A part between braces or parentheses ends at the closing
token with the depth of the opening one; inside a single type or parameter, where only a few tokens
are in view, it ends where as many closing as opening tokens have been seen.
-/

namespace AbiIndex.Source

/-- A token sequence around one of its tokens. -/
structure Cut where
  before : List Token
  hit : Token
  after : List Token

/-- Cuts at the first token that satisfies `hit`, unless a token that satisfies `stop` comes
first. -/
def cutWhere (hit stop : Token → Bool) : List Token → Option Cut
  | [] => none
  | t :: ts =>
    if hit t then some ⟨[], t, ts⟩
    else if stop t then none
    else (cutWhere hit stop ts).map fun c => { c with before := t :: c.before }

/-- The parts of a cut are the sequence that was cut. -/
theorem cutWhere_eq {hit stop : Token → Bool} {ts : List Token} {c : Cut}
    (h : cutWhere hit stop ts = some c) : ts = c.before ++ c.hit :: c.after := by
  induction ts generalizing c with
  | nil => simp [cutWhere] at h
  | cons t ts ih =>
    simp only [cutWhere] at h
    split at h
    · simp only [Option.some.injEq] at h
      rw [← h]
      rfl
    split at h
    · simp at h
    · simp only [Option.map_eq_some_iff] at h
      obtain ⟨c', hc, rfl⟩ := h
      simp [← ih hc]

theorem cutWhere_length {hit stop : Token → Bool} {ts : List Token} {c : Cut}
    (h : cutWhere hit stop ts = some c) :
    c.before.length + c.after.length + 1 = ts.length := by
  have := congrArg List.length (cutWhere_eq h)
  simp only [List.length_append, List.length_cons] at this
  omega

/-- Cuts at the first of the given marks, unless one of the marks in `stops` comes first. -/
def cutAtMark (value : String) (stops : List String) (ts : List Token) : Option Cut :=
  cutWhere (·.isMark value) (fun t => t.kind = .mark && t.value ∈ stops) ts

/-- Cuts at the brace that closes `opening`. -/
def closeBrace (opening : Token) (ts : List Token) : Option Cut :=
  cutWhere (fun t => t.isMark blockClose && t.depth = opening.depth) (fun _ => false) ts

/-- Cuts at the parenthesis that closes `opening`, whatever stands in between. -/
def closeParen (opening : Token) (ts : List Token) : Option Cut :=
  cutWhere (fun t => t.isMark ")" && t.parenDepth = opening.parenDepth) (fun _ => false) ts

/-- Cuts at the parenthesis that closes `opening`, unless the statement ends or a block begins or
ends before it. -/
def closeParenInStatement (opening : Token) (ts : List Token) : Option Cut :=
  cutWhere (fun t => t.isMark ")" && t.parenDepth = opening.parenDepth)
    (fun t => t.kind = .mark && t.value ∈ [blockOpen, blockClose, ";"]) ts

/-- Cuts at the mark `closer` that has as many marks `opener` as marks `closer` in front of it,
where `nesting` openers more have been seen already. -/
def closeNested (opener closer : String) : Nat → List Token → Option Cut
  | _, [] => none
  | nesting, t :: ts =>
    if t.isMark opener then
      (closeNested opener closer (nesting + 1) ts).map fun c => { c with before := t :: c.before }
    else if t.isMark closer then
      match nesting with
      | 0 => some ⟨[], t, ts⟩
      | n + 1 => (closeNested opener closer n ts).map fun c => { c with before := t :: c.before }
    else (closeNested opener closer nesting ts).map fun c => { c with before := t :: c.before }

theorem closeNested_eq {opener closer : String} {nesting : Nat} {ts : List Token} {c : Cut}
    (h : closeNested opener closer nesting ts = some c) : ts = c.before ++ c.hit :: c.after := by
  induction ts generalizing nesting c with
  | nil => simp [closeNested] at h
  | cons t ts ih =>
    simp only [closeNested] at h
    split at h
    · obtain ⟨c', hc, rfl⟩ := Option.map_eq_some_iff.1 h
      simp [← ih hc]
    split at h
    · split at h
      · simp only [Option.some.injEq] at h
        rw [← h]
        rfl
      · obtain ⟨c', hc, rfl⟩ := Option.map_eq_some_iff.1 h
        simp [← ih hc]
    · obtain ⟨c', hc, rfl⟩ := Option.map_eq_some_iff.1 h
      simp [← ih hc]

theorem closeNested_length {opener closer : String} {nesting : Nat} {ts : List Token} {c : Cut}
    (h : closeNested opener closer nesting ts = some c) :
    c.before.length + c.after.length + 1 = ts.length := by
  have := congrArg List.length (closeNested_eq h)
  simp only [List.length_append, List.length_cons] at this
  omega

/-- The names that follow a first one, each behind a point, and the rest. -/
def readDotted : List Token → List String × List Token
  | dot :: name :: rest =>
    if dot.isMark "." ∧ name.kind = .word then
      (name.value :: (readDotted rest).1, (readDotted rest).2)
    else ([], dot :: name :: rest)
  | rest => ([], rest)

theorem readDotted_length (ts : List Token) : (readDotted ts).2.length ≤ ts.length := by
  fun_induction readDotted ts with
  | case1 dot name rest _ ih => simp only [List.length_cons]; omega
  | case2 => simp
  | case3 => simp

end AbiIndex.Source
