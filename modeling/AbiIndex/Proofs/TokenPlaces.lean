import AbiIndex.Proofs.OpenEnds
import AbiIndex.Proofs.Spelling

/-!
# Where tokens stand

Every token carries the place of its lexeme in the text and the line on which that starts. The
lexemes of a text follow one another without gaps, so that the tokens cover all of it but white
space and comments.

## Key results

- `mem_tokensFrom_iff`: the tokens of some lexemes, each with the place that a cursor has in front
  of its lexeme
- `Cursor.offset_along`, `Cursor.line_along`: this place counts the characters and the line breaks
  in front of it
- `tokenize_tiles`: when a text can be read, and that its tokens cover it
- `line_exact`: the lines of tokens and of failures
-/

namespace AbiIndex.Source

open AbiIndex.Text

/-! ## The places of lexemes -/

/-- How many characters some lexemes are written with. -/
def Lexeme.width (ls : List Lexeme) : Nat := (ls.flatMap text).length

@[simp] theorem Lexeme.width_nil : width [] = 0 := rfl

@[simp] theorem Lexeme.width_cons (l : Lexeme) (ls : List Lexeme) :
    width (l :: ls) = l.text.length + width ls := by
  rw [width, List.flatMap_cons, List.length_append, width]

@[simp] theorem Lexeme.width_append (xs ys : List Lexeme) :
    width (xs ++ ys) = width xs + width ys := by
  rw [width, List.flatMap_append, List.length_append, width, width]

namespace Cursor

/-- The place behind a lexeme. A token takes the documentation in front of it. -/
def next (here : Cursor) (l : Lexeme) : Cursor :=
  here.past l (if l.token?.isSome then none else PendingDoc.next here.line here.doc l)

/-- The place behind some lexemes. -/
def along (here : Cursor) (ls : List Lexeme) : Cursor := ls.foldl next here

theorem along_cons (here : Cursor) (l : Lexeme) (ls : List Lexeme) :
    here.along (l :: ls) = (here.next l).along ls := rfl

theorem offset_along (here : Cursor) (ls : List Lexeme) :
    (here.along ls).offset = here.offset + Lexeme.width ls := by
  induction ls generalizing here with
  | nil => rfl
  | cons l ls ih =>
    rw [along_cons, ih, Lexeme.width_cons, ← Nat.add_assoc]
    rfl

theorem line_along (here : Cursor) (ls : List Lexeme) :
    (here.along ls).line = here.line + (ls.flatMap Lexeme.text).count '\n' := by
  induction ls generalizing here with
  | nil => rfl
  | cons l ls ih =>
    rw [along_cons, ih, List.flatMap_cons, List.count_append, ← Nat.add_assoc]
    rfl

end Cursor

theorem tokensFrom_cons_of_none {l : Lexeme} (h : l.token? = none) (here : Cursor)
    (ls : List Lexeme) : tokensFrom here (l :: ls) = tokensFrom (here.next l) ls := by
  rw [tokensFrom, h, Cursor.next, h]
  rfl

theorem tokensFrom_cons_of_some {l : Lexeme} {kind : TokenKind} {value : String}
    (h : l.token? = some (kind, value)) (here : Cursor) (ls : List Lexeme) :
    tokensFrom here (l :: ls) = here.token l kind value :: tokensFrom (here.next l) ls := by
  rw [tokensFrom, h, Cursor.next, h]
  rfl

/-- The tokens of some lexemes are those of the single lexemes, each at its place. -/
theorem mem_tokensFrom_iff {here : Cursor} {ls : List Lexeme} {t : Token} :
    t ∈ tokensFrom here ls ↔ ∃ front l back kind value, ls = front ++ l :: back ∧
      l.token? = some (kind, value) ∧ t = (here.along front).token l kind value := by
  induction ls generalizing here with
  | nil => simp [tokensFrom]
  | cons l ls ih =>
    -- the lexeme is the first one, or one of the others
    have hsplit : (∃ front l' back kind value, l :: ls = front ++ l' :: back ∧
        l'.token? = some (kind, value) ∧ t = (here.along front).token l' kind value) ↔
        (∃ kind value, l.token? = some (kind, value) ∧ t = here.token l kind value) ∨
          t ∈ tokensFrom (here.next l) ls := by
      rw [ih]
      constructor
      · rintro ⟨front, l', back, kind, value, heq, htoken, rfl⟩
        cases front with
        | nil =>
          cases heq
          exact .inl ⟨kind, value, htoken, rfl⟩
        | cons first front =>
          cases heq
          exact .inr ⟨front, l', back, kind, value, rfl, htoken, rfl⟩
      · rintro (⟨kind, value, htoken, rfl⟩ | ⟨front, l', back, kind, value, rfl, htoken, rfl⟩)
        · exact ⟨[], l, ls, kind, value, rfl, htoken, rfl⟩
        · exact ⟨l :: front, l', back, kind, value, rfl, htoken, rfl⟩
    rw [hsplit]
    cases htoken : l.token? with
    | none => simp [tokensFrom_cons_of_none htoken]
    | some found =>
      obtain ⟨kind, value⟩ := found
      simp [tokensFrom_cons_of_some htoken]

/-! ## Tilings -/

/-- The characters of a text from one place up to another. -/
def slice (text : List Char) (start stop : Nat) : List Char := (text.take stop).drop start

/-- From one place of the text up to another stands a complete comment: one in a block, up to its
first closing mark, or one that goes up to the end of its line. -/
inductive IsCommentBetween (text : List Char) (start stop : Nat) : Prop
  | block {body : List Char} (htext : slice text start stop = '/' :: '*' :: (body ++ ['*', '/']))
      (hfirst : ¬ ['*', '/'] <:+: body ++ ['*'])
  | line {body : List Char} (htext : slice text start stop = '/' :: '/' :: body)
      (hbody : '\n' ∉ body) (hend : ∀ c ∈ text[stop]?, c = '\n')

/-- The tokens cover the text: they stand one behind the other, each is what the text says at its
place, and all other characters are white space or belong to comments between the tokens. -/
structure Tiles (text : List Char) (ts : List Token) : Prop where
  nonempty : ∀ t ∈ ts, t.start < t.stop
  ordered : ts.Pairwise fun t u => t.stop ≤ u.start
  inside : ∀ t ∈ ts, t.stop ≤ text.length
  value : ∀ t ∈ ts, t.value.toList =
    if t.kind = .quoted then slice text (t.start + 1) (t.stop - 1) else slice text t.start t.stop
  /-- A token is written as its kind demands, and the next character does not continue it. -/
  lexeme : ∀ t ∈ ts, ∃ l : Lexeme, l.IsWritten ∧ l.token? = some (t.kind, t.value) ∧
    slice text t.start t.stop = l.text ∧ ∀ c ∈ text[t.stop]?, l.endsBefore c
  gaps : ∀ i c, text[i]? = some c → (∀ t ∈ ts, i < t.start ∨ t.stop ≤ i) →
    isBlank c ∨ ∃ start stop, IsCommentBetween text start stop ∧ start ≤ i ∧ i < stop ∧
      ∀ t ∈ ts, stop ≤ t.start ∨ t.stop ≤ start

theorem slice_append (front middle back : List Char) :
    slice (front ++ middle ++ back) front.length (front.length + middle.length) = middle := by
  rw [slice, ← List.length_append, List.take_left, List.drop_left]

/-! ## Lexemes in a text -/

namespace Lexeme

section Split

variable {ls front back front' back' : List Lexeme} {l l' : Lexeme}

theorem slice_of_split (h : ls = front ++ l :: back) :
    slice (ls.flatMap text) (width front) (width front + l.text.length) = l.text := by
  rw [h, List.flatMap_append, List.flatMap_cons, ← List.append_assoc]
  exact slice_append _ _ _

theorem getElem?_of_split (h : ls = front ++ l :: back) :
    (ls.flatMap text)[width front + l.text.length]? = (back.flatMap text).head? := by
  rw [h, List.flatMap_append, List.flatMap_cons, ← List.append_assoc,
    List.getElem?_append_right (by rw [List.length_append, width]), List.length_append, width,
    Nat.sub_self, List.head?_eq_getElem?]

theorem width_le_of_split (h : ls = front ++ l :: back) :
    width front + l.text.length ≤ width ls := by
  rw [h, width_append, width_cons]
  omega

/-- Of two lexemes in a text one stands in front of the other, unless they are the same. -/
theorem apart_of_split (h : ls = front ++ l :: back) (h' : ls = front' ++ l' :: back') :
    (front = front' ∧ l = l') ∨ width front + l.text.length ≤ width front' ∨
      width front' + l'.text.length ≤ width front := by
  rcases List.append_eq_append_iff.1 (h.symm.trans h') with
    ⟨between, rfl, hrest⟩ | ⟨between, rfl, hrest⟩
  · cases between with
    | nil =>
      cases hrest
      exact .inl ⟨(List.append_nil front).symm, rfl⟩
    | cons first between =>
      cases hrest
      exact .inr (.inl (width_le_of_split rfl))
  · cases between with
    | nil =>
      cases hrest
      exact .inl ⟨List.append_nil front', rfl⟩
    | cons first between =>
      cases hrest
      exact .inr (.inr (width_le_of_split rfl))

end Split

/-- Every character of a text belongs to a lexeme. -/
theorem exists_split {ls : List Lexeme} {i : Nat} (h : i < width ls) :
    ∃ front l back, ls = front ++ l :: back ∧ width front ≤ i ∧
      i < width front + l.text.length := by
  induction ls generalizing i with
  | nil => simp at h
  | cons l ls ih =>
    by_cases hi : i < l.text.length
    · exact ⟨[], l, ls, rfl, Nat.zero_le i, by simpa using hi⟩
    · -- the place stands behind the first lexeme
      rw [width_cons] at h
      obtain ⟨front, l', back, rfl, hlow, hhigh⟩ := @ih (i - l.text.length) (by omega)
      have hwidth := width_cons l front
      exact ⟨l :: front, l', back, rfl, by omega, by omega⟩

end Lexeme

/-! ## The tokens of a text -/

section Tokens

variable {ls : List Lexeme} {t : Token}

/-- A token of a text belongs to a lexeme, from whose place, up to where it ends, it reaches. -/
theorem exists_split_of_mem (h : t ∈ tokensFrom .start ls) :
    ∃ front l back, ls = front ++ l :: back ∧
      l.token? = some (t.kind, t.value) ∧ t.start = Lexeme.width front ∧
      t.stop = Lexeme.width front + l.text.length ∧
      t.line = 1 + (front.flatMap Lexeme.text).count '\n' := by
  obtain ⟨front, l, back, kind, value, hsplit, htoken, rfl⟩ := mem_tokensFrom_iff.1 h
  have hoffset := Cursor.offset_along .start front
  rw [show Cursor.start.offset = 0 from rfl, Nat.zero_add] at hoffset
  exact ⟨front, l, back, hsplit, htoken, hoffset, congrArg (· + l.text.length) hoffset,
    Cursor.line_along .start front⟩

/-- A lexeme that becomes a token leaves one at its place. -/
theorem exists_mem_of_split {front back : List Lexeme} {l : Lexeme} (h : ls = front ++ l :: back)
    (htoken : l.token?.isSome) : ∃ t ∈ tokensFrom .start ls, t.start = Lexeme.width front ∧
      t.stop = Lexeme.width front + l.text.length := by
  obtain ⟨⟨kind, value⟩, htoken⟩ := Option.isSome_iff_exists.1 htoken
  have hoffset := Cursor.offset_along .start front
  rw [show Cursor.start.offset = 0 from rfl, Nat.zero_add] at hoffset
  exact ⟨_, mem_tokensFrom_iff.2 ⟨front, l, back, kind, value, h, htoken, rfl⟩, hoffset,
    congrArg (· + l.text.length) hoffset⟩

/-- The tokens stand in the order of their lexemes. -/
theorem pairwise_tokensFrom (here : Cursor) (ls : List Lexeme) :
    (tokensFrom here ls).Pairwise fun t u => t.stop ≤ u.start := by
  induction ls generalizing here with
  | nil => exact .nil
  | cons l ls ih =>
    cases htoken : l.token? with
    | none =>
      rw [tokensFrom_cons_of_none htoken]
      exact ih _
    | some found =>
      obtain ⟨kind, value⟩ := found
      rw [tokensFrom_cons_of_some htoken]
      refine .cons (fun u hu => ?_) (ih _)
      obtain ⟨front, l', back, kind', value', -, -, rfl⟩ := mem_tokensFrom_iff.1 hu
      exact (Nat.le_add_right _ _).trans (Cursor.offset_along (here.next l) front).ge

end Tokens

/-- A character of a lexeme that becomes no token is white space or belongs to a comment. -/
theorem isBlank_or_isCommentBetween {ls front back : List Lexeme} {l : Lexeme} {i : Nat} {c : Char}
    (hlegible : Lexeme.Legible ls) (hsplit : ls = front ++ l :: back) (htoken : l.token? = none)
    (hlow : Lexeme.width front ≤ i) (hhigh : i < Lexeme.width front + l.text.length)
    (hc : (ls.flatMap Lexeme.text)[i]? = some c) :
    isBlank c ∨ IsCommentBetween (ls.flatMap Lexeme.text) (Lexeme.width front)
      (Lexeme.width front + l.text.length) := by
  have htext := Lexeme.slice_of_split hsplit
  have hwritten : l.IsWritten := hlegible.written l (by simp [hsplit])
  cases l with
  | blank b =>
    -- the only character of the lexeme is the one at the place
    have hi : i = Lexeme.width front := by
      simp only [Lexeme.text, List.length_singleton] at hhigh
      omega
    rw [hsplit, List.flatMap_append, List.flatMap_cons, hi, Lexeme.width,
      List.getElem?_append_right (Nat.le_refl _), Nat.sub_self] at hc
    cases hc
    exact .inl hwritten
  | lineComment body =>
    refine .inr (.line htext hwritten fun d hd => ?_)
    rw [Lexeme.getElem?_of_split hsplit] at hd
    have hends := (hlegible.of_suffix ⟨front, hsplit.symm⟩).endsBefore d hd
    simpa [Lexeme.endsBefore] using hends
  | blockComment body => exact .inr (.block htext hwritten)
  | quoted quote body => cases htoken
  | word text => cases htoken
  | number text => cases htoken
  | mark text => cases htoken

/-- The value of a token is what the text says at its place, for a quoted text what stands between
its quotes. -/
theorem toList_of_token? {ls front back : List Lexeme} {l : Lexeme} {kind : TokenKind}
    {value : String} (hsplit : ls = front ++ l :: back) (htoken : l.token? = some (kind, value)) :
    value.toList = if kind = .quoted then
        slice (ls.flatMap Lexeme.text) (Lexeme.width front + 1)
          (Lexeme.width front + l.text.length - 1)
      else slice (ls.flatMap Lexeme.text) (Lexeme.width front)
        (Lexeme.width front + l.text.length) := by
  have htext := Lexeme.slice_of_split hsplit
  cases l with
  | quoted quote body =>
    cases htoken
    have hsource : ls.flatMap Lexeme.text = front.flatMap Lexeme.text ++ [quote] ++ body ++
        quote :: back.flatMap Lexeme.text := by
      simp [hsplit, Lexeme.text]
    have hstart : Lexeme.width front + 1 = (front.flatMap Lexeme.text ++ [quote]).length := by
      rw [Lexeme.width, List.length_append, List.length_singleton]
    have hstop : Lexeme.width front + (Lexeme.quoted quote body).text.length - 1 =
        (front.flatMap Lexeme.text ++ [quote]).length + body.length := by
      rw [← hstart]
      simp only [Lexeme.text, List.length_append, List.length_cons, List.length_nil]
      omega
    rw [if_pos rfl, hstop, hstart, hsource, slice_append, String.toList_ofList]
  | word text =>
    cases htoken
    rw [if_neg (by decide), htext, String.toList_ofList, Lexeme.text]
  | number text =>
    cases htoken
    rw [if_neg (by decide), htext, String.toList_ofList, Lexeme.text]
  | mark text =>
    cases htoken
    rw [if_neg (by decide), htext, String.toList_ofList, Lexeme.text]
  | blank c => cases htoken
  | lineComment body => cases htoken
  | blockComment body => cases htoken

/-- The tokens of a text that is put together from lexemes cover it. -/
theorem tiles_tokensFrom {ls : List Lexeme} (h : Lexeme.Legible ls) :
    Tiles (ls.flatMap Lexeme.text) (tokensFrom .start ls) where
  nonempty t ht := by
    obtain ⟨front, l, back, hsplit, -, hstart, hstop, -⟩ := exists_split_of_mem ht
    have hne := Lexeme.text_ne_nil_of_isWritten (h.written l (by simp [hsplit]))
    have := List.length_pos_iff.2 hne
    omega
  ordered := pairwise_tokensFrom _ _
  inside t ht := by
    obtain ⟨front, l, back, hsplit, -, -, hstop, -⟩ := exists_split_of_mem ht
    exact hstop ▸ Lexeme.width_le_of_split hsplit
  value t ht := by
    obtain ⟨front, l, back, hsplit, htoken, hstart, hstop, -⟩ := exists_split_of_mem ht
    rw [hstart, hstop]
    exact toList_of_token? hsplit htoken
  lexeme t ht := by
    obtain ⟨front, l, back, hsplit, htoken, hstart, hstop, -⟩ := exists_split_of_mem ht
    refine ⟨l, h.written l (by simp [hsplit]), htoken, ?_, fun c hc => ?_⟩
    · rw [hstart, hstop, Lexeme.slice_of_split hsplit]
    · rw [hstop, Lexeme.getElem?_of_split hsplit] at hc
      exact (h.of_suffix ⟨front, hsplit.symm⟩).endsBefore c hc
  gaps i c hc houtside := by
    have hi : i < Lexeme.width ls := (List.getElem?_eq_some_iff.1 hc).1
    obtain ⟨front, l, back, hsplit, hlow, hhigh⟩ := Lexeme.exists_split hi
    cases htoken : l.token?.isSome with
    | true =>
      -- the place stands in the token of its lexeme
      obtain ⟨t, ht, hstart, hstop⟩ := exists_mem_of_split hsplit htoken
      have := houtside t ht
      omega
    | false =>
      have hnone : l.token? = none := by simpa using htoken
      refine (isBlank_or_isCommentBetween h hsplit hnone hlow hhigh hc).imp_right fun hcomment => ?_
      -- the lexemes of tokens stand apart from that of a comment
      refine ⟨_, _, hcomment, hlow, hhigh, fun t ht => ?_⟩
      obtain ⟨front', l', back', hsplit', htoken', hstart, hstop, -⟩ := exists_split_of_mem ht
      rw [hstart, hstop]
      refine (Lexeme.apart_of_split hsplit hsplit').resolve_left ?_
      rintro ⟨-, rfl⟩
      cases hnone.symm.trans htoken'

/-- A text that is read is put together from lexemes, and its tokens are theirs. -/
theorem exists_legible_of_tokenize {text : List Char} {ts : List Token}
    (h : tokenize text = .ok ts) : ∃ ls, Lexeme.Legible ls ∧ ls.flatMap Lexeme.text = text ∧
      ts = tokensFrom .start ls := by
  obtain ⟨hclosed, rfl⟩ := tokenize_eq_ok_iff.1 h
  obtain ⟨htext, hlegible⟩ := Lexeme.scan_eq_ok_iff.1
    (show Lexeme.scan text = ⟨(Lexeme.scan text).lexemes, none⟩ by rw [← hclosed])
  exact ⟨_, hlegible, htext, rfl⟩

/-- A text can be read exactly if reading it never comes to something that is not closed, and then
its tokens cover it. -/
theorem tokenize_tiles (text : List Char) :
    ((∃ ts, tokenize text = .ok ts) ↔
      ¬ ∃ n what, Lexeme.Visits text n ∧ LeavesOpen (text.drop n) what) ∧
    ∀ ts, tokenize text = .ok ts → Tiles text ts := by
  refine ⟨⟨?_, fun h => ?_⟩, ?_⟩
  · rintro ⟨ts, hts⟩ ⟨n, what, hvisits, hopen⟩
    have herror : tokenize text = .error ⟨what, 1 + (text.take n).count '\n'⟩ :=
      tokenize_eq_error_iff_leavesOpen.2 ⟨n, hvisits, hopen, rfl⟩
    cases hts.symm.trans herror
  · cases htokens : tokenize text with
    | ok ts => exact ⟨ts, rfl⟩
    | error e =>
      obtain ⟨n, hvisits, hopen, -⟩ := tokenize_eq_error_iff_leavesOpen.1 htokens
      exact absurd ⟨n, e.what, hvisits, hopen⟩ h
  · intro ts hts
    obtain ⟨ls, hlegible, rfl, rfl⟩ := exists_legible_of_tokenize hts
    exact tiles_tokensFrom hlegible

/-- Quotes in comments open nothing, a line break behind a backslash does not end a quoted text, and
the closing mark of a comment shares no character with the opening one. -/
theorem tokenize_tiles_quoteInComment :
    (let text := "/* \" */x>>='a\\\n'//'".toList
      ∃ ts, tokenize text = .ok ts ∧ Tiles text ts ∧
        ts.map (fun t => (t.start, t.stop, t.value)) =
          [(7, 8, "x"), (8, 10, ">>"), (10, 11, "="), (11, 16, "a\\\n")]) ∧
    ¬ ∃ ts, tokenize "x/*/".toList = .ok ts := by
  constructor
  · have htokens := tokenize_eq_ok_iff.2
      ⟨show (Lexeme.scan "/* \" */x>>='a\\\n'//'".toList).failure = none by decide +kernel, rfl⟩
    exact ⟨_, htokens, (tokenize_tiles _).2 _ htokens, by decide +kernel⟩
  · rw [(tokenize_tiles _).1, not_not]
    have hread : Lexeme.read 'x' ['/', '*', '/'] = .ok (.word ['x'], ['/', '*', '/']) := rfl
    exact ⟨1, .comment, .step hread (.start _), .comment (by decide)⟩

/-- A token counts the line breaks in front of it. -/
theorem line_eq_count_take {text : List Char} {ts : List Token} (h : tokenize text = .ok ts)
    {t : Token} (ht : t ∈ ts) : t.line = 1 + (text.take t.start).count '\n' := by
  obtain ⟨ls, -, rfl, rfl⟩ := exists_legible_of_tokenize h
  obtain ⟨front, l, back, hsplit, -, hstart, -, hline⟩ := exists_split_of_mem ht
  rw [hline, hstart, hsplit, List.flatMap_append, Lexeme.width, List.take_left]

/-- The line of a token is that on which its lexeme starts, and the line of a failure that on which
the comment or the quoted text is opened. -/
theorem line_exact (text : List Char) :
    (∀ ts, tokenize text = .ok ts → ∀ t ∈ ts, t.line = 1 + (text.take t.start).count '\n') ∧
    ∀ e, tokenize text = .error e ↔ ∃ n, Lexeme.Visits text n ∧
      LeavesOpen (text.drop n) e.what ∧ e.line = 1 + (text.take n).count '\n' := by
  exact ⟨fun ts hts t ht => line_eq_count_take hts ht, fun e => tokenize_eq_error_iff_leavesOpen⟩

/-- The line breaks in a quoted text and in a comment count for what stands behind them, but not for
the place where these are opened. -/
theorem line_exact_quotedBreak :
    (let text := "'a\\\n'/*\n*/x".toList
      ∃ ts, tokenize text = .ok ts ∧ ts.map (·.line) = [1, 3] ∧
        ∀ t ∈ ts, t.line = 1 + (text.take t.start).count '\n') ∧
    tokenize ['\n', '\'', 'a', '\\', '\n'] = .error ⟨.quote, 2⟩ := by
  constructor
  · have htokens := tokenize_eq_ok_iff.2
      ⟨show (Lexeme.scan "'a\\\n'/*\n*/x".toList).failure = none by decide +kernel, rfl⟩
    exact ⟨_, htokens, by decide +kernel, (line_exact _).1 _ htokens⟩
  · have hread : Lexeme.read '\n' ['\'', 'a', '\\', '\n'] =
        .ok (.blank '\n', ['\'', 'a', '\\', '\n']) := rfl
    have hopen : ¬ IsClosedBy '\'' ['a', '\\', '\n'] :=
      (readQuoted_eq_none_iff (.inr rfl) _).1 rfl
    exact ((line_exact _).2 _).2 ⟨1, .step hread (.start _), .quote (.inr rfl) hopen, rfl⟩

end AbiIndex.Source
