import AbiIndex.Proofs.EndlessExpansion
import AbiIndex.Proofs.LengthTexts
import AbiIndex.Proofs.TokenPlaces
import AbiIndex.Proofs.TypePrinting

/-!
# Lengths between brackets

Of the tokens between the brackets of an array type only their values are kept, one behind the
other. Where nothing but these characters stands between the brackets, the array has the length that
its tokens say; otherwise tokens that say nothing together may be taken for a length.

## Key results

- `eq_number_of_isChain`, `eq_lexemes_of_isChain`: which lexemes are written like a literal or like
  a dotted name
- `canonical_array_eq_ok_iff`: the canonical forms of arrays
- `not_record_of_lengthOf`: a declaration with an array without a length has no record
- `canonical_of_brackets`: what the tokens between two brackets make of an array
-/

namespace AbiIndex.Source

open AbiIndex.Text

/-! ## What is kept of the tokens between brackets -/

/-- The text that is kept of the tokens between two brackets. -/
def bracketText (inside : List Token) : Option String :=
  if String.join (inside.map (·.value)) = "" then none
  else some (String.join (inside.map (·.value)))

/-- The tokens stand as they are read: they are in ASCII, no quotes belong to them, and any two
neighbours touch, unless one of them is a point. -/
structure Joined (inside : List Token) : Prop where
  unquoted : ∀ t ∈ inside, t.kind ≠ .quoted
  ascii : ∀ t ∈ inside, ∀ c ∈ t.value.toList, c.toNat < 128
  touching : inside.IsChain fun t u => t.stop = u.start ∨ t.isMark "." ∨ u.isMark "."

/-! ## Lexemes with gaps around points -/

namespace Lexeme

section Chains

variable {ls : List Lexeme}

/-- Lexemes that can be told apart except in front of points. -/
def AbutsOrDot (l l' : Lexeme) : Prop := l.Abuts l' ∨ l' = sign "."

theorem text_flatMap_eq_nil (hsolid : ∀ l ∈ ls, l.isSolid) (h : ls.flatMap text = []) :
    ls = [] := by
  cases ls with
  | nil => rfl
  | cons l ls =>
    rw [List.flatMap_cons, List.append_eq_nil_iff] at h
    exact absurd h.1 (text_ne_nil_of_isWritten (isWritten_of_isSolid (hsolid l List.mem_cons_self)))

/-- What can be told apart and is written like a literal is a single number. -/
theorem eq_number_of_isChain (hsolid : ∀ l ∈ ls, l.isSolid) (hchain : ls.IsChain AbutsOrDot)
    {n : Nat} (hvalue : Abi.LiteralValue (ls.flatMap text) n) :
    ls = [.number (ls.flatMap text)] := by
  -- a literal holds no point
  have hdot : '.' ∉ ls.flatMap text := by
    obtain ⟨c, rest, heq, hc, hrest⟩ := hvalue.exists_digit
    rw [heq]
    rintro (_ | ⟨_, hmem⟩)
    · exact absurd hc (by decide)
    · exact absurd (hrest _ hmem) (by decide)
  -- the text is read in one way only, as the number and as these lexemes
  have hlegible : Legible ls := by
    refine ⟨fun l hl => isWritten_of_isSolid (hsolid l hl), hchain.imp_of_mem_imp ?_⟩
    rintro l l' - hl' (h | rfl)
    · exact h
    · exact absurd (List.mem_flatMap.2 ⟨_, hl', List.mem_singleton.2 rfl⟩) hdot
  have hnumber : Legible [.number (ls.flatMap text)] :=
    .cons (isWritten_of_isSolid hvalue.isSolid) .nil (by simp)
  have hscan := scan_eq_ok_iff.2 ⟨rfl, hlegible⟩
  have hscan' := scan_eq_ok_iff.2 ⟨List.flatMap_singleton .., hnumber⟩
  exact (Scan.mk.inj (hscan.symm.trans hscan')).1

theorem all_isWordPart {word : List Char} (h : (Lexeme.word word).isSolid) :
    word.all isWordPart := by
  have hname : isName (String.ofList word) := by rwa [isName, String.toList_ofList]
  rw [List.all_eq_true, ← String.toList_ofList (l := word)]
  exact Abi.isWordPart_of_isName hname

/-- A mark is a character that starts nothing else, or one of the double ones. -/
theorem mark_of_isSolid {text : List Char} (h : (Lexeme.mark text).isSolid) :
    (∃ c, text = [c] ∧ isBlank c = false ∧ isWordStart c = false) ∨
      ∃ m ∈ doubleMarks, text = [m.1, m.2] := by
  rcases text with _ | ⟨c, _ | ⟨d, _ | ⟨e, text⟩⟩⟩
  · cases h
  · simp only [isSolid, Bool.and_eq_true, Bool.not_eq_true'] at h
    exact .inl ⟨c, rfl, h.1.1.1.1, h.1.1.1.2⟩
  · rw [isSolid, List.contains_iff_mem] at h
    exact .inr ⟨(c, d), h, rfl⟩
  · cases h

/-- Only quoted texts can hold line breaks. -/
theorem not_mem_text_of_isSolid {l : Lexeme} (hsolid : l.isSolid) (hquoted : l.kind ≠ .quoted) :
    '\n' ∉ l.text := by
  cases l with
  | word text =>
    intro hmem
    exact absurd (List.all_eq_true.1 (all_isWordPart hsolid) '\n' hmem) (by decide)
  | number text =>
    cases text with
    | nil => cases hsolid
    | cons c cs =>
      rw [isSolid, Bool.and_eq_true] at hsolid
      rintro (_ | ⟨_, hmem⟩)
      · exact absurd hsolid.1 (by decide)
      · exact absurd (List.all_eq_true.1 hsolid.2 _ hmem) (by decide)
  | quoted quote body => exact absurd rfl hquoted
  | mark text =>
    rcases mark_of_isSolid hsolid with ⟨c, rfl, hblank, -⟩ | ⟨m, hm, rfl⟩
    · intro hmem
      obtain rfl := List.mem_singleton.1 hmem
      exact absurd hblank (by decide)
    · have hbreak : ∀ m ∈ doubleMarks, '\n' ∉ [m.1, m.2] := by decide
      exact hbreak m hm
  | _ => cases hsolid

/-- A lexeme that starts like a word is one. -/
theorem eq_word_of_isWordStart {l : Lexeme} (hsolid : l.isSolid) {c : Char} {cs : List Char}
    (htext : l.text = c :: cs) (hc : isWordStart c) : l = .word (c :: cs) := by
  cases l with
  | word text => exact congrArg _ htext
  | number text =>
    obtain rfl : text = c :: cs := htext
    rw [isSolid, Bool.and_eq_true] at hsolid
    rw [isWordStart_eq_false_of_isDigit hsolid.1] at hc
    cases hc
  | quoted quote body =>
    cases htext
    simp only [isSolid, Bool.and_eq_true, Bool.or_eq_true, decide_eq_true_eq] at hsolid
    rcases hsolid.1 with rfl | rfl <;> exact absurd hc (by decide)
  | mark text =>
    rcases mark_of_isSolid hsolid with ⟨c, rfl, -, hstart⟩ | ⟨m, hm, rfl⟩
    · cases htext
      cases hstart.symm.trans hc
    · have hfirst : ∀ m ∈ doubleMarks, isWordStart m.1 = false := by decide
      cases htext
      cases (hfirst m hm).symm.trans hc
  | _ => cases hsolid

/-- A lexeme that starts with a point is that point. -/
theorem eq_dot_of_text {l : Lexeme} (hsolid : l.isSolid) {cs : List Char}
    (htext : l.text = '.' :: cs) : l = sign "." := by
  cases l with
  | word text =>
    obtain rfl : text = '.' :: cs := htext
    cases hsolid
  | number text =>
    obtain rfl : text = '.' :: cs := htext
    rw [isSolid, Bool.and_eq_true] at hsolid
    exact absurd hsolid.1 (by decide)
  | quoted quote body =>
    cases htext
    cases hsolid
  | mark text =>
    rcases mark_of_isSolid hsolid with ⟨c, rfl, -⟩ | ⟨m, hm, rfl⟩
    · cases htext
      rfl
    · have hfirst : ∀ m ∈ doubleMarks, m.1 ≠ '.' := by decide
      exact absurd (List.cons.inj htext).1 (hfirst m hm)
  | _ => cases hsolid

/-- The text behind a word does not go on with it. -/
theorem head_of_isChain_word {word : List Char} (hsolid : ∀ l ∈ ls, l.isSolid)
    (hchain : (.word word :: ls).IsChain AbutsOrDot) :
    ∀ d ∈ (ls.flatMap text).head?, isWordPart d = false := by
  intro d hd
  cases ls with
  | nil => cases hd
  | cons l ls =>
    obtain ⟨e, es, hltext⟩ := List.exists_cons_of_ne_nil
      (text_ne_nil_of_isWritten (isWritten_of_isSolid (hsolid l List.mem_cons_self)))
    rw [List.flatMap_cons, hltext] at hd
    obtain rfl : e = d := Option.some.inj hd
    rcases (List.isChain_cons_cons.1 hchain).1 with habuts | rfl
    · have hends := habuts e (by rw [hltext]; rfl)
      simpa [endsBefore] using hends
    · cases hltext
      decide

/-- What starts with a word and goes on with a character that belongs to none starts with the lexeme
of that word. -/
theorem exists_eq_term_cons {first : Grammar.Ident} {tail : List Char}
    (htail : ∀ d ∈ tail.head?, isWordPart d = false) (hsolid : ∀ l ∈ ls, l.isSolid)
    (hchain : ls.IsChain AbutsOrDot) (htext : ls.flatMap text = first.text.toList ++ tail) :
    ∃ rest, ls = term first.text :: rest ∧ rest.flatMap text = tail := by
  have hfirst := first.solid
  rw [term] at hfirst ⊢
  generalize first.text.toList = word at hfirst htext ⊢
  cases word with
  | nil => cases hfirst
  | cons c cs =>
    cases ls with
    | nil => cases htext
    | cons l ls =>
      obtain ⟨hl, hls⟩ := List.forall_mem_cons.1 hsolid
      obtain ⟨c', cs', hltext⟩ := List.exists_cons_of_ne_nil
        (text_ne_nil_of_isWritten (isWritten_of_isSolid hl))
      rw [List.flatMap_cons, hltext] at htext
      obtain rfl : c' = c := (List.cons.inj htext).1
      have hstart : isWordStart c' := by
        rw [isSolid, Bool.and_eq_true] at hfirst
        exact hfirst.1
      obtain rfl := eq_word_of_isWordStart hl hltext hstart
      -- both words end where a character comes that belongs to none
      obtain ⟨htake, hdrop⟩ := takeWhile_append_of_head (all_isWordPart hl)
        (head_of_isChain_word hls hchain)
      obtain ⟨htake', hdrop'⟩ := takeWhile_append_of_head (all_isWordPart hfirst) htail
      rw [htext] at htake hdrop
      exact ⟨ls, by rw [← htake, htake'], hdrop.symm.trans hdrop'⟩

/-- What can be told apart except in front of points and is written like a dotted name is one. -/
theorem eq_lexemes_of_isChain {path : Grammar.Dotted} (hsolid : ∀ l ∈ ls, l.isSolid)
    (hchain : ls.IsChain AbutsOrDot) (htext : ls.flatMap text = path.lexemes.flatMap text) :
    ls = path.lexemes := by
  obtain ⟨first, more⟩ := path
  induction more generalizing first ls with
  | nil =>
    have hend : ∀ d ∈ ([] : List Char).head?, isWordPart d = false := by simp
    obtain ⟨rest, rfl, hrest⟩ := exists_eq_term_cons hend hsolid hchain htext
    rw [text_flatMap_eq_nil (List.forall_mem_cons.1 hsolid).2 hrest]
    rfl
  | cons n more ih =>
    have hdot : ∀ d ∈ ('.' :: (Grammar.Dotted.mk n more).lexemes.flatMap text).head?,
        isWordPart d = false := by
      rintro _ ⟨⟩
      decide
    -- the first part, the point behind it, and by induction the other parts
    obtain ⟨rest, rfl, hrest⟩ := exists_eq_term_cons hdot hsolid hchain htext
    obtain ⟨-, hsolid'⟩ := List.forall_mem_cons.1 hsolid
    cases rest with
    | nil => cases hrest
    | cons l rest =>
      obtain ⟨hl, hsolid''⟩ := List.forall_mem_cons.1 hsolid'
      obtain ⟨c, cs, hltext⟩ := List.exists_cons_of_ne_nil
        (text_ne_nil_of_isWritten (isWritten_of_isSolid hl))
      rw [List.flatMap_cons, hltext] at hrest
      obtain rfl : c = '.' := (List.cons.inj hrest).1
      obtain rfl := eq_dot_of_text hl hltext
      obtain rfl : [] = cs := (List.cons.inj hltext).2
      rw [ih hsolid'' hchain.tail.tail n (List.cons.inj hrest).2]
      rfl

end Chains

end Lexeme

/-! ## Tokens that touch -/

/-- A token without quotes is the lexeme that it was made of. -/
theorem lexeme_of_token? {l : Lexeme} {t : Token} (h : l.token? = some (t.kind, t.value))
    (hquoted : t.kind ≠ .quoted) : t.lexeme = l := by
  cases l with
  | quoted quote body => exact absurd (Prod.mk.inj (Option.some.inj h)).1.symm hquoted
  | word text =>
    obtain ⟨hkind, hvalue⟩ := Prod.mk.inj (Option.some.inj h)
    simp [Token.lexeme, ← hkind, ← hvalue]
  | number text =>
    obtain ⟨hkind, hvalue⟩ := Prod.mk.inj (Option.some.inj h)
    simp [Token.lexeme, ← hkind, ← hvalue]
  | mark text =>
    obtain ⟨hkind, hvalue⟩ := Prod.mk.inj (Option.some.inj h)
    simp [Token.lexeme, ← hkind, ← hvalue]
  | _ => cases h

/-- A token that another one touches is not continued by it. -/
theorem Tiles.abuts {text : List Char} {ts : List Token} (h : Tiles text ts) {t u : Token}
    (ht : t ∈ ts) (hu : u ∈ ts) (htquoted : t.kind ≠ .quoted) (huquoted : u.kind ≠ .quoted)
    (htouch : t.stop = u.start) : t.lexeme.Abuts u.lexeme := by
  obtain ⟨l, -, htoken, -, hends⟩ := h.lexeme t ht
  obtain ⟨l', -, htoken', hslice, -⟩ := h.lexeme u hu
  rw [lexeme_of_token? htoken htquoted, lexeme_of_token? htoken' huquoted]
  intro d hd
  apply hends
  -- the other token starts with the character behind this one
  have hlt := h.nonempty u hu
  rw [← hslice, slice, List.head?_drop, List.getElem?_take_of_lt hlt] at hd
  rwa [htouch]

section Joined

variable {text : List Char} {ts inside : List Token}

theorem flatMap_lexeme (htokens : tokenize text = .ok ts) (hinside : inside ⊆ ts)
    (hunquoted : ∀ t ∈ inside, t.kind ≠ .quoted) :
    (inside.map Token.lexeme).flatMap Lexeme.text =
      (String.join (inside.map (·.value))).toList := by
  rw [String.toList_join, List.flatMap_map, List.flatMap_map]
  exact List.flatMap_congr fun t ht =>
    (isSolid_lexeme_of_tokenize htokens (hinside ht) (hunquoted t ht)).2.symm

theorem isSolid_of_mem_map_lexeme (htokens : tokenize text = .ok ts) (hinside : inside ⊆ ts)
    (hunquoted : ∀ t ∈ inside, t.kind ≠ .quoted) : ∀ l ∈ inside.map Token.lexeme, l.isSolid := by
  intro l hl
  obtain ⟨t, ht, rfl⟩ := List.mem_map.1 hl
  exact (isSolid_lexeme_of_tokenize htokens (hinside ht) (hunquoted t ht)).1

/-- Tokens that stand as they are read can be told apart, except in front of points. -/
theorem Joined.isChain (h : Joined inside) (htokens : tokenize text = .ok ts)
    (hinside : inside ⊆ ts) : (inside.map Token.lexeme).IsChain Lexeme.AbutsOrDot := by
  rw [List.isChain_map]
  refine h.touching.imp_of_mem_imp fun t u ht hu => ?_
  rintro (htouch | hdot | hdot)
  · exact .inl (((tokenize_tiles text).2 ts htokens).abuts (hinside ht) (hinside hu)
      (h.unquoted t ht) (h.unquoted u hu) htouch)
  · rw [Token.lexeme_eq_sign_iff.2 hdot]
    exact .inl (Lexeme.abuts_of_opener (by decide) _)
  · exact .inr (Token.lexeme_eq_sign_iff.2 hdot)

/-- Tokens without quotes hold no line breaks. -/
theorem not_mem_value_of_tokenize (htokens : tokenize text = .ok ts) {t : Token} (ht : t ∈ ts)
    (hquoted : t.kind ≠ .quoted) : '\n' ∉ t.value.toList := by
  obtain ⟨hsolid, hvalue⟩ := isSolid_lexeme_of_tokenize htokens ht hquoted
  rw [hvalue]
  rw [← t.lexeme_value] at hvalue
  exact Lexeme.not_mem_text_of_isSolid hsolid (Lexeme.kind_ne_quoted hsolid hvalue)

end Joined

theorem bracketText_eq_none_iff {inside : List Token} :
    bracketText inside = none ↔ String.join (inside.map (·.value)) = "" := by
  rw [bracketText]
  split <;> simp_all

theorem bracketText_eq_some_iff {inside : List Token} {s : String} :
    bracketText inside = some s ↔ s ≠ "" ∧ String.join (inside.map (·.value)) = s := by
  rw [bracketText]
  split
  · rename_i h
    rw [h]
    simp [eq_comm]
  · rename_i h
    simp only [Option.some.injEq, ne_eq, iff_and_self]
    rintro rfl
    exact h

/-- The values of the tokens of a length are its text. -/
theorem bracketText_of_lexemes {inside : List Token} {length : Grammar.Length}
    (h : inside.map Token.lexeme = length.lexemes) : bracketText inside = length.text := by
  have hvalues : inside.map (·.value) = length.lexemes.map Lexeme.value := by
    rw [← h, List.map_map]
    exact List.map_congr_left fun t _ => t.lexeme_value.symm
  rw [bracketText, hvalues, length.join_values]

end AbiIndex.Source

namespace AbiIndex.Abi

open AbiIndex.Source Relation

section Lengths

variable {text : List Char} {ts inside : List Token} {reg : Registry} {scope : Scope}
  {len : Option Nat}

/-- Tokens that stand as they are read say what their text says. -/
theorem map_lexeme_eq_of_text (h : Joined inside) (htokens : tokenize text = .ok ts)
    (hinside : inside ⊆ ts) {length : Grammar.Length} (htext : length.text = bracketText inside)
    (hmeans : Means reg scope length len) : inside.map Token.lexeme = length.lexemes := by
  have hsolid := isSolid_of_mem_map_lexeme htokens hinside h.unquoted
  have hchain := h.isChain htokens hinside
  have hflat := flatMap_lexeme htokens hinside h.unquoted
  cases hmeans with
  | unstated =>
    rw [bracketText_eq_none_iff.1 htext.symm] at hflat
    exact Lexeme.text_flatMap_eq_nil hsolid hflat
  | @literal digits solid n hvalue =>
    rw [(bracketText_eq_some_iff.1 htext.symm).2, String.toList_ofList] at hflat
    rw [← hflat] at hvalue
    rw [Lexeme.eq_number_of_isChain hsolid hchain hvalue, hflat]
    rfl
  | @constant path home c n hdollar hd hvalue =>
    rw [(bracketText_eq_some_iff.1 htext.symm).2, ← path.text_lexemes] at hflat
    exact Lexeme.eq_lexemes_of_isChain hsolid hchain hflat

/-- The tokens of a length give an array what the length stands for. -/
theorem lengthOf_of_lexemes {length : Grammar.Length} (h : inside.map Token.lexeme = length.lexemes)
    (hmeans : Means reg scope length len) : LengthOf reg scope (bracketText inside) len := by
  rw [bracketText_of_lexemes h]
  exact lengthOf_of_means hmeans

/-- Tokens that stand as they are read give an array only what they say. -/
theorem lengthOf_iff_of_joined (h : Joined inside) (htokens : tokenize text = .ok ts)
    (hinside : inside ⊆ ts) : LengthOf reg scope (bracketText inside) len ↔
      ∃ length : Grammar.Length, inside.map Token.lexeme = length.lexemes ∧
        Means reg scope length len := by
  have hascii : ∀ s ∈ bracketText inside, ∀ c ∈ s.toList, c.toNat < 128 ∧ c ≠ '\n' := by
    intro s hs c hc
    rw [← (bracketText_eq_some_iff.1 hs).2, String.toList_join, List.flatMap_map,
      List.mem_flatMap] at hc
    obtain ⟨t, ht, hc⟩ := hc
    refine ⟨h.ascii t ht c hc, ?_⟩
    rintro rfl
    exact not_mem_value_of_tokenize htokens (hinside ht) (h.unquoted t ht) hc
  constructor
  · intro hlen
    obtain ⟨length, htext, hmeans⟩ := (lengthOf_iff_of_ascii hascii).1 hlen
    exact ⟨length, map_lexeme_eq_of_text h htokens hinside htext hmeans, hmeans⟩
  · rintro ⟨length, hlexemes, hmeans⟩
    exact lengthOf_of_lexemes hlexemes hmeans

/-! ## Arrays -/

/-- How the canonical form of an array ends. -/
def lengthSuffix : Option Nat → String
  | none => "[]"
  | some n => "[" ++ toString n ++ "]"

/-- The canonical form of an array is that of its elements and its length. -/
theorem canonical_array_eq_ok_iff {base : TypeRef} {length : Option String} {s : String} :
    canonical reg scope (.array base length) = .ok s ↔ ∃ t len, canonical reg scope base = .ok t ∧
      LengthOf reg scope length len ∧ s = t ++ lengthSuffix len := by
  rw [canonical, canonicalWithin, bind_eq_ok_iff]
  constructor
  · rintro ⟨t, ht, h⟩
    cases length with
    | none =>
      cases h
      exact ⟨t, none, ht, .dynamic, rfl⟩
    | some text =>
      obtain ⟨digits, hdigits, h⟩ := bind_eq_ok_iff.1 h
      cases h
      obtain ⟨n, hn, rfl⟩ := arrayLength_eq_ok_iff.1 hdigits
      exact ⟨t, some n, ht, .sized hn, by simp [lengthSuffix, String.append_assoc]⟩
  · rintro ⟨t, len, ht, hlen, rfl⟩
    refine ⟨t, ht, ?_⟩
    cases hlen with
    | dynamic => rfl
    | @sized text n hn =>
      refine bind_eq_ok_iff.2 ⟨_, arrayLength_eq_ok_iff.2 ⟨n, hn, rfl⟩, ?_⟩
      simp [lengthSuffix, String.append_assoc]
      rfl

/-- Whatever arrays a type with a canonical form leads to have lengths. -/
theorem exists_lengthOf_of_canonical {u : TypeUse} {home : Scope} {base : TypeRef}
    {length : Option String} {s : String} (h : canonical reg u.scope u.type = .ok s)
    (hway : ReflTransGen (Expands reg) u ⟨home, .array base length⟩) :
    ∃ len, LengthOf reg home length len := by
  obtain ⟨m, hm⟩ := canonicalWithin_sound h
  obtain ⟨n, t, ht⟩ := isFinite_of_reflTransGen hway ⟨m, s, hm⟩
  cases ht with
  | dynamic => exact ⟨none, .dynamic⟩
  | @sized _ _ _ _ _ len _ hlen => exact ⟨some len, .sized hlen⟩

/-- A declaration with a parameter whose type leads to an array without a length has no record: it
is reported, or ends the work on its file. -/
theorem not_record_of_lengthOf {path : String} {d : Declared} {p : Parameter} {home : Scope}
    {base : TypeRef} {length : Option String} (hp : p ∈ d.parameters)
    (hway : ReflTransGen (Expands reg) ⟨⟨path, d.contract⟩, p.type⟩ ⟨home, .array base length⟩)
    (hlength : ∀ len, ¬ LengthOf reg home length len) :
    (∀ r, ¬ d.Outcome reg path (.inl r)) ∧
      ((∃ report, d.Outcome reg path (.inr report)) ∨
        ∃ e, d.FailsWith reg path e ∧ e.IsFatal) := by
  have hrecord : ∀ r, ¬ d.Outcome reg path (.inl r) := by
    intro r hr
    cases hr with
    | record htypes =>
      obtain ⟨t, -, ht⟩ := exists_right_of_forall₂ htypes hp
      obtain ⟨len, hlen⟩ := exists_lengthOf_of_canonical ht hway
      exact hlength len hlen
  refine ⟨hrecord, ?_⟩
  cases hresolve : d.resolve reg path with
  | ok o =>
    have ho := Declared.resolve_eq_ok_iff.1 hresolve
    cases o with
    | inl r => exact absurd ho (hrecord r)
    | inr report => exact .inl ⟨report, ho⟩
  | error e => exact .inr ⟨e, Declared.resolve_eq_error_iff.1 hresolve⟩

end Lengths

/-! ## The tokens between two brackets -/

/-- The tokens between two brackets are read as an array whose length is their values, one behind
the other. What makes a length by itself gives the array that length, and where the tokens stand as
they are read, nothing else does; otherwise they give the array whatever length is written with the
same characters. A declaration with a parameter whose type leads to an array without a length has
no record: it is reported, or ends the work on its file. -/
theorem canonical_of_brackets {text : List Char} {before inside after : List Token}
    {opening closing : Token}
    (htokens : tokenize text = .ok (before ++ opening :: (inside ++ closing :: after)))
    (hopening : opening.isMark "[") (hclosing : closing.isMark "]")
    (hmatch : bracketsMatch (inside.map Token.lexeme)) (reg : Registry) (base : TypeRef) :
    (∀ within rest, TypeRef.readBrackets within base (opening :: (inside ++ closing :: rest)) =
      TypeRef.readBrackets within (.array base (bracketText inside)) rest) ∧
    (∀ scope s, canonical reg scope (.array base (bracketText inside)) = .ok s ↔
      ∃ t len, canonical reg scope base = .ok t ∧ LengthOf reg scope (bracketText inside) len ∧
        s = t ++ lengthSuffix len) ∧
    (∀ scope (length : Grammar.Length) len, inside.map Token.lexeme = length.lexemes →
      Means reg scope length len → LengthOf reg scope (bracketText inside) len) ∧
    (Joined inside → ∀ scope len, LengthOf reg scope (bracketText inside) len ↔
      ∃ length : Grammar.Length, inside.map Token.lexeme = length.lexemes ∧
        Means reg scope length len) ∧
    ((∀ s ∈ bracketText inside, ∀ c ∈ s.toList, c.toNat < 128 ∧ c ≠ '\n') →
      ∀ scope len, LengthOf reg scope (bracketText inside) len ↔
        ∃ length : Grammar.Length, length.text = bracketText inside ∧ Means reg scope length len) ∧
    (∀ path (d : Declared) p home, p ∈ d.parameters →
      ReflTransGen (Expands reg) ⟨⟨path, d.contract⟩, p.type⟩
        ⟨home, .array base (bracketText inside)⟩ →
      (∀ len, ¬ LengthOf reg home (bracketText inside) len) →
      (∀ r, ¬ d.Outcome reg path (.inl r)) ∧
        ((∃ report, d.Outcome reg path (.inr report)) ∨
          ∃ e, d.FailsWith reg path e ∧ e.IsFatal)) := by
  have hinside : inside ⊆ before ++ opening :: (inside ++ closing :: after) := by
    intro t ht
    simp [ht]
  refine ⟨fun within rest => ?_, fun scope s => canonical_array_eq_ok_iff, ?_, ?_, ?_, ?_⟩
  · exact Grammar.readBrackets_open hopening (closeNested_of_closes (by decide) hmatch hclosing)
  · exact fun scope length len => lengthOf_of_lexemes
  · exact fun hjoined scope len => lengthOf_iff_of_joined hjoined htokens hinside
  · exact fun hascii scope len => lengthOf_iff_of_ascii hascii
  · exact fun path d p home => not_record_of_lengthOf

/-- Two numbers with a space in between are no length by themselves, and give the array the length
that they would be without the space. -/
theorem canonical_of_brackets_twoNumbers :
    ∃ before opening inside closing after,
      tokenize "error A(uint[1 2] a);".toList =
        .ok (before ++ opening :: (inside ++ closing :: after)) ∧
      inside.map (·.value) = ["1", "2"] ∧
      (∀ length : Grammar.Length, inside.map Token.lexeme ≠ length.lexemes) ∧
      (∀ within rest, TypeRef.readBrackets within (.elementary "uint")
          (opening :: (inside ++ closing :: rest)) =
        TypeRef.readBrackets within (.array (.elementary "uint") (some "12")) rest) ∧
      canonical (Registry.ofUnits []) ⟨"A.sol", none⟩ (.array (.elementary "uint") (some "12")) =
        .ok "uint256[12]" := by
  let before : List Token :=
    [⟨.word, "error", 0, 5, 1, 0, 0, none⟩, ⟨.word, "A", 6, 7, 1, 0, 0, none⟩,
     ⟨.mark, "(", 7, 8, 1, 0, 0, none⟩, ⟨.word, "uint", 8, 12, 1, 0, 1, none⟩]
  let opening : Token := ⟨.mark, "[", 12, 13, 1, 0, 1, none⟩
  let inside : List Token :=
    [⟨.number, "1", 13, 14, 1, 0, 1, none⟩, ⟨.number, "2", 15, 16, 1, 0, 1, none⟩]
  let closing : Token := ⟨.mark, "]", 16, 17, 1, 0, 1, none⟩
  let after : List Token :=
    [⟨.word, "a", 18, 19, 1, 0, 1, none⟩, ⟨.mark, ")", 19, 20, 1, 0, 0, none⟩,
     ⟨.mark, ";", 20, 21, 1, 0, 0, none⟩]
  have htokens : tokenize "error A(uint[1 2] a);".toList =
      .ok (before ++ opening :: (inside ++ closing :: after)) :=
    tokenize_eq_ok_iff.2 ⟨by decide +kernel, by decide +kernel⟩
  have hlength : ∀ length : Grammar.Length, inside.map Token.lexeme ≠ length.lexemes := by
    rintro (_ | ⟨digits, solid⟩ | ⟨⟨first, more⟩⟩) h
    · cases h
    · cases h
    · cases h
  have hdigits : ∀ d ∈ ['2'], d.isDigit ∨ d = '_' := by simp
  have hvalue : LiteralValue ['1', '2'] 12 := .decimal rfl hdigits (by decide)
  have hbody : literalBody "12" = ['1', '2'] := rfl
  have hstates : StatesLength (Registry.ofUnits []) ⟨"A.sol", none⟩ "12" 12 :=
    .literal (isLiteral_iff.2 (hbody ▸ hvalue))
  obtain ⟨hread, hcanonical, -⟩ := canonical_of_brackets htokens (by decide) (by decide) (by decide)
    (Registry.ofUnits []) (.elementary "uint")
  exact ⟨before, opening, inside, closing, after, htokens, rfl, hlength, hread,
    (hcanonical _ _).2 ⟨"uint256", some 12, by rw [canonical, canonicalWithin]; rfl, .sized hstates,
      by decide⟩⟩

end AbiIndex.Abi
