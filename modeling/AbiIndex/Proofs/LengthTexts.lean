import AbiIndex.Proofs.Containment
import AbiIndex.Proofs.TypeReading
import Mathlib.Data.List.Induction
import Mathlib.Data.Nat.Digits.Defs

/-!
# What a length stands for

The lengths that can be written between the brackets of an array type are literals and dotted names
of constants. A text between brackets states a length exactly if it is the text of such a one and
that stands for a number.

## Key results

- `isLiteral_iff`: the integer literals and their values
- `lengthOf_of_means`: a length gives an array what it stands for
- `lengthOf_iff_of_ascii`: an ASCII text gives an array nothing else
-/

namespace AbiIndex.Grammar.Dotted

/-- The parts of a dotted name are words. -/
theorem isName_of_mem {path : Dotted} {name : String} (h : name ∈ path.names) :
    Source.isName name := by
  rcases List.mem_cons.1 h with rfl | h
  · exact path.first.solid
  · obtain ⟨n, -, rfl⟩ := List.mem_map.1 h
    exact n.solid

/-- Any words are the parts of a dotted name. -/
theorem exists_names {names : List String} (hne : names ≠ [])
    (h : ∀ name ∈ names, (Source.Lexeme.term name).isSolid) :
    ∃ path : Dotted, path.names = names := by
  obtain ⟨first, more, rfl⟩ := List.exists_cons_of_ne_nil hne
  obtain ⟨hfirst, hmore⟩ := List.forall_mem_cons.1 h
  refine ⟨⟨⟨first, hfirst⟩, more.pmap Ident.mk hmore⟩, ?_⟩
  have hmap : (more.pmap Ident.mk hmore).map (·.text) = more := by
    rw [List.map_pmap]
    exact List.pmap_eq_self.2 fun _ _ => rfl
  exact congrArg (first :: ·) hmap

end AbiIndex.Grammar.Dotted

namespace AbiIndex.Abi

open AbiIndex.Source AbiIndex.Text

/-! ## Integer literals -/

/-- The characters are an integer literal of the given value: decimal digits, or hexadecimal ones
behind `0x`, with underscores behind the first digit or the `x`. Both the digits of a decimal
literal and those that its value is written with have a limit. -/
inductive LiteralValue : List Char → Nat → Prop
  | decimal {c : Char} {cs : List Char} (hc : c.isDigit) (hcs : ∀ d ∈ cs, d.isDigit ∨ d = '_')
      (hlimit : ((c :: cs).filter Char.isDigit).length ≤ Number.maxDigits) :
      LiteralValue (c :: cs) (Nat.ofDigits 10 ((c :: cs).filterMap hexValue?).reverse)
  | hexadecimal {x : Char} {cs : List Char} (hx : x = 'x' ∨ x = 'X')
      (hcs : ∀ d ∈ cs, (hexValue? d).isSome ∨ d = '_') (hdigit : ∃ d ∈ cs, d ≠ '_')
      (hlimit : Nat.ofDigits 16 (cs.filterMap hexValue?).reverse < Nat.pow 10 Number.maxDigits) :
      LiteralValue ('0' :: x :: cs) (Nat.ofDigits 16 (cs.filterMap hexValue?).reverse)

theorem ofDigits_eq (base : Nat) (digits : List Nat) :
    Number.ofDigits base digits = Nat.ofDigits base digits.reverse := by
  induction digits using List.reverseRecOn with
  | nil => rfl
  | append_singleton digits d ih =>
    rw [Number.ofDigits, List.foldl_append, ← Number.ofDigits, ih, List.reverse_append,
      List.reverse_singleton, List.singleton_append, Nat.ofDigits_cons, List.foldl_cons,
      List.foldl_nil, Nat.mul_comm, Nat.add_comm]

theorem decimal_eq_some_iff {cs : List Char} {n : Nat} :
    integerLiteral.decimal cs = .ok (some n) ↔ ∃ c rest, cs = c :: rest ∧ c.isDigit ∧
      (∀ d ∈ rest, d.isDigit ∨ d = '_') ∧ (cs.filter Char.isDigit).length ≤ Number.maxDigits ∧
      n = Nat.ofDigits 10 (cs.filterMap hexValue?).reverse := by
  cases cs with
  | nil => simp [integerLiteral.decimal]
  | cons c rest =>
    rw [integerLiteral.decimal]
    by_cases hdigits : c.isDigit ∧ rest.all fun d => d.isDigit || d = '_'
    · have hrest : ∀ d ∈ rest, d.isDigit ∨ d = '_' := by simpa using hdigits.2
      have hall : ∀ d ∈ c :: rest, d.isDigit ∨ d = '_' :=
        List.forall_mem_cons.2 ⟨.inl hdigits.1, hrest⟩
      rw [if_pos hdigits, Number.readDecimal, length_filterMap_hexValue? hall, ofDigits_eq]
      split
      · rename_i heq
        split at heq
        · cases heq
        · cases heq
          constructor
          · rintro ⟨⟩
            exact ⟨c, rest, rfl, hdigits.1, hrest, by omega, rfl⟩
          · rintro ⟨_, _, -, -, -, -, rfl⟩
            rfl
      · rename_i heq
        split at heq
        · refine iff_of_false (by simp) ?_
          rintro ⟨_, _, -, -, -, hlimit, -⟩
          omega
        · cases heq
    · rw [if_neg hdigits]
      refine iff_of_false (by simp) ?_
      rintro ⟨_, _, ⟨⟩, hc, hrest, -, -⟩
      exact hdigits ⟨hc, by simpa using hrest⟩

theorem hexValue?_lt_of_isDigit {c : Char} {n : Nat} (hc : c.isDigit) (h : hexValue? c = some n) :
    n < 10 := by
  have hrange : '0' ≤ c ∧ c ≤ '9' := by
    simpa [Char.isDigit, Char.le_def] using hc
  rw [hexValue?, if_pos hrange] at h
  cases h
  have hle : c.toNat ≤ '9'.toNat := hrange.2
  have hnine : '9'.toNat - '0'.toNat = 9 := rfl
  omega

/-- A decimal literal with few enough digits has a value that can be written. -/
theorem ofDigits_decimal_lt {cs : List Char} (hcs : ∀ c ∈ cs, c.isDigit ∨ c = '_')
    (hlimit : (cs.filter Char.isDigit).length ≤ Number.maxDigits) :
    Nat.ofDigits 10 (cs.filterMap hexValue?).reverse < Nat.pow 10 Number.maxDigits := by
  have hdigits : ∀ n ∈ (cs.filterMap hexValue?).reverse, n < 10 := by
    intro n hn
    obtain ⟨c, hc, hvalue⟩ := List.mem_filterMap.1 (List.mem_reverse.1 hn)
    rcases hcs c hc with hdigit | rfl
    · exact hexValue?_lt_of_isDigit hdigit hvalue
    · have hnone : hexValue? '_' = none := by decide
      cases hnone.symm.trans hvalue
  have hlt := Nat.ofDigits_lt_base_pow_length (by decide) hdigits
  rw [List.length_reverse, length_filterMap_hexValue? hcs] at hlt
  -- the limit is too large for its power to be evaluated
  generalize Number.maxDigits = limit at hlimit ⊢
  exact hlt.trans_le (Nat.pow_le_pow_right (by decide) hlimit)

/-- A text is an integer literal if it is one without the line break at its end. -/
theorem isLiteral_iff {text : String} {n : Nat} :
    IsLiteral text n ↔ LiteralValue (literalBody text) n := by
  have hbody : (if text.toList.getLast? = some '\n' then text.toList.dropLast else text.toList) =
      literalBody text := rfl
  unfold IsLiteral integerLiteral
  simp only [hbody]
  generalize literalBody text = body
  constructor
  · rintro ⟨h, hlimit⟩
    have hdecimal : integerLiteral.decimal body = .ok (some n) → LiteralValue body n := by
      intro h
      obtain ⟨c, rest, rfl, hc, hrest, hdigits, rfl⟩ := decimal_eq_some_iff.1 h
      exact .decimal hc hrest hdigits
    split at h
    · -- what starts with a zero may be hexadecimal
      rename_i x rest
      split at h
      · rename_i hhex
        split at h
        · cases h
        · rename_i hunderscores
          cases h
          rw [ofDigits_eq] at hlimit ⊢
          refine .hexadecimal hhex.1 (by simpa using hhex.2.2) ?_ hlimit
          simpa using hunderscores
      · exact hdecimal h
    · exact hdecimal h
  · intro h
    cases h with
    | @decimal c cs hc hcs hlimit =>
      have hdecimal := decimal_eq_some_iff.2 ⟨c, cs, rfl, hc, hcs, hlimit, rfl⟩
      refine ⟨?_, ofDigits_decimal_lt (List.forall_mem_cons.2 ⟨.inl hc, hcs⟩) hlimit⟩
      split
      · rename_i x rest heq
        -- the second character of a decimal literal is no letter
        have hx : ¬ (x = 'x' ∨ x = 'X') := by
          cases heq
          rintro (rfl | rfl) <;> exact absurd (hcs _ List.mem_cons_self) (by decide)
        rw [if_neg fun hhex => hx hhex.1]
        exact hdecimal
      · exact hdecimal
    | @hexadecimal x cs hx hcs hdigit hlimit =>
      have hne : cs ≠ [] := by
        obtain ⟨d, hd, -⟩ := hdigit
        exact List.ne_nil_of_mem hd
      have hunderscores : ¬ cs.all (· = '_') := by simpa using hdigit
      refine ⟨?_, hlimit⟩
      split
      · rename_i heq
        cases heq
        rw [if_pos ⟨hx, hne, by simpa using hcs⟩, if_neg hunderscores, ofDigits_eq]
      · rename_i hno
        exact absurd rfl (hno x cs)

/-! ## Characters below 128 -/

/-- What holds of the first 128 characters holds of every ASCII character. -/
theorem of_ascii {p : Char → Bool} (hp : ∀ n < 128, p (Char.ofNat n)) {c : Char}
    (hc : c.toNat < 128) : p c := by
  rw [← Char.ofNat_toNat c]
  exact hp _ hc

theorem toNat_lt_of_hexValue? {c : Char} (h : (hexValue? c).isSome) : c.toNat < 128 := by
  rw [hexValue?] at h
  split at h
  · rename_i hrange
    exact Nat.lt_of_le_of_lt hrange.2 (by decide)
  split at h
  · rename_i hrange
    exact Nat.lt_of_le_of_lt hrange.2 (by decide)
  split at h
  · rename_i hrange
    exact Nat.lt_of_le_of_lt hrange.2 (by decide)
  · cases h

/-- An integer literal is a number without a point. -/
theorem LiteralValue.exists_digit {cs : List Char} {n : Nat} (h : LiteralValue cs n) :
    ∃ c rest, cs = c :: rest ∧ isDigit c ∧ ∀ d ∈ rest, Lexeme.isWordPart d := by
  have hdigit : ∀ d : Char, d.isDigit ∨ d = '_' → Lexeme.isWordPart d := by
    rintro d (hd | rfl)
    · exact isWordPart_of_isDigit hd
    · decide
  cases h with
  | @decimal c cs hc hcs =>
    have hrange : c.toNat < 128 := by
      obtain ⟨v, hv⟩ := hexValue?_of_isDigit hc
      exact toNat_lt_of_hexValue? (by rw [hv]; rfl)
    have hascii := of_ascii (p := fun c => !c.isDigit || isDigit c) (by decide) hrange
    exact ⟨c, cs, rfl, by simpa [hc] using hascii, fun d hd => hdigit d (hcs d hd)⟩
  | @hexadecimal x cs hx hcs =>
    refine ⟨'0', x :: cs, rfl, by decide, List.forall_mem_cons.2 ⟨?_, fun d hd => ?_⟩⟩
    · rcases hx with rfl | rfl <;> decide
    · rcases hcs d hd with hvalue | rfl
      · have hascii := of_ascii (p := fun c => !(hexValue? c).isSome || Lexeme.isWordPart c)
          (by decide) (toNat_lt_of_hexValue? hvalue)
        simpa [hvalue] using hascii
      · decide

theorem LiteralValue.isSolid {cs : List Char} {n : Nat} (h : LiteralValue cs n) :
    (Lexeme.number cs).isSolid := by
  obtain ⟨c, rest, rfl, hc, hrest⟩ := h.exists_digit
  rw [Lexeme.isSolid, hc, Bool.true_and, List.all_eq_true]
  exact fun d hd => by rw [Lexeme.isNumberPart, hrest d hd, Bool.true_or]

theorem toNat_lt_of_isWordPart {c : Char} (h : Lexeme.isWordPart c) : c.toNat < 128 := by
  rw [Lexeme.isWordPart, Lexeme.isWordStart, Bool.or_eq_true, Bool.or_eq_true, Bool.or_eq_true,
    beq_iff_eq, beq_iff_eq] at h
  rcases h with ((halpha | rfl) | rfl) | hdigit
  · delta Char.isAlpha Char.isUpper Char.isLower at halpha
    simp only [ge_iff_le, Bool.or_eq_true, Bool.and_eq_true, decide_eq_true_eq,
      UInt32.le_iff_toNat_le] at halpha
    change 65 ≤ c.val.toNat ∧ c.val.toNat ≤ 90 ∨ 97 ≤ c.val.toNat ∧ c.val.toNat ≤ 122 at halpha
    change c.val.toNat < 128
    omega
  · decide
  · decide
  · obtain ⟨v, hv⟩ := hexValue?_of_isDigit hdigit
    exact toNat_lt_of_hexValue? (by rw [hv]; rfl)

/-- The ASCII identifiers are the words of the source language without a dollar sign. -/
theorem isIdentifier_iff_of_ascii {name : String} (h : ∀ c ∈ name.toList, c.toNat < 128) :
    isIdentifier name.toList ↔ isName name ∧ '$' ∉ name.toList := by
  -- the two kinds of characters are compared for all 128 of them
  have hstart : ∀ c : Char, c.toNat < 128 →
      identifierStarts.contains c = (Lexeme.isWordStart c && c ≠ '$') := fun c hc => by
    have := of_ascii (p := fun c => identifierStarts.contains c ==
      (Lexeme.isWordStart c && c ≠ '$')) (by decide +kernel) hc
    simpa using this
  have hpart : ∀ c : Char, c.toNat < 128 →
      identifierParts.contains c = (Lexeme.isWordPart c && c ≠ '$') := fun c hc => by
    have := of_ascii (p := fun c => identifierParts.contains c ==
      (Lexeme.isWordPart c && c ≠ '$')) (by decide +kernel) hc
    simpa using this
  rw [isName]
  generalize name.toList = cs at h
  cases cs with
  | nil => simp [isIdentifier, Lexeme.isSolid]
  | cons c cs =>
    obtain ⟨hc, hcs⟩ := List.forall_mem_cons.1 h
    have hall : cs.all identifierParts.contains =
        cs.all fun d => Lexeme.isWordPart d && d ≠ '$' := by
      rw [Bool.eq_iff_iff, List.all_eq_true, List.all_eq_true]
      exact forall₂_congr fun d hd => by rw [hpart d (hcs d hd)]
    rw [isIdentifier, Lexeme.isSolid, hstart c hc, hall]
    simp only [Bool.and_eq_true, List.all_eq_true, decide_eq_true_eq, List.mem_cons, not_or]
    constructor
    · rintro ⟨⟨hword, hdollar⟩, hrest⟩
      exact ⟨⟨hword, fun d hd => (hrest d hd).1⟩, Ne.symm hdollar, fun hmem => (hrest _ hmem).2 rfl⟩
    · rintro ⟨⟨hword, hrest⟩, hdollar, hmem⟩
      refine ⟨⟨hword, Ne.symm hdollar⟩, fun d hd => ⟨hrest d hd, ?_⟩⟩
      rintro rfl
      exact hmem hd

/-! ## Lengths -/

/-- The length that the text between the brackets of an array type gives the array in a scope, if
there is such a text. -/
inductive LengthOf (reg : Registry) (scope : Scope) : Option String → Option Nat → Prop
  | dynamic : LengthOf reg scope none none
  | sized {text : String} {n : Nat} (h : StatesLength reg scope text n) :
      LengthOf reg scope (some text) (some n)

/-- What a written length stands for in a scope: nothing, the value of a literal, or the value of a
constant whose initializer is a literal. Dollar signs are not accepted in the names of constants. -/
inductive Means (reg : Registry) (scope : Scope) : Grammar.Length → Option Nat → Prop
  | unstated : Means reg scope .unstated none
  | literal {digits : List Char} {solid : (Lexeme.number digits).isSolid} {n : Nat}
      (h : LiteralValue digits n) : Means reg scope (.literal digits solid) (some n)
  | constant {path : Grammar.Dotted} {home : Scope} {c : ConstantDecl} {n : Nat}
      (hdollar : ∀ name ∈ path.names, '$' ∉ name.toList)
      (hd : reg.resolvePath scope path.names = .ok ⟨home, .constant c⟩)
      (h : LiteralValue (literalBody c.value) n) : Means reg scope (.constant path) (some n)

/-- A text without a line break at its end is a literal as it is. -/
theorem literalBody_of_not_mem {text : String} (h : '\n' ∉ text.toList) :
    literalBody text = text.toList := by
  rw [literalBody, if_neg]
  exact fun hlast => h (List.mem_of_getLast? hlast)

theorem subset_of_mem_pieces {p : Char → Bool} {cs piece : List Char} (h : piece ∈ pieces p cs) :
    piece ⊆ cs := by
  induction cs generalizing piece with
  | nil =>
    rw [pieces, List.mem_singleton] at h
    exact h ▸ List.Subset.refl _
  | cons c cs ih =>
    rw [pieces] at h
    split at h
    · rcases List.mem_cons.1 h with rfl | h
      · exact List.nil_subset _
      · exact List.Subset.trans (ih h) (List.subset_cons_self c cs)
    · split at h
      · rw [List.mem_singleton] at h
        rw [h]
        exact List.cons_subset_cons c (List.nil_subset cs)
      · rename_i first more heq
        rw [heq] at ih
        rcases List.mem_cons.1 h with rfl | h
        · exact List.cons_subset_cons c (ih List.mem_cons_self)
        · exact List.Subset.trans (ih (List.mem_cons_of_mem _ h)) (List.subset_cons_self c cs)

/-- A dotted name falls into its parts. -/
theorem pieces_dotted (path : Grammar.Dotted) :
    pieces (· = '.') (".".intercalate path.names).toList = path.names.map String.toList := by
  have hdot : ∀ part ∈ path.names.map String.toList, '.' ∉ part := by
    intro part hpart hmem
    obtain ⟨name, hname, rfl⟩ := List.mem_map.1 hpart
    have := isWordPart_of_isName (Grammar.Dotted.isName_of_mem hname) '.' hmem
    exact absurd this (by decide)
  rw [pieces_eq_splitOn, String.toList_intercalate]
  exact List.splitOn_intercalate '.' hdot (by simp [Grammar.Dotted.names])

section Lengths

variable {reg : Registry} {scope : Scope} {len : Option Nat}

/-- A length gives an array what it stands for. -/
theorem lengthOf_of_means {length : Grammar.Length} (h : Means reg scope length len) :
    LengthOf reg scope length.text len := by
  cases h with
  | unstated => exact .dynamic
  | @literal digits solid n h =>
    have hbreak : '\n' ∉ (String.ofList digits).toList := by
      rw [String.toList_ofList]
      obtain ⟨c, rest, rfl, hc, hrest⟩ := h.exists_digit
      rintro (_ | ⟨_, hmem⟩)
      · exact absurd hc (by decide)
      · exact absurd (hrest _ hmem) (by decide)
    refine .sized (.literal (isLiteral_iff.2 ?_))
    rwa [literalBody_of_not_mem hbreak, String.toList_ofList]
  | @constant path home c n hdollar hd h =>
    refine .sized (.constant home c ?_ ?_ (isLiteral_iff.2 h))
    · rw [pieces_dotted, List.all_map, List.all_eq_true]
      intro name hname
      have hisName := Grammar.Dotted.isName_of_mem hname
      exact (isIdentifier_iff_of_ascii fun c hc =>
        toNat_lt_of_isWordPart (isWordPart_of_isName hisName c hc)).2 ⟨hisName, hdollar name hname⟩
    · rw [pieces_dotted, List.map_map]
      simpa [Function.comp_def] using hd

/-- An ASCII text without line breaks gives an array only what the length that it is written as
stands for. -/
theorem lengthOf_iff_of_ascii {text : Option String}
    (htext : ∀ s ∈ text, ∀ c ∈ s.toList, c.toNat < 128 ∧ c ≠ '\n') :
    LengthOf reg scope text len ↔ ∃ length, length.text = text ∧ Means reg scope length len := by
  constructor
  · intro h
    cases h with
    | dynamic => exact ⟨.unstated, rfl, .unstated⟩
    | @sized text n h =>
      have hascii := htext text rfl
      cases h with
      | literal h =>
        have hvalue := isLiteral_iff.1 h
        rw [literalBody_of_not_mem fun hmem => (hascii _ hmem).2 rfl] at hvalue
        exact ⟨.literal text.toList hvalue.isSolid,
          by rw [Grammar.Length.text, String.ofList_toList],
          .literal hvalue⟩
      | constant home c hparts hd h =>
        have hjoin : ".".intercalate ((pieces (· = '.') text.toList).map String.ofList) = text := by
          rw [← String.toList_inj, String.toList_intercalate, List.map_map, pieces_eq_splitOn]
          simp [Function.comp_def]
        -- the parts of the text are words
        have hnames : ∀ name ∈ (pieces (· = '.') text.toList).map String.ofList,
            isName name ∧ '$' ∉ name.toList := by
          intro name hname
          obtain ⟨part, hpart, rfl⟩ := List.mem_map.1 hname
          have hidentifier := List.all_eq_true.1 hparts part hpart
          rw [← String.toList_ofList (l := part)] at hidentifier
          refine (isIdentifier_iff_of_ascii fun c hc => ?_).1 hidentifier
          rw [String.toList_ofList] at hc
          exact (hascii c (subset_of_mem_pieces hpart hc)).1
        obtain ⟨path, hpath⟩ := Grammar.Dotted.exists_names
          (by simpa using pieces_ne_nil _ _) fun name hname => (hnames name hname).1
        rw [← hpath] at hnames hjoin hd
        exact ⟨.constant path, by rw [Grammar.Length.text, hjoin],
          .constant (fun name hname => (hnames name hname).2) hd (isLiteral_iff.1 h)⟩
  · rintro ⟨length, rfl, h⟩
    exact lengthOf_of_means h

end Lengths

end AbiIndex.Abi
