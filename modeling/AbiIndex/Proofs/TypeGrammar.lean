import AbiIndex.Abi.Resolution
import AbiIndex.Proofs.CanonicalForm
import AbiIndex.Proofs.Provenance

/-!
# The grammar of canonical types

Canonical types as a language of their own, and why a signature can be taken apart again. In a
canonical type parentheses are balanced and every comma stands inside of some, so that the commas
outside all parentheses are those between the parameters.

## Key results

- `AbiType`: the grammar
- `Derives.abiType`: what has a derivation from types that are written in a source is in the grammar
- `decode_signature`: the name and the types of a signature can be read off it
-/

namespace AbiIndex.Abi

open AbiIndex.Source AbiIndex.Text

/-! ## The grammar -/

/-- The names of the built-in types, without those that are short for another one. -/
inductive ElementaryName : String → Prop
  | plain {name : String} (h : name ∈ ["address", "bool", "string", "bytes"]) : ElementaryName name
  | integer {sign : String} (hsign : sign ∈ ["int", "uint"]) {n : Nat} (hn : 0 < n ∧ n ≤ 32) :
      ElementaryName (sign ++ toString (8 * n))
  | fixedBytes {n : Nat} (hn : 0 < n ∧ n ≤ 32) : ElementaryName ("bytes" ++ toString n)
  | fixedPoint {sign : String} (hsign : sign ∈ ["fixed", "ufixed"]) {digits places : List Char}
      (hdigits : digits ≠ [] ∧ ∀ c ∈ digits, c.isDigit)
      (hplaces : places ≠ [] ∧ ∀ c ∈ places, c.isDigit) :
      ElementaryName (sign ++ String.ofList (digits ++ 'x' :: places))

/-- A canonical type: an elementary name, a function, or a list of types in parentheses, with any
number of array brackets behind it. -/
inductive AbiType : String → Prop
  | elementary {name : String} (h : ElementaryName name) : AbiType name
  | function : AbiType "function"
  | tuple {types : List String} (h : ∀ t ∈ types, AbiType t) :
      AbiType ("(" ++ ",".intercalate types ++ ")")
  | dynamic {s : String} (h : AbiType s) : AbiType (s ++ "[]")
  | sized {s : String} (h : AbiType s) (n : Nat) : AbiType (s ++ "[" ++ toString n ++ "]")

/-! ## Elementary types -/

theorem isWordPart_of_isName {name : String} (h : isName name) :
    ∀ c ∈ name.toList, Lexeme.isWordPart c := by
  rw [isName] at h
  cases hname : name.toList with
  | nil => simp
  | cons c cs =>
    rw [hname, Lexeme.isSolid, Bool.and_eq_true] at h
    refine List.forall_mem_cons.2 ⟨?_, List.all_eq_true.1 h.2⟩
    rw [Lexeme.isWordPart, h.1]
    rfl

/-- The decimal digits among the characters of words are those of ASCII. -/
theorem isDigit_of_isDecimalDigit {c : Char} (hc : Lexeme.isWordPart c) (h : isDecimalDigit c) :
    c.isDigit := by
  -- no other decimal digit lies among the letters of ASCII
  have hcode : 48 ≤ c.toNat ∧ c.toNat ≤ 57 ∨ 0xb2 ≤ c.toNat := by
    rw [isDecimalDigit, CharSet.contains, decimalDigits, CharSet.has, CharSet.has] at h
    split at h
    · cases h
    · split at h
      · simp only [Bool.or_false, decide_eq_true_eq] at h
        omega
      · omega
  rw [Lexeme.isWordPart, Lexeme.isWordStart_eq_false_of_toNat hcode] at hc
  exact hc

/-- The names that are short for another one. -/
def aliases : List String := ["uint", "int", "byte", "fixed", "ufixed", "address payable"]

theorem canonicalElementary_of_not_mem {name : String} (h : name ∉ aliases) :
    canonicalElementary name = name := by
  unfold canonicalElementary
  split <;> first | rfl | exact absurd (by decide) h

/-- The sizes of a fixed point number are the digits in front of an `x` and behind it. -/
theorem exists_sizes_of_isFixedPointSize {cs : List Char} (hcs : ∀ c ∈ cs, Lexeme.isWordPart c)
    (h : isFixedPointSize cs) : ∃ digits places, cs = digits ++ 'x' :: places ∧
      (digits ≠ [] ∧ ∀ c ∈ digits, c.isDigit) ∧ (places ≠ [] ∧ ∀ c ∈ places, c.isDigit) := by
  unfold isFixedPointSize at h
  rw [Bool.and_eq_true] at h
  obtain ⟨hdigits, h⟩ := h
  split at h
  · rename_i places hplaces
    rw [Bool.and_eq_true] at h
    have hsplit : cs.takeWhile isDecimalDigit ++ cs.dropWhile isDecimalDigit = cs :=
      List.takeWhile_append_dropWhile
    rw [hplaces] at hsplit
    refine ⟨cs.takeWhile isDecimalDigit, places, hsplit.symm, ⟨?_, ?_⟩, ?_, ?_⟩
    · simpa using hdigits
    · intro c hc
      exact isDigit_of_isDecimalDigit (hcs c (List.takeWhile_subset _ hc))
        (List.mem_takeWhile_imp hc)
    · simpa using h.1
    · intro c hc
      have hmem : c ∈ cs := by
        rw [← hsplit]
        exact List.mem_append_right _ (List.mem_cons_of_mem _ hc)
      exact isDigit_of_isDecimalDigit (hcs c hmem) (List.all_eq_true.1 h.2 c hc)
  · cases h

/-- A name that ends in digits is not short for another one. -/
theorem canonicalElementary_append_digits (s : String) {cs : List Char} (hne : cs ≠ [])
    (hcs : ∀ c ∈ cs, c.isDigit) :
    canonicalElementary (s ++ String.ofList cs) = s ++ String.ofList cs := by
  apply canonicalElementary_of_not_mem
  intro hmem
  -- none of the short names ends in a digit
  have hlast : ∀ a ∈ aliases, a.toList.getLast?.any Char.isDigit = false := by decide
  have hdigit := hlast _ hmem
  rw [String.toList_append, String.toList_ofList, List.getLast?_append_of_ne_nil _ hne,
    List.getLast?_eq_some_getLast hne, Option.any_some, hcs _ (List.getLast_mem hne)] at hdigit
  cases hdigit

theorem toString_eq_ofList (n : Nat) :
    toString n = String.ofList (Nat.toDigits 10 n) ∧ Nat.toDigits 10 n ≠ [] ∧
      ∀ c ∈ Nat.toDigits 10 n, c.isDigit :=
  ⟨rfl, Nat.toDigits_ne_nil, fun _ hc => Nat.isDigit_of_mem_toDigits (by decide) (by decide) hc⟩

theorem canonicalElementary_append_toString (s : String) (n : Nat) :
    canonicalElementary (s ++ toString n) = s ++ toString n := by
  obtain ⟨heq, hne, hdigits⟩ := toString_eq_ofList n
  rw [heq, canonicalElementary_append_digits s hne hdigits]

theorem elementaryName_of_mem_integerNames {name : String} (h : name ∈ integerNames) :
    ElementaryName (canonicalElementary name) := by
  obtain ⟨sign, hsign, h⟩ := List.mem_flatMap.1 h
  rcases List.mem_cons.1 h with rfl | h
  · -- without a size the largest one is meant
    have hlong : canonicalElementary name = name ++ toString (8 * 32) := by
      simp only [List.mem_cons, List.not_mem_nil, or_false] at hsign
      rcases hsign with rfl | rfl <;> decide
    rw [hlong]
    exact .integer hsign (by decide)
  · obtain ⟨i, hi, rfl⟩ := List.mem_map.1 h
    have hi := List.mem_range.1 hi
    rw [canonicalElementary_append_toString]
    exact .integer hsign (by omega)

theorem elementaryName_of_mem_fixedBytesNames {name : String} (h : name ∈ fixedBytesNames) :
    ElementaryName (canonicalElementary name) := by
  obtain ⟨i, hi, rfl⟩ := List.mem_map.1 h
  have hi := List.mem_range.1 hi
  rw [canonicalElementary_append_toString]
  exact .fixedBytes (by omega)

theorem elementaryName_of_isFixedPoint {name : String} (hname : isName name)
    (h : isFixedPoint name.toList) : ElementaryName (canonicalElementary name) := by
  -- in either spelling the sign is followed by nothing or by the sizes
  have hsizes : ∃ sign ∈ ["fixed", "ufixed"], ∃ size, name = sign ++ String.ofList size ∧
      (size = [] ∨ isFixedPointSize size) := by
    unfold isFixedPoint at h
    split at h
    · rename_i size heq
      refine ⟨"ufixed", by decide, size, ?_, by simpa using h⟩
      rw [← String.toList_inj, heq, String.toList_append]
      simp
    · rename_i size heq
      refine ⟨"fixed", by decide, size, ?_, by simpa using h⟩
      rw [← String.toList_inj, heq, String.toList_append]
      simp
    · cases h
  obtain ⟨sign, hsign, size, rfl, rfl | hsize⟩ := hsizes
  -- without sizes there is a default for both
  · have hlong : canonicalElementary (sign ++ String.ofList []) =
        sign ++ String.ofList (['1', '2', '8'] ++ 'x' :: ['1', '8']) := by
      simp only [List.mem_cons, List.not_mem_nil, or_false] at hsign
      rcases hsign with rfl | rfl <;> decide
    rw [hlong]
    exact .fixedPoint hsign ⟨by decide, List.all_eq_true.1 (by decide)⟩
      ⟨by decide, List.all_eq_true.1 (by decide)⟩
  -- with sizes the name ends in digits, and is canonical already
  · have hpart : ∀ c ∈ size, Lexeme.isWordPart c := by
      intro c hc
      apply isWordPart_of_isName hname
      rw [String.toList_append, String.toList_ofList]
      exact List.mem_append_right _ hc
    obtain ⟨digits, places, rfl, hdigits, hplaces⟩ := exists_sizes_of_isFixedPointSize hpart hsize
    have hsplit : sign ++ String.ofList (digits ++ 'x' :: places) =
        (sign ++ String.ofList (digits ++ ['x'])) ++ String.ofList places := by
      rw [← String.toList_inj]
      simp
    have hsame := canonicalElementary_append_digits (sign ++ String.ofList (digits ++ ['x']))
      hplaces.1 hplaces.2
    rw [← hsplit] at hsame
    rw [hsame]
    exact .fixedPoint hsign hdigits hplaces

/-- A word that names a built-in type has its canonical name in the grammar. -/
theorem elementaryName_canonicalElementary {name : String} (hname : isName name)
    (h : isElementary name) : ElementaryName (canonicalElementary name) := by
  -- the line break that would be overlooked is not part of a word
  have hbreak : name.toList.getLast? ≠ some '\n' := by
    intro hlast
    have := isWordPart_of_isName hname '\n' (List.mem_of_getLast? hlast)
    exact absurd this (by decide)
  unfold isElementary at h
  simp only [if_neg hbreak, String.ofList_toList, Bool.or_eq_true, decide_eq_true_eq] at h
  rcases h with ((h | h) | h) | h
  · by_cases hbyte : name = "byte"
    · subst hbyte
      have hlong : canonicalElementary "byte" = "bytes" ++ toString 1 := by decide
      rw [hlong]
      exact .fixedBytes (by decide)
    · have hplain : name ∈ ["address", "bool", "string", "bytes"] := by
        simp only [List.mem_cons, List.not_mem_nil, or_false, hbyte] at h ⊢
        exact h
      have hsame : ∀ a ∈ ["address", "bool", "string", "bytes"], canonicalElementary a = a := by
        decide
      rw [hsame name hplain]
      exact .plain hplain
  · exact elementaryName_of_mem_integerNames h
  · exact elementaryName_of_mem_fixedBytesNames h
  · exact elementaryName_of_isFixedPoint hname h

/-! ## What is written in a source -/

/-- The declarations of a file are named by words, and their parameters are of written types. -/
theorem Declared.isSignature {unit : SourceUnit} (hunit : unit.IsWritten) {d : Declared}
    (hd : d ∈ Declared.ofUnit unit) : IsSignature d.name d.parameters := by
  rcases List.mem_append.1 hd with hd | hd
  · rcases List.mem_append.1 hd with hd | hd
    · obtain ⟨c, hc, hd⟩ := List.mem_flatMap.1 hd
      have hcontract := hunit.contracts c hc
      rcases List.mem_append.1 hd with hd | hd
      · rcases List.mem_append.1 hd with hd | hd
        · obtain ⟨f, hf, rfl⟩ := List.mem_map.1 hd
          obtain ⟨hf, hkind⟩ := List.mem_filter.1 hf
          exact hcontract.functions f hf (of_decide_eq_true hkind)
        · obtain ⟨e, he, rfl⟩ := List.mem_map.1 hd
          exact hcontract.events e he
      · obtain ⟨e, he, rfl⟩ := List.mem_map.1 hd
        exact hcontract.errors e he
    · obtain ⟨e, he, rfl⟩ := List.mem_map.1 hd
      exact hunit.events e he
  · obtain ⟨e, he, rfl⟩ := List.mem_map.1 hd
    exact hunit.errors e he

/-- What a definition is made of is written in a source. -/
def Defined.IsWritten : Defined → Prop
  | .struct d => ∀ p ∈ d.fields, p.type.IsWritten
  | .valueType d => d.underlying.IsWritten
  | _ => True

theorem isWritten_of_mem_definitions {units : List SourceUnit}
    (hunits : ∀ unit ∈ units, unit.IsWritten) {d : Definition}
    (hd : d ∈ (Registry.ofUnits units).definitions) : d.decl.IsWritten := by
  obtain ⟨unit, hunit, hd⟩ := exists_unit_of_mem_definitions hd
  have hwritten := hunits unit hunit
  obtain ⟨scope, decl⟩ := d
  rcases hd with ⟨-, hd⟩ | ⟨c, hc, -, hd⟩
  · cases decl with
    | struct d => exact hwritten.structs d (by simpa [fileDeclarations] using hd)
    | valueType d => exact hwritten.valueTypes d (by simpa [fileDeclarations] using hd)
    | _ => trivial
  · have hcontract := hwritten.contracts c hc
    cases decl with
    | struct d => exact hcontract.structs d (by simpa [contractDeclarations] using hd)
    | valueType d => exact hcontract.valueTypes d (by simpa [contractDeclarations] using hd)
    | _ => trivial

/-- Everything that is found is written in a source. -/
def Registry.IsWritten (reg : Registry) : Prop := ∀ d ∈ reg.definitions, d.decl.IsWritten

theorem Registry.isWritten_ofUnits {units : List SourceUnit}
    (h : ∀ unit ∈ units, unit.IsWritten) : (ofUnits units).IsWritten :=
  fun _ => isWritten_of_mem_definitions h

/-! ## Canonical forms -/

/-- Types that are written in a source have canonical forms in the grammar. -/
theorem Derives.abiType {reg : Registry} (hreg : reg.IsWritten) {n : Nat} {scope : Scope}
    {type : TypeRef} {s : String} (h : Derives reg n scope type s)
    (htype : type.IsWritten) : AbiType s := by
  induction h with
  | elementary name =>
    rcases htype with rfl | ⟨helementary, hname⟩
    · exact .elementary (.plain (by decide))
    · exact .elementary (elementaryName_canonicalElementary hname helementary)
  | function text => exact .function
  | dynamic _ ih => exact .dynamic (ih htype)
  | sized _ _ ih => exact .sized (ih htype) _
  | contract _ => exact .elementary (.plain (by decide))
  | enum _ =>
    have hname : ElementaryName ("uint" ++ toString (8 * 1)) := .integer (by decide) (by decide)
    exact .elementary hname
  | valueType hd _ ih => exact ih (hreg _ (Registry.mem_of_resolvePath hd))
  | @struct _ _ _ _ d ss hd hlen _ ih =>
    -- every part of the tuple belongs to the field at its place
    refine .tuple ?_
    intro s hs
    obtain ⟨i, hi, rfl⟩ := List.mem_iff_getElem.1 hs
    have hmem : (d.fields[i], ss[i]) ∈ d.fields.zip ss := by
      rw [List.mem_iff_getElem]
      exact ⟨i, by rw [List.length_zip]; omega, List.getElem_zip⟩
    exact ih _ hmem (hreg _ (Registry.mem_of_resolvePath hd) _ (List.getElem_mem _))

/-! ## Taking a list of types apart -/

/-- The depth of parentheses behind a character. -/
def depthBehind (depth : Nat) (c : Char) : Nat :=
  if c = '(' then depth + 1 else if c = ')' then depth - 1 else depth

/-- The pieces with some characters in front of the first one. -/
def prepend (cs : List Char) : List (List Char) → List (List Char)
  | [] => [cs]
  | piece :: pieces => (cs ++ piece) :: pieces

/-- The pieces of a text between its commas outside all parentheses. -/
def splitOuter : Nat → List Char → List (List Char)
  | _, [] => [[]]
  | depth, c :: cs =>
    if c = ',' ∧ depth = 0 then [] :: splitOuter 0 cs
    else prepend [c] (splitOuter (depthBehind depth c) cs)

/-- The types that a text lists. The empty text lists none. -/
def listedTypes (text : String) : List String :=
  if text = "" then [] else (splitOuter 0 text.toList).map String.ofList

/-- The name in front of the first parenthesis of a signature, and the types that are listed between
that one and the last. -/
def decode (signature : String) : String × List String :=
  let cs := signature.toList
  (String.ofList (cs.takeWhile (· ≠ '(')),
    listedTypes (String.ofList ((cs.dropWhile (· ≠ '(')).drop 1).dropLast))

theorem prepend_append (cs ds : List Char) (pieces : List (List Char)) :
    prepend (cs ++ ds) pieces = prepend cs (prepend ds pieces) := by
  cases pieces <;> simp [prepend]

theorem splitOuter_ne_nil (depth : Nat) (cs : List Char) : splitOuter depth cs ≠ [] := by
  cases cs with
  | nil => simp [splitOuter]
  | cons c cs =>
    rw [splitOuter]
    split
    · simp
    · cases splitOuter (depthBehind depth c) cs <;> simp [prepend]

/-- At this depth of parentheses the text belongs to one piece, and leads back to the same depth. -/
def Passes (depth : Nat) (cs : List Char) : Prop :=
  ∀ rest, splitOuter depth (cs ++ rest) = prepend cs (splitOuter depth rest)

namespace Passes

variable {depth : Nat} {cs ds : List Char}

theorem nil : Passes depth [] := by
  intro rest
  cases hsplit : splitOuter depth rest with
  | nil => exact absurd hsplit (splitOuter_ne_nil depth rest)
  | cons piece pieces => rw [List.nil_append, hsplit, prepend, List.nil_append]

theorem append (hcs : Passes depth cs) (hds : Passes depth ds) : Passes depth (cs ++ ds) := by
  intro rest
  rw [List.append_assoc, hcs, hds, prepend_append]

theorem char {c : Char} (hopen : c ≠ '(') (hclose : c ≠ ')') (hcomma : c = ',' → depth ≠ 0) :
    Passes depth [c] := by
  intro rest
  rw [List.singleton_append, splitOuter, if_neg (fun h => hcomma h.1 h.2), depthBehind,
    if_neg hopen, if_neg hclose]

theorem of_forall (h : ∀ c ∈ cs, c ≠ '(' ∧ c ≠ ')' ∧ c ≠ ',') : Passes depth cs := by
  induction cs with
  | nil => exact nil
  | cons c cs ih =>
    obtain ⟨⟨hopen, hclose, hcomma⟩, hcs⟩ := List.forall_mem_cons.1 h
    have hchar : Passes depth [c] := char hopen hclose fun h => absurd h hcomma
    exact hchar.append (ih hcs)

/-- Inside parentheses commas do not part anything. -/
theorem inParens (h : Passes (depth + 1) cs) : Passes depth ('(' :: (cs ++ [')'])) := by
  intro rest
  have hopen : depthBehind depth '(' = depth + 1 := rfl
  have hclose : depthBehind (depth + 1) ')' = depth := rfl
  rw [List.cons_append, List.append_assoc, splitOuter, if_neg (by simp), hopen, h,
    List.singleton_append, splitOuter, if_neg (by simp), hclose, ← prepend_append,
    ← prepend_append]
  rfl

theorem intercalate {types : List String} (h : ∀ t ∈ types, Passes (depth + 1) t.toList) :
    Passes (depth + 1) (",".intercalate types).toList := by
  induction types with
  | nil => exact nil
  | cons t types ih =>
    obtain ⟨ht, htypes⟩ := List.forall_mem_cons.1 h
    by_cases hne : types = []
    · subst hne
      simpa using ht
    · rw [String.intercalate_cons_of_ne_nil hne, String.toList_append, String.toList_append]
      exact (ht.append (char (by decide) (by decide) fun _ => Nat.succ_ne_zero depth)).append
        (ih htypes)

end Passes

theorem isWordPart_of_isDigit {c : Char} (h : c.isDigit) : Lexeme.isWordPart c := by
  rw [Lexeme.isWordPart, h, Bool.or_true]

theorem isWordPart_toString (n : Nat) : ∀ c ∈ (toString n).toList, Lexeme.isWordPart c := by
  intro c hc
  obtain ⟨heq, -, hdigits⟩ := toString_eq_ofList n
  rw [heq, String.toList_ofList] at hc
  exact isWordPart_of_isDigit (hdigits c hc)

/-- Elementary names consist of the characters of words. -/
theorem ElementaryName.isWordPart {name : String} (h : ElementaryName name) :
    name.toList ≠ [] ∧ ∀ c ∈ name.toList, Lexeme.isWordPart c := by
  cases h with
  | plain h =>
    have hplain : ∀ a ∈ ["address", "bool", "string", "bytes"],
        a.toList ≠ [] ∧ a.toList.all Lexeme.isWordPart := by decide
    exact ⟨(hplain name h).1, List.all_eq_true.1 (hplain name h).2⟩
  | @integer sign hsign n hn =>
    have hsigns : ∀ a ∈ ["int", "uint"], a.toList ≠ [] ∧ a.toList.all Lexeme.isWordPart := by
      decide
    obtain ⟨hne, hpart⟩ := hsigns sign hsign
    rw [String.toList_append]
    exact ⟨List.append_ne_nil_of_left_ne_nil hne _,
      List.forall_mem_append.2 ⟨List.all_eq_true.1 hpart, isWordPart_toString _⟩⟩
  | @fixedBytes n hn =>
    rw [String.toList_append]
    exact ⟨List.append_ne_nil_of_left_ne_nil (by decide) _,
      List.forall_mem_append.2 ⟨List.all_eq_true.1 (by decide), isWordPart_toString _⟩⟩
  | @fixedPoint sign hsign digits places hdigits hplaces =>
    have hsigns : ∀ a ∈ ["fixed", "ufixed"],
        a.toList ≠ [] ∧ a.toList.all Lexeme.isWordPart := by decide
    obtain ⟨hne, hpart⟩ := hsigns sign hsign
    rw [String.toList_append, String.toList_ofList]
    refine ⟨List.append_ne_nil_of_left_ne_nil hne _,
      List.forall_mem_append.2 ⟨List.all_eq_true.1 hpart, List.forall_mem_append.2 ⟨?_, ?_⟩⟩⟩
    · exact fun c hc => isWordPart_of_isDigit (hdigits.2 c hc)
    · exact List.forall_mem_cons.2 ⟨by decide, fun c hc => isWordPart_of_isDigit (hplaces.2 c hc)⟩

theorem Passes.of_isWordPart {depth : Nat} {cs : List Char}
    (h : ∀ c ∈ cs, Lexeme.isWordPart c) : Passes depth cs := by
  refine of_forall fun c hc => ⟨?_, ?_, ?_⟩ <;> rintro rfl <;> exact absurd (h _ hc) (by decide)

namespace AbiType

variable {s : String}

theorem ne_empty (h : AbiType s) : s ≠ "" := by
  rw [← String.toList_inj.ne]
  cases h with
  | elementary h => exact h.isWordPart.1
  | function => decide
  | tuple h => simp
  | dynamic h => simp
  | sized h n => simp

/-- Parentheses in a canonical type are balanced, and all its commas are inside of some. -/
theorem passes (h : AbiType s) (depth : Nat) : Passes depth s.toList := by
  induction h generalizing depth with
  | elementary h => exact .of_isWordPart h.isWordPart.2
  | function => exact .of_isWordPart (List.all_eq_true.1 (by decide))
  | @tuple types _ ih =>
    rw [String.toList_append, String.toList_append]
    exact .inParens (.intercalate fun t ht => ih t ht (depth + 1))
  | dynamic _ ih =>
    rw [String.toList_append]
    exact (ih depth).append (.of_forall (by simp))
  | sized _ n ih =>
    rw [String.toList_append, String.toList_append, String.toList_append]
    refine (((ih depth).append (.of_forall (by simp))).append ?_).append (.of_forall (by simp))
    exact .of_isWordPart (isWordPart_toString n)

end AbiType

/-- A list of canonical types is parted at its commas. -/
theorem splitOuter_intercalate {types : List String} (hne : types ≠ [])
    (h : ∀ t ∈ types, Passes 0 t.toList) :
    splitOuter 0 (",".intercalate types).toList = types.map String.toList := by
  induction types with
  | nil => exact absurd rfl hne
  | cons t types ih =>
    obtain ⟨ht, htypes⟩ := List.forall_mem_cons.1 h
    by_cases hlast : types = []
    · subst hlast
      have := ht []
      simpa [splitOuter, prepend] using this
    · rw [String.intercalate_cons_of_ne_nil hlast, String.toList_append, String.toList_append,
        List.append_assoc, ht]
      have hcomma : ",".toList = [','] := rfl
      rw [hcomma, List.singleton_append, splitOuter, if_pos ⟨rfl, rfl⟩, ih hlast htypes, prepend,
        List.append_nil, List.map_cons]

theorem listedTypes_intercalate {types : List String} (h : ∀ t ∈ types, AbiType t) :
    listedTypes (",".intercalate types) = types := by
  cases types with
  | nil => rfl
  | cons t types =>
    have hne : ",".intercalate (t :: types) ≠ "" := by
      have ht := (h t List.mem_cons_self).ne_empty
      by_cases hlast : types = []
      · subst hlast
        simpa using ht
      · rw [String.intercalate_cons_of_ne_nil hlast]
        simp [ht]
    rw [listedTypes, if_neg hne,
      splitOuter_intercalate (List.cons_ne_nil _ _) fun t ht => (h t ht).passes 0, List.map_map]
    simp

/-- A signature gives back its name and its types. -/
theorem decode_signature {name : String} (hname : isName name) {types : List String}
    (h : ∀ t ∈ types, AbiType t) : decode (signature name types) = (name, types) := by
  -- the first parenthesis is the one behind the name
  have hfree : ∀ c ∈ name.toList, decide (c ≠ '(') = true := by
    intro c hc
    rw [decide_eq_true_eq]
    rintro rfl
    exact absurd (isWordPart_of_isName hname _ hc) (by decide)
  have htext : (signature name types).toList =
      name.toList ++ '(' :: ((",".intercalate types).toList ++ [')']) := by
    rw [signature]
    simp
  rw [decode, htext, List.takeWhile_append_of_pos hfree, List.dropWhile_append_of_pos hfree,
    List.takeWhile_cons_of_neg (by simp), List.dropWhile_cons_of_neg (by simp), List.append_nil,
    List.drop_one, List.tail_cons, List.dropLast_concat, String.ofList_toList, String.ofList_toList,
    listedTypes_intercalate h]

/-- A tuple without parts is listed as a type, and so are its neighbours. -/
example : decode "f((),uint256[],(bool,(address)[2]))" =
    ("f", ["()", "uint256[]", "(bool,(address)[2])"]) := by decide

end AbiIndex.Abi
