import AbiIndex.Proofs.Spelling
import AbiIndex.Proofs.TypeGrammar
import AbiIndex.Proofs.TypeReading
import AbiIndex.Text.Identifier

/-!
# Reading printed types

A type is printed without regard to the source that it came from: arrays and dotted names without
white space, mappings with a space on both sides of the arrow, and function types with a space
between any two tokens. Reading such a text gives the type back and leaves nothing behind.

## Key results

- `IsFunctionText.exists_lexemes`, `FunctionLexemes.isFunctionText`: the texts of function types in
  sources
- `Spells.array`, `Spells.mapping`, `Spells.function`: how the printed forms of the parts make up
  that of the whole
- `read_render`: a printed type is read back
-/

namespace AbiIndex.Grammar

open AbiIndex.Source AbiIndex.Text
open Lexeme (sign term Legible)

/-! ## The text of a function type -/

/-- The text of a function type as it is read from a source, where no quoted text is part of the
type. -/
def IsFunctionText (text : String) : Prop :=
  ∃ (source : List Char) (within : String) (front taken rest : List Token) (keyword : Token),
    tokenize source = .ok (front ++ keyword :: (taken ++ rest)) ∧ keyword.isWord "function" ∧
    TypeRef.readFunctionType within keyword (taken ++ rest) = .ok (.function text, rest) ∧
    ∀ t ∈ taken, t.kind ≠ .quoted

theorem functionWords_of_skip {within : String} {ts rest : List Token}
    (h : TypeRef.skipFunctionWords within ts = .ok rest) :
    ∃ taken, ts = taken ++ rest ∧ FunctionWords (taken.map Token.lexeme) := by
  fun_induction TypeRef.skipFunctionWords within ts with
  | case1 =>
    cases h
    exact ⟨[], rfl, .nil⟩
  | case2 t more hword ih =>
    obtain ⟨taken, rfl, htaken⟩ := ih h
    have hlexeme : t.lexeme = term t.value := by
      rw [Token.lexeme_eq_term_iff, Token.isWord, hword.1]
      simp
    refine ⟨t :: taken, rfl, ?_⟩
    rw [List.map_cons, hlexeme]
    exact .word hword.2 htaken
  | case3 => cases h
  | case4 t more hword hreturns c hc ih =>
    obtain ⟨taken, hafter, htaken⟩ := ih h
    cases more with
    | nil => cases hc
    | cons p inside =>
      have hinside := closeNested_eq hc
      obtain ⟨hparens, hclose⟩ := closes_of_closeNested hc
      rw [List.drop_one, List.tail_cons] at hinside
      refine ⟨t :: p :: (c.before ++ c.hit :: taken), ?_, ?_⟩
      · rw [hinside, hafter]
        simp
      · have hopen : p.isMark "(" := by simpa using hreturns.2
        simp only [List.map_cons, List.map_append, Token.lexeme_eq_term_iff.2 hreturns.1,
          Token.lexeme_eq_sign_iff.2 hopen, Token.lexeme_eq_sign_iff.2 hclose]
        have := FunctionWords.returns hparens htaken
        simpa [inParens] using this
  | case5 =>
    cases h
    exact ⟨[], rfl, .nil⟩

/-- What a function type takes: its parameters in parentheses and what may follow them. -/
theorem functionWords_of_readFunctionType {within : String} {keyword : Token}
    {ts rest : List Token} {type : TypeRef}
    (h : TypeRef.readFunctionType within keyword ts = .ok (type, rest)) :
    ∃ taken parameters words, ts = taken ++ rest ∧
      type = .function (" ".intercalate (keyword.value :: taken.map (·.value))) ∧
      taken.map Token.lexeme = inParens parameters ++ words ∧ parensMatch parameters ∧
      FunctionWords words := by
  cases ts with
  | nil => cases h
  | cons t inside =>
    rw [TypeRef.readFunctionType] at h
    split at h
    · rename_i hopen
      split at h
      · cases h
      rename_i c hc
      split at h
      · cases h
      rename_i after hskip
      cases h
      obtain ⟨words, hafter, hwords⟩ := functionWords_of_skip hskip
      obtain ⟨hparens, hclose⟩ := closes_of_closeNested hc
      have hsplit : t :: inside = (t :: (c.before ++ c.hit :: words)) ++ rest := by
        rw [closeNested_eq hc, hafter]
        simp
      refine ⟨t :: (c.before ++ c.hit :: words), c.before.map Token.lexeme,
        words.map Token.lexeme, hsplit, ?_, ?_, hparens, hwords⟩
      · -- what is taken is what stands in front of the rest
        rw [hsplit, List.length_append, Nat.add_sub_cancel, List.take_left]
      · simp [inParens, Token.lexeme_eq_sign_iff.2 hopen, Token.lexeme_eq_sign_iff.2 hclose]
    · cases h

theorem FunctionWords.parensMatch {ls : List Lexeme} (h : FunctionWords ls) : parensMatch ls := by
  induction h with
  | nil => rfl
  | word _ _ ih => exact closes_cons (Lexeme.term_ne_sign _ _) (Lexeme.term_ne_sign _ _) ih
  | returns parens _ ih =>
    exact closes_cons (Lexeme.term_ne_sign _ _) (Lexeme.term_ne_sign _ _)
      (closes_append_zero (closes_wrap (by decide) parens) ih)

/-- The lexemes of a function type, and that they can be written again. -/
structure FunctionLexemes (ls : List Lexeme) : Prop where
  parts : ∃ parameters words, ls = term "function" :: (inParens parameters ++ words) ∧
    Source.parensMatch parameters ∧ FunctionWords words
  solid : ∀ l ∈ ls, l.isSolid
  value : ∀ l ∈ ls, l.value.toList = l.text

theorem IsFunctionText.exists_lexemes {text : String} (h : IsFunctionText text) :
    ∃ ls, FunctionLexemes ls ∧ text = " ".intercalate (ls.map Lexeme.value) := by
  obtain ⟨source, within, front, taken, rest, keyword, htokens, hkeyword, hread, hquoted⟩ := h
  obtain ⟨taken', parameters, words, htaken, htype, hlexemes, hparens, hwords⟩ :=
    functionWords_of_readFunctionType hread
  obtain rfl := List.append_cancel_right htaken
  have hfunction : keyword.value = "function" := by
    rw [Token.isWord, Bool.and_eq_true, decide_eq_true_eq, decide_eq_true_eq] at hkeyword
    exact hkeyword.2
  have hvalues : (term "function" :: taken.map Token.lexeme).map Lexeme.value =
      keyword.value :: taken.map (·.value) := by
    rw [List.map_cons, List.map_map, Lexeme.term_value, hfunction]
    congr 2
    funext t
    exact t.lexeme_value
  have hwritten : ∀ l ∈ taken.map Token.lexeme, l.isSolid ∧ l.value.toList = l.text := by
    intro l hl
    obtain ⟨t, ht, rfl⟩ := List.mem_map.1 hl
    rw [Token.lexeme_value]
    exact isSolid_lexeme_of_tokenize htokens (by simp [ht]) (hquoted t ht)
  have hall : ∀ l ∈ term "function" :: taken.map Token.lexeme,
      l.isSolid ∧ l.value.toList = l.text :=
    List.forall_mem_cons.2 ⟨⟨by decide, by decide⟩, hwritten⟩
  refine ⟨term "function" :: taken.map Token.lexeme,
    ⟨⟨parameters, words, by rw [hlexemes], hparens, hwords⟩, fun l hl => (hall l hl).1,
      fun l hl => (hall l hl).2⟩, ?_⟩
  rw [hvalues]
  exact TypeRef.function.inj htype

/-- Whatever can be written in this way is the text of a function type. -/
theorem FunctionLexemes.isFunctionText {ls : List Lexeme} (h : FunctionLexemes ls) :
    IsFunctionText (" ".intercalate (ls.map Lexeme.value)) := by
  obtain ⟨⟨parameters, words, rfl, hparens, hwords⟩, hsolid, hvalue⟩ := h
  -- the lexemes with a space behind each of them are a source
  let layout : Layout := fun _ => .space
  let behind := Cursor.start.after layout (term "function")
  have hsource : tokenize (spell layout (term "function" :: (inParens parameters ++ words))) =
      .ok ([] ++ Cursor.start.symbol (term "function") ::
        (tokens layout behind (inParens parameters ++ words) ++ [])) := by
    rw [tokenize_spell hsolid (separates_of_ne_nil (fun _ => List.cons_ne_nil _ _) _ _),
      List.append_nil]
    rfl
  refine ⟨_, "", _, _, _, _, hsource, by simp, readFunctionType_tokens layout behind "" hparens
    hwords (Lexeme.term_value _) (Follows.nil _), ?_⟩
  intro t ht
  obtain ⟨l, hl, place, rfl⟩ := exists_of_mem_tokens layout ht
  have hl := List.mem_cons_of_mem (term "function") hl
  exact Lexeme.kind_ne_quoted (hsolid l hl) (hvalue l hl)

/-! ## Lengths of arrays -/

/-- The lengths of arrays that are printed as they were written: one integer literal or a dotted
name, the parts of which are words of the source language or identifiers of any script. -/
inductive IsLengthText : String → Prop
  | literal {digits : List Char} (solid : (Lexeme.number digits).isSolid) :
      IsLengthText (String.ofList digits)
  | dotted {parts : List String} (hne : parts ≠ [])
      (hparts : ∀ part ∈ parts, isName part ∨ isIdentifier part.toList) :
      IsLengthText (".".intercalate parts)

/-- The classes of the characters of words and of identifiers hold plain characters only. -/
theorem isPlain_of_class {p : Char → Bool}
    (hblank : ∀ n ∈ Lexeme.blankCodes, p (Char.ofNat n) = false)
    (hmark : ['"', '\'', '/', '(', ')', '[', ']'].any p = false) {c : Char} (hc : p c) :
    Lexeme.isPlain c := by
  rw [Lexeme.isPlain, Bool.and_eq_true, Bool.not_eq_true', decide_eq_true_eq]
  constructor
  · by_contra h
    have := Lexeme.of_isBlank (p := fun c => !p c) (by simpa using hblank)
      (by simpa using h : isBlank c)
    simp [hc] at this
  · intro hmem
    rw [List.any_eq_true.2 ⟨c, hmem, hc⟩] at hmark
    cases hmark

theorem isPlain_of_isIdentifier {cs : List Char} (h : isIdentifier cs) :
    ∀ c ∈ cs, Lexeme.isPlain c := by
  cases cs with
  | nil => simp
  | cons c cs =>
    rw [isIdentifier, Bool.and_eq_true] at h
    refine List.forall_mem_cons.2 ⟨?_, fun d hd => ?_⟩
    · exact isPlain_of_class (by decide +kernel) (by decide +kernel) h.1
    · exact isPlain_of_class (by decide +kernel) (by decide +kernel) (List.all_eq_true.1 h.2 d hd)

theorem isPlain_of_isSolid_number {digits : List Char} (h : (Lexeme.number digits).isSolid) :
    ∀ c ∈ digits, Lexeme.isPlain c := by
  cases digits with
  | nil => cases h
  | cons c cs =>
    rw [Lexeme.isSolid, Bool.and_eq_true] at h
    refine List.forall_mem_cons.2 ⟨?_, fun d hd => ?_⟩
    · exact isPlain_of_class (by decide) (by decide) h.1
    · exact isPlain_of_class (by decide) (by decide) (List.all_eq_true.1 h.2 d hd)

theorem isPlain_of_mem_intercalate {parts : List String}
    (h : ∀ part ∈ parts, ∀ c ∈ part.toList, Lexeme.isPlain c) :
    ∀ c ∈ (".".intercalate parts).toList, Lexeme.isPlain c := by
  induction parts with
  | nil => simp
  | cons part parts ih =>
    obtain ⟨hpart, hparts⟩ := List.forall_mem_cons.1 h
    cases parts with
    | nil => simpa using hpart
    | cons next parts =>
      intro c hc
      rw [String.intercalate_cons_cons, String.toList_append, String.toList_append,
        List.mem_append, List.mem_append] at hc
      rcases hc with (hc | hc) | hc
      · exact hpart c hc
      · rw [List.mem_singleton.1 hc]
        decide
      · exact ih hparts c hc

namespace IsLengthText

variable {length : String}

theorem plain (h : IsLengthText length) : ∀ c ∈ length.toList, Lexeme.isPlain c := by
  cases h with
  | literal solid =>
    rw [String.toList_ofList]
    exact isPlain_of_isSolid_number solid
  | dotted _ hparts =>
    refine isPlain_of_mem_intercalate fun part hpart c hc => ?_
    rcases hparts part hpart with h | h
    · exact isPlain_of_class (by decide) (by decide) (Abi.isWordPart_of_isName h c hc)
    · exact isPlain_of_isIdentifier h c hc

theorem ne_empty (h : IsLengthText length) : length ≠ "" := by
  cases h with
  | literal solid =>
    rw [ne_eq, String.ofList_eq_empty_iff]
    rintro rfl
    cases solid
  | @dotted parts hne hparts =>
    obtain ⟨part, parts, rfl⟩ := List.exists_cons_of_ne_nil hne
    -- the first part is not empty
    have hpart : part ≠ "" := by
      rintro rfl
      rcases hparts "" List.mem_cons_self with h | h <;> exact absurd h (by decide)
    cases parts with
    | nil => simpa using hpart
    | cons next parts =>
      rw [String.intercalate_cons_cons, String.append_assoc, ne_eq, String.append_eq_empty_iff]
      exact fun h => hpart h.1

/-- The length of an array, as lexemes. -/
theorem exists_lexemes (h : IsLengthText length) :
    ∃ ls, Legible ls ∧ (∀ l ∈ ls, l.Plain) ∧ ls.flatMap Lexeme.text = length.toList ∧
      String.join (ls.map Lexeme.value) = length := by
  obtain ⟨ls, hlegible, htext, hplain⟩ := Lexeme.exists_legible_of_plain h.plain
  refine ⟨ls, hlegible, hplain, htext, ?_⟩
  rw [← String.toList_inj, String.toList_join, List.flatMap_map, ← htext]
  exact List.flatMap_congr fun l hl => (hplain l hl).value

end IsLengthText

/-! ## Printed types -/

/-- Lexemes that are the written form of a type and that are read as it, where brackets may
follow. -/
structure Spells (ls : List Lexeme) (type : TypeRef) : Prop where
  text : ls.flatMap Lexeme.text = type.render.toList
  legible : Legible ls
  /-- The white space in it is single spaces. -/
  spaces : ∀ l ∈ ls, l = .blank ' ' ∨ l.isSolid
  parens : parensMatch (symbols ls)
  read : ∀ (layout : Layout) (here : Cursor) (within : String) {rest : List Token},
    (∀ t ∈ rest.head?, t.isMark "[") →
      TypeRef.read within (tokens layout here (symbols ls) ++ rest) =
        TypeRef.readBrackets within type rest

/-- Brackets end every type. -/
theorem Follows.bracket {rest : List Token} (h : ∀ t ∈ rest.head?, t.isMark "[")
    (absorbed : List String) : Follows absorbed rest := by
  rintro t more rfl
  have ht := h t rfl
  rw [Token.isMark, Bool.and_eq_true, decide_eq_true_eq, decide_eq_true_eq] at ht
  refine ⟨by simp [Token.isMark, ht.2], fun hword => ?_⟩
  rw [hword] at ht
  cases ht.1

/-! ### Names -/

theorem Dotted.legible (path : Dotted) : Legible path.lexemes := by
  obtain ⟨first, more⟩ := path
  rw [lexemes]
  induction more generalizing first with
  | nil => exact .cons first.solid .nil (by simp)
  | cons n more ih =>
    rw [List.flatMap_cons]
    refine .cons first.solid (.cons (Lexeme.isWritten_of_isSolid (by decide)) (ih n) ?_) ?_
    · exact fun l _ => Lexeme.abuts_of_opener (by decide) l
    · rintro l hl d hd
      cases hl
      cases hd
      rfl

theorem Dotted.text_lexemes (path : Dotted) :
    path.lexemes.flatMap Lexeme.text = (".".intercalate path.names).toList := by
  have hword : ∀ s : String, (term s).text = (term s).value.toList := by
    intro s
    rw [Lexeme.term_value]
    rfl
  rw [← path.join_values, String.toList_join, List.flatMap_map]
  refine List.flatMap_congr fun l hl => ?_
  rw [lexemes, List.mem_cons, List.mem_flatMap] at hl
  rcases hl with rfl | ⟨n, -, hl⟩
  · exact hword _
  · rw [List.mem_cons, List.mem_singleton] at hl
    rcases hl with rfl | rfl
    · rfl
    · exact hword _

/-- A named type is printed as it is written, with a space in front of `payable`. -/
theorem NamedType.exists_spelling (type : NamedType) :
    ∃ ls, Legible ls ∧ ls.flatMap Lexeme.text = type.ref.render.toList ∧
      (∀ l ∈ ls, l = .blank ' ' ∨ l.isSolid) ∧ symbols ls = type.lexemes := by
  have hsolid := type.phrase.solid
  cases type with
  | elementary name known =>
    refine ⟨[term name.text], .cons name.solid .nil (by simp), ?_, fun l hl => .inr (hsolid l hl),
      symbols_of_isSolid hsolid⟩
    simp [term, Lexeme.text, ref, TypeRef.render]
  | addressPayable =>
    refine ⟨[term "address", .blank ' ', term "payable"], ?_, by decide, by decide, rfl⟩
    refine .cons (Lexeme.isWritten_of_isSolid (by decide)) (.cons (by decide : isBlank ' ')
      (.cons (Lexeme.isWritten_of_isSolid (by decide)) .nil (by simp)) ?_) ?_
    · exact fun l _ => Lexeme.abuts_of_blank _ l
    · rintro l hl
      cases hl
      exact Lexeme.abuts_of_break (by decide) (by decide)
  | user path free =>
    exact ⟨path.lexemes, path.legible, path.text_lexemes, fun l hl => .inr (hsolid l hl),
      symbols_of_isSolid hsolid⟩

theorem NamedType.exists_spells (type : NamedType) : ∃ ls, Spells ls type.ref := by
  obtain ⟨ls, hlegible, htext, hspaces, hsymbols⟩ := type.exists_spelling
  refine ⟨ls, htext, hlegible, hspaces, ?_, ?_⟩
  · rw [hsymbols]
    exact type.phrase.parens
  · intro layout here within rest hrest
    rw [hsymbols, type.read_tokens layout here within (Follows.bracket hrest _)]

namespace Spells

variable {ls : List Lexeme} {type base value : TypeRef}

/-! ### Arrays -/

/-- A printed type ends where white space, a bracket or a parenthesis follows. -/
theorem abuts (h : Spells ls type) {l l' : Lexeme} (hl : l ∈ ls)
    (hl' : l'.text.head?.any (· ∈ Lexeme.breaks)) : l.Abuts l' := by
  rcases h.spaces l hl with rfl | hsolid
  · exact Lexeme.abuts_of_blank _ _
  · exact Lexeme.abuts_of_break hsolid hl'

theorem array (h : Spells ls base) {length : Option String}
    (hlength : ∀ n ∈ length, IsLengthText n) : ∃ ls', Spells ls' (.array base length) := by
  -- no length has no lexemes
  obtain ⟨ns, hlegible, hplain, htext, hjoin⟩ : ∃ ns, Legible ns ∧ (∀ l ∈ ns, l.Plain) ∧
      ns.flatMap Lexeme.text = (length.getD "").toList ∧
      (if String.join (ns.map Lexeme.value) = "" then none
        else some (String.join (ns.map Lexeme.value))) = length := by
    cases length with
    | none => exact ⟨[], .nil, by simp, rfl, rfl⟩
    | some n =>
      obtain ⟨ns, hlegible, hplain, htext, hjoin⟩ := (hlength n rfl).exists_lexemes
      refine ⟨ns, hlegible, hplain, htext, ?_⟩
      rw [hjoin, if_neg (hlength n rfl).ne_empty]
  have hbalanced : ∀ {o c : String}, o ∈ ["(", ")", "[", "]"] → c ∈ ["(", ")", "[", "]"] →
      closes (sign o) (sign c) 0 ns := by
    intro o c ho hc
    clear hlegible htext hjoin
    induction ns with
    | nil => rfl
    | cons n ns ih =>
      obtain ⟨hn, hns⟩ := List.forall_mem_cons.1 hplain
      exact closes_cons (hn.ne_sign ho) (hn.ne_sign hc) (ih hns)
  have hsolid : ∀ l ∈ sign "[" :: (ns ++ [sign "]"]), l.isSolid := by
    simp only [List.forall_mem_cons, List.forall_mem_append]
    exact ⟨by decide, fun l hl => (hplain l hl).solid, by decide, by simp⟩
  have hsymbols := symbols_of_isSolid hsolid
  refine ⟨ls ++ sign "[" :: (ns ++ [sign "]"]), ?_, ?_, ?_, ?_, ?_⟩
  · rw [List.flatMap_append, h.text, List.flatMap_cons, List.flatMap_append, htext, TypeRef.render]
    simp [sign, Lexeme.text]
  · refine h.legible.append (.cons (Lexeme.isWritten_of_isSolid (by decide))
      (hlegible.append (.cons (Lexeme.isWritten_of_isSolid (by decide)) .nil (by simp)) ?_) ?_) ?_
    · rintro l hl _ ⟨⟩
      exact Lexeme.abuts_of_break (hplain l hl).solid (by decide)
    · exact fun l _ => Lexeme.abuts_of_opener (by decide) l
    · rintro l hl _ ⟨⟩
      exact h.abuts hl (by decide)
  · rw [List.forall_mem_append]
    exact ⟨h.spaces, fun l hl => .inr (hsolid l hl)⟩
  · rw [symbols_append, hsymbols]
    exact closes_append_zero h.parens (closes_cons (by decide) (by decide)
      (closes_append_zero (hbalanced (by decide) (by decide)) (by decide)))
  · intro layout here within rest hrest
    rw [symbols_append, hsymbols, tokens_append, List.append_assoc, h.read _ _ _ (by simp),
      readBrackets_tokens layout _ within base (hbalanced (by decide) (by decide)), hjoin]

/-! ### Mappings -/

/-- Behind the type nothing may be left that could belong to it. -/
theorem read_all (h : Spells ls type) (layout : Layout) (here : Cursor) (within : String) :
    TypeRef.read within (tokens layout here (symbols ls)) = .ok (type, []) := by
  have hnil : ∀ t ∈ ([] : List Token).head?, t.isMark "[" := by simp
  rw [← List.append_nil (tokens _ _ _), h.read layout here within hnil, TypeRef.readBrackets]

theorem mapping (key : NamedType) (h : Spells ls value) :
    ∃ ls', Spells ls' (.mapping key.ref value) := by
  obtain ⟨ks, hlegible, htext, hspaces, hsymbols⟩ := key.exists_spelling
  have hspace : (Lexeme.blank ' ').IsWritten := (by decide : isBlank ' ')
  -- in front of the key, the arrow, the value and what closes the mapping
  have hclose : Legible [sign ")"] := .cons (Lexeme.isWritten_of_isSolid (by decide)) .nil (by simp)
  have hvalue : Legible (ls ++ [sign ")"]) := by
    refine h.legible.append hclose ?_
    rintro l hl _ ⟨⟩
    exact h.abuts hl (by decide)
  have harrow : Legible (.blank ' ' :: sign "=>" :: .blank ' ' :: (ls ++ [sign ")"])) := by
    refine .cons hspace (.cons (Lexeme.isWritten_of_isSolid (by decide))
      (.cons hspace hvalue ?_) ?_) ?_
    · exact fun l _ => Lexeme.abuts_of_blank _ l
    · rintro _ ⟨⟩ _ ⟨⟩
      rfl
    · exact fun l _ => Lexeme.abuts_of_blank _ l
  have hkey : Legible (ks ++ .blank ' ' :: sign "=>" :: .blank ' ' :: (ls ++ [sign ")"])) := by
    refine hlegible.append harrow ?_
    rintro l hl _ ⟨⟩
    rcases hspaces l hl with rfl | hsolid
    · exact Lexeme.abuts_of_blank _ _
    · exact Lexeme.abuts_of_break hsolid (by decide)
  have hopen : Legible (term "mapping" :: sign "(" ::
      (ks ++ .blank ' ' :: sign "=>" :: .blank ' ' :: (ls ++ [sign ")"]))) := by
    refine .cons (Lexeme.isWritten_of_isSolid (by decide)) (.cons
      (Lexeme.isWritten_of_isSolid (by decide)) hkey ?_) ?_
    · exact fun l _ => Lexeme.abuts_of_opener (by decide) l
    · rintro _ ⟨⟩ _ ⟨⟩
      rfl
  have hall : symbols (term "mapping" :: sign "(" ::
      (ks ++ .blank ' ' :: sign "=>" :: .blank ' ' :: (ls ++ [sign ")"]))) =
      term "mapping" :: inParens (key.lexemes ++ sign "=>" :: symbols ls) := by
    simp only [symbols_term_cons, symbols_sign_cons, symbols_append, symbols_blank_cons, hsymbols,
      inParens, List.append_assoc, List.cons_append]
    rfl
  refine ⟨_, ?_, hopen, ?_, ?_, ?_⟩
  · simp only [List.flatMap_cons, List.flatMap_append, htext, h.text, TypeRef.render,
      String.toList_append]
    simp [Lexeme.text, sign, term]
  · simp only [List.forall_mem_cons, List.forall_mem_append]
    exact ⟨by decide, by decide, hspaces, by decide, by decide, by decide, h.spaces, by decide,
      by simp⟩
  · rw [hall]
    refine closes_cons (by decide) (by decide) (closes_wrap (by decide) ?_)
    exact closes_append_zero key.phrase.parens (closes_cons (by decide) (by decide) h.parens)
  · intro layout here within rest _
    rw [hall]
    exact key.read_mapping_tokens layout here within (fun here => h.read_all layout here within)
      h.parens rest

/-! ### Function types -/

theorem function {text : String} (h : IsFunctionText text) : ∃ ls, Spells ls (.function text) := by
  obtain ⟨ls, ⟨⟨parameters, words, hls, hparameters, hwords⟩, hsolid, hvalue⟩, rfl⟩ :=
    h.exists_lexemes
  have hsymbols : symbols (ls.intersperse (.blank ' ')) = ls := by
    rw [symbols_intersperse, symbols_of_isSolid hsolid]
  refine ⟨ls.intersperse (.blank ' '), Lexeme.text_intersperse hvalue,
    Lexeme.legible_intersperse hsolid, ?_, ?_, ?_⟩
  · intro l hl
    exact (Lexeme.mem_intersperse hl).imp_right (hsolid l)
  · rw [hsymbols, hls]
    refine closes_cons (by decide) (by decide) ?_
    exact closes_append_zero (closes_wrap (by decide) hparameters) hwords.parensMatch
  · intro layout here within rest hrest
    rw [hsymbols, hls, tokens_cons, List.cons_append]
    exact read_function (by simp) (readFunctionType_tokens layout _ within hparameters hwords
      (by simp) (Follows.bracket hrest _))

end Spells

/-! ## Reading what is printed -/

/-- The types whose printed form can be read: named types, arrays without a length or with one that
is a literal or a name, mappings from named types, and function types as they are read. -/
inductive Printable : TypeRef → Prop
  | named (type : NamedType) : Printable type.ref
  | array {base : TypeRef} {length : Option String} (hbase : Printable base)
      (hlength : ∀ n ∈ length, IsLengthText n) : Printable (.array base length)
  | mapping (key : NamedType) {value : TypeRef} (hvalue : Printable value) :
      Printable (.mapping key.ref value)
  | function {text : String} (htext : IsFunctionText text) : Printable (.function text)

theorem Printable.exists_spells {type : TypeRef} (h : Printable type) : ∃ ls, Spells ls type := by
  induction h with
  | named type => exact type.exists_spells
  | array _ hlength ih =>
    obtain ⟨ls, hls⟩ := ih
    exact hls.array hlength
  | mapping key _ ih =>
    obtain ⟨ls, hls⟩ := ih
    exact hls.mapping key
  | function htext => exact Spells.function htext

/-- Reading a printed type gives the type back and leaves no token behind. -/
theorem read_render {type : TypeRef} (h : Printable type) :
    ∃ ts, tokenize type.render.toList = .ok ts ∧
      ∀ within, TypeRef.read within ts = .ok (type, []) := by
  obtain ⟨ls, hls⟩ := h.exists_spells
  have hsolid : ∀ l ∈ symbols ls, l.isSolid := by
    intro l hl
    obtain ⟨hmem, htoken⟩ := List.mem_filter.1 hl
    rcases hls.spaces l hmem with rfl | hsolid
    · cases htoken
    · exact hsolid
  obtain ⟨ts, htokens, hbare⟩ := tokenize_of_legible (fun _ => .space) hls.legible hsolid
  rw [hls.text] at htokens
  refine ⟨ts, htokens, fun within => ?_⟩
  -- reading does not depend on the places of the tokens
  have hread := TypeRef.read_bare within ts
  rw [hbare, TypeRef.read_bare, hls.read_all] at hread
  cases hfound : TypeRef.read within ts with
  | error e =>
    rw [hfound] at hread
    cases hread
  | ok found =>
    obtain ⟨type', rest⟩ := found
    rw [hfound, bareRest_ok, bareRest_ok, Except.ok.injEq, Prod.mk.injEq] at hread
    obtain ⟨rfl, hrest⟩ := hread
    rw [List.map_nil, eq_comm, List.map_eq_nil_iff] at hrest
    rw [hrest]

/-- An array of mappings to arrays of function types. A bracket stays open in the parameters of the
function, and the lengths are a literal and a dotted name. -/
theorem read_render_callbacks :
    let callback := TypeRef.function "function ( uint [ ) external returns ( bool )"
    let type := TypeRef.array (.mapping (.user ["Lib", "Key"])
      (.array (.array callback (some "0x10")) none)) (some "Lib.SIZE")
    Printable type ∧ ∃ ts, tokenize type.render.toList = .ok ts ∧
      ∀ within, TypeRef.read within ts = .ok (type, []) := by
  intro callback type
  have hcallback : FunctionLexemes [term "function", sign "(", term "uint", sign "[", sign ")",
      term "external", term "returns", sign "(", term "bool", sign ")"] :=
    ⟨⟨[term "uint", sign "["], _, rfl, by decide, .word (by decide)
      (@FunctionWords.returns [term "bool"] _ (by decide) .nil)⟩, by decide, by decide⟩
  have htype : Printable type := by
    refine .array (.mapping (.user ⟨⟨"Lib", by decide⟩, [⟨"Key", by decide⟩]⟩ (by decide))
      (.array (.array (.function hcallback.isFunctionText) ?_) (by simp))) ?_
    · rintro _ ⟨⟩
      exact @IsLengthText.literal ['0', 'x', '1', '0'] (by decide)
    · rintro _ ⟨⟩
      exact @IsLengthText.dotted ["Lib", "SIZE"] (by simp) (by decide)
  exact ⟨htype, read_render htype⟩

end AbiIndex.Grammar
