import AbiIndex.Proofs.TokenPlaces
import AbiIndex.Source.SourceText

/-!
# The text in the bytes of a file

The bytes that are read as a character are the ones that the library writes for it. Where no
character stands, one replacement stands for the bytes that begin one, or for a byte that begins
none. A line feed is written for the line break alone and is never part of what is replaced, so that
the lines of the text are the lines of the bytes.

## Key results

- `exists_step_utf8EncodeChar`, `eq_utf8EncodeChar_of_step`: a character is read from exactly the
  bytes that are written for it
- `exists_illFormed_of_step`: what a replacement stands for
- `count_decodeLossy`: the text has as many line breaks as the bytes have line feeds
- `source_text_exact`: the text of the bytes, and the line of the first byte that is not in it
-/

namespace AbiIndex.Text.Utf8

open String (utf8EncodeChar)

/-! ## First bytes -/

/-- The bytes that start sequences of one to four bytes, and all other bytes. -/
theorem lead_cases (a : Nat) : a < 0x80 ∨ (0xc2 ≤ a ∧ a < 0xe0) ∨ (0xe0 ≤ a ∧ a < 0xf0) ∨
    (0xf0 ≤ a ∧ a < 0xf5) ∨ (0x80 ≤ a ∧ a < 0xc2 ∨ 0xf5 ≤ a) := by omega

/-- A byte that stands for itself. -/
theorem lead?_one {a : Nat} (h : a < 0x80) : lead? a = some ⟨0, 0x80, 0xbf, a⟩ := by
  rw [lead?, if_pos h]

theorem lead?_two {a : Nat} (hlow : 0xc2 ≤ a) (hhigh : a < 0xe0) :
    lead? a = some ⟨1, 0x80, 0xbf, a - 0xc0⟩ := by
  rw [lead?, if_neg (by omega), if_neg (by omega), if_pos hhigh]

theorem lead?_three {a : Nat} (hlow : 0xe0 ≤ a) (hhigh : a < 0xf0) :
    lead? a = some ⟨2, if a = 0xe0 then 0xa0 else 0x80, if a = 0xed then 0x9f else 0xbf,
      a - 0xe0⟩ := by
  rw [lead?, if_neg (by omega), if_neg (by omega), if_neg (by omega)]
  split
  · simp [*]
  split
  · simp [*]
  · rfl

theorem lead?_four {a : Nat} (hlow : 0xf0 ≤ a) (hhigh : a < 0xf5) :
    lead? a = some ⟨3, if a = 0xf0 then 0x90 else 0x80, if a = 0xf4 then 0x8f else 0xbf,
      a - 0xf0⟩ := by
  rw [lead?, if_neg (by omega), if_neg (by omega), if_neg (by omega), if_neg (by omega),
    if_neg (by omega), if_neg (by omega)]
  split
  · simp [*]
  split
  · rw [if_neg (by omega)]
  · rw [if_pos (by omega), if_pos (by omega)]
    simp; omega

/-- There are no other first bytes. -/
theorem lead?_none {a : Nat} (h : 0x80 ≤ a ∧ a < 0xc2 ∨ 0xf5 ≤ a) : lead? a = none := by
  rw [lead?, if_neg (by omega)]
  rcases h with h | h
  · rw [if_pos h.2]
  · rw [if_neg (by omega), if_neg (by omega), if_neg (by omega), if_neg (by omega),
      if_neg (by omega), if_neg (by omega), if_neg (by omega), if_neg (by omega)]

/-- The byte behind a first one is a continuation byte. -/
theorem lead?_bounds {a : Nat} {lead : Lead} (h : lead? a = some lead) :
    0x80 ≤ lead.low ∧ lead.low ≤ lead.high ∧ lead.high ≤ 0xbf := by
  rcases lead_cases a with hone | htwo | hthree | hfour | hnone
  · rw [lead?_one hone] at h
    cases h
    dsimp only
    omega
  · rw [lead?_two htwo.1 htwo.2] at h
    cases h
    dsimp only
    omega
  · rw [lead?_three hthree.1 hthree.2] at h
    cases h
    dsimp only
    split <;> split <;> omega
  · rw [lead?_four hfour.1 hfour.2] at h
    cases h
    dsimp only
    split <;> split <;> omega
  · rw [lead?_none hnone] at h
    cases h

theorem step_of_lead {b : UInt8} {lead : Lead} (h : lead? b.toNat = some lead)
    (bytes : List UInt8) : step b bytes =
      ((continuation lead.more lead.low lead.high lead.bits bytes).1.map Char.ofNat,
        (continuation lead.more lead.low lead.high lead.bits bytes).2) := by
  rw [step, h]

theorem toNat_val_cases (c : Char) :
    c.val.toNat < 0xd800 ∨ 0xdfff < c.val.toNat ∧ c.val.toNat < 0x110000 := by
  have := c.valid
  simpa [UInt32.isValidChar, Nat.isValidChar] using this

theorem continuation_cons {more low high bits : Nat} {b : UInt8} (bytes : List UInt8)
    (h : low ≤ b.toNat ∧ b.toNat ≤ high) :
    continuation (more + 1) low high bits (b :: bytes) =
      continuation more 0x80 0xbf (bits * 64 + (b.toNat - 0x80)) bytes := by
  rw [continuation, if_pos h]

/-- The bytes of a code point. -/
theorem utf8EncodeChar_ofNat {n : Nat} (h : n < 0xd800 ∨ 0xdfff < n ∧ n < 0x110000) :
    utf8EncodeChar (Char.ofNat n) =
      if n ≤ 0x7f then [.ofNat n]
      else if n ≤ 0x7ff then [.ofNat (n / 64 % 32 + 0xc0), .ofNat (n % 64 + 0x80)]
      else if n ≤ 0xffff then
        [.ofNat (n / 4096 % 16 + 0xe0), .ofNat (n / 64 % 64 + 0x80), .ofNat (n % 64 + 0x80)]
      else [.ofNat (n / 262144 % 8 + 0xf0), .ofNat (n / 4096 % 64 + 0x80),
        .ofNat (n / 64 % 64 + 0x80), .ofNat (n % 64 + 0x80)] := by
  have hval : (Char.ofNat n).val.toNat = n := by
    have hvalid : n.isValidChar := h
    rw [Char.ofNat, dif_pos hvalid]
    rfl
  rw [utf8EncodeChar, hval]

/-- A character is read back from its bytes, whatever follows them. -/
theorem exists_step_utf8EncodeChar (c : Char) : ∃ b bytes, utf8EncodeChar c = b :: bytes ∧
    ∀ rest, step b (bytes ++ rest) = (some c, rest) := by
  have hvalid := toNat_val_cases c
  have hc : Char.ofNat c.val.toNat = c := Char.ofNat_toNat c
  generalize c.val.toNat = v at hvalid hc
  have hread {n : Nat} (hn : n = v) (rest : List UInt8) :
      (Option.map Char.ofNat (some n), rest) = (some c, rest) := by
    rw [hn, Option.map_some, hc]
  have hbyte (n : Nat) : (UInt8.ofNat n).toNat = n % 256 := UInt8.toNat_ofNat'
  rw [← hc, utf8EncodeChar_ofNat hvalid, hc]
  by_cases hone : v ≤ 0x7f
  · rw [if_pos hone]
    refine ⟨_, _, rfl, fun rest => ?_⟩
    rw [step, hbyte, lead?_one (by omega)]
    exact hread (Nat.mod_eq_of_lt (by omega)) rest
  rw [if_neg hone]
  by_cases htwo : v ≤ 0x7ff
  · rw [if_pos htwo]
    refine ⟨_, _, rfl, fun rest => ?_⟩
    rw [step, hbyte, lead?_two (by omega) (by omega)]
    dsimp only
    rw [List.cons_append, continuation_cons _ (by rw [hbyte]; omega), hbyte]
    exact hread (by omega) rest
  rw [if_neg htwo]
  by_cases hthree : v ≤ 0xffff
  · rw [if_pos hthree]
    refine ⟨_, _, rfl, fun rest => ?_⟩
    rw [step, hbyte, lead?_three (by omega) (by omega)]
    dsimp only
    rw [List.cons_append, List.cons_append,
      continuation_cons _ (by rw [hbyte]; split <;> split <;> omega),
      continuation_cons _ (by rw [hbyte]; omega), hbyte, hbyte]
    exact hread (by omega) rest
  · rw [if_neg hthree]
    refine ⟨_, _, rfl, fun rest => ?_⟩
    rw [step, hbyte, lead?_four (by omega) (by omega)]
    dsimp only
    rw [List.cons_append, List.cons_append, List.cons_append,
      continuation_cons _ (by rw [hbyte]; split <;> split <;> omega),
      continuation_cons _ (by rw [hbyte]; omega),
      continuation_cons _ (by rw [hbyte]; omega), hbyte, hbyte, hbyte]
    exact hread (by omega) rest

theorem of_continuation_zero {low high bits n : Nat} {bytes rest : List UInt8}
    (h : continuation 0 low high bits bytes = (some n, rest)) : bits = n ∧ bytes = rest := by
  rw [continuation, Prod.mk.injEq, Option.some_inj] at h
  exact h

/-- Continuation bytes are read one by one. -/
theorem exists_of_continuation_succ {more low high bits n : Nat} {bytes rest : List UInt8}
    (h : continuation (more + 1) low high bits bytes = (some n, rest)) :
    ∃ b bytes', bytes = b :: bytes' ∧ low ≤ b.toNat ∧ b.toNat ≤ high ∧
      continuation more 0x80 0xbf (bits * 64 + (b.toNat - 0x80)) bytes' = (some n, rest) := by
  cases bytes with
  | nil => cases h
  | cons b bytes =>
    rw [continuation] at h
    split at h
    · rename_i hrange
      exact ⟨b, bytes, rfl, hrange.1, hrange.2, h⟩
    · cases h

/-- What is read as a character are the bytes of that character. -/
theorem eq_utf8EncodeChar_of_step {b : UInt8} {bytes rest : List UInt8} {c : Char}
    (h : step b bytes = (some c, rest)) : b :: bytes = utf8EncodeChar c ++ rest := by
  have hbyte (b : UInt8) {n : Nat} (hn : b.toNat = n) : UInt8.ofNat n = b := by
    rw [← hn, UInt8.ofNat_toNat]
  -- a code point that was read, and what is left
  have hread {more low high bits : Nat} (hlead : lead? b.toNat = some ⟨more, low, high, bits⟩) :
      ∃ n, c = Char.ofNat n ∧ continuation more low high bits bytes = (some n, rest) := by
    rw [step_of_lead hlead] at h
    obtain ⟨hc, hrest⟩ := Prod.mk.inj h
    obtain ⟨n, hn, rfl⟩ := Option.map_eq_some_iff.1 hc
    exact ⟨n, rfl, Prod.ext hn hrest⟩
  rcases lead_cases b.toNat with hone | htwo | hthree | hfour | hnone
  · obtain ⟨n, rfl, hn⟩ := hread (lead?_one hone)
    obtain ⟨hpoint, rfl⟩ := of_continuation_zero hn
    rw [utf8EncodeChar_ofNat (by omega), if_pos (by omega), hbyte b hpoint]
    rfl
  · obtain ⟨n, rfl, hn⟩ := hread (lead?_two htwo.1 htwo.2)
    obtain ⟨b₁, bytes, rfl, hlow, hhigh, hn⟩ := exists_of_continuation_succ hn
    obtain ⟨hpoint, rfl⟩ := of_continuation_zero hn
    rw [utf8EncodeChar_ofNat (by omega), if_neg (by omega), if_pos (by omega),
      hbyte b (by omega), hbyte b₁ (by omega)]
    rfl
  · obtain ⟨n, rfl, hn⟩ := hread (lead?_three hthree.1 hthree.2)
    obtain ⟨b₁, bytes, rfl, hlow, hhigh, hn⟩ := exists_of_continuation_succ hn
    obtain ⟨b₂, bytes, rfl, hlow₂, hhigh₂, hn⟩ := exists_of_continuation_succ hn
    obtain ⟨hpoint, rfl⟩ := of_continuation_zero hn
    have hrange : 0x800 ≤ n ∧ 0x80 ≤ b₁.toNat ∧ b₁.toNat ≤ 0xbf ∧ (n < 0xd800 ∨ 0xdfff < n) := by
      split at hlow <;> split at hhigh <;> omega
    clear hlow hhigh
    rw [utf8EncodeChar_ofNat (by omega), if_neg (by omega), if_neg (by omega), if_pos (by omega),
      hbyte b (by omega), hbyte b₁ (by omega), hbyte b₂ (by omega)]
    rfl
  · obtain ⟨n, rfl, hn⟩ := hread (lead?_four hfour.1 hfour.2)
    obtain ⟨b₁, bytes, rfl, hlow, hhigh, hn⟩ := exists_of_continuation_succ hn
    obtain ⟨b₂, bytes, rfl, hlow₂, hhigh₂, hn⟩ := exists_of_continuation_succ hn
    obtain ⟨b₃, bytes, rfl, hlow₃, hhigh₃, hn⟩ := exists_of_continuation_succ hn
    obtain ⟨hpoint, rfl⟩ := of_continuation_zero hn
    have hrange : 0x10000 ≤ n ∧ n < 0x110000 ∧ 0x80 ≤ b₁.toNat ∧ b₁.toNat ≤ 0xbf := by
      split at hlow <;> split at hhigh <;> omega
    clear hlow hhigh
    rw [utf8EncodeChar_ofNat (by omega), if_neg (by omega), if_neg (by omega), if_neg (by omega),
      hbyte b (by omega), hbyte b₁ (by omega), hbyte b₂ (by omega), hbyte b₃ (by omega)]
    rfl
  · rw [step, lead?_none hnone] at h
    cases h

/-! ## Ill-formed parts -/

/-- The bytes are the first ones of a character. -/
def Begins (part : List UInt8) : Prop := ∃ c, part <+: utf8EncodeChar c

/-- No character stands at the front of the bytes `part ++ rest`, and `part` is the longest part of
them that could begin one, or the first byte if that begins none. -/
structure IllFormed (part rest : List UInt8) : Prop where
  nonempty : part ≠ []
  noChar : ∀ c, ¬ utf8EncodeChar c <+: part ++ rest
  begins : Begins part ∨ ∃ b, part = [b]
  longest : ∀ b more, rest = b :: more → ¬ Begins (part ++ [b])
  notAscii : ∀ b ∈ part, 0x80 ≤ b

/-- The bytes of a character at the front are read as that character. -/
theorem step_eq_of_utf8EncodeChar {c : Char} {b : UInt8} {bytes rest : List UInt8}
    (h : utf8EncodeChar c ++ rest = b :: bytes) : step b bytes = (some c, rest) := by
  obtain ⟨b', bytes', hc, hstep⟩ := exists_step_utf8EncodeChar c
  rw [hc, List.cons_append] at h
  obtain ⟨rfl, rfl⟩ := List.cons.inj h
  exact hstep rest

/-- Missing continuation bytes can be added. -/
theorem exists_continuation_fill {low high : Nat} (hrange : low ≤ high) (hhigh : high ≤ 0xbf)
    (more bits : Nat) : ∃ n fill, continuation more low high bits fill = (some n, []) := by
  induction more generalizing low high bits with
  | zero => exact ⟨bits, [], rfl⟩
  | succ more ih =>
    obtain ⟨n, fill, hfill⟩ := ih (show 0x80 ≤ 0xbf by decide) (Nat.le_refl _)
      (bits * 64 + (low - 0x80))
    have hbyte : (UInt8.ofNat low).toNat = low := by
      rw [UInt8.toNat_ofNat']
      omega
    refine ⟨n, UInt8.ofNat low :: fill, ?_⟩
    rw [continuation_cons _ (by rw [hbyte]; omega), hbyte, hfill]

/-- Where continuation bytes are missing, those in front could be completed, and what stands in
their place is none. -/
theorem exists_of_continuation_none {more low high bits : Nat} {bytes rest : List UInt8}
    (hlow : 0x80 ≤ low) (hrange : low ≤ high) (hhigh : high ≤ 0xbf)
    (h : continuation more low high bits bytes = (none, rest)) :
    ∃ part, bytes = part ++ rest ∧ (∀ b ∈ part, 0x80 ≤ b) ∧
      (∃ n fill, continuation more low high bits (part ++ fill) = (some n, [])) ∧
      ∀ b rest', rest = b :: rest' → ∀ fill,
        (continuation more low high bits (part ++ b :: fill)).1 = none := by
  induction more generalizing low high bits bytes with
  | zero => cases h
  | succ more ih =>
    cases bytes with
    | nil =>
      cases h
      exact ⟨[], rfl, by simp, exists_continuation_fill hrange hhigh _ _, by simp⟩
    | cons b bytes =>
      by_cases hb : low ≤ b.toNat ∧ b.toNat ≤ high
      · rw [continuation_cons _ hb] at h
        obtain ⟨part, rfl, hpart, ⟨n, fill, hfill⟩, hstop⟩ :=
          ih (Nat.le_refl _) (by decide) (Nat.le_refl _) h
        refine ⟨b :: part, rfl, ?_, ⟨n, fill, ?_⟩, fun b' rest' hrest fill => ?_⟩
        · rw [List.forall_mem_cons]
          exact ⟨UInt8.le_iff_toNat_le.2 (hlow.trans hb.1), hpart⟩
        · rw [List.cons_append, continuation_cons _ hb, hfill]
        · rw [List.cons_append, continuation_cons _ hb]
          exact hstop b' rest' hrest fill
      · rw [continuation, if_neg hb] at h
        cases h
        refine ⟨[], rfl, by simp, exists_continuation_fill hrange hhigh _ _, ?_⟩
        intro b' rest' hrest fill
        cases hrest
        rw [List.nil_append, continuation, if_neg hb]

/-- What is read as no character is ill-formed. -/
theorem exists_illFormed_of_step {b : UInt8} {bytes rest : List UInt8}
    (h : step b bytes = (none, rest)) :
    ∃ part, b :: bytes = part ++ rest ∧ IllFormed part rest := by
  have hnoChar : ∀ c, ¬ utf8EncodeChar c <+: b :: bytes := by
    rintro c ⟨more, hc⟩
    rw [step_eq_of_utf8EncodeChar hc] at h
    cases h
  have hb : 0x80 ≤ b := by
    rw [UInt8.le_iff_toNat_le]
    by_contra hlt
    rw [step, lead?_one (Nat.lt_of_not_le hlt)] at h
    cases h
  -- the bytes of a character are read, also those that begin with the same ones
  have hreads {part : List UInt8} (hbegins : Begins (b :: part)) :
      ∃ fill, (step b (part ++ fill)).1 ≠ none := by
    obtain ⟨c, fill, hc⟩ := hbegins
    refine ⟨fill, ?_⟩
    rw [List.cons_append, ← List.append_nil (utf8EncodeChar c)] at hc
    rw [step_eq_of_utf8EncodeChar hc.symm]
    exact Option.some_ne_none c
  cases hlead : lead? b.toNat with
  | none =>
    have hnone (bytes : List UInt8) : step b bytes = (none, bytes) := by rw [step, hlead]
    rw [hnone] at h
    cases h
    refine ⟨[b], rfl, by simp, hnoChar, .inr ⟨b, rfl⟩, fun b' more _ hbegins => ?_,
      by simpa using hb⟩
    obtain ⟨fill, hfill⟩ := hreads hbegins
    exact hfill (by rw [hnone])
  | some lead =>
    obtain ⟨hlow, hrange, hhigh⟩ := lead?_bounds hlead
    rw [step_of_lead hlead] at h
    obtain ⟨hchar, hrest⟩ := Prod.mk.inj h
    obtain ⟨part, rfl, hascii, ⟨n, fill, hfill⟩, hstop⟩ :=
      exists_of_continuation_none hlow hrange hhigh
        (Prod.ext (Option.map_eq_none_iff.1 hchar) hrest)
    refine ⟨b :: part, rfl, by simp, hnoChar, .inl ⟨Char.ofNat n, fill, ?_⟩, ?_, ?_⟩
    · have hread : step b (part ++ fill) = (some (Char.ofNat n), []) := by
        rw [step_of_lead hlead, hfill, Option.map_some]
      rw [List.cons_append, eq_utf8EncodeChar_of_step hread, List.append_nil]
    · intro b' more hmore hbegins
      have hbegins : Begins (b :: (part ++ [b'])) := hbegins
      obtain ⟨fill, hfill⟩ := hreads hbegins
      refine hfill ?_
      rw [List.append_assoc, List.singleton_append, step_of_lead hlead, hstop b' more hmore fill]
      rfl
    · exact List.forall_mem_cons.2 ⟨hb, hascii⟩

/-! ## Texts -/

theorem encode_eq (s : String) : encode s = s.toList.flatMap utf8EncodeChar := by
  conv => lhs; rw [← String.ofList_toList (s := s)]
  show (s.toList.flatMap utf8EncodeChar).toByteArray.data.toList = _
  rw [List.data_toByteArray]

theorem decode_cons (b : UInt8) (bytes : List UInt8) :
    decode (b :: bytes) = (step b bytes).1 :: decode (step b bytes).2 := by
  rw [decode]

theorem decode_append (cs : List Char) (bytes : List UInt8) :
    decode (cs.flatMap utf8EncodeChar ++ bytes) = cs.map some ++ decode bytes := by
  induction cs with
  | nil => rfl
  | cons c cs ih =>
    obtain ⟨b, more, hc, hstep⟩ := exists_step_utf8EncodeChar c
    rw [List.flatMap_cons, hc, List.append_assoc, List.cons_append, decode_cons, hstep, ih]
    rfl

theorem wellFormedPart_append (cs : List Char) (bytes : List UInt8) :
    wellFormedPart (cs.flatMap utf8EncodeChar ++ bytes) =
      cs.flatMap utf8EncodeChar ++ wellFormedPart bytes := by
  induction cs with
  | nil => rfl
  | cons c cs ih =>
    obtain ⟨b, more, hc, hstep⟩ := exists_step_utf8EncodeChar c
    have hlength (more rest : List UInt8) :
        (more ++ rest).length + 1 - rest.length = (b :: more).length := by
      rw [List.length_append, List.length_cons]
      omega
    rw [List.flatMap_cons, hc, List.append_assoc, List.cons_append, wellFormedPart, hstep, ih]
    dsimp only
    rw [hlength, ← List.cons_append, List.take_left, List.append_assoc]

/-- The bytes are those of a text, up to their end or to the first ill-formed part. -/
theorem exists_front (bytes : List UInt8) : ∃ (cs : List Char) (rest : List UInt8),
    bytes = cs.flatMap utf8EncodeChar ++ rest ∧
      (rest = [] ∨ ∃ b more, rest = b :: more ∧ (step b more).1 = none) := by
  fun_induction decode bytes with
  | case1 => exact ⟨[], [], rfl, .inl rfl⟩
  | case2 b bytes ih =>
    cases hstep : (step b bytes).1 with
    | none => exact ⟨[], b :: bytes, rfl, .inr ⟨b, bytes, rfl, hstep⟩⟩
    | some c =>
      obtain ⟨cs, rest, heq, hrest⟩ := ih
      refine ⟨c :: cs, rest, ?_, hrest⟩
      rw [eq_utf8EncodeChar_of_step (Prod.ext hstep rfl), List.flatMap_cons, List.append_assoc,
        ← heq]

/-- Only the line break is written with the byte that ends a line. -/
theorem count_utf8EncodeChar (c : Char) :
    (utf8EncodeChar c).count Source.lineFeed = [c].count '\n' := by
  have hvalid := toNat_val_cases c
  have hc : Char.ofNat c.val.toNat = c := Char.ofNat_toNat c
  have hbreak : c = '\n' → c.val.toNat = 10 := by
    rintro rfl
    rfl
  have hbyte (n : Nat) : UInt8.ofNat n = Source.lineFeed ↔ n % 256 = 10 := by
    rw [← UInt8.toNat_inj, UInt8.toNat_ofNat']
    rfl
  generalize c.val.toNat = v at hvalid hc hbreak
  rw [← hc, utf8EncodeChar_ofNat hvalid, hc]
  by_cases hone : v ≤ 0x7f
  · rw [if_pos hone, List.count_singleton, List.count_singleton]
    refine if_congr ?_ rfl rfl
    rw [beq_iff_eq, beq_iff_eq, hbyte]
    refine ⟨fun h => ?_, fun h => by have := hbreak h; omega⟩
    rw [← hc, show v = 10 by omega]
  · -- all bytes of a sequence of several stand beyond ASCII
    have hnot : '\n' ∉ [c] := by
      rw [List.mem_singleton]
      intro h
      have := hbreak h.symm
      omega
    rw [if_neg hone, List.count_eq_zero.2 hnot, List.count_eq_zero]
    split
    · simp only [List.mem_cons, List.not_mem_nil, or_false, eq_comm (a := Source.lineFeed), hbyte]
      omega
    split
    · simp only [List.mem_cons, List.not_mem_nil, or_false, eq_comm (a := Source.lineFeed), hbyte]
      omega
    · simp only [List.mem_cons, List.not_mem_nil, or_false, eq_comm (a := Source.lineFeed), hbyte]
      omega

/-- An ill-formed part ends no line. -/
theorem IllFormed.count_eq_zero {part rest : List UInt8} (h : IllFormed part rest) :
    part.count Source.lineFeed = 0 := by
  rw [List.count_eq_zero]
  intro hmem
  exact absurd (h.notAscii _ hmem) (by decide)

/-- Reading keeps the line breaks. -/
theorem count_decodeLossy (bytes : List UInt8) :
    (decodeLossy bytes).count '\n' = bytes.count Source.lineFeed := by
  fun_induction decode bytes with
  | case1 => simp [decodeLossy, decode]
  | case2 b bytes ih =>
    have hcons : decodeLossy (b :: bytes) =
        (step b bytes).1.getD '\ufffd' :: decodeLossy (step b bytes).2 := by
      rw [decodeLossy, decode_cons]
      rfl
    rw [hcons, ← List.singleton_append, List.count_append, ih]
    cases hstep : (step b bytes).1 with
    | none =>
      obtain ⟨part, hpart, hill⟩ := exists_illFormed_of_step (Prod.ext hstep rfl)
      rw [hpart, List.count_append, hill.count_eq_zero]
      rfl
    | some c =>
      rw [eq_utf8EncodeChar_of_step (Prod.ext hstep rfl), List.count_append, count_utf8EncodeChar]
      rfl

end AbiIndex.Text.Utf8

namespace AbiIndex.Source

open AbiIndex.Text
open String (utf8EncodeChar)

/-! ## The text of a file -/

/-- A well-formed file is read as it is. -/
theorem SourceText.ofBytes_flatMap (cs : List Char) :
    SourceText.ofBytes (cs.flatMap utf8EncodeChar) = ⟨cs, none⟩ := by
  have hdecode : Utf8.decode (cs.flatMap utf8EncodeChar) = cs.map some := by
    rw [← List.append_nil (cs.flatMap utf8EncodeChar), Utf8.decode_append, Utf8.decode,
      List.append_nil]
  rw [SourceText.ofBytes, Utf8.decodeLossy, hdecode, if_pos (by simp), List.map_map]
  exact congrArg (SourceText.mk · none) (List.map_id cs)

/-- The first ill-formed part of a file is replaced and reported. -/
theorem SourceText.ofBytes_append (cs : List Char) {b : UInt8} {bytes rest : List UInt8}
    (h : Utf8.step b bytes = (none, rest)) :
    SourceText.ofBytes (cs.flatMap utf8EncodeChar ++ b :: bytes) =
      ⟨cs ++ '\ufffd' :: Utf8.decodeLossy rest, some (cs.count '\n' + 1)⟩ := by
  have hdecode : Utf8.decode (cs.flatMap utf8EncodeChar ++ b :: bytes) =
      cs.map some ++ none :: Utf8.decode rest := by
    rw [Utf8.decode_append, Utf8.decode_cons, h]
  have hfront : Utf8.wellFormedPart (cs.flatMap utf8EncodeChar ++ b :: bytes) =
      cs.flatMap utf8EncodeChar := by
    rw [Utf8.wellFormedPart_append, Utf8.wellFormedPart, h, List.append_nil]
  have hcount : (cs.flatMap utf8EncodeChar).count lineFeed = cs.count '\n' := by
    have htext : Utf8.decodeLossy (cs.flatMap utf8EncodeChar) = cs :=
      congrArg SourceText.text (SourceText.ofBytes_flatMap cs)
    rw [← Utf8.count_decodeLossy, htext]
  have hlossy : Utf8.decodeLossy (cs.flatMap utf8EncodeChar ++ b :: bytes) =
      cs ++ '\ufffd' :: Utf8.decodeLossy rest := by
    rw [Utf8.decodeLossy, hdecode, List.map_append, List.map_map]
    exact congrArg (· ++ _) (List.map_id cs)
  rw [SourceText.ofBytes, hlossy, hdecode, if_neg (by simp), hfront, hcount]

/-- Reading a file. Without a bad line its bytes are those of a text, and that text is read.
Otherwise they are those of a text up to a first place where no character stands. In place of the
ill-formed part there the text has a replacement character, and the line reported is the one that
the tokens of the text count there: that of a token in front of it or at it, and the line breaks in
between. The text has as many line breaks as the bytes. -/
theorem source_text_exact (bytes : List UInt8) :
    ((SourceText.ofBytes bytes).badLine = none ↔ ∃ s, bytes = Utf8.encode s) ∧
    (∀ s, SourceText.ofBytes (Utf8.encode s) = ⟨s.toList, none⟩) ∧
    (SourceText.ofBytes bytes).text.count '\n' = bytes.count lineFeed ∧
    ∀ line, (SourceText.ofBytes bytes).badLine = some line →
      ∃ (front : String) (part rest : List UInt8),
        bytes = Utf8.encode front ++ (part ++ rest) ∧ Utf8.IllFormed part rest ∧
        (SourceText.ofBytes bytes).text = front.toList ++ '\ufffd' :: Utf8.decodeLossy rest ∧
        line = 1 + front.toList.count '\n' ∧
        ∀ ts, tokenize (SourceText.ofBytes bytes).text = .ok ts → ∀ t ∈ ts,
          t.start ≤ front.length →
          t.line + (slice (SourceText.ofBytes bytes).text t.start front.length).count '\n' =
            line := by
  obtain ⟨cs, rest, hbytes, hrest⟩ := Utf8.exists_front bytes
  have hencode : Utf8.encode (String.ofList cs) = cs.flatMap utf8EncodeChar := by
    rw [Utf8.encode_eq, String.toList_ofList]
  have hwell : ∀ s, SourceText.ofBytes (Utf8.encode s) = ⟨s.toList, none⟩ := by
    intro s
    rw [Utf8.encode_eq]
    exact SourceText.ofBytes_flatMap s.toList
  refine ⟨⟨fun hnone => ?_, ?_⟩, hwell, Utf8.count_decodeLossy bytes, fun line hline => ?_⟩
  · rcases hrest with rfl | ⟨b, more, rfl, hstep⟩
    · exact ⟨String.ofList cs, by rw [hbytes, hencode, List.append_nil]⟩
    · rw [hbytes, SourceText.ofBytes_append cs (Prod.ext hstep rfl)] at hnone
      cases hnone
  · rintro ⟨s, rfl⟩
    rw [hwell]
  · rcases hrest with rfl | ⟨b, more, rfl, hstep⟩
    · rw [hbytes, List.append_nil, SourceText.ofBytes_flatMap] at hline
      cases hline
    · have hread := SourceText.ofBytes_append cs (Prod.ext hstep rfl)
      obtain ⟨part, hpart, hill⟩ := Utf8.exists_illFormed_of_step (Prod.ext hstep rfl)
      rw [hbytes, hread] at hline ⊢
      cases hline
      refine ⟨String.ofList cs, part, _, by rw [hencode, hpart], hill, ?_, ?_, ?_⟩
      · rw [String.toList_ofList]
      · rw [String.toList_ofList, Nat.add_comm]
      · intro ts hts t ht hstart
        -- the characters in front of the replacement character, cut at the token
        rw [String.length_ofList] at hstart ⊢
        have hcut := congrArg (List.count '\n') (List.take_append_drop t.start cs)
        rw [List.count_append] at hcut
        rw [line_eq_count_take hts ht, List.take_append_of_le_length hstart, slice, List.take_left]
        omega

/-- A sequence of three bytes that ends too early takes the line break behind it for no part of
itself. The byte behind that starts no sequence, so that it is replaced on its own. -/
theorem source_text_exact_truncated :
    let bytes : List UInt8 := [0x61, 0x0a, 0xe2, 0x82, 0x0a, 0xc0, 0x62]
    let source := SourceText.ofBytes bytes
    source.badLine = some 2 ∧ source.text = ['a', '\n', '\ufffd', '\n', '\ufffd', 'b'] ∧
      source.text.count '\n' = bytes.count lineFeed ∧
      ∃ (front : String) (part rest : List UInt8),
        bytes = Utf8.encode front ++ (part ++ rest) ∧ Utf8.IllFormed part rest ∧
        2 = 1 + front.toList.count '\n' ∧
        ∃ ts, tokenize source.text = .ok ts ∧ ∃ t ∈ ts, t.start = 0 ∧
          t.line + (slice source.text t.start front.length).count '\n' = 2 := by
  intro bytes source
  have hbad : source.badLine = some 2 := by decide +kernel
  have htext : source.text = ['a', '\n', '\ufffd', '\n', '\ufffd', 'b'] := by decide +kernel
  obtain ⟨ts, htokens, t, ht, hstart⟩ :
      ∃ ts, tokenize source.text = .ok ts ∧ ∃ t ∈ ts, t.start = 0 := by
    rw [htext]
    refine ⟨_, tokenize_eq_ok_iff.2 ⟨by decide +kernel, rfl⟩, ?_⟩
    simpa only [List.any_eq_true, decide_eq_true_eq] using
      (by decide +kernel : (tokensFrom .start (Lexeme.scan
        ['a', '\n', '\ufffd', '\n', '\ufffd', 'b']).lexemes).any (·.start = 0))
  obtain ⟨-, -, hcount, hline⟩ := source_text_exact bytes
  obtain ⟨front, part, rest, hbytes, hill, -, hfront, hlexer⟩ := hline 2 hbad
  exact ⟨hbad, htext, hcount, front, part, rest, hbytes, hill, hfront, _, htokens, t, ht, hstart,
    hlexer _ htokens t ht (by omega)⟩

end AbiIndex.Source
