import AbiIndex.Abi.Canonical
import AbiIndex.Proofs.Traversal
import Mathlib.Data.List.Nodup

/-!
# Canonical forms as derivations

The rules for canonical forms, stated without any bookkeeping of what is being expanded, and the
proof that `canonical` follows them.

## Key results

- `canonicalWithin_sound`: whatever the expansion gives has a derivation
- `canonicalWithin_complete`: whatever has a derivation is given, since the guards against endless
  expansion never meet a definition that a finite derivation opens again
- `not_derives_of_reachesMapping`: nothing that leads to a mapping has a derivation
- `canonical_eq_ok_iff_derives`: the canonical forms are the derivable ones
-/

namespace AbiIndex.Abi

open AbiIndex.Source AbiIndex.Text

/-! ## Array lengths -/

/-- The text is an integer literal of the given value, and the value is not too long to be
written. -/
def IsLiteral (text : String) (n : Nat) : Prop :=
  integerLiteral text = .ok (some n) ∧ n < Nat.pow 10 Number.maxDigits

/-- The length that a text between brackets states in a scope. -/
inductive StatesLength (reg : Registry) (scope : Scope) (text : String) (n : Nat) : Prop
  | literal (h : IsLiteral text n)
  | constant (home : Scope) (c : ConstantDecl)
      (hparts : (pieces (· = '.') text.toList).all isIdentifier)
      (hd : reg.resolvePath scope ((pieces (· = '.') text.toList).map String.ofList)
        = .ok ⟨home, .constant c⟩)
      (h : IsLiteral c.value n)

/-- Numbers up to the limit are written in full. -/
theorem lengthText_eq_ok_iff {n : Nat} {digits : String} :
    lengthText n = .ok digits ↔ n < Nat.pow 10 Number.maxDigits ∧ digits = toString n := by
  have hn : ((n : Nat) : Int).natAbs = n := Int.natAbs_natCast n
  unfold lengthText Number.writeDecimal
  rw [hn]
  by_cases h : Nat.pow 10 Number.maxDigits ≤ n
  · rw [if_pos h]
    constructor
    · intro h'
      cases h'
    · rintro ⟨hlt, -⟩
      omega
  · rw [if_neg h]
    constructor
    · intro h'
      cases h'
      exact ⟨by omega, rfl⟩
    · rintro ⟨_, rfl⟩
      rfl

/-- Identifiers start behind the ASCII digits. -/
theorem lt_toNat_of_identifierStart {c : Char} (h : identifierStarts.contains c) :
    57 < c.toNat := by
  by_contra hc
  rw [CharSet.contains, identifierStarts, CharSet.has, if_pos (by omega)] at h
  cases h

theorem isDigit_eq_false_of_lt {c : Char} (h : 57 < c.toNat) : c.isDigit = false := by
  have hval : ¬ c.val ≤ 57 := by
    rw [UInt32.le_iff_toNat_le]
    exact Nat.not_le.2 h
  simp [Char.isDigit, hval]

/-- A text that starts behind the ASCII digits is no integer literal. -/
theorem integerLiteral_eq_none_of_lt {text : String} {c : Char} {rest : List Char}
    (htext : text.toList = c :: rest) (hc : 57 < c.toNat) : integerLiteral text = .ok none := by
  have hzero : c ≠ '0' := by
    rintro rfl
    exact absurd hc (by decide)
  -- the line break that is overlooked is not the first character
  have hbody : ∃ rest', (if (c :: rest).getLast? = some '\n' then (c :: rest).dropLast
      else c :: rest) = c :: rest' := by
    cases rest with
    | nil =>
      have hbreak : c ≠ '\n' := by
        rintro rfl
        exact absurd hc (by decide)
      exact ⟨[], by simp [hbreak]⟩
    | cons d rest =>
      split
      · exact ⟨(d :: rest).dropLast, rfl⟩
      · exact ⟨d :: rest, rfl⟩
  obtain ⟨rest', hbody⟩ := hbody
  unfold integerLiteral
  simp only [htext, hbody]
  split
  · rename_i heq
    exact absurd (List.cons.inj heq).1 hzero
  · rw [integerLiteral.decimal, if_neg (by simp [isDigit_eq_false_of_lt hc])]

/-- A dotted identifier is no integer literal, so that at most one reading of a length applies. -/
theorem integerLiteral_eq_none_of_identifiers {text : String}
    (h : (pieces (· = '.') text.toList).all isIdentifier) : integerLiteral text = .ok none := by
  cases htext : text.toList with
  | nil => simp [htext, pieces, isIdentifier] at h
  | cons c rest =>
    apply integerLiteral_eq_none_of_lt htext
    rw [htext, pieces] at h
    split at h
    · simp [isIdentifier] at h
    · split at h <;> simp only [List.all_cons, isIdentifier, Bool.and_eq_true] at h <;>
        exact lt_toNat_of_identifierStart h.1.1

/-- The value of a literal in decimal digits, as `arrayLength` writes it. -/
theorem literalText_eq_ok_iff {text digits : String} {e : TypeError} :
    (integerLiteral text >>= fun value => match value with
      | some n => lengthText n
      | none => throw e) = .ok digits ↔ ∃ n, IsLiteral text n ∧ digits = toString n := by
  rw [bind_eq_ok_iff]
  constructor
  · rintro ⟨value, hvalue, hdigits⟩
    cases value with
    | none => cases hdigits
    | some n =>
      obtain ⟨hn, rfl⟩ := lengthText_eq_ok_iff.1 hdigits
      exact ⟨n, ⟨hvalue, hn⟩, rfl⟩
  · rintro ⟨n, ⟨hvalue, hn⟩, rfl⟩
    exact ⟨some n, hvalue, lengthText_eq_ok_iff.2 ⟨hn, rfl⟩⟩

/-- The length of an array is the one that the text between its brackets states. -/
theorem arrayLength_eq_ok_iff {reg : Registry} {scope : Scope} {text digits : String} :
    arrayLength reg scope text = .ok digits ↔
      ∃ n, StatesLength reg scope text n ∧ digits = toString n := by
  unfold arrayLength
  rw [bind_eq_ok_iff]
  constructor
  · rintro ⟨value, hvalue, h⟩
    cases value with
    | some n =>
      obtain ⟨hn, rfl⟩ := lengthText_eq_ok_iff.1 h
      exact ⟨n, .literal ⟨hvalue, hn⟩, rfl⟩
    | none =>
      -- the text is no literal, so that it has to name a constant
      dsimp only at h
      split at h
      · rename_i hparts
        obtain ⟨⟨home, decl⟩, hd, h⟩ := bind_eq_ok_iff.1 h
        cases decl with
        | constant c =>
          obtain ⟨n, hn, rfl⟩ := literalText_eq_ok_iff.1 h
          exact ⟨n, .constant home c hparts hd hn, rfl⟩
        | struct _ => cases h
        | enum _ => cases h
        | valueType _ => cases h
        | contract _ => cases h
      · cases h
  · rintro ⟨n, hlen, rfl⟩
    cases hlen with
    | literal h => exact ⟨some n, h.1, lengthText_eq_ok_iff.2 ⟨h.2, rfl⟩⟩
    | constant home c hparts hd h =>
      refine ⟨none, integerLiteral_eq_none_of_identifiers hparts, ?_⟩
      dsimp only
      rw [if_pos hparts]
      exact bind_eq_ok_iff.2 ⟨_, hd, literalText_eq_ok_iff.2 ⟨n, h, rfl⟩⟩

/-- A text states at most one length. -/
theorem StatesLength.toString_unique {reg : Registry} {scope : Scope} {text : String} {m n : Nat}
    (hm : StatesLength reg scope text m) (hn : StatesLength reg scope text n) :
    toString m = toString n := by
  have h₁ := arrayLength_eq_ok_iff.2 ⟨m, hm, rfl⟩
  have h₂ := arrayLength_eq_ok_iff.2 ⟨n, hn, rfl⟩
  rw [h₁] at h₂
  exact Except.ok.inj h₂

/-! ## Derivations -/

/-- The type has the canonical form `s` in a scope, by a derivation of height at most `n`. What a
value type or a struct is made of is derived in the scope that declares it. -/
inductive Derives (reg : Registry) : Nat → Scope → TypeRef → String → Prop
  | elementary {n : Nat} {scope : Scope} (name : String) :
      Derives reg (n + 1) scope (.elementary name) (canonicalElementary name)
  | function {n : Nat} {scope : Scope} (text : String) :
      Derives reg (n + 1) scope (.function text) "function"
  | dynamic {n : Nat} {scope : Scope} {base : TypeRef} {s : String}
      (hbase : Derives reg n scope base s) :
      Derives reg (n + 1) scope (.array base none) (s ++ "[]")
  | sized {n : Nat} {scope : Scope} {base : TypeRef} {s text : String} {len : Nat}
      (hbase : Derives reg n scope base s) (hlen : StatesLength reg scope text len) :
      Derives reg (n + 1) scope (.array base (some text)) (s ++ "[" ++ toString len ++ "]")
  | contract {n : Nat} {scope home : Scope} {path : List String} {c : ContractDecl}
      (hd : reg.resolvePath scope path = .ok ⟨home, .contract c⟩) :
      Derives reg (n + 1) scope (.user path) "address"
  | enum {n : Nat} {scope home : Scope} {path : List String} {d : EnumDecl}
      (hd : reg.resolvePath scope path = .ok ⟨home, .enum d⟩) :
      Derives reg (n + 1) scope (.user path) "uint8"
  | valueType {n : Nat} {scope home : Scope} {path : List String} {v : ValueTypeDecl} {s : String}
      (hd : reg.resolvePath scope path = .ok ⟨home, .valueType v⟩)
      (hunder : Derives reg n home v.underlying s) :
      Derives reg (n + 1) scope (.user path) s
  | struct {n : Nat} {scope home : Scope} {path : List String} {d : StructDecl} {ss : List String}
      (hd : reg.resolvePath scope path = .ok ⟨home, .struct d⟩)
      (hlen : d.fields.length = ss.length)
      (hfields : ∀ p ∈ d.fields.zip ss, Derives reg n home p.1.type p.2) :
      Derives reg (n + 1) scope (.user path) ("(" ++ ",".intercalate ss ++ ")")

private theorem getElem_mem_zip {α β : Type} (xs : List α) (ys : List β) (i : Nat)
    (hi : i < xs.length) (hi' : i < ys.length) : (xs[i], ys[i]) ∈ xs.zip ys := by
  rw [List.mem_iff_getElem]
  exact ⟨i, by rw [List.length_zip]; omega, List.getElem_zip⟩

namespace Derives

variable {reg : Registry} {scope : Scope} {type : TypeRef} {s : String} {n : Nat}

theorem succ (h : Derives reg n scope type s) : Derives reg (n + 1) scope type s := by
  induction h with
  | elementary name => exact .elementary name
  | function text => exact .function text
  | dynamic _ ih => exact .dynamic ih
  | sized _ hlen ih => exact .sized ih hlen
  | contract hd => exact .contract hd
  | enum hd => exact .enum hd
  | valueType hd _ ih => exact .valueType hd ih
  | struct hd hlen _ ih => exact .struct hd hlen ih

theorem mono {m : Nat} (h : Derives reg n scope type s) (hm : n ≤ m) :
    Derives reg m scope type s := by
  induction hm with
  | refl => exact h
  | step _ ih => exact ih.succ

/-- A type has at most one canonical form. -/
theorem unique {m : Nat} {s' : String} (h : Derives reg n scope type s)
    (h' : Derives reg m scope type s') : s = s' := by
  induction h generalizing m s' with
  | elementary name => cases h'; rfl
  | function text => cases h'; rfl
  | dynamic _ ih =>
    cases h' with
    | dynamic h' => rw [ih h']
  | sized _ hlen ih =>
    cases h' with
    | sized h' hlen' => rw [ih h', hlen.toString_unique hlen']
  | contract hd =>
    -- a name stands for one definition, and only one rule fits it
    cases h' with
    | contract _ => rfl
    | enum hd' => cases hd.symm.trans hd'
    | valueType hd' _ => cases hd.symm.trans hd'
    | struct hd' _ _ => cases hd.symm.trans hd'
  | enum hd =>
    cases h' with
    | contract hd' => cases hd.symm.trans hd'
    | enum _ => rfl
    | valueType hd' _ => cases hd.symm.trans hd'
    | struct hd' _ _ => cases hd.symm.trans hd'
  | valueType hd _ ih =>
    cases h' with
    | contract hd' => cases hd.symm.trans hd'
    | enum hd' => cases hd.symm.trans hd'
    | valueType hd' h' => cases hd.symm.trans hd'; exact ih h'
    | struct hd' _ _ => cases hd.symm.trans hd'
  | @struct _ _ _ _ d ss hd hlen _ ih =>
    cases h' with
    | contract hd' => cases hd.symm.trans hd'
    | enum hd' => cases hd.symm.trans hd'
    | valueType hd' _ => cases hd.symm.trans hd'
    | @struct _ _ _ _ d' ss' hd' hlen' hfields' =>
      cases hd.symm.trans hd'
      have hss : ss = ss' := by
        apply List.ext_getElem (by omega)
        intro i hi hi'
        have hmem := getElem_mem_zip d.fields ss i (by omega) hi
        have hmem' := getElem_mem_zip d.fields ss' i (by omega) hi'
        exact ih _ hmem (hfields' _ hmem')
      rw [hss]

/-- All names of a definition have the same derivations. -/
theorem rename {scope' : Scope} {path path' : List String} {d : Definition}
    (h : Derives reg n scope (.user path) s) (hd : reg.resolvePath scope path = .ok d)
    (hd' : reg.resolvePath scope' path' = .ok d) : Derives reg n scope' (.user path') s := by
  cases h with
  | contract h => cases hd.symm.trans h; exact .contract hd'
  | enum h => cases hd.symm.trans h; exact .enum hd'
  | valueType h hunder => cases hd.symm.trans h; exact .valueType hd' hunder
  | struct h hlen hfields => cases hd.symm.trans h; exact .struct hd' hlen hfields

end Derives

/-! ## Soundness -/

/-- Derivations for all fields of a struct can be given one height. -/
theorem exists_derives_fields {reg : Registry} {scope : Scope} {fields : List Parameter}
    {ss : List String}
    (h : List.Forall₂ (fun f s => ∃ n, Derives reg n scope f.type s) fields ss) :
    ∃ n, ∀ p ∈ fields.zip ss, Derives reg n scope p.1.type p.2 := by
  induction h with
  | nil => exact ⟨0, by simp⟩
  | cons hhead _ ih =>
    obtain ⟨m, hm⟩ := hhead
    obtain ⟨n, hn⟩ := ih
    refine ⟨max m n, ?_⟩
    intro p hp
    rw [List.zip_cons_cons, List.mem_cons] at hp
    rcases hp with rfl | hp
    · exact hm.mono (Nat.le_max_left m n)
    · exact (hn p hp).mono (Nat.le_max_right m n)

/-- What the expansion gives has a derivation, whatever is being expanded already. -/
theorem canonicalWithin_sound {reg : Registry} {expanding : List Definition.Identity}
    {unfolding : List Definition} {scope : Scope} {type : TypeRef} {s : String}
    (h : canonicalWithin reg expanding unfolding scope type = .ok s) :
    ∃ n, Derives reg n scope type s := by
  fun_induction canonicalWithin reg expanding unfolding scope type generalizing s with
  | case1 _ _ _ name => cases h; exact ⟨1, .elementary name⟩
  | case2 _ _ _ text => cases h; exact ⟨1, .function text⟩
  | case3 => cases h
  | case4 => cases h
  | case5 expanding unfolding scope base length ih =>
    obtain ⟨element, hbase, h⟩ := bind_eq_ok_iff.1 h
    obtain ⟨n, hn⟩ := ih hbase
    cases length with
    | none => cases h; exact ⟨n + 1, .dynamic hn⟩
    | some text =>
      obtain ⟨digits, hdigits, h⟩ := bind_eq_ok_iff.1 h
      obtain ⟨len, hlen, rfl⟩ := arrayLength_eq_ok_iff.1 hdigits
      cases h
      exact ⟨n + 1, .sized hn hlen⟩
  | case6 => cases h
  | case7 _ _ _ path d hd c hdecl =>
    obtain ⟨home, decl⟩ := d
    cases hdecl
    cases h
    exact ⟨1, .contract hd⟩
  | case8 _ _ _ path d hd e hdecl =>
    obtain ⟨home, decl⟩ := d
    cases hdecl
    cases h
    exact ⟨1, .enum hd⟩
  | case9 => cases h
  | case10 => cases h
  | case11 _ _ _ path d hd v hdecl _ ih =>
    obtain ⟨home, decl⟩ := d
    cases hdecl
    obtain ⟨n, hn⟩ := ih h
    exact ⟨n + 1, .valueType hd hn⟩
  | case12 => cases h
  | case13 _ _ _ path d hd st hdecl _ ih =>
    obtain ⟨home, decl⟩ := d
    cases hdecl
    obtain ⟨ss, hss, h⟩ := bind_eq_ok_iff.1 h
    cases h
    -- each field has a derivation of its own height, and the highest serves all
    have hfields := mapM_eq_ok_iff.1 hss
    obtain ⟨n, hn⟩ := exists_derives_fields (hfields.imp fun f s hs => ih f hs)
    exact ⟨n + 1, .struct hd hfields.length_eq hn⟩

/-! ## Completeness -/

/-- No name of the definition has a derivation of height at most `n`. -/
def Underived (reg : Registry) (n : Nat) (d : Definition) : Prop :=
  ∀ scope path s, reg.resolvePath scope path = .ok d → ¬ Derives reg n scope (.user path) s

theorem Underived.of_succ {reg : Registry} {n : Nat} {d : Definition}
    (h : Underived reg (n + 1) d) : Underived reg n d :=
  fun scope path s hd hs => h scope path s hd hs.succ

/-- If one name of a definition has no derivation, then none has. -/
theorem Underived.of_name {reg : Registry} {n : Nat} {d : Definition} {scope : Scope}
    {path : List String} (hd : reg.resolvePath scope path = .ok d)
    (h : ¬ ∃ s, Derives reg n scope (.user path) s) : Underived reg n d :=
  fun _ _ s hd' hs => h ⟨s, hs.rename hd' hd⟩

/-- No two definitions of the registry have the same identity. -/
def Registry.Distinct (reg : Registry) : Prop :=
  ∀ d ∈ reg.definitions, ∀ e ∈ reg.definitions, d.identity = e.identity → d = e

/-- The expansion of a name is that of the definition that it stands for. -/
theorem canonicalWithin_user {reg : Registry} {expanding : List Definition.Identity}
    {unfolding : List Definition} {scope : Scope} {path : List String} {d : Definition}
    (hd : reg.resolvePath scope path = .ok d) :
    canonicalWithin reg expanding unfolding scope (.user path) =
      match d.decl with
      | .contract _ => .ok "address"
      | .enum _ => .ok "uint8"
      | .constant _ => .error (.constantAsType (TypeRef.user path).render)
      | .valueType v =>
        if d ∈ unfolding then .error (.endless v.name)
        else canonicalWithin reg expanding (d :: unfolding) d.scope v.underlying
      | .struct s =>
        if d.identity ∈ expanding then .error (.recursive s.name)
        else do
          let fields ← s.fields.mapM fun field =>
            canonicalWithin reg (d.identity :: expanding) [] d.scope field.type
          return "(" ++ ",".intercalate fields ++ ")" := by
  rw [canonicalWithin]
  split
  · rename_i e he
    rw [hd] at he
    cases he
  · rename_i d' hd'
    rw [hd] at hd'
    cases hd'
    rfl

/-- A derivation of height `n` never opens a definition whose names all need a greater height. So
the guards, which hold only such definitions, do not stop the expansion. -/
theorem canonicalWithin_complete {reg : Registry} (hreg : reg.Distinct) {n : Nat}
    {expanding : List Definition.Identity} {unfolding : List Definition} {scope : Scope}
    {type : TypeRef} {s : String} (h : Derives reg n scope type s)
    (hexp : ∀ d ∈ reg.definitions, d.identity ∈ expanding → Underived reg n d)
    (hunf : ∀ d ∈ unfolding, Underived reg n d) :
    canonicalWithin reg expanding unfolding scope type = .ok s := by
  induction n generalizing expanding unfolding scope type s with
  | zero => cases h
  | succ n ih =>
    have hexp' : ∀ d ∈ reg.definitions, d.identity ∈ expanding → Underived reg n d :=
      fun d hd hid => (hexp d hd hid).of_succ
    have hunf' : ∀ d ∈ unfolding, Underived reg n d := fun d hd => (hunf d hd).of_succ
    -- a name that has a lower derivation needs no look at its definition
    by_cases hlow : ∃ s', Derives reg n scope type s'
    · obtain ⟨s', hs'⟩ := hlow
      rw [h.unique hs']
      exact ih hs' hexp' hunf'
    cases h with
    | elementary name => rw [canonicalWithin]
    | function text => rw [canonicalWithin]
    | dynamic hbase =>
      rw [canonicalWithin, ih hbase hexp' hunf']
      rfl
    | sized hbase hlen =>
      rw [canonicalWithin, ih hbase hexp' hunf']
      exact bind_eq_ok_iff.2
        ⟨_, rfl, bind_eq_ok_iff.2 ⟨_, arrayLength_eq_ok_iff.2 ⟨_, hlen, rfl⟩, rfl⟩⟩
    | contract hd => rw [canonicalWithin_user hd]
    | enum hd => rw [canonicalWithin_user hd]
    | @valueType _ _ home path v _ hd hunder =>
      -- its names have a derivation of this height, so the guard does not hold it
      have hfresh : ⟨home, .valueType v⟩ ∉ unfolding :=
        fun hmem => hunf _ hmem _ _ _ hd (.valueType hd hunder)
      -- they have none of a lower height, so the guard may hold it from here on
      have hguard : ∀ d ∈ ⟨home, .valueType v⟩ :: unfolding, Underived reg n d := by
        intro d hmem
        rcases List.mem_cons.1 hmem with rfl | hmem
        · exact .of_name hd hlow
        · exact hunf' d hmem
      rw [canonicalWithin_user hd]
      show (if _ ∈ unfolding then _ else _) = _
      rw [if_neg hfresh]
      exact ih hunder hexp' hguard
    | @struct _ _ home path d ss hd hlen hfields =>
      have hmem := Registry.mem_of_resolvePath hd
      have hfresh : Definition.identity ⟨home, .struct d⟩ ∉ expanding :=
        fun hid => hexp _ hmem hid _ _ _ hd (.struct hd hlen hfields)
      have hguard : ∀ e ∈ reg.definitions,
          e.identity ∈ Definition.identity ⟨home, .struct d⟩ :: expanding → Underived reg n e := by
        intro e he hid
        rcases List.mem_cons.1 hid with hid | hid
        · rw [hreg e he _ hmem hid]
          exact .of_name hd hlow
        · exact hexp' e he hid
      have hall : d.fields.mapM (fun field => canonicalWithin reg
          (Definition.identity ⟨home, .struct d⟩ :: expanding) [] home field.type) = .ok ss :=
        mapM_eq_ok_iff.2 (List.forall₂_iff_zip.2
          ⟨hlen, fun {f t} hft => ih (hfields (f, t) hft) hguard (by simp)⟩)
      rw [canonicalWithin_user hd]
      show (if _ ∈ expanding then _ else _) = _
      rw [if_neg hfresh, hall]
      rfl

/-! ## Names that are declared once -/

/-- What a file declares outside its contracts, among it the contracts themselves. -/
def fileDeclarations (unit : SourceUnit) : List Defined :=
  unit.structs.map .struct ++ unit.enums.map .enum ++ unit.valueTypes.map .valueType
    ++ unit.constants.map .constant ++ unit.contracts.map .contract

/-- What a contract declares. -/
def contractDeclarations (c : ContractDecl) : List Defined :=
  c.structs.map .struct ++ c.enums.map .enum ++ c.valueTypes.map .valueType
    ++ c.constants.map .constant

/-- Neither the file nor one of its contracts declares a name twice. -/
structure DeclaresOnce (unit : SourceUnit) : Prop where
  file : ((fileDeclarations unit).map Defined.name).Nodup
  contracts : ∀ c ∈ unit.contracts, ((contractDeclarations c).map Defined.name).Nodup

instance (unit : SourceUnit) : Decidable (DeclaresOnce unit) :=
  decidable_of_iff (((fileDeclarations unit).map Defined.name).Nodup ∧
      ∀ c ∈ unit.contracts, ((contractDeclarations c).map Defined.name).Nodup)
    ⟨fun h => ⟨h.1, h.2⟩, fun h => ⟨h.file, h.contracts⟩⟩

/-- Every definition of a registry is declared by a file or by a contract in it. -/
theorem exists_unit_of_mem_definitions {units : List SourceUnit} {d : Definition}
    (h : d ∈ (Registry.ofUnits units).definitions) :
    ∃ unit ∈ units, d.scope = ⟨unit.path, none⟩ ∧ d.decl ∈ fileDeclarations unit ∨
      ∃ c ∈ unit.contracts, d.scope = ⟨unit.path, some c.name⟩ ∧
        d.decl ∈ contractDeclarations c := by
  obtain ⟨unit, hunit, h⟩ := List.mem_flatMap.1 h
  refine ⟨unit, hunit, ?_⟩
  rcases List.mem_append.1 h with h | h
  · obtain ⟨decl, hdecl, rfl⟩ := List.mem_map.1 h
    exact .inl ⟨rfl, List.mem_append_left _ hdecl⟩
  · obtain ⟨c, hc, h⟩ := List.mem_flatMap.1 h
    rcases List.mem_cons.1 h with rfl | h
    · exact .inl ⟨rfl, List.mem_append_right _ (List.mem_map_of_mem hc)⟩
    · obtain ⟨decl, hdecl, rfl⟩ := List.mem_map.1 h
      exact .inr ⟨c, hc, rfl, hdecl⟩

/-- Contracts of one file with the same name are the same. -/
theorem DeclaresOnce.contract_unique {unit : SourceUnit} (h : DeclaresOnce unit)
    {c c' : ContractDecl} (hc : c ∈ unit.contracts) (hc' : c' ∈ unit.contracts)
    (hname : c.name = c'.name) : c = c' := by
  have hmem : ∀ x ∈ unit.contracts, Defined.contract x ∈ fileDeclarations unit :=
    fun x hx => List.mem_append_right _ (List.mem_map_of_mem hx)
  have heq := List.inj_on_of_nodup_map h.file (hmem c hc) (hmem c' hc') hname
  exact Defined.contract.inj heq

/-- If no scope declares a name twice, identities tell all definitions apart. -/
theorem ofUnits_distinct {units : List SourceUnit} (hpaths : (units.map (·.path)).Nodup)
    (hnames : ∀ unit ∈ units, DeclaresOnce unit) : (Registry.ofUnits units).Distinct := by
  intro d hd e he hid
  obtain ⟨unit, hunit, hd⟩ := exists_unit_of_mem_definitions hd
  obtain ⟨unit', hunit', he⟩ := exists_unit_of_mem_definitions he
  obtain ⟨hscope, hname⟩ : d.scope = e.scope ∧ d.name = e.name := Prod.mk.inj hid
  -- the path tells the file
  have hpath : unit.path = unit'.path := by
    have hd' : d.scope.path = unit.path := by rcases hd with ⟨h, _⟩ | ⟨_, _, h, _⟩ <;> rw [h]
    have he' : e.scope.path = unit'.path := by rcases he with ⟨h, _⟩ | ⟨_, _, h, _⟩ <;> rw [h]
    rw [← hd', ← he', hscope]
  have heq : unit = unit' := List.inj_on_of_nodup_map hpaths hunit hunit' hpath
  subst heq
  -- the scope tells whether the file itself or which of its contracts declares the name
  have hdecl : d.decl = e.decl := by
    rcases hd with ⟨hs, hd⟩ | ⟨c, hc, hs, hd⟩
    · rcases he with ⟨hs', he⟩ | ⟨c', _, hs', _⟩
      · exact List.inj_on_of_nodup_map (hnames unit hunit).file hd he hname
      · rw [hs, hs'] at hscope
        cases hscope
    · rcases he with ⟨hs', _⟩ | ⟨c', hc', hs', he⟩
      · rw [hs, hs'] at hscope
        cases hscope
      · rw [hs, hs'] at hscope
        have hcc : c = c' := (hnames unit hunit).contract_unique hc hc'
          (Option.some.inj (Scope.mk.inj hscope).2)
        subst hcc
        exact List.inj_on_of_nodup_map ((hnames unit hunit).contracts c hc) hd he hname
  cases d
  cases e
  cases hscope
  cases hdecl
  rfl

/-! ## Mappings -/

/-- A mapping can be reached from the type through array elements, the fields of structs and what
value types stand for. -/
inductive ReachesMapping (reg : Registry) : Scope → TypeRef → Prop
  | mapping {scope : Scope} (key value : TypeRef) : ReachesMapping reg scope (.mapping key value)
  | array {scope : Scope} {base : TypeRef} (length : Option String)
      (h : ReachesMapping reg scope base) : ReachesMapping reg scope (.array base length)
  | valueType {scope home : Scope} {path : List String} {v : ValueTypeDecl}
      (hd : reg.resolvePath scope path = .ok ⟨home, .valueType v⟩)
      (h : ReachesMapping reg home v.underlying) : ReachesMapping reg scope (.user path)
  | struct {scope home : Scope} {path : List String} {d : StructDecl} {field : Parameter}
      (hd : reg.resolvePath scope path = .ok ⟨home, .struct d⟩) (hfield : field ∈ d.fields)
      (h : ReachesMapping reg home field.type) : ReachesMapping reg scope (.user path)

/-- A type that leads to a mapping has no derivation. -/
theorem not_derives_of_reachesMapping {reg : Registry} {scope : Scope} {type : TypeRef}
    (h : ReachesMapping reg scope type) (n : Nat) (s : String) :
    ¬ Derives reg n scope type s := by
  intro hs
  induction h generalizing n s with
  | mapping key value => cases hs
  | array length _ ih =>
    cases hs with
    | dynamic hbase => exact ih _ _ hbase
    | sized hbase _ => exact ih _ _ hbase
  | valueType hd _ ih =>
    cases hs with
    | contract hd' => cases hd.symm.trans hd'
    | enum hd' => cases hd.symm.trans hd'
    | valueType hd' hunder => cases hd.symm.trans hd'; exact ih _ _ hunder
    | struct hd' _ _ => cases hd.symm.trans hd'
  | struct hd hfield _ ih =>
    cases hs with
    | contract hd' => cases hd.symm.trans hd'
    | enum hd' => cases hd.symm.trans hd'
    | valueType hd' _ => cases hd.symm.trans hd'
    | struct hd' hlen hfields =>
      cases hd.symm.trans hd'
      obtain ⟨i, hi, rfl⟩ := List.mem_iff_getElem.1 hfield
      exact ih _ _ (hfields _ (getElem_mem_zip _ _ i hi (by omega)))

/-! ## The canonical form of a type -/

/-- In a project that declares every name once per scope, a type has the canonical form `s` exactly
if `s` has a finite derivation; a type that leads to a mapping has none. -/
theorem canonical_eq_ok_iff_derives (units : List SourceUnit)
    (hpaths : (units.map (·.path)).Nodup) (hnames : ∀ unit ∈ units, DeclaresOnce unit)
    (scope : Scope) (type : TypeRef) :
    (∀ s, canonical (Registry.ofUnits units) scope type = .ok s ↔
      ∃ n, Derives (Registry.ofUnits units) n scope type s) ∧
    (ReachesMapping (Registry.ofUnits units) scope type →
      ∀ s, canonical (Registry.ofUnits units) scope type ≠ .ok s) := by
  refine ⟨fun s => ⟨canonicalWithin_sound, ?_⟩, ?_⟩
  · rintro ⟨n, hn⟩
    exact canonicalWithin_complete (ofUnits_distinct hpaths hnames) hn (by simp) (by simp)
  · intro hmap s hs
    obtain ⟨n, hn⟩ := canonicalWithin_sound hs
    exact not_derives_of_reachesMapping hmap n s hn

/-- Two files with types that refer to each other. -/
def orderBook : List SourceUnit :=
  [.ofMembers "Book.sol" .contracts
    [.struct ⟨"Leg", [⟨"amount", .user ["Amount"], false⟩, ⟨"side", .user ["Side"], false⟩], 1⟩,
     .struct ⟨"Order", [⟨"legs", .array (.user ["Leg"]) (some "SIZE"), false⟩,
       ⟨"owner", .elementary "address payable", false⟩], 2⟩,
     .struct ⟨"Ledger", [⟨"orders", .array (.mapping (.elementary "uint") (.user ["Order"])) none,
       false⟩], 3⟩],
   .ofMembers "Terms.sol" .contracts
    [.valueType ⟨"Amount", .elementary "uint", 1⟩, .enum ⟨"Side", ["buy", "sell"], 2⟩,
     .constant ⟨"SIZE", "0x0a", 3⟩]]

/-- A struct of structs across two files has its canonical form, and a struct that holds mappings
has none. -/
theorem canonical_orderBook :
    (orderBook.map (·.path)).Nodup ∧ (∀ unit ∈ orderBook, DeclaresOnce unit) ∧
    canonical (Registry.ofUnits orderBook) ⟨"Book.sol", none⟩ (.user ["Order"])
      = .ok "((uint256,uint8)[10],address)" ∧
    ∀ s, canonical (Registry.ofUnits orderBook) ⟨"Terms.sol", none⟩ (.user ["Ledger"]) ≠ .ok s := by
  have hpaths : (orderBook.map (·.path)).Nodup := by decide
  have hnames : ∀ unit ∈ orderBook, DeclaresOnce unit := by decide
  -- the limit on digits is too large a number to be evaluated
  have hpow : ∀ n, 10 < n → 10 < Nat.pow 10 n := by
    intro n hn
    exact Nat.lt_trans hn (Nat.lt_pow_self (by decide))
  have hlimit := hpow Number.maxDigits (by decide)
  have hsize : StatesLength (Registry.ofUnits orderBook) ⟨"Book.sol", none⟩ "SIZE" 10 :=
    .constant ⟨"Terms.sol", none⟩ ⟨"SIZE", "0x0a", 3⟩ (by decide) (by rfl) ⟨by rfl, hlimit⟩
  have hleg : Derives (Registry.ofUnits orderBook) 3 ⟨"Book.sol", none⟩ (.user ["Leg"])
      ("(" ++ ",".intercalate ["uint256", "uint8"] ++ ")") := by
    refine .struct (by rfl) (by decide) ?_
    intro p hp
    simp only [List.zip_cons_cons, List.zip_nil_left, List.mem_cons, List.not_mem_nil,
      or_false] at hp
    rcases hp with rfl | rfl
    · exact .valueType (by rfl) (.elementary "uint")
    · exact .enum (by rfl)
  have horder : Derives (Registry.ofUnits orderBook) 5 ⟨"Book.sol", none⟩ (.user ["Order"])
      ("(" ++ ",".intercalate [("(" ++ ",".intercalate ["uint256", "uint8"] ++ ")") ++ "["
        ++ toString 10 ++ "]", "address"] ++ ")") := by
    refine .struct (by rfl) (by decide) ?_
    intro p hp
    simp only [List.zip_cons_cons, List.zip_nil_left, List.mem_cons, List.not_mem_nil,
      or_false] at hp
    rcases hp with rfl | rfl
    · exact .sized hleg hsize
    · exact .elementary "address payable"
  refine ⟨hpaths, hnames, ?_, ?_⟩
  · exact ((canonical_eq_ok_iff_derives orderBook hpaths hnames _ _).1 _).2 ⟨5, horder⟩
  · apply (canonical_eq_ok_iff_derives orderBook hpaths hnames _ _).2
    exact .struct (by rfl) (List.mem_singleton_self _) (.array none (.mapping _ _))

end AbiIndex.Abi
