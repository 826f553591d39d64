import AbiIndex.Proofs.Containment
import Mathlib.Logic.Relation

/-!
# Types without a finite expansion

A type whose expansion comes back to a definition that is being expanded has no canonical form. It
is reported as recursive, unless the definition is a value type that stands for itself or for an
array of itself: only structs are guarded against being opened twice.

## Key results

- `Expands.unique`: an expansion has one way to go on for ever
- `ComesBack.not_isFinite`, `ComesBack.persists`: an expansion that comes back has no canonical
  form, and comes back wherever on this way it is looked at
- `exists_fault_of_error`: a failure has its cause at a type that the expansion comes to
- `canonical_of_comesBack`: which failure an expansion that comes back ends with
-/

namespace AbiIndex.Abi

open AbiIndex.Source Relation

/-! ## The way of an expansion -/

/-- A type as it stands in a scope. -/
structure TypeUse where
  scope : Scope
  type : TypeRef

namespace TypeUse

/-- The type is a name of the definition. -/
def Names (reg : Registry) (u : TypeUse) (d : Definition) : Prop :=
  ∃ path, u.type = .user path ∧ reg.resolvePath u.scope path = .ok d

/-- The type has a canonical form. -/
def IsFinite (reg : Registry) (u : TypeUse) : Prop := ∃ n s, Derives reg n u.scope u.type s

end TypeUse

/-- The expansion of a type goes on with another one: with the elements of an array, with what a
value type stands for, or with a field of a struct if all fields before it have canonical forms. -/
inductive Expands (reg : Registry) : TypeUse → TypeUse → Prop
  | element {scope : Scope} {base : TypeRef} (length : Option String) :
      Expands reg ⟨scope, .array base length⟩ ⟨scope, base⟩
  | underlying {scope : Scope} {path : List String} {d : Definition} {v : ValueTypeDecl}
      (hd : reg.resolvePath scope path = .ok d) (hv : d.decl = .valueType v) :
      Expands reg ⟨scope, .user path⟩ ⟨d.scope, v.underlying⟩
  | field {scope : Scope} {path : List String} {d : Definition} {s : StructDecl}
      {before after : List Parameter} {f : Parameter}
      (hd : reg.resolvePath scope path = .ok d) (hs : d.decl = .struct s)
      (hfields : s.fields = before ++ f :: after)
      (hbefore : ∀ g ∈ before, TypeUse.IsFinite reg ⟨d.scope, g.type⟩) :
      Expands reg ⟨scope, .user path⟩ ⟨d.scope, f.type⟩

/-- The expansion of the type comes to a name of the definition, and on from there to a name of the
same definition. Nothing before that fails. -/
def ComesBack (reg : Registry) (u : TypeUse) (d : Definition) : Prop :=
  ∃ v w, ReflTransGen (Expands reg) u v ∧ v.Names reg d ∧
    TransGen (Expands reg) v w ∧ w.Names reg d

section Expansion

variable {reg : Registry} {u v w : TypeUse} {d e : Definition}

theorem TypeUse.Names.unique (hd : u.Names reg d) (he : u.Names reg e) : d = e := by
  obtain ⟨path, htype, hd⟩ := hd
  obtain ⟨path', htype', he⟩ := he
  cases htype.symm.trans htype'
  exact Except.ok.inj (hd.symm.trans he)

/-- An expansion goes on with what a definition is made of, whichever of its names it comes to. -/
theorem Expands.rename (h : Expands reg u v) (hd : u.Names reg d) (hd' : w.Names reg d) :
    Expands reg w v := by
  obtain ⟨path, htype, hd⟩ := hd
  obtain ⟨scope', type'⟩ := w
  obtain ⟨path', rfl, hd'⟩ := hd'
  cases h with
  | element => cases htype
  | underlying hd₀ hv =>
    cases htype
    cases hd₀.symm.trans hd
    exact .underlying hd' hv
  | field hd₀ hs hfields hbefore =>
    cases htype
    cases hd₀.symm.trans hd
    exact .field hd' hs hfields hbefore

/-- A name with a canonical form is that of a definition other than a constant. What the definition
is made of has canonical forms, by lower derivations. -/
theorem exists_definition_of_derives {n : Nat} {scope : Scope} {path : List String} {t : String}
    (h : Derives reg (n + 1) scope (.user path) t) : ∃ d, reg.resolvePath scope path = .ok d ∧
      (∀ c, d.decl ≠ .constant c) ∧
      (∀ v, d.decl = .valueType v → ∃ t', Derives reg n d.scope v.underlying t') ∧
      ∀ s, d.decl = .struct s → ∀ f ∈ s.fields, ∃ t', Derives reg n d.scope f.type t' := by
  cases h with
  | contract hd => exact ⟨_, hd, by simp, by simp, by simp⟩
  | enum hd => exact ⟨_, hd, by simp, by simp, by simp⟩
  | valueType hd hunder =>
    refine ⟨_, hd, by simp, fun v hv => ?_, by simp⟩
    cases hv
    exact ⟨_, hunder⟩
  | struct hd hlen hall =>
    refine ⟨_, hd, by simp, by simp, fun s hs f hf => ?_⟩
    cases hs
    obtain ⟨t', -, ht'⟩ := exists_right_of_forall₂ (List.forall₂_iff_zip.2
      ⟨hlen, fun {f t} hft => hall (f, t) hft⟩) hf
    exact ⟨t', ht'⟩

/-- What a type with a canonical form is made of has canonical forms, by lower derivations. -/
theorem Expands.derives {n : Nat} {t : String} (h : Expands reg u v)
    (hu : Derives reg (n + 1) u.scope u.type t) : ∃ t', Derives reg n v.scope v.type t' := by
  cases h with
  | element length =>
    cases hu with
    | dynamic hbase => exact ⟨_, hbase⟩
    | sized hbase _ => exact ⟨_, hbase⟩
  | underlying hd hv =>
    obtain ⟨d', hd', -, hunder, -⟩ := exists_definition_of_derives hu
    cases hd.symm.trans hd'
    exact hunder _ hv
  | field hd hs hfields =>
    obtain ⟨d', hd', -, -, hall⟩ := exists_definition_of_derives hu
    cases hd.symm.trans hd'
    exact hall _ hs _ (by simp [hfields])

theorem Expands.isFinite (h : Expands reg u v) (hu : u.IsFinite reg) : v.IsFinite reg := by
  obtain ⟨n, t, ht⟩ := hu
  obtain ⟨t', ht'⟩ := h.derives ht.succ
  exact ⟨n, t', ht'⟩

theorem isFinite_of_reflTransGen (h : ReflTransGen (Expands reg) u v) (hu : u.IsFinite reg) :
    v.IsFinite reg := by
  induction h with
  | refl => exact hu
  | tail _ hstep ih => exact hstep.isFinite ih

/-- Among the types that an expansion may go on with, only one has no canonical form. -/
theorem Expands.unique (hv : Expands reg u v) (hw : Expands reg u w) (hv' : ¬ v.IsFinite reg)
    (hw' : ¬ w.IsFinite reg) : v = w := by
  cases hv with
  | element length =>
    cases hw with
    | element => rfl
  | underlying hd hdecl =>
    cases hw with
    | underlying hd' hdecl' =>
      cases hd.symm.trans hd'
      cases hdecl.symm.trans hdecl'
      rfl
    | field hd' hdecl' =>
      cases hd.symm.trans hd'
      cases hdecl.symm.trans hdecl'
  | @field _ _ _ _ before _ f hd hdecl hfields hbefore =>
    cases hw with
    | underlying hd' hdecl' =>
      cases hd.symm.trans hd'
      cases hdecl.symm.trans hdecl'
    | @field _ _ _ _ before' _ f' hd' hdecl' hfields' hbefore' =>
      cases hd.symm.trans hd'
      cases hdecl.symm.trans hdecl'
      -- neither of the two fields stands before the other
      rcases List.append_eq_append_iff.1 (hfields.symm.trans hfields') with
        ⟨between, hsplit, hrest⟩ | ⟨between, hsplit, hrest⟩
      · cases between with
        | nil => cases hrest; rfl
        | cons g between =>
          cases hrest
          exact absurd (hbefore' f (by simp [hsplit])) hv'
      · cases between with
        | nil => cases hrest; rfl
        | cons g between =>
          cases hrest
          exact absurd (hbefore f' (by simp [hsplit])) hw'

namespace ComesBack

/-- An expansion that comes back to a definition goes on with one that does. -/
theorem next (h : ComesBack reg u d) : ∃ w, Expands reg u w ∧ ComesBack reg w d := by
  obtain ⟨v, w, huv, hv, hvw, hw⟩ := h
  rcases ReflTransGen.cases_head huv with rfl | ⟨x, hux, hxv⟩
  · -- from the second name of the definition the expansion goes the same way again
    obtain ⟨x, hux, hxw⟩ := TransGen.head'_iff.1 hvw
    exact ⟨x, hux, w, w, hxw, hw, .head' (hux.rename hv hw) hxw, hw⟩
  · exact ⟨x, hux, v, w, hxv, hv, hvw, hw⟩

/-- A definition that an expansion comes back to would need a derivation lower than itself. -/
theorem not_isFinite (h : ComesBack reg u d) : ¬ u.IsFinite reg := by
  rintro ⟨n, t, ht⟩
  induction n generalizing u t with
  | zero => cases ht
  | succ n ih =>
    obtain ⟨w, huw, hw⟩ := h.next
    obtain ⟨t', ht'⟩ := huw.derives ht
    exact ih hw t' ht'

/-- It does not matter where on its way it is looked at. -/
theorem persists (h : ComesBack reg u d) (huv : ReflTransGen (Expands reg) u v)
    (hv : ¬ v.IsFinite reg) : ComesBack reg v d := by
  induction huv using ReflTransGen.head_induction_on with
  | refl => exact h
  | head hux hxv ih =>
    obtain ⟨w, huw, hw⟩ := h.next
    have hx := fun hfinite => hv (isFinite_of_reflTransGen hxv hfinite)
    rw [hux.unique huw hx hw.not_isFinite] at ih
    exact ih hw

end ComesBack

/-! ## Value types that stand for themselves -/

/-- Brackets are taken off, or a value type is replaced by what it stands for. -/
def Replaces (reg : Registry) (u v : TypeUse) : Prop :=
  (∃ length, u = ⟨v.scope, .array v.type length⟩) ∨
    ∃ d decl, u.Names reg d ∧ d.decl = .valueType decl ∧ v = ⟨d.scope, decl.underlying⟩

/-- The expansion has no other way to go on. -/
theorem Replaces.eq (h : Replaces reg u v) (hw : Expands reg u w) : w = v := by
  rcases h with ⟨length, rfl⟩ | ⟨d, decl, ⟨path, htype, hd⟩, hdecl, rfl⟩
  · cases hw with
    | element => rfl
  · cases hw with
    | element => cases htype
    | underlying hd' hdecl' =>
      cases htype
      cases hd.symm.trans hd'
      cases hdecl.symm.trans hdecl'
      rfl
    | field hd' hdecl' =>
      cases htype
      cases hd.symm.trans hd'
      cases hdecl.symm.trans hdecl'

theorem Replaces.unfolds (h : Replaces reg v w)
    (huv : Unfolds reg u.scope u.type v.scope v.type) :
    Unfolds reg u.scope u.type w.scope w.type := by
  obtain ⟨scope, type⟩ := v
  rcases h with ⟨length, heq⟩ | ⟨d, decl, ⟨path, rfl, hd⟩, hdecl, rfl⟩
  · cases heq
    exact .element huv
  · exact .valueType huv hd hdecl

theorem unfolds_trans (huv : Unfolds reg u.scope u.type v.scope v.type)
    (hvw : Unfolds reg v.scope v.type w.scope w.type) :
    Unfolds reg u.scope u.type w.scope w.type := by
  obtain ⟨scope, type⟩ := w
  dsimp only at hvw ⊢
  induction hvw with
  | refl => exact huv
  | element _ ih => exact .element ih
  | valueType _ hd hdecl ih => exact .valueType ih hd hdecl

theorem unfolds_cases_head (h : Unfolds reg u.scope u.type v.scope v.type) :
    u = v ∨ ∃ w, Replaces reg u w ∧ Unfolds reg w.scope w.type v.scope v.type := by
  obtain ⟨scope, type⟩ := v
  dsimp only at h ⊢
  induction h with
  | refl => exact .inl rfl
  | @element home base length _ ih =>
    rcases ih with rfl | ⟨w, hw, hrest⟩
    · exact .inr ⟨⟨home, base⟩, .inl ⟨length, rfl⟩, .refl⟩
    · exact .inr ⟨w, hw, .element hrest⟩
  | @valueType home path d decl _ hd hdecl ih =>
    rcases ih with rfl | ⟨w, hw, hrest⟩
    · exact .inr ⟨⟨d.scope, decl.underlying⟩, .inr ⟨d, decl, ⟨path, rfl, hd⟩, hdecl, rfl⟩, .refl⟩
    · exact .inr ⟨w, hw, .valueType hrest hd hdecl⟩

theorem reflTransGen_of_unfolds (h : Unfolds reg u.scope u.type v.scope v.type) :
    ReflTransGen (Expands reg) u v := by
  obtain ⟨scope, type⟩ := v
  dsimp only at h ⊢
  induction h with
  | refl => exact .refl
  | element _ ih => exact ih.tail (.element _)
  | valueType _ hd hdecl ih => exact ih.tail (.underlying hd hdecl)

/-- An expansion that comes to a value type that stands for itself comes back to it. -/
theorem IsEndless.comesBack (h : IsEndless reg d) (huv : ReflTransGen (Expands reg) u v)
    (hv : v.Names reg d) : ComesBack reg u d := by
  obtain ⟨decl, scope, path, hdecl, hunfolds, hd⟩ := h
  refine ⟨v, ⟨scope, .user path⟩, huv, hv, ?_, path, rfl, hd⟩
  obtain ⟨scope', type'⟩ := v
  obtain ⟨path', rfl, hd'⟩ := hv
  exact .head' (.underlying hd' hdecl)
    (reflTransGen_of_unfolds (u := ⟨d.scope, decl.underlying⟩) hunfolds)

/-- Whatever an expansion comes to behind such a value type is of the same kind. -/
theorem IsEndless.of_reflTransGen (h : IsEndless reg d) (hu : u.Names reg d)
    (huv : ReflTransGen (Expands reg) u v) (hv : v.Names reg e) : IsEndless reg e := by
  obtain ⟨decl, scope, path, hdecl, hunfolds, hd⟩ := id h
  -- the round leads from what the value type stands for to one of its names
  let start : TypeUse := ⟨d.scope, decl.underlying⟩
  let last : TypeUse := ⟨scope, .user path⟩
  have hlast : Replaces reg last start := .inr ⟨d, decl, ⟨path, rfl, hd⟩, hdecl, rfl⟩
  have hround : Unfolds reg start.scope start.type last.scope last.type := hunfolds
  rcases ReflTransGen.cases_head huv with rfl | ⟨x, hux, hxv⟩
  · rwa [hv.unique hu]
  have hx : x = start := hlast.eq (hux.rename hu ⟨path, rfl, hd⟩)
  subst hx
  -- no step leaves the round
  have hon : ∀ w, ReflTransGen (Expands reg) start w →
      Unfolds reg start.scope start.type w.scope w.type ∧
        Unfolds reg w.scope w.type last.scope last.type := by
    intro w hw
    induction hw with
    | refl => exact ⟨.refl, hround⟩
    | tail _ hstep ih =>
      rcases unfolds_cases_head ih.2 with rfl | ⟨y, hy, hrest⟩
      · rw [hlast.eq hstep]
        exact ⟨.refl, hround⟩
      · rw [hy.eq hstep]
        exact ⟨hy.unfolds ih.1, hrest⟩
  obtain ⟨hbefore, hbehind⟩ := hon v hxv
  rcases unfolds_cases_head hbehind with
    rfl | ⟨y, ⟨length, heq⟩ | ⟨e', decl', he', hdecl', rfl⟩, hrest⟩
  · rwa [hv.unique ⟨path, rfl, hd⟩]
  · obtain ⟨path', htype, -⟩ := hv
    rw [heq] at htype
    cases htype
  · obtain rfl := hv.unique he'
    obtain ⟨path', htype, hd'⟩ := hv
    have hagain := unfolds_trans (unfolds_trans hrest (hlast.unfolds .refl)) hbefore
    rw [htype] at hagain
    exact ⟨decl', v.scope, path', hdecl', hagain, hd'⟩

/-! ## Where an expansion fails -/

/-- The failures of expansions that come back. -/
def TypeError.IsReturn : TypeError → Prop
  | .recursive _ => True
  | .endless _ => True
  | _ => False

theorem TypeError.IsConversion.not_isReturn {e : TypeError} (h : e.IsConversion) :
    ¬ e.IsReturn := by
  cases h <;> exact not_false

theorem TypeError.IsUnresolved.not_isReturn {e : TypeError} (h : e.IsUnresolved) :
    ¬ e.IsReturn := by
  cases h <;> exact not_false

/-- The expansion cannot go on from the type, or its length has no value. -/
inductive Stops (reg : Registry) : TypeUse → TypeError → Prop
  | absent {scope : Scope} : Stops reg ⟨scope, .absent⟩ (.unsupported TypeRef.absent.render)
  | mapping {scope : Scope} (key value : TypeRef) :
      Stops reg ⟨scope, .mapping key value⟩ (.mapping (TypeRef.mapping key value).render)
  | length {scope : Scope} {base : TypeRef} {text : String} {e : TypeError}
      (hbase : TypeUse.IsFinite reg ⟨scope, base⟩) (h : arrayLength reg scope text = .error e) :
      Stops reg ⟨scope, .array base (some text)⟩ e
  | unresolved {scope : Scope} {path : List String} {e : TypeError}
      (h : reg.resolvePath scope path = .error e) : Stops reg ⟨scope, .user path⟩ e
  | constant {scope : Scope} {path : List String} {d : Definition} {c : ConstantDecl}
      (hd : reg.resolvePath scope path = .ok d) (hc : d.decl = .constant c) :
      Stops reg ⟨scope, .user path⟩ (.constantAsType (TypeRef.user path).render)

theorem Stops.not_isReturn {e : TypeError} (h : Stops reg u e) : ¬ e.IsReturn := by
  cases h with
  | absent => exact not_false
  | mapping => exact not_false
  | length _ h =>
    rcases arrayLength_error h with ⟨-, hconversion⟩ | hunresolved
    · exact hconversion.not_isReturn
    · exact hunresolved.not_isReturn
  | unresolved h =>
    rcases resolvePath_error h with ⟨-, rfl⟩ | hunresolved
    · exact not_false
    · exact hunresolved.not_isReturn
  | constant => exact not_false

theorem Stops.not_isFinite {e : TypeError} (h : Stops reg u e) : ¬ u.IsFinite reg := by
  rintro ⟨n, t, ht⟩
  cases h with
  | absent => cases ht
  | mapping => cases ht
  | length _ h =>
    cases ht with
    | sized _ hlen => cases h.symm.trans (arrayLength_eq_ok_iff.2 ⟨_, hlen, rfl⟩)
  | unresolved h =>
    obtain ⟨d, hd, -⟩ := exists_definition_of_derives ht.succ
    cases hd.symm.trans h
  | constant hd hc =>
    obtain ⟨d', hd', hconstant, -⟩ := exists_definition_of_derives ht.succ
    cases hd.symm.trans hd'
    exact hconstant _ hc

/-- There is nothing without a canonical form behind a type where an expansion stops. -/
theorem Stops.isFinite_of_expands {e : TypeError} (h : Stops reg u e) (huv : Expands reg u v) :
    v.IsFinite reg := by
  cases h with
  | absent => cases huv
  | mapping => cases huv
  | length hbase =>
    cases huv
    exact hbase
  | unresolved h =>
    cases huv with
    | underlying hd => cases hd.symm.trans h
    | field hd => cases hd.symm.trans h
  | constant hd hc =>
    cases huv with
    | underlying hd' hv =>
      cases hd.symm.trans hd'
      cases hc.symm.trans hv
    | field hd' hs =>
      cases hd.symm.trans hd'
      cases hc.symm.trans hs

theorem Stops.not_comesBack {e : TypeError} (h : Stops reg u e) : ¬ ComesBack reg u d := by
  intro hback
  obtain ⟨w, huw, hw⟩ := hback.next
  exact hw.not_isFinite (h.isFinite_of_expands huw)

/-- What an expansion that has started at `r` ends with at the type `u`: it stops, or it meets a
value type that stands for itself, or a struct with the identity of one that it has come through. -/
inductive FailsAt (reg : Registry) (r u : TypeUse) : TypeError → Prop
  | stops {e : TypeError} (h : Stops reg u e) : FailsAt reg r u e
  | endless {d : Definition} (hu : u.Names reg d) (h : IsEndless reg d) :
      FailsAt reg r u (.endless d.name)
  | reopened {x : TypeUse} {d d' : Definition} {s : StructDecl} (hu : u.Names reg d)
      (hs : d.decl = .struct s) (hx : x.Names reg d') (hid : d'.identity = d.identity)
      (hrx : ReflTransGen (Expands reg) r x) (hxu : TransGen (Expands reg) x u) :
      FailsAt reg r u (.recursive s.name)

/-- The structs that are being expanded lie on the way from `r` to `u`, in front of `u`. -/
def CameThrough (reg : Registry) (r : TypeUse) (expanding : List Definition.Identity)
    (u : TypeUse) : Prop :=
  ∀ id ∈ expanding, ∃ x d, x.Names reg d ∧ d.identity = id ∧
    ReflTransGen (Expands reg) r x ∧ TransGen (Expands reg) x u

namespace CameThrough

variable {r : TypeUse} {expanding : List Definition.Identity}

theorem nil : CameThrough reg r [] u := List.forall_mem_nil _

theorem next {v : TypeUse} (h : CameThrough reg r expanding u) (huv : Expands reg u v) :
    CameThrough reg r expanding v := by
  intro id hid
  obtain ⟨x, d, hx, hd, hrx, hxu⟩ := h id hid
  exact ⟨x, d, hx, hd, hrx, hxu.tail huv⟩

theorem opened {v : TypeUse} (h : CameThrough reg r expanding u)
    (hr : ReflTransGen (Expands reg) r u) (hu : u.Names reg d) (huv : Expands reg u v) :
    CameThrough reg r (d.identity :: expanding) v :=
  List.forall_mem_cons.2 ⟨⟨u, d, hu, rfl, hr, .single huv⟩, h.next huv⟩

end CameThrough

/-- A failure has its cause at a type that the expansion comes to. -/
theorem exists_fault_of_error {r : TypeUse} {expanding : List Definition.Identity}
    {unfolding : List Definition} {scope : Scope} {type : TypeRef} {e : TypeError}
    (hr : ReflTransGen (Expands reg) r ⟨scope, type⟩)
    (hexpanding : CameThrough reg r expanding ⟨scope, type⟩)
    (hunfolding : LeadTo reg unfolding scope type)
    (h : canonicalWithin reg expanding unfolding scope type = .error e) :
    ∃ u, ReflTransGen (Expands reg) r u ∧ FailsAt reg r u e := by
  fun_induction canonicalWithin reg expanding unfolding scope type generalizing e with
  | case1 => cases h
  | case2 => cases h
  | case3 =>
    cases h
    exact ⟨_, hr, .stops .absent⟩
  | case4 _ _ _ key value =>
    cases h
    exact ⟨_, hr, .stops (.mapping key value)⟩
  | case5 expanding unfolding scope base length ih =>
    have hstep : Expands reg ⟨scope, .array base length⟩ ⟨scope, base⟩ := .element length
    rcases bind_eq_error_iff.1 h with h | ⟨element, helement, h⟩
    · exact ih (hr.tail hstep) (hexpanding.next hstep) hunfolding.element h
    · cases length with
      | none => cases h
      | some text =>
        rcases bind_eq_error_iff.1 h with h | ⟨_, _, ⟨⟩⟩
        obtain ⟨n, hn⟩ := canonicalWithin_sound helement
        exact ⟨_, hr, .stops (.length ⟨n, _, hn⟩ h)⟩
  | case6 _ _ _ path e' he' =>
    cases h
    exact ⟨_, hr, .stops (.unresolved he')⟩
  | case7 => cases h
  | case8 => cases h
  | case9 _ _ _ path d hd c hc =>
    cases h
    exact ⟨_, hr, .stops (.constant hd hc)⟩
  | case10 _ unfolding _ path d hd v hv hmem =>
    cases h
    have hname : d.name = v.name := by rw [Definition.name, hv, Defined.name]
    exact ⟨_, hr, hname ▸ .endless ⟨path, rfl, hd⟩ (hunfolding.isEndless hd hmem)⟩
  | case11 _ unfolding scope path d hd v hv _ ih =>
    have hstep : Expands reg ⟨scope, .user path⟩ ⟨d.scope, v.underlying⟩ := .underlying hd hv
    exact ih (hr.tail hstep) (hexpanding.next hstep) (hunfolding.replace hd hv) h
  | case12 _ _ scope path d hd s hs hmem =>
    cases h
    obtain ⟨x, d', hx, hid, hrx, hxu⟩ := hexpanding _ hmem
    exact ⟨_, hr, .reopened ⟨path, rfl, hd⟩ hs hx hid hrx hxu⟩
  | case13 expanding _ scope path d hd s hs _ ih =>
    rcases bind_eq_error_iff.1 h with h | ⟨_, _, ⟨⟩⟩
    obtain ⟨before, field, after, hfields, hbefore, hfield⟩ := mapM_eq_error_iff.1 h
    have hstep : Expands reg ⟨scope, .user path⟩ ⟨d.scope, field.type⟩ := by
      refine .field hd hs hfields fun g hg => ?_
      obtain ⟨t, ht⟩ := hbefore g hg
      obtain ⟨n, hn⟩ := canonicalWithin_sound ht
      exact ⟨n, t, hn⟩
    exact ih field (hr.tail hstep) (hexpanding.opened hr ⟨path, rfl, hd⟩ hstep) .nil hfield

/-! ## What an expansion that comes back ends with -/

/-- All definitions that an expansion comes back to lie on one round. -/
theorem ComesBack.endless_iff (hd : ComesBack reg u d) (he : ComesBack reg u e) :
    IsEndless reg d ↔ IsEndless reg e := by
  suffices h : ∀ {d e}, ComesBack reg u d → ComesBack reg u e → IsEndless reg d →
      IsEndless reg e from ⟨h hd he, h he hd⟩
  intro d e hd he hendless
  obtain ⟨v, w, huv, hv, hvw, hw⟩ := id hd
  have hback : ComesBack reg v d := ⟨v, w, .refl, hv, hvw, hw⟩
  obtain ⟨x, _, hvx, hx, -⟩ := he.persists huv hback.not_isFinite
  exact hendless.of_reflTransGen hv hvx hx

/-- An expansion that comes back fails, and not where it would stop. -/
theorem exists_failsAt_of_comesBack (h : ComesBack reg u d) :
    ∃ v e, canonical reg u.scope u.type = .error e ∧ ReflTransGen (Expands reg) u v ∧
      FailsAt reg u v e ∧ e.IsReturn := by
  cases hcanonical : canonical reg u.scope u.type with
  | ok t =>
    obtain ⟨n, ht⟩ := canonicalWithin_sound hcanonical
    exact absurd ⟨n, t, ht⟩ h.not_isFinite
  | error e =>
    have hstart : ReflTransGen (Expands reg) u ⟨u.scope, u.type⟩ := .refl
    obtain ⟨v, huv, hv⟩ := exists_fault_of_error hstart .nil .nil hcanonical
    refine ⟨v, e, rfl, huv, hv, ?_⟩
    cases hv with
    | stops hstops => exact absurd (h.persists huv hstops.not_isFinite) hstops.not_comesBack
    | endless => trivial
    | reopened => trivial

/-- An expansion that comes back to a definition other than a value type that stands for itself, or
for an array of itself, is reported as recursive. -/
theorem canonical_recursive_of_comesBack {scope : Scope} {type : TypeRef}
    (h : ComesBack reg ⟨scope, type⟩ d) (hd : ¬ IsEndless reg d) :
    ∃ name, canonical reg scope type = .error (.recursive name) := by
  obtain ⟨v, e, hcanonical, huv, hv, he⟩ := exists_failsAt_of_comesBack h
  cases hv with
  | stops hstops => exact absurd he hstops.not_isReturn
  | endless hv hendless =>
    exact absurd (((hendless.comesBack huv hv).endless_iff h).1 hendless) hd
  | @reopened _ _ _ s => exact ⟨s.name, hcanonical⟩

/-- Only such a value type keeps an expansion from coming to an end. -/
theorem comesBack_of_canonical_endless {scope : Scope} {type : TypeRef} {name : String}
    (h : canonical reg scope type = .error (.endless name)) :
    ∃ d, ComesBack reg ⟨scope, type⟩ d ∧ IsEndless reg d := by
  obtain ⟨v, huv, hv⟩ := exists_fault_of_error .refl .nil .nil h
  cases hv with
  | stops hstops => exact absurd trivial hstops.not_isReturn
  | @endless d hv hendless => exact ⟨d, hendless.comesBack huv hv, hendless⟩

/-- If no two definitions have the same identity, a struct that is opened again is the one that the
expansion has come through. -/
theorem comesBack_of_canonical_recursive (hreg : reg.Distinct) {scope : Scope} {type : TypeRef}
    {name : String} (h : canonical reg scope type = .error (.recursive name)) :
    ∃ d, ComesBack reg ⟨scope, type⟩ d ∧ ¬ IsEndless reg d := by
  obtain ⟨v, huv, hv⟩ := exists_fault_of_error .refl .nil .nil h
  cases hv with
  | stops hstops => exact absurd trivial hstops.not_isReturn
  | @reopened x d d' s hv hs hx hid hux hxv =>
    obtain ⟨path, htype, hd⟩ := id hv
    obtain ⟨path', htype', hd'⟩ := id hx
    obtain rfl := hreg d' (Registry.mem_of_resolvePath hd') d (Registry.mem_of_resolvePath hd) hid
    refine ⟨d', ⟨x, v, hux, hx, hxv, hv⟩, ?_⟩
    rintro ⟨decl, _, _, hdecl, -⟩
    cases hs.symm.trans hdecl

theorem canonical_endless_of_comesBack (hreg : reg.Distinct) {scope : Scope} {type : TypeRef}
    (h : ComesBack reg ⟨scope, type⟩ d) (hd : IsEndless reg d) :
    ∃ name, canonical reg scope type = .error (.endless name) := by
  obtain ⟨v, e, hcanonical, -, hv, he⟩ := exists_failsAt_of_comesBack h
  cases hv with
  | stops hstops => exact absurd he hstops.not_isReturn
  | @endless d' => exact ⟨d'.name, hcanonical⟩
  | reopened =>
    obtain ⟨d', hback, hd'⟩ := comesBack_of_canonical_recursive hreg hcanonical
    exact absurd ((h.endless_iff hback).1 hd) hd'

end Expansion

/-- A type whose expansion comes back to a definition that is being expanded is reported as
recursive, unless the definition is a value type that stands for itself or for an array of itself;
without one of these every expansion has an end. In a project that declares every name once per
scope nothing else is reported as recursive, and the expansion that comes back to such a value type
has no end. -/
theorem canonical_of_comesBack (units : List SourceUnit) (scope : Scope) (type : TypeRef) :
    (∀ d, ComesBack (Registry.ofUnits units) ⟨scope, type⟩ d →
      ¬ IsEndless (Registry.ofUnits units) d →
        ∃ name, canonical (Registry.ofUnits units) scope type = .error (.recursive name)) ∧
    (∀ name, canonical (Registry.ofUnits units) scope type = .error (.endless name) →
      ∃ d, ComesBack (Registry.ofUnits units) ⟨scope, type⟩ d ∧
        IsEndless (Registry.ofUnits units) d) ∧
    ((units.map (·.path)).Nodup → (∀ unit ∈ units, DeclaresOnce unit) →
      (∀ name, canonical (Registry.ofUnits units) scope type = .error (.recursive name) →
        ∃ d, ComesBack (Registry.ofUnits units) ⟨scope, type⟩ d ∧
          ¬ IsEndless (Registry.ofUnits units) d) ∧
      ∀ d, ComesBack (Registry.ofUnits units) ⟨scope, type⟩ d →
        IsEndless (Registry.ofUnits units) d →
          ∃ name, canonical (Registry.ofUnits units) scope type = .error (.endless name)) := by
  refine ⟨fun d hback hd => canonical_recursive_of_comesBack hback hd,
    fun name h => comesBack_of_canonical_endless h, fun hpaths hnames => ?_⟩
  have hreg := ofUnits_distinct hpaths hnames
  exact ⟨fun name h => comesBack_of_canonical_recursive hreg h,
    fun d hback hd => canonical_endless_of_comesBack hreg hback hd⟩

/-- Two files: a struct that a value type leads back to, and a value type that stands for an array
of itself. -/
def rounds : List SourceUnit :=
  [.ofMembers "Node.sol" .contracts
    [.struct ⟨"Node", [⟨"key", .elementary "uint", false⟩,
      ⟨"next", .array (.user ["Link"]) none, false⟩], 1⟩],
   .ofMembers "Link.sol" .contracts
    [.valueType ⟨"Link", .user ["Node"], 1⟩,
     .valueType ⟨"Chain", .array (.user ["Chain"]) none, 2⟩]]

/-- The round through the struct is reported, the one of the value type alone has no end. -/
theorem canonical_rounds :
    (rounds.map (·.path)).Nodup ∧ (∀ unit ∈ rounds, DeclaresOnce unit) ∧
    (∃ name, canonical (Registry.ofUnits rounds) ⟨"Link.sol", none⟩ (.user ["Node"]) =
      .error (.recursive name)) ∧
    (∃ name, canonical (Registry.ofUnits rounds) ⟨"Node.sol", none⟩ (.user ["Chain"]) =
      .error (.endless name)) := by
  have hpaths : (rounds.map (·.path)).Nodup := by decide
  have hnames : ∀ unit ∈ rounds, DeclaresOnce unit := by decide
  let key : Parameter := ⟨"key", .elementary "uint", false⟩
  let next : Parameter := ⟨"next", .array (.user ["Link"]) none, false⟩
  let node : Definition := ⟨⟨"Node.sol", none⟩, .struct ⟨"Node", [key, next], 1⟩⟩
  let chain : Definition :=
    ⟨⟨"Link.sol", none⟩, .valueType ⟨"Chain", .array (.user ["Chain"]) none, 2⟩⟩
  refine ⟨hpaths, hnames, (canonical_of_comesBack rounds _ _).1 node ?_ ?_,
    ((canonical_of_comesBack rounds _ _).2.2 hpaths hnames).2 chain ?_ ?_⟩
  · have hnode : (Registry.ofUnits rounds).resolvePath ⟨"Link.sol", none⟩ ["Node"] = .ok node := by
      rfl
    have hkey : TypeUse.IsFinite (Registry.ofUnits rounds) ⟨node.scope, key.type⟩ :=
      ⟨1, _, .elementary "uint"⟩
    have hnext : Expands (Registry.ofUnits rounds) ⟨⟨"Link.sol", none⟩, .user ["Node"]⟩
        ⟨node.scope, next.type⟩ :=
      .field hnode rfl (show _ = [key] ++ next :: [] from rfl) (by simpa using hkey)
    exact ⟨_, _, .refl, ⟨_, rfl, hnode⟩,
      .head hnext (.head (.element none) (.single (.underlying (by rfl) rfl))), ⟨_, rfl, hnode⟩⟩
  · rintro ⟨_, _, _, ⟨⟩, -⟩
  · exact ⟨_, _, .refl, ⟨["Chain"], rfl, by rfl⟩,
      .head (.underlying (by rfl) rfl) (.single (.element none)), ⟨["Chain"], rfl, by rfl⟩⟩
  · exact ⟨_, _, ["Chain"], rfl, .element .refl, by rfl⟩

end AbiIndex.Abi
