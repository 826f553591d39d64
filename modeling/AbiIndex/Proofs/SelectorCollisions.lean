import AbiIndex.Collision
import AbiIndex.Proofs.ListFacts
import Mathlib.Data.List.Sort

/-!
# Which collisions are reported

A collision is reported for exactly the kinds and selectors that several signatures share. Its
report has all of these signatures and all places where they stand. The order of the records decides
about no more than the order of the places of each signature.

## Key results

- `mem_detect_iff`: every group of records is reported for itself
- `isExact_of_mem_detect`: the report of a collision has all signatures and places of its group
- `pairwise_detect`: the reports are in strict order
- `detect_exact`: all this, and that the order of the records changes nothing else
-/

namespace AbiIndex

open AbiIndex.Abi

namespace Collision

/-! ## Groups of records -/

/-- Errors can collide, and functions that a transaction can call. -/
def CanCollide (r : Record) : Prop :=
  r.kind = .error ∨
    r.kind = .function ∧ (r.visibility = some "public" ∨ r.visibility = some "external")

instance : DecidablePred CanCollide := fun _ => inferInstanceAs (Decidable (_ ∨ _ ∧ (_ ∨ _)))

/-- The records of one selector and kind that can collide, in their order. -/
def group (records : List Record) (k : String × SignatureKind) : List Record :=
  records.filter fun r => CanCollide r ∧ r.selector = k.1 ∧ r.kind = k.2

/-- Where the records of a group with the given signature stand, in their order. -/
def places (records : List Record) (k : String × SignatureKind) (signature : String) :
    List String :=
  ((group records k).filter (·.signature = signature)).map location

/-- Different signatures occur in the group. -/
def IsShared (records : List Record) (k : String × SignatureKind) : Prop :=
  ∃ r ∈ group records k, ∃ r' ∈ group records k, r.signature ≠ r'.signature

/-- The selector and the kind of a collision. -/
def heading (c : Collision) : String × SignatureKind := (c.selector, c.kind)

/-- By selector, then by the name of the kind. -/
def Precedes (k l : String × SignatureKind) : Prop :=
  k.1 < l.1 ∨ k.1 = l.1 ∧ k.2.name < l.2.name

/-- The report of a collision tells all about its group: each signature once, in order, and for one
signature after the other the places of its records. -/
structure IsExact (records : List Record) (c : Collision) : Prop where
  isShared : IsShared records c.heading
  mem_signatures : ∀ s, s ∈ c.signatures ↔ ∃ r ∈ group records c.heading, r.signature = s
  sorted : c.signatures.Pairwise (· < ·)
  locations_eq : c.locations = c.signatures.flatMap (places records c.heading)
  locations_perm : c.locations.Perm ((group records c.heading).map location)

/-- The reports of a collision among the same records in two orders. Only the places of a signature
may be in another order. -/
structure SameButPlaces (records records' : List Record) (c c' : Collision) : Prop where
  heading_eq : c'.heading = c.heading
  signatures_eq : c'.signatures = c.signatures
  places_perm : ∀ s, (places records' c.heading s).Perm (places records c.heading s)
  locations_eq : c.locations = c.signatures.flatMap (places records c.heading)
  locations_eq' : c'.locations = c.signatures.flatMap (places records' c.heading)

variable {records records' : List Record} {k : String × SignatureKind} {c : Collision}

theorem isEligible_iff {r : Record} : isEligible r = true ↔ CanCollide r := by
  simp only [isEligible, Record.isCallable, Bool.or_eq_true, Bool.and_eq_true, decide_eq_true_eq]
  rfl

theorem filter_key_eq_group (records : List Record) (k : String × SignatureKind) :
    (records.filter isEligible).filter (key · = k) = group records k := by
  rw [List.filter_filter, group]
  refine List.filter_congr fun r _ => ?_
  rw [Bool.eq_iff_iff, Bool.and_eq_true, isEligible_iff, decide_eq_true_eq, decide_eq_true_eq, key,
    Prod.ext_iff, and_comm]

theorem mem_group_iff {r : Record} :
    r ∈ group records k ↔ r ∈ records ∧ CanCollide r ∧ r.selector = k.1 ∧ r.kind = k.2 := by
  rw [group, List.mem_filter, decide_eq_true_eq]

/-- No event collides. -/
theorem IsShared.kind (h : IsShared records k) : k.2 = .function ∨ k.2 = .error := by
  obtain ⟨r, hr, -⟩ := h
  obtain ⟨-, hr, -, hkind⟩ := mem_group_iff.1 hr
  rw [← hkind]
  rcases hr with hr | ⟨hr, -⟩
  · exact .inr hr
  · exact .inl hr

/-- In another order of the records, a group has the same records. -/
theorem group_perm (h : records'.Perm records) (k : String × SignatureKind) :
    (group records' k).Perm (group records k) :=
  h.filter _

theorem isShared_of_perm (h : records'.Perm records) :
    IsShared records' k ↔ IsShared records k := by
  simp only [IsShared, (group_perm h k).mem_iff]

theorem places_perm (h : records'.Perm records) (k : String × SignatureKind) (s : String) :
    (places records' k s).Perm (places records k s) :=
  ((group_perm h k).filter _).map _

/-! ## The report of a group -/

/-- A collision belongs to the group that it was found in. -/
theorem heading_eq_of_ofGroup {g : List Record} (h : ofGroup k g = some c) : c.heading = k := by
  simp only [ofGroup] at h
  split at h
  · cases h
  · cases h
    rfl

theorem ofGroup_eq_some_iff {g : List Record} :
    ofGroup k g = some c ↔ (∃ r ∈ g, ∃ r' ∈ g, r.signature ≠ r'.signature) ∧
      c = ⟨k.1, k.2, Text.sorted (g.map (·.signature)).eraseDups,
        (Text.sorted (g.map (·.signature)).eraseDups).flatMap fun s =>
          (g.filter (·.signature = s)).map location⟩ := by
  have hlength : ¬(g.map (·.signature)).eraseDups.length < 2 ↔
      ∃ r ∈ g, ∃ r' ∈ g, r.signature ≠ r'.signature := by
    rw [not_lt, two_le_length_eraseDups_iff]
    simp only [List.mem_map, exists_exists_and_eq_and]
  rw [ofGroup, ← hlength]
  split
  · simp [*]
  · simp [*, eq_comm]

/-- Every group of records is reported for itself. -/
theorem mem_detect_iff :
    c ∈ detect records ↔ ofGroup c.heading (group records c.heading) = some c := by
  rw [detect, List.mem_mergeSort, List.mem_filterMap]
  simp only [filter_key_eq_group]
  constructor
  · rintro ⟨k, -, hc⟩
    rwa [heading_eq_of_ofGroup hc]
  · intro hc
    -- a group that is reported has a record, by which its selector and kind are looked up
    obtain ⟨⟨r, hr, -⟩, -⟩ := ofGroup_eq_some_iff.1 hc
    obtain ⟨hmem, hr, hselector, hkind⟩ := mem_group_iff.1 hr
    refine ⟨c.heading, ?_, hc⟩
    rw [List.mem_eraseDups, List.mem_map]
    exact ⟨r, List.mem_filter.2 ⟨hmem, isEligible_iff.2 hr⟩, Prod.ext hselector hkind⟩

/-- A collision is reported if and only if the group has different signatures. -/
theorem exists_mem_detect_iff :
    (∃ c ∈ detect records, c.heading = k) ↔ IsShared records k := by
  constructor
  · rintro ⟨c, hc, rfl⟩
    exact (ofGroup_eq_some_iff.1 (mem_detect_iff.1 hc)).1
  · intro h
    obtain ⟨c, hc⟩ : ∃ c, ofGroup k (group records k) = some c :=
      ⟨_, ofGroup_eq_some_iff.2 ⟨h, rfl⟩⟩
    obtain rfl : c.heading = k := heading_eq_of_ofGroup hc
    exact ⟨c, mem_detect_iff.2 hc, rfl⟩

/-- The report of a collision has all signatures and places of its group. -/
theorem isExact_of_mem_detect (h : c ∈ detect records) : IsExact records c := by
  obtain ⟨hshared, hc⟩ := ofGroup_eq_some_iff.1 (mem_detect_iff.1 h)
  have hsignatures := congrArg Collision.signatures hc
  have hlocations := congrArg Collision.locations hc
  dsimp only at hsignatures hlocations
  rw [← hsignatures] at hlocations
  have hmem : ∀ s, s ∈ c.signatures ↔ ∃ r ∈ group records c.heading, r.signature = s := by
    intro s
    rw [hsignatures, Text.mem_sorted, List.mem_eraseDups, List.mem_map]
  have hsorted : c.signatures.Pairwise (· < ·) := by
    rw [hsignatures]
    exact Text.pairwise_lt_sorted (nodup_eraseDups _)
  refine ⟨hshared, hmem, hsorted, hlocations, ?_⟩
  rw [hlocations, ← List.map_flatMap]
  refine (flatMap_filter_perm ?_ fun r hr => (hmem _).2 ⟨r, hr, rfl⟩).map _
  exact hsorted.imp String.ne_of_lt

/-! ## The order of the reports -/

theorem noLater_iff {c d : Collision} : noLater c d = true ↔
    c.selector < d.selector ∨ c.selector = d.selector ∧ c.kind.name ≤ d.kind.name := by
  rw [noLater]
  split
  · rename_i heq
    simp [heq, Text.noLater_iff]
  · rename_i hne
    rw [Text.noLater_iff]
    constructor
    · exact fun hle => .inl (Text.lt_of_le_of_ne hle hne)
    · rintro (hlt | ⟨heq, -⟩)
      · exact String.not_lt.1 (String.lt_asymm hlt)
      · exact absurd heq hne

theorem noLater_trans {c d e : Collision} (hcd : noLater c d = true) (hde : noLater d e = true) :
    noLater c e = true := by
  rw [noLater_iff] at hcd hde ⊢
  -- the first step to another selector decides, and the kinds only if there is none
  rcases hcd with hcd | ⟨hcd, hkind⟩
  · rcases hde with hde | ⟨hde, -⟩
    · exact .inl (String.lt_trans hcd hde)
    · exact .inl (hde ▸ hcd)
  · rw [hcd]
    exact hde.imp_right fun ⟨hde, hkind'⟩ => ⟨hde, String.le_trans hkind hkind'⟩

theorem noLater_total (c d : Collision) : (noLater c d || noLater d c) = true := by
  simp only [noLater]
  split
  · rename_i heq
    rw [if_pos heq.symm]
    exact Text.noLater_total _ _
  · rename_i hne
    rw [if_neg (Ne.symm hne)]
    exact Text.noLater_total _ _

/-- Each group is reported once. -/
theorem nodup_heading (records : List Record) : ((detect records).map heading).Nodup := by
  rw [detect, ((List.mergeSort_perm _ noLater).map heading).nodup_iff, List.map_filterMap]
  refine List.Nodup.filterMap ?_ (nodup_eraseDups _)
  intro k k' h hk hk'
  obtain ⟨c, hc, rfl⟩ := Option.map_eq_some_iff.1 hk
  obtain ⟨c', hc', heq⟩ := Option.map_eq_some_iff.1 hk'
  exact (heading_eq_of_ofGroup hc).symm.trans (heq.symm.trans (heading_eq_of_ofGroup hc'))

theorem name_injective {kind kind' : SignatureKind} (h : kind.name = kind'.name) :
    kind = kind' := by
  revert h
  cases kind <;> cases kind' <;> decide

/-- The reports are in strict order. -/
theorem pairwise_detect (records : List Record) :
    (detect records).Pairwise fun c d => Precedes c.heading d.heading := by
  have hsorted : (detect records).Pairwise (noLater · · = true) :=
    @List.pairwise_mergeSort _ noLater (fun _ _ _ => noLater_trans) noLater_total _
  refine hsorted.imp₂ (fun c d hle hne => ?_) (List.pairwise_map.1 (nodup_heading records))
  refine (noLater_iff.1 hle).imp_right fun ⟨hselector, hkind⟩ => ⟨hselector, ?_⟩
  exact Text.lt_of_le_of_ne hkind fun h => hne (Prod.ext hselector (name_injective h))

theorem Precedes.asymm {k l : String × SignatureKind} (h : Precedes k l) : ¬Precedes l k := by
  rintro (h' | ⟨heq, h'⟩)
  · rcases h with h | ⟨heq, -⟩
    · exact String.lt_asymm h h'
    · exact String.lt_irrefl _ (heq ▸ h')
  · rcases h with h | ⟨-, h⟩
    · exact String.lt_irrefl _ (heq ▸ h)
    · exact String.lt_asymm h h'

/-! ## Records in another order -/

/-- The same groups are reported, in the same order. -/
theorem map_heading_detect (h : records'.Perm records) :
    (detect records').map heading = (detect records).map heading := by
  -- lists in strict order are equal if they have the same members
  have hirrefl : Std.Irrefl Precedes := ⟨fun k h => h.asymm h⟩
  have hantisymm : Std.Antisymm Precedes := ⟨fun k l h h' => absurd h' h.asymm⟩
  refine List.Pairwise.eq_of_mem_iff (r := Precedes) (List.pairwise_map.2 (pairwise_detect _))
    (List.pairwise_map.2 (pairwise_detect _)) fun k => ?_
  rw [List.mem_map, List.mem_map, exists_mem_detect_iff, exists_mem_detect_iff, isShared_of_perm h]

theorem sameButPlaces_of_perm (h : records'.Perm records) {c c' : Collision}
    (hc : IsExact records c) (hc' : IsExact records' c') (hheading : c'.heading = c.heading) :
    SameButPlaces records records' c c' := by
  have hsignatures : c'.signatures = c.signatures := by
    have hirrefl : Std.Irrefl (α := String) (· < ·) := ⟨String.lt_irrefl⟩
    have hantisymm : Std.Antisymm (α := String) (· < ·) := ⟨fun _ _ h h' =>
      absurd h' (String.lt_asymm h)⟩
    refine List.Pairwise.eq_of_mem_iff hc'.sorted hc.sorted fun s => ?_
    rw [hc'.mem_signatures, hc.mem_signatures, hheading]
    simp only [(group_perm h c.heading).mem_iff]
  refine ⟨hheading, hsignatures, places_perm h _, hc.locations_eq, ?_⟩
  rw [hc'.locations_eq, hheading, hsignatures]

/-- Collisions are reported exactly: one for each selector and kind, other than that of events,
which different signatures of callable functions or of errors share, in the order of the selectors
and then of the kinds. Each has all of these signatures, and each place exactly once. The order of
the records decides about no more than the order of the places of a signature. -/
theorem detect_exact (records : List Record) :
    (∀ selector kind, (∃ c ∈ detect records, c.heading = (selector, kind)) ↔
      (kind = .function ∨ kind = .error) ∧ IsShared records (selector, kind)) ∧
    (∀ c ∈ detect records, IsExact records c) ∧
    ((detect records).Pairwise fun c d => Precedes c.heading d.heading) ∧
    ∀ records' : List Record, records'.Perm records →
      List.Forall₂ (SameButPlaces records records') (detect records) (detect records') := by
  refine ⟨fun selector kind => ?_, fun c => isExact_of_mem_detect, pairwise_detect records,
    fun records' h => ?_⟩
  · rw [exists_mem_detect_iff]
    exact ⟨fun h => ⟨h.kind, h⟩, And.right⟩
  · have hheading : List.Forall₂ (fun c c' => heading c' = heading c) (detect records)
        (detect records') := by
      have heq : List.Forall₂ (flip (· = ·)) ((detect records).map heading)
          ((detect records').map heading) := by
        rw [map_heading_detect h]
        exact List.forall₂_same.2 fun _ _ => rfl
      exact List.forall₂_map_right_iff.1 (List.forall₂_map_left_iff.1 heq)
    refine List.forall₂_iff_zip.2 ⟨hheading.length_eq, fun {c c'} hmem => ?_⟩
    obtain ⟨hc, hc'⟩ := List.of_mem_zip hmem
    exact sameButPlaces_of_perm h (isExact_of_mem_detect hc) (isExact_of_mem_detect hc')
      (List.forall₂_zip hheading hmem)

/-- A function of a selector that two signatures have. -/
def burner (signature path visibility : String) : Record :=
  { name := "", signature, selector := "0x42966c68", kind := .function, path, contract := none,
    visibility := some visibility, mutability := none, inputs := [], returns := [],
    anonymous := false, line := 1, natspec := none, project := none }

/-- Two signatures collide, one of them in two files. The internal function meets none of them. -/
def burners : List Record :=
  [burner "collate_propagate_storage(bytes16)" "P.sol" "external",
    burner "burn(uint256)" "A.sol" "public", burner "burn()" "A.sol" "internal",
    burner "burn(uint256)" "B.sol" "external"]

/-- From the last record to the first, the same collision is found, with the places of the signature
in two files the other way round. -/
theorem detect_exact_burners :
    (∃ c ∈ detect burners, c.heading = ("0x42966c68", .function)) ∧
    List.Forall₂ (SameButPlaces burners burners.reverse) (detect burners)
      (detect burners.reverse) ∧
    places burners ("0x42966c68", .function) "burn(uint256)" =
      ["A.sol:burn(uint256)", "B.sol:burn(uint256)"] ∧
    places burners.reverse ("0x42966c68", .function) "burn(uint256)" =
      ["B.sol:burn(uint256)", "A.sol:burn(uint256)"] := by
  obtain ⟨hreported, -, -, hperm⟩ := detect_exact burners
  have hshared : IsShared burners ("0x42966c68", .function) :=
    ⟨burners[0], by decide, burners[1], by decide, by decide⟩
  exact ⟨(hreported _ _).2 ⟨.inl rfl, hshared⟩, hperm _ (List.reverse_perm _), by decide, by decide⟩

end Collision

end AbiIndex
