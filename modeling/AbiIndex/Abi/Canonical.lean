import AbiIndex.Abi.ArrayLength

/-!
# Canonical types

The canonical form of a type, as it stands in a signature. Contracts become addresses and enums
small integers; a value type becomes what it stands for; a struct becomes the list of its fields.
What a struct or a value type is made of is looked up where that is declared. Structs that contain
themselves have no canonical form, nor have mappings.
-/

namespace AbiIndex.Abi

open AbiIndex.Source

namespace Registry

/-- The definitions with an identity that is not in the list. -/
def outside (reg : Registry) (ids : List Definition.Identity) : List Definition :=
  reg.definitions.filter fun d => d.identity ∉ ids

/-- The definitions that are not in the list. -/
def beyond (reg : Registry) (ds : List Definition) : List Definition :=
  reg.definitions.filter (· ∉ ds)

theorem outside_length_lt {reg : Registry} {ids : List Definition.Identity} {d : Definition}
    (hd : d ∈ reg.definitions) (h : d.identity ∉ ids) :
    (reg.outside (d.identity :: ids)).length < (reg.outside ids).length := by
  have : reg.outside (d.identity :: ids)
      = (reg.outside ids).filter (fun e => e.identity ≠ d.identity) := by
    simp only [outside, List.filter_filter]
    congr 1
    funext e
    simp
  rw [this]
  exact List.length_filter_lt_length_iff_exists.2
    ⟨d, List.mem_filter.2 ⟨hd, by simpa using h⟩, by simp⟩

theorem beyond_length_lt {reg : Registry} {ds : List Definition} {d : Definition}
    (hd : d ∈ reg.definitions) (h : d ∉ ds) :
    (reg.beyond (d :: ds)).length < (reg.beyond ds).length := by
  have : reg.beyond (d :: ds) = (reg.beyond ds).filter (· ≠ d) := by
    simp only [beyond, List.filter_filter]
    congr 1
    funext e
    simp
  rw [this]
  exact List.length_filter_lt_length_iff_exists.2
    ⟨d, List.mem_filter.2 ⟨hd, by simpa using h⟩, by simp⟩

end Registry

/-- The canonical form of a type in a scope. The structs that are being expanded are `expanding`;
the value types that have been replaced since the last of them are `unfolding`. -/
def canonicalWithin (reg : Registry) (expanding : List Definition.Identity)
    (unfolding : List Definition) (scope : Scope) (type : TypeRef) : Except TypeError String :=
  match type with
  | .elementary name => .ok (canonicalElementary name)
  | .function _ => .ok "function"
  | .absent => .error (.unsupported TypeRef.absent.render)
  | .mapping key value => .error (.mapping (TypeRef.mapping key value).render)
  | .array base length => do
    let element ← canonicalWithin reg expanding unfolding scope base
    match length with
    | none => return element ++ "[]"
    | some text => return element ++ "[" ++ (← arrayLength reg scope text) ++ "]"
  | .user path =>
    match _hd : reg.resolvePath scope path with
    | .error e => .error e
    | .ok d =>
      match d.decl with
      | .contract _ => .ok "address"
      | .enum _ => .ok "uint8"
      | .constant _ => .error (.constantAsType (TypeRef.user path).render)
      | .valueType v =>
        -- the underlying type is looked up where the value type is declared
        if _h : d ∈ unfolding then .error (.endless v.name)
        else canonicalWithin reg expanding (d :: unfolding) d.scope v.underlying
      | .struct s =>
        if _h : d.identity ∈ expanding then .error (.recursive s.name)
        else do
          -- opening a struct leaves fewer structs to open, so the value types start afresh
          let fields ← s.fields.mapM fun field =>
            canonicalWithin reg (d.identity :: expanding) [] d.scope field.type
          return "(" ++ ",".intercalate fields ++ ")"
termination_by ((reg.outside expanding).length, (reg.beyond unfolding).length, sizeOf type)
decreasing_by
  · exact Prod.Lex.right _ (Prod.Lex.right _ (by simp +arith))
  · exact Prod.Lex.right _
      (Prod.Lex.left _ _ (Registry.beyond_length_lt (Registry.mem_of_resolvePath _hd) _h))
  · exact Prod.Lex.left _ _ (Registry.outside_length_lt (Registry.mem_of_resolvePath _hd) _h)

/-- The canonical form of a type in a scope. -/
def canonical (reg : Registry) (scope : Scope) (type : TypeRef) : Except TypeError String :=
  canonicalWithin reg [] [] scope type

end AbiIndex.Abi
