/-!
# A bounded store of parsed files

Each path has at most one entry, which belongs to one fingerprint of its contents. When the store
is full, the entry that was used least recently makes room. A look-up with another fingerprint
removes the entry.
-/

namespace AbiIndex.Scan

/-- A stored value. -/
structure CacheEntry (α : Type) where
  path : String
  fingerprint : String
  value : α

/-- The store. Its entries are in the order of their last use, the oldest first. -/
structure Cache (α : Type) where
  capacity : Nat
  capacity_pos : 0 < capacity
  entries : List (CacheEntry α)
  hits : Nat
  misses : Nat

namespace Cache

variable {α : Type}

/-- An empty store for at most `limit` entries, and for at least one. -/
def new (limit : Int) : Cache α := ⟨max 1 limit.toNat, by omega, [], 0, 0⟩

/-- The limit of a store for which none is given. -/
def defaultLimit : Int := 1000

/-- The entries of all other paths. -/
def others (cache : Cache α) (path : String) : List (CacheEntry α) :=
  cache.entries.filter (·.path ≠ path)

/-- Looks up a path. A hit makes the entry the most recent one; an entry with another fingerprint is
removed. -/
def get (cache : Cache α) (path fingerprint : String) : Option α × Cache α :=
  match cache.entries.find? (·.path = path) with
  | none => (none, { cache with misses := cache.misses + 1 })
  | some e =>
    if e.fingerprint = fingerprint then
      (some e.value, { cache with
        entries := cache.others path ++ [e]
        hits := cache.hits + 1 })
    else (none, { cache with
        entries := cache.others path
        misses := cache.misses + 1 })

/-- Stores a value as the most recent entry of its path. -/
def store (cache : Cache α) (path fingerprint : String) (value : α) : Cache α :=
  let entries := cache.others path ++ [⟨path, fingerprint, value⟩]
  { cache with entries := entries.drop (entries.length - cache.capacity) }

/-- Removes the entry of a path. -/
def invalidate (cache : Cache α) (path : String) : Cache α :=
  { cache with entries := cache.others path }

/-- Removes all entries and starts counting anew. -/
def clear (cache : Cache α) : Cache α := { cache with entries := [], hits := 0, misses := 0 }

end Cache

end AbiIndex.Scan
