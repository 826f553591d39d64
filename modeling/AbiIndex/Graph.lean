/-!
# Depth-first order

The nodes of a finite graph in the order in which a depth-first search first reaches them. The
search works on a stack of nodes to visit and on the pool of nodes that have not been reached yet;
a node outside the pool is passed over.
-/

namespace AbiIndex

/-- The pool without the node `x`. -/
def without {α : Type} [DecidableEq α] (x : α) (pool : List α) : List α := pool.filter (· ≠ x)

theorem mem_without {α : Type} [DecidableEq α] {x y : α} {pool : List α} :
    y ∈ without x pool ↔ y ∈ pool ∧ y ≠ x := by
  simp [without]

theorem length_without_lt {α : Type} [DecidableEq α] {x : α} {pool : List α} (h : x ∈ pool) :
    (without x pool).length < pool.length :=
  List.length_filter_lt_length_iff_exists.2 ⟨x, h, by simp⟩

/-- The nodes of `pool` that a depth-first search from the nodes of `stack` reaches, in the order of
the first visit. The successors of a node are visited from left to right. -/
def preorder {α : Type} [DecidableEq α] (next : α → List α) (pool stack : List α) : List α :=
  match stack with
  | [] => []
  | x :: rest =>
    if x ∈ pool then x :: preorder next (without x pool) (next x ++ rest)
    else preorder next pool rest
termination_by (pool.length, stack.length)
decreasing_by
  · exact Prod.Lex.left _ _ (length_without_lt ‹_›)
  · exact Prod.Lex.right _ (by simp)

end AbiIndex
