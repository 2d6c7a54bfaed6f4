import Deontica.Formula

/-!
# Walks over a formula

The listing and the measures of a formula, computed with a list of pending nodes in place of
recursion, so that no tree is too deep for them.  A walk takes the first pending node, accounts for
it and puts its children in front of the others.  The listing keeps the children in order and so
visits the nodes in pre-order; the measures put one child after the other in front and take the last
of them first.  Each walk gives the same answer as the recursive definition of its name.
-/

namespace Deontica.Formula

/-- The number of nodes of some formulas together. -/
def sizeAll : List Formula → Nat
  | [] => 0
  | f :: fs => f.size + sizeAll fs

theorem sizeAll_append (fs gs : List Formula) : sizeAll (fs ++ gs) = sizeAll fs + sizeAll gs := by
  induction fs with
  | nil => simp [sizeAll]
  | cons f fs ih => simp [sizeAll, ih, Nat.add_assoc]

theorem sizeAll_reverse (fs : List Formula) : sizeAll fs.reverse = sizeAll fs := by
  induction fs with
  | nil => rfl
  | cons f fs ih =>
    rw [List.reverse_cons, sizeAll_append, ih, sizeAll, sizeAll, sizeAll, Nat.add_zero,
      Nat.add_comm]

/-- The children of a node are smaller than the node by one altogether. -/
theorem sizeAll_children (f : Formula) : sizeAll f.children + 1 = f.size := by
  cases f <;> simp [children, size, sizeAll]

namespace Walk

/-- The nodes met when `pending` is worked off. -/
def visit : List Formula → List Formula
  | [] => []
  | f :: pending => f :: visit (f.children ++ pending)
termination_by pending => sizeAll pending
decreasing_by
  have := sizeAll_children f
  simp only [sizeAll_append, sizeAll]
  omega

/-- All subformulas in pre-order. -/
def subformulas (f : Formula) : List Formula :=
  visit [f]

/-- Adds the number of nodes met when `pending` is worked off to `count`. -/
def countOnto (count : Nat) : List Formula → Nat
  | [] => count
  | f :: pending => countOnto (count + 1) (f.children.reverse ++ pending)
termination_by pending => sizeAll pending
decreasing_by
  have := sizeAll_children f
  simp only [sizeAll_append, sizeAll_reverse, sizeAll]
  omega

/-- The number of nodes. -/
def size (f : Formula) : Nat :=
  countOnto 0 [f]

/-- The greatest of `best` and the labels of the nodes met when `pending` is worked off.  A pending
node comes with a number, from which `own` makes its label; `below` makes the number that comes with
its children from the label. -/
def greatest (own : Formula → Nat → Nat) (below : Nat → Nat) (best : Nat) :
    List (Formula × Nat) → Nat
  | [] => best
  | (f, n) :: pending =>
    let label := own f n
    greatest own below (max best label) ((f.children.map (·, below label)).reverse ++ pending)
termination_by pending => sizeAll (pending.map (·.1))
decreasing_by
  have := sizeAll_children f
  simp only [List.map_append, List.map_reverse, List.map_cons, List.map_map, Function.comp_def,
    List.map_id_fun', id_eq, sizeAll_append, sizeAll_reverse, sizeAll]
  omega

/-- The greatest number of nodes on a path from the root. -/
def depth (f : Formula) : Nat :=
  greatest (fun _ n => n) (· + 1) 0 [(f, 1)]

/-- The greatest number of temporal operators on a path from the root. -/
def temporalNesting (f : Formula) : Nat :=
  greatest (fun g n => if g.isTemporal then n + 1 else n) id 0 [(f, 0)]

end Walk

end Deontica.Formula
