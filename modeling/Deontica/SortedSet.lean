/-!
# Finite sets as sorted lists

A finite set over an ordered type, kept as a list in increasing order without repetition.  The
order of the list is the order in which a set is enumerated.
-/

namespace Deontica.SortedSet

/-- Puts `x` in its place, or leaves the list alone when `x` is there already. -/
def insert {α : Type} [Ord α] (x : α) : List α → List α
  | [] => [x]
  | y :: ys =>
    match compare x y with
    | .lt => x :: y :: ys
    | .eq => y :: ys
    | .gt => y :: insert x ys

/-- The members of a list, sorted and without repetition. -/
def ofList {α : Type} [Ord α] (xs : List α) : List α :=
  xs.foldl (fun set x => insert x set) []

/-- A list in increasing order, with all its repetitions. -/
def sort {α : Type} [Ord α] (xs : List α) : List α :=
  xs.mergeSort fun x y => (compare x y).isLE

end Deontica.SortedSet
