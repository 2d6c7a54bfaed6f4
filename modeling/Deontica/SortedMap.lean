/-!
# Finite maps as sorted lists

A finite map over an ordered type of keys, kept as a list of pairs in increasing order of their
keys, each key once.  The order of the list is the order in which a map is enumerated.
-/

namespace Deontica.SortedMap

/-- Binds a key to a value, in place of the value it had. -/
def insert {κ α : Type} [Ord κ] (key : κ) (value : α) : List (κ × α) → List (κ × α)
  | [] => [(key, value)]
  | (k, v) :: rest =>
    match compare key k with
    | .lt => (key, value) :: (k, v) :: rest
    | .eq => (key, value) :: rest
    | .gt => (k, v) :: insert key value rest

/-- The map that some bindings make; of two bindings of a key, the later one holds. -/
def ofList {κ α : Type} [Ord κ] (bindings : List (κ × α)) : List (κ × α) :=
  bindings.foldl (fun map b => insert b.1 b.2 map) []

end Deontica.SortedMap
