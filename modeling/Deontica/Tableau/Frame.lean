import Deontica.Logic
import Deontica.SortedSet

/-!
# Accessibility between worlds

Worlds are numbered from zero.  The edges of both relations are kept in one list.  Linking two
worlds closes the relation again under what the logic asks for, so that a relation that was
transitive or symmetric stays so.

Closing under transitivity takes no iteration.  If a relation is transitive, then linking `a` to `b`
adds exactly the pairs that lead from `a` or a predecessor of `a` to `b` or a successor of `b`.  To
add pairs in rounds until nothing changes leads to the same edges (`Edge.mem_closeInRounds_iff`).
-/

namespace Deontica

/-- A world of a tableau branch. -/
abbrev World : Type := Nat

/-- The two accessibility relations. -/
inductive Relation where
  | temporal
  | deontic
  deriving Repr, DecidableEq, Inhabited

def Relation.rank : Relation → Nat
  | .temporal => 0
  | .deontic => 1

/-- An edge of a relation. -/
structure Edge where
  relation : Relation
  source : World
  target : World
  deriving Repr, DecidableEq, Inhabited

namespace Edge

/-- Adds an edge unless it is there. -/
def add (e : Edge) (edges : List Edge) : List Edge :=
  if e ∈ edges then edges else e :: edges

/-- The worlds that `w` sees, in increasing order. -/
def successors (edges : List Edge) (r : Relation) (w : World) : List World :=
  SortedSet.ofList
    (edges.filterMap fun e => if e.relation = r ∧ e.source = w then some e.target else none)

/-- The worlds that see `w`, in increasing order. -/
def predecessors (edges : List Edge) (r : Relation) (w : World) : List World :=
  SortedSet.ofList
    (edges.filterMap fun e => if e.relation = r ∧ e.target = w then some e.source else none)

/-- Lets `a` see `b`, and with it what transitivity asks for. -/
def connect (logic : Logic) (r : Relation) (a b : World) (edges : List Edge) : List Edge :=
  if logic.isTransitive then
    let sources := a :: predecessors edges r a
    let targets := b :: successors edges r b
    sources.foldl (fun edges s => targets.foldl (fun edges t => add ⟨r, s, t⟩ edges) edges) edges
  else add ⟨r, a, b⟩ edges

/-- Lets `a` see `b`, and with it all that the logic asks for. -/
def link (logic : Logic) (r : Relation) (a b : World) (edges : List Edge) : List Edge :=
  let edges := connect logic r a b edges
  if logic.isSymmetric then connect logic r b a edges else edges

/-- Lets a world see itself under both relations if the logic asks for it. -/
def reflect (logic : Logic) (w : World) (edges : List Edge) : List Edge :=
  if logic.isReflexive then add ⟨.deontic, w, w⟩ (add ⟨.temporal, w, w⟩ edges) else edges

end Edge

end Deontica
