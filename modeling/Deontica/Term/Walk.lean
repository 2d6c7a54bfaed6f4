import Deontica.Term

/-!
# Walks over terms

The subterms of a list of terms, listed with a list of pending terms in place of recursion: a walk
takes the first pending term and puts its arguments in front of the others.
-/

namespace Deontica.Term

/-- The arguments at the top of a term. -/
def args : Term → List Term
  | .var _ | .const _ => []
  | .app _ args => args

mutual

/-- The number of nodes of a term. -/
def size : Term → Nat
  | .var _ => 1
  | .const _ => 1
  | .app _ args => sizeArgs args + 1

/-- The number of nodes of some terms together. -/
def sizeArgs : List Term → Nat
  | [] => 0
  | t :: ts => size t + sizeArgs ts

end

theorem sizeArgs_append (ts us : List Term) :
    sizeArgs (ts ++ us) = sizeArgs ts + sizeArgs us := by
  induction ts with
  | nil => simp [sizeArgs]
  | cons t ts ih => simp [sizeArgs, ih, Nat.add_assoc]

/-- The arguments of a term are smaller than the term by one altogether. -/
theorem sizeArgs_args (t : Term) : sizeArgs t.args + 1 = t.size := by
  cases t <;> simp [args, size, sizeArgs]

namespace Walk

/-- The terms met when `pending` is worked off: all subterms in pre-order. -/
def visit : List Term → List Term
  | [] => []
  | t :: pending => t :: visit (t.args ++ pending)
termination_by pending => sizeArgs pending
decreasing_by
  have := sizeArgs_args t
  simp only [sizeArgs_append, sizeArgs]
  omega

end Walk

end Deontica.Term
