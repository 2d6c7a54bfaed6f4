/-!
# Budgets

A proof attempt may take a number of steps and a length of time.  Time does not pass by itself here:
an attempt looks at its *watch* every now and then, and the watch says how long the attempt has been
going at that look and whether it has been called off.  So an attempt is a function of its watch,
and what does not depend on the watch can be proved not to.
-/

namespace Deontica

/-- What one proof attempt may use. -/
structure Budget where
  /-- Rule applications and tableau expansions together. -/
  maxSteps : Nat
  /-- Time in milliseconds. -/
  time : Nat
  deriving Repr, DecidableEq, Inhabited

/-- The same number of steps in at most `cap` milliseconds. -/
def Budget.capped (b : Budget) (cap : Nat) : Budget :=
  { b with time := min b.time cap }

/-- What the successive looks at a clock and at a cancellation flag find. -/
structure Watch where
  /-- The milliseconds gone at the `n`-th look. -/
  elapsed : Nat → Nat
  /-- Whether the attempt has been called off at the `n`-th look. -/
  cancelled : Nat → Bool

namespace Watch

/-- A watch on which no time passes. -/
def still : Watch := ⟨fun _ => 0, fun _ => false⟩

/-- A watch of an attempt that was called off before it began. -/
def calledOff : Watch := ⟨fun _ => 0, fun _ => true⟩

/-- Whether the `n`-th look finds the attempt called off or its time used up. -/
def isOver (w : Watch) (time n : Nat) : Bool :=
  w.cancelled n || decide (time ≤ w.elapsed n)

end Watch

/-- Which part of a budget ran out. -/
inductive Exhaustion where
  | steps
  | time
  deriving Repr, DecidableEq, Inhabited

end Deontica
