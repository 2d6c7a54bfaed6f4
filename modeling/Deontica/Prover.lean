import Deontica.Proof

/-!
# Provers

What the router knows of a prover: its name, what it can do, whether it is available, and what a
call of it comes to.  Calls take time on a clock of milliseconds on which nothing else does.
-/

namespace Deontica

/-- What a prover can do. -/
structure Capabilities where
  quantifiers : Bool := false
  arithmetic : Bool := false
  modal : Bool := false
  temporal : Bool := false
  deontic : Bool := false
  /-- Whether results come with proof steps. -/
  proofSteps : Bool := false
  /-- Whether the prover needs someone to guide it. -/
  interactive : Bool := false
  /-- The milliseconds that an answer usually takes. -/
  latency : Nat := 0
  deriving Repr, DecidableEq, Inhabited

/-- The number of kinds of logic that a prover supports. -/
def Capabilities.featureCount (c : Capabilities) : Nat :=
  [c.quantifiers, c.arithmetic, c.modal, c.temporal, c.deontic].count true

/-- How long a call takes. -/
inductive Pace where
  | millis (n : Nat)
  /-- Less than a millisecond, yet more than nothing. -/
  | computing
  deriving Repr, DecidableEq, Inhabited

namespace Pace

/-- The whole milliseconds that a call takes. -/
def time : Pace → Nat
  | .millis n => n
  | .computing => 0

/-- The time in half milliseconds, which tells apart all lengths that calls can have. -/
def halves : Pace → Nat
  | .millis n => 2 * n
  | .computing => 1

/-- Whether a call is over when so many milliseconds have passed. -/
def isWithin (p : Pace) (ms : Nat) : Bool :=
  decide (p.halves ≤ 2 * ms)

/-- Whether a call is over before so many milliseconds have passed. -/
def isBefore (p : Pace) (ms : Nat) : Bool :=
  decide (p.halves < 2 * ms)

end Pace

/-- What a call of a prover comes to. -/
inductive Run where
  | answered (result : Result)
  /-- The prover could not do its work; the causes are listed from the outermost inwards. -/
  | failed (causes : List String)
  /-- The call broke off without a word. -/
  | crashed
  deriving Repr, Inhabited

/-- A prover that the router can call. -/
structure Prover where
  /-- The name under which the prover is registered and its results are known. -/
  name : String
  available : Bool
  capabilities : Capabilities
  /-- The settings that may change answers, in order of their names. -/
  fingerprint : List (String × String)
  /-- How long a call takes, the same in every call. -/
  pace : Pace
  /-- What a call with a goal, axioms and a number of milliseconds comes to. -/
  run : Formula → List Formula → Nat → Run

end Deontica
