import Deontica.Prover.Native

/-!
# Steady provers

A call is broken off when the time it was given has passed, so what a prover would answer in less
time than its pace is never seen.  A prover is *steady* on a problem if its calls come to the same
in all the times within its pace.  The native prover is (`Native.isSteady_prover`): it gives up if
it is given no time at all, but no time passes on its watch, so any other time is as good as more.
-/

namespace Deontica

/-- What a call of the prover comes to does not depend on the time it is given, so long as the call
is over within it. -/
def Prover.IsSteady (p : Prover) (goal : Formula) (axioms : List Formula) : Prop :=
  ∀ t t', p.pace.isWithin t = true → p.pace.isWithin t' = true →
    p.run goal axioms t = p.run goal axioms t'

theorem Pace.isWithin_mono {p : Pace} {t t' : Nat} (h : p.isWithin t = true) (hle : t ≤ t') :
    p.isWithin t' = true := by
  have hhalves : p.halves ≤ 2 * t := of_decide_eq_true h
  exact decide_eq_true (by omega)

theorem Pace.isWithin_computing {t : Nat} : computing.isWithin t = true ↔ 0 < t := by
  rw [isWithin, decide_eq_true_iff, halves]
  omega

/-- A watch that stands still finds the time used up if there was none. -/
theorem Watch.isOver_still (time n : Nat) : still.isOver time n = decide (time = 0) :=
  (Bool.false_or _).trans (decide_eq_decide.mpr Nat.le_zero)

/-- Without a watch that moves, two budgets with the same number of steps lead to the same result,
if neither or both are without time. -/
theorem Engine.prove_still_congr (config : EngineConfig) (goal : Formula) (axioms : List Formula)
    {b b' : Budget} (hsteps : b.maxSteps = b'.maxSteps) (htime : b.time = 0 ↔ b'.time = 0) :
    prove config goal axioms b .still = prove config goal axioms b' .still := by
  have hisOver : Watch.still.isOver b.time = Watch.still.isOver b'.time := by
    funext n
    rw [Watch.isOver_still, Watch.isOver_still, decide_eq_decide]
    exact htime
  simp only [prove, hsteps, hisOver]

namespace Native

/-- **The native prover is steady.** -/
theorem isSteady_prover (config : EngineConfig) (goal : Formula) (axioms : List Formula) :
    (prover config).IsSteady goal axioms := by
  intro t t' ht ht'
  have hpos : 0 < t := Pace.isWithin_computing.mp ht
  have hpos' : 0 < t' := Pace.isWithin_computing.mp ht'
  refine congrArg Run.answered (Engine.prove_still_congr config goal axioms rfl ?_)
  show min config.budget.time t = 0 ↔ min config.budget.time t' = 0
  omega

end Native

end Deontica
