import Deontica.Budget
import Deontica.Tableau.Branch

/-!
# Refutation by tableau

To see whether a goal follows from premises, the tableau looks for a counter-model: a world at which
the premises hold and the goal does not.  Branches wait on a stack and the top one is worked on.  If
every branch closes, the goal follows; if one is worked off and stays open, it describes a
counter-model, unless it was approximate.
-/

namespace Deontica

/-- What a tableau may use. -/
structure Tableau where
  logic : Logic
  maxWorlds : Nat
  maxBranches : Nat
  deriving Repr, DecidableEq, Inhabited

/-- How a refutation ended. -/
inductive Verdict where
  /-- Every branch closed: how many there were, and the most worlds that one of them had. -/
  | closed (branches worlds : Nat)
  /-- A branch with so many worlds stayed open. -/
  | open (worlds : Nat)
  /-- No branch stayed open for certain, but one was left undecided. -/
  | incomplete
  | exhausted (part : Exhaustion)
  deriving Repr, DecidableEq, Inhabited

/-- What is known of the branches that are done. -/
structure Tally where
  closed : Nat
  /-- The most worlds of a closed branch. -/
  worlds : Nat
  undecided : Bool
  deriving Repr, DecidableEq, Inhabited

namespace Tableau

/-- Counts the closed branches on top of the stack and takes them off. -/
def settle : List Branch → Tally → List Branch × Tally
  | [], tally => ([], tally)
  | b :: stack, tally =>
    if b.closed then
      settle stack { tally with closed := tally.closed + 1, worlds := max tally.worlds b.worlds }
    else (b :: stack, tally)

/-- Works off a stack of branches with the given number of steps.  `isOver n` says whether the
`n`-th look at the watch finds that time is up; `looks` counts the looks so far. -/
def work (t : Tableau) (isOver : Nat → Bool) (steps looks : Nat) (stack : List Branch)
    (tally : Tally) : Verdict :=
  match settle stack tally with
  | ([], tally) =>
    if tally.undecided then .incomplete else .closed tally.closed tally.worlds
  | (b :: rest, tally) =>
    if isOver looks then .exhausted .time
    else
      match steps with
      | 0 => .exhausted .steps
      | steps + 1 =>
        match b.step with
        | .progress b => t.work isOver steps (looks + 1) (b :: rest) tally
        | .split b alternatives =>
          if rest.length + alternatives.length > t.maxBranches then
            t.work isOver steps (looks + 1) rest { tally with undecided := true }
          else t.work isOver steps (looks + 1) (alternatives.map b.addAll ++ rest) tally
        | .complete b =>
          if b.approximate then
            t.work isOver steps (looks + 1) rest { tally with undecided := true }
          else .open b.worlds

/-- The branch that lets the premises hold and the goal fail at the first world. -/
def root (t : Tableau) (premises : List Formula) (goal : Formula) : Branch :=
  let constants := SortedSet.ofList ((premises ++ [goal]).flatMap (·.constantOccurrences))
  ((premises.foldl (fun b f => b.add 0 f) (Branch.start t.logic t.maxWorlds constants)).add 0
    goal.negation)

/-- Tries to refute the premises together with the negation of the goal. -/
def refute (t : Tableau) (premises : List Formula) (goal : Formula) (isOver : Nat → Bool)
    (steps looks : Nat) : Verdict :=
  t.work isOver steps looks [t.root premises goal] ⟨0, 1, false⟩

end Tableau

end Deontica
