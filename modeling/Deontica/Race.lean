import Deontica.Proof

/-!
# Races

All candidates work on a problem at once, and a race reports what comes of it.  Here a race is the
list of its events in the order in which they happen, so that what is reported can be stated for
every order.

A race for the first decision is over with the first decisive result, its winner.  Otherwise it is
over when every candidate has come to an end, or at the deadline; then candidates that did not
report are reported by the race.
-/

namespace Deontica

namespace Race

/-- When a race is over. -/
inductive Mode where
  | firstDecisive
  | all
  deriving Repr, DecidableEq, Inhabited

/-- Something that happens in a race; candidates go by their numbers. -/
inductive Event where
  | completed (candidate : Nat) (result : Result)
  | crashed (candidate : Nat)
  | deadline
  deriving Repr, Inhabited

/-- What a race has come to. -/
structure Outcome where
  /-- The first decisive result, if that ended the race. -/
  winner : Option Result := none
  /-- The other results in the order of completion. -/
  results : List Result := []
  /-- The candidates that have given a result. -/
  reported : List Nat := []
  deadlineHit : Bool := false
  deriving Repr, Inhabited

/-- Follows a race until it is over. -/
def follow (mode : Mode) : List Event → Outcome → Outcome
  | [], o => o
  | .completed i r :: events, o =>
    let reported := o.reported ++ [i]
    if mode = .firstDecisive && r.status.isDecisive then
      { o with winner := some r, reported := reported }
    else follow mode events { o with results := o.results ++ [r], reported := reported }
  | .crashed _ :: events, o => follow mode events o
  | .deadline :: _, o => { o with deadlineHit := true }

/-- What is reported of a candidate that did not report itself. -/
def silent (deadlineHit : Bool) (name : String) : Result :=
  if deadlineHit then .noted .timeout name "deadline passed before the prover answered"
  else .failure name "prover task failed"

/-- The reports on the candidates that did not report, in the order of candidates. -/
def missing (names : List String) (o : Outcome) : List Result :=
  names.zipIdx.filterMap fun (name, i) =>
    if o.reported.contains i then none else some (silent o.deadlineHit name)

/-- The outcome of a race between candidates of the given names.  After a win, nothing is said of
those who lost. -/
def judge (mode : Mode) (names : List String) (events : List Event) : Outcome :=
  let o := follow mode events {}
  if o.winner.isSome then o else { o with results := o.results ++ missing names o }

/-- The name under which a race reports a result of its own. -/
def proverName : String := "parallel"

/-- The result of a race without a winner between so many candidates. -/
def aggregate (o : Outcome) (candidates : Nat) : Result :=
  let timedOut := o.deadlineHit || o.results.any (·.status == .timeout)
  { Result.noted (if timedOut then .timeout else .unknown) proverName
      ("no decisive result from " ++ toString candidates ++ " candidates") with
    parts := o.results }

end Race

end Deontica
