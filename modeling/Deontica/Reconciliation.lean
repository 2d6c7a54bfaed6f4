import Deontica.Proof

/-!
# Reconciliation

Several provers' results on one problem are compared.  Only decisive results count; the first of
them sets the verdict with which the others agree or disagree.
-/

namespace Deontica

/-- How far the verdicts agree. -/
inductive Agreement where
  /-- Two provers or more reached the same verdict. -/
  | crossChecked
  /-- One prover alone reached a verdict. -/
  | singleProver
  /-- Provers reached opposite verdicts. -/
  | conflicting
  /-- No prover reached a verdict. -/
  | undecided
  deriving Repr, DecidableEq, Inhabited

def Agreement.name : Agreement → String
  | .crossChecked => "CrossChecked"
  | .singleProver => "SingleProver"
  | .conflicting => "Conflicting"
  | .undecided => "Undecided"

/-- What comes of comparing results. -/
structure Reconciliation where
  /-- The verdict, if there is one and only one. -/
  status : Option Status
  agreement : Agreement
  /-- The provers with the verdict of the first decisive result. -/
  agreeing : List String
  /-- The provers with the opposite verdict. -/
  disagreeing : List String
  results : List Result
  deriving Repr, Inhabited

namespace Reconciliation

/-- Whether someone has to look at the matter. -/
def needsReview (r : Reconciliation) : Bool :=
  r.agreement == .conflicting

/-- Compares results. -/
def ofResults (results : List Result) : Reconciliation :=
  let decisive := results.filter (·.status.isDecisive)
  match decisive.head? with
  | none => ⟨none, .undecided, [], [], results⟩
  | some first =>
    let agreeing := (decisive.filter (·.status == first.status)).map (·.prover)
    let disagreeing := (decisive.filter (·.status != first.status)).map (·.prover)
    if !disagreeing.isEmpty then ⟨none, .conflicting, agreeing, disagreeing, results⟩
    else if 2 ≤ agreeing.length then
      ⟨some first.status, .crossChecked, agreeing, disagreeing, results⟩
    else ⟨some first.status, .singleProver, agreeing, disagreeing, results⟩

end Reconciliation

end Deontica
