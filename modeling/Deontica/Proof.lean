import Deontica.Duration
import Deontica.Formula
import Deontica.Logic

/-!
# Proof results

What a prover reports: how the attempt ended, the steps it took, and what else it noticed.  An
aggregate of several provers carries their results below its own.
-/

namespace Deontica

/-- How a proof attempt ended. -/
inductive Status where
  /-- The goal follows from the axioms. -/
  | proved
  /-- There is a counter-model. -/
  | disproved
  /-- The search ended without a proof, which is no disproof. -/
  | unknown
  /-- Time ran out, or the attempt was cancelled. -/
  | timeout
  /-- Steps, facts or formula depth went past a limit. -/
  | depthExceeded
  /-- The prover did not run. -/
  | error
  deriving Repr, DecidableEq, Inhabited

namespace Status

def name : Status → String
  | .proved => "Proved"
  | .disproved => "Disproved"
  | .unknown => "Unknown"
  | .timeout => "Timeout"
  | .depthExceeded => "DepthExceeded"
  | .error => "Error"

/-- All statuses. -/
def every : List Status := [.proved, .disproved, .unknown, .timeout, .depthExceeded, .error]

/-- Whether the question is settled. -/
def isDecisive : Status → Bool
  | .proved | .disproved => true
  | _ => false

/-- Whether another attempt would end the same way, so that the result may be kept. -/
def isCacheable : Status → Bool
  | .proved | .disproved | .unknown => true
  | _ => false

/-- Whether a limit cut the attempt short. -/
def isResourceLimit : Status → Bool
  | .timeout | .depthExceeded => true
  | _ => false

end Status

/-- One application of a rule. -/
structure Step where
  rule : String
  /-- The facts that the rule used, in the order of its premises. -/
  premises : List Formula
  /-- The fact that the rule gave. -/
  conclusion : Formula
  justification : String
  deriving Repr, DecidableEq, Inhabited

/-- A formula found together with its negation. -/
structure Clash where
  formula : Formula
  negation : Formula
  deriving Repr, DecidableEq, Inhabited

/-- The result of one proof attempt, or of several taken together. -/
structure Result where
  status : Status
  steps : List Step
  elapsed : Duration
  /-- The name of the prover that gave the result. -/
  prover : String
  /-- Whether the result was found in a cache. -/
  fromCache : Bool
  /-- The modal logic used, if one was needed. -/
  logic : Option Logic
  /-- Contradictory facts met on the way. -/
  clash : Option Clash
  /-- The results of the single provers, if this is an aggregate. -/
  parts : List Result
  message : Option String
  deriving Repr, Inhabited

namespace Result

/-- A result with a status and nothing else. -/
def plain (status : Status) (prover : String) : Result where
  status := status
  steps := []
  elapsed := ⟨0, 0⟩
  prover := prover
  fromCache := false
  logic := none
  clash := none
  parts := []
  message := none

/-- A result with a status and a message. -/
def noted (status : Status) (prover message : String) : Result :=
  { plain status prover with message := some message }

/-- The result of a prover that did not run. -/
def failure (prover message : String) : Result :=
  noted .error prover message

/-- Whether the goal was proved. -/
def isProved (r : Result) : Bool :=
  r.status == .proved

/-- Whether two results report the same outcome and trace, whatever their times, messages and
origins. -/
def sameOutcome (r s : Result) : Bool :=
  r.status == s.status && r.steps == s.steps && r.prover == s.prover && r.logic == s.logic &&
    r.clash == s.clash

mutual

/-- Whether two results agree in every respect. -/
def equal : Result → Result → Bool
  | ⟨status, steps, elapsed, prover, fromCache, logic, clash, parts, message⟩,
    ⟨status', steps', elapsed', prover', fromCache', logic', clash', parts', message'⟩ =>
    status == status' && steps == steps' && elapsed == elapsed' && prover == prover' &&
      fromCache == fromCache' && logic == logic' && clash == clash' && equalParts parts parts' &&
      message == message'

/-- Whether two lists of results agree, one by one. -/
def equalParts : List Result → List Result → Bool
  | [], [] => true
  | r :: rs, s :: ss => equal r s && equalParts rs ss
  | _, _ => false

end

end Result

end Deontica
