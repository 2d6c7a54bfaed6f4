import Deontica.Engine
import Deontica.Prover

/-!
# The native prover

The inference engine as a prover.  Its time is the engine's own, cut to what the caller allows.
-/

namespace Deontica.Native

def capabilities : Capabilities where
  quantifiers := true
  modal := true
  temporal := true
  deontic := true
  proofSteps := true
  latency := 1

/-- The settings of the engine that may change an answer.  The time is none of them: an answer that
came in time would not have been another with more. -/
def fingerprint (config : EngineConfig) : List (String × String) :=
  [("max_branches", toString config.maxBranches), ("max_facts", toString config.maxFacts),
    ("max_formula_depth", toString config.maxFormulaDepth),
    ("max_steps", toString config.maxSteps), ("max_worlds", toString config.maxWorlds),
    ("modal_logic", (config.logic.map Logic.name).getD "auto")]

/-- The engine's result within so many milliseconds. -/
def prove (config : EngineConfig) (goal : Formula) (axioms : List Formula) (timeout : Nat)
    (watch : Watch) : Result :=
  Engine.prove config goal axioms (config.budget.capped timeout) watch

/-- The engine as a prover.  No time passes on its watch. -/
def prover (config : EngineConfig) : Prover where
  name := nativeName
  available := true
  capabilities := capabilities
  fingerprint := fingerprint config
  pace := .computing
  run goal axioms timeout := .answered (prove config goal axioms timeout .still)

end Deontica.Native
