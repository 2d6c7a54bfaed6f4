import Deontica.Engine

/-!
# Proof sessions

A knowledge base holds axioms and the theorems proved from them so far.  In a session goals are
proved from all of it, and a goal that was proved joins the theorems.  Nothing is ever taken away.
-/

namespace Deontica

/-- Axioms and the theorems proved from them. -/
structure KnowledgeBase where
  axioms : List Formula
  theorems : List Formula
  deriving Repr, DecidableEq, Inhabited

namespace KnowledgeBase

/-- A knowledge base without theorems. -/
def ofAxioms (axioms : List Formula) : KnowledgeBase :=
  ⟨axioms, []⟩

/-- Adds an axiom unless it is one already. -/
def addAxiom (kb : KnowledgeBase) (f : Formula) : KnowledgeBase :=
  if f ∈ kb.axioms then kb else { kb with axioms := kb.axioms ++ [f] }

/-- Adds a theorem unless it is known already. -/
def addTheorem (kb : KnowledgeBase) (f : Formula) : KnowledgeBase :=
  if f ∈ kb.theorems || f ∈ kb.axioms then kb else { kb with theorems := kb.theorems ++ [f] }

/-- The axioms, then the theorems. -/
def facts (kb : KnowledgeBase) : List Formula :=
  kb.axioms ++ kb.theorems

/-- The number of axioms and theorems. -/
def size (kb : KnowledgeBase) : Nat :=
  kb.axioms.length + kb.theorems.length

def isEmpty (kb : KnowledgeBase) : Bool :=
  kb.size == 0

end KnowledgeBase

/-- An engine together with what it has been told and has found out. -/
structure Session where
  config : EngineConfig
  base : KnowledgeBase
  deriving Repr, Inhabited

namespace Session

/-- Proves a goal from the given axioms alone.  The knowledge base plays no part. -/
def prove (s : Session) (goal : Formula) (axioms : List Formula) (budget : Budget) (watch : Watch) :
    Result :=
  Engine.prove s.config goal axioms budget watch

/-- Proves a goal from the knowledge base, which it joins if that succeeds. -/
def proveGoal (s : Session) (goal : Formula) (watch : Watch) : Result × Session :=
  let result := Engine.prove s.config goal s.base.facts s.config.budget watch
  (result, if result.isProved then { s with base := s.base.addTheorem goal } else s)

end Session

end Deontica
