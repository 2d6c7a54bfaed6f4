import Deontica.Pattern
import Deontica.Proof

/-!
# Inference rules

A rule looks at the facts known so far and gives the first new fact it can find, always in the same
order.  There are three kinds.

* A *schema* has patterns for premises and a pattern for its conclusion.  A forward schema matches
  its premises against the facts.  A goal-directed schema first matches its conclusion against a
  target, a subformula of the problem, and only then looks for the premises; so it never gives a
  formula that is not part of the problem.
* *Instantiation* passes from a universal fact to its instances.
* *Generalization* passes from an instance to an existential target.

A schema may depend on a frame condition, and is then active only in logics that ask for it.
-/

namespace Deontica

/-- The families of rules, in the order in which they are tried. -/
inductive Family where
  | propositional
  | quantifier
  | temporal
  | deontic
  | combined
  deriving Repr, DecidableEq, Inhabited

def Family.name : Family → String
  | .propositional => "Propositional"
  | .quantifier => "Quantifier"
  | .temporal => "Temporal"
  | .deontic => "Deontic"
  | .combined => "Combined"

/-- Where the search for an application of a schema starts. -/
inductive Direction where
  | forward
  | goalDirected
  deriving Repr, DecidableEq, Inhabited

/-- A rule given by patterns. -/
structure Schema where
  name : String
  family : Family
  direction : Direction
  premises : List Pattern
  conclusion : Pattern
  /-- The condition without which the rule is unsound. -/
  frame : Option FrameCondition
  justification : String
  deriving Repr, Inhabited

/-- An inference rule. -/
inductive Rule where
  | schema (schema : Schema)
  /-- From `∀x. A` to `A` with a term of the domain for `x`. -/
  | instantiation
  /-- From `A` with a term of the domain for `x` to the target `∃x. A`. -/
  | generalization
  deriving Repr, Inhabited

/-- What a rule may look at. -/
structure Scene where
  /-- The facts in the order in which they were found. -/
  facts : List Formula
  /-- The subformulas of the problem. -/
  targets : List Formula
  /-- The terms that quantifiers range over. -/
  domain : List Term
  deriving Repr, Inhabited

/-- Adds facts one after the other, and says which of them are new. -/
def Scene.addFacts : List Formula → Scene → List Bool × Scene
  | [], s => ([], s)
  | f :: fs, s =>
    let isNew := decide (f ∉ s.facts)
    let (news, s) := addFacts fs (if isNew then { s with facts := s.facts ++ [f] } else s)
    (isNew :: news, s)

namespace Schema

/-- Searches the facts for the remaining premises, depth first and in the order of the facts.
A premise whose holes are all bound is looked up rather than matched. -/
def search (s : Schema) (facts : List Formula) :
    (remaining : List Pattern) → Bindings → (chosen : List Formula) → Option Step
  | [], bindings, chosen => do
    let conclusion ← s.conclusion.instantiate bindings
    if conclusion ∈ facts then none
    else some ⟨s.name, chosen, conclusion, s.justification⟩
  | p :: remaining, bindings, chosen =>
    match p.instantiate bindings with
    | some required =>
      if required ∈ facts then search s facts remaining bindings (chosen ++ [required]) else none
    | none =>
      facts.findSome? fun fact =>
        (p.matchWith fact bindings).bind fun extended =>
          search s facts remaining extended (chosen ++ [fact])

/-- The first application of the schema that gives a new fact. -/
def apply (s : Schema) (scene : Scene) : Option Step :=
  match s.direction with
  | .forward => s.search scene.facts s.premises [] []
  | .goalDirected =>
    scene.targets.findSome? fun target =>
      if target ∈ scene.facts then none
      else (s.conclusion.matchWith target []).bind fun bindings =>
        s.search scene.facts s.premises bindings []

end Schema

namespace Rule

def name : Rule → String
  | .schema s => s.name
  | .instantiation => "universal_instantiation"
  | .generalization => "existential_generalization"

def family : Rule → Family
  | .schema s => s.family
  | .instantiation | .generalization => .quantifier

/-- Whether the rule is sound in the logic; `none` says that no logic is needed. -/
def isActive (r : Rule) (logic : Option Logic) : Bool :=
  match r with
  | .schema s =>
    match s.frame with
    | none => true
    | some condition => logic.any (·.meets condition)
  | .instantiation | .generalization => true

/-- The first new instance of a universal fact. -/
def instantiate (scene : Scene) : Option Step :=
  scene.facts.findSome? fun fact =>
    match fact with
    | .all x body =>
      scene.domain.findSome? fun t =>
        let image := body.substitute x t
        if image ∈ scene.facts then none
        else some ⟨instantiation.name, [fact], image, "instantiate " ++ x ++ " with " ++ t.render⟩
    | _ => none

/-- The first existential target that has a witness among the facts. -/
def generalize (scene : Scene) : Option Step :=
  scene.targets.findSome? fun target =>
    match target with
    | .exists x body =>
      if target ∈ scene.facts then none
      else scene.domain.findSome? fun t =>
        let witness := body.substitute x t
        if witness ∈ scene.facts then
          some ⟨generalization.name, [witness], target, t.render ++ " witnesses " ++ x⟩
        else none
    | _ => none

/-- The first application of the rule that gives a new fact. -/
def apply (r : Rule) (scene : Scene) : Option Step :=
  match r with
  | .schema s => s.apply scene
  | .instantiation => instantiate scene
  | .generalization => generalize scene

end Rule

end Deontica
