import Deontica.Rule

/-!
# The rules in use

All rules in the order in which they are tried: propositional, quantifier, temporal, deontic, and
rules that combine tense and obligation.  The first rule that gives a new fact wins, so the order is
part of what a proof trace shows.
-/

namespace Deontica.Rule

open Pattern

/-- The holes of the schemas. -/
def holeA : Pattern := .hole "A"

def holeB : Pattern := .hole "B"

def holeC : Pattern := .hole "C"

/-- A schema that works forward from the facts. -/
def forward (name : String) (family : Family) (premises : List Pattern) (conclusion : Pattern)
    (justification : String) (frame : Option FrameCondition) : Rule :=
  .schema ⟨name, family, .forward, premises, conclusion, frame, justification⟩

/-- A schema that works back from the targets. -/
def goalDirected (name : String) (family : Family) (premises : List Pattern) (conclusion : Pattern)
    (justification : String) (frame : Option FrameCondition) : Rule :=
  .schema ⟨name, family, .goalDirected, premises, conclusion, frame, justification⟩

def propositional : List Rule :=
  [forward "modus_ponens" .propositional [holeA.implies holeB, holeA] holeB
      "from A → B and A infer B" none,
    forward "modus_tollens" .propositional [holeA.implies holeB, holeB.not] holeA.not
      "from A → B and ¬B infer ¬A" none,
    forward "hypothetical_syllogism" .propositional [holeA.implies holeB, holeB.implies holeC]
      (holeA.implies holeC) "chain A → B and B → C" none,
    forward "disjunctive_syllogism" .propositional [holeA.or holeB, holeA.not] holeB
      "from A ∨ B and ¬A infer B" none,
    forward "disjunctive_syllogism_right" .propositional [holeA.or holeB, holeB.not] holeA
      "from A ∨ B and ¬B infer A" none,
    forward "and_elimination_left" .propositional [holeA.and holeB] holeA
      "from A ∧ B infer A" none,
    forward "and_elimination_right" .propositional [holeA.and holeB] holeB
      "from A ∧ B infer B" none,
    forward "double_negation_elimination" .propositional [holeA.not.not] holeA
      "from ¬¬A infer A" none,
    forward "biconditional_elimination_left" .propositional [holeA.iff holeB]
      (holeA.implies holeB) "from A ↔ B infer A → B" none,
    forward "biconditional_elimination_right" .propositional [holeA.iff holeB]
      (holeB.implies holeA) "from A ↔ B infer B → A" none,
    forward "xor_elimination" .propositional [holeA.xor holeB, holeA] holeB.not
      "from A ⊕ B and A infer ¬B" none,
    forward "xor_elimination_right" .propositional [holeA.xor holeB, holeB] holeA.not
      "from A ⊕ B and B infer ¬A" none,
    forward "de_morgan_and" .propositional [(holeA.and holeB).not] (holeA.not.or holeB.not)
      "¬(A ∧ B) is ¬A ∨ ¬B" none,
    forward "de_morgan_or" .propositional [(holeA.or holeB).not] (holeA.not.and holeB.not)
      "¬(A ∨ B) is ¬A ∧ ¬B" none,
    goalDirected "and_introduction" .propositional [holeA, holeB] (holeA.and holeB)
      "from A and B infer A ∧ B" none,
    goalDirected "or_introduction_left" .propositional [holeA] (holeA.or holeB)
      "from A infer A ∨ B" none,
    goalDirected "or_introduction_right" .propositional [holeB] (holeA.or holeB)
      "from B infer A ∨ B" none,
    goalDirected "biconditional_introduction" .propositional
      [holeA.implies holeB, holeB.implies holeA] (holeA.iff holeB)
      "from A → B and B → A infer A ↔ B" none]

def quantifier : List Rule :=
  [.instantiation, .generalization]

def temporal : List Rule :=
  [forward "temporal_k" .temporal [(holeA.implies holeB).always, holeA.always] holeB.always
      "K: □(A → B), □A ⊢ □B" none,
    forward "temporal_t" .temporal [holeA.always] holeA "T: □A ⊢ A" (some .reflexive),
    forward "temporal_d" .temporal [holeA.always] holeA.eventually "D: □A ⊢ ◊A" (some .serial),
    goalDirected "temporal_4" .temporal [holeA.always] holeA.always.always
      "4: □A ⊢ □□A" (some .transitive),
    goalDirected "temporal_5" .temporal [holeA.eventually] holeA.eventually.always
      "5: ◊A ⊢ □◊A" (some .symmetric),
    goalDirected "temporal_t_possibility" .temporal [holeA] holeA.eventually
      "T: A ⊢ ◊A" (some .reflexive),
    forward "always_and_left" .temporal [(holeA.and holeB).always] holeA.always
      "□(A ∧ B) ⊢ □A" none,
    forward "always_and_right" .temporal [(holeA.and holeB).always] holeB.always
      "□(A ∧ B) ⊢ □B" none,
    forward "until_eventually" .temporal [.span .until holeA holeB] holeB.eventually
      "A U B ⊢ ◊B" none,
    forward "not_always_duality" .temporal [holeA.always.not] holeA.not.eventually
      "¬□A ⊢ ◊¬A" none,
    forward "not_eventually_duality" .temporal [holeA.eventually.not] holeA.not.always
      "¬◊A ⊢ □¬A" none]

def deontic : List Rule :=
  [forward "deontic_k" .deontic [(holeA.implies holeB).obligatory, holeA.obligatory]
      holeB.obligatory "K: O(A → B), O(A) ⊢ O(B)" none,
    forward "deontic_d" .deontic [holeA.obligatory] holeA.permitted
      "D: O(A) ⊢ P(A)" (some .serial),
    forward "prohibition_as_obligation" .deontic [holeA.forbidden] holeA.not.obligatory
      "F(A) ⊢ O(¬A)" none,
    forward "obligation_as_prohibition" .deontic [holeA.not.obligatory] holeA.forbidden
      "O(¬A) ⊢ F(A)" none,
    forward "non_permission_as_prohibition" .deontic [holeA.permitted.not] holeA.forbidden
      "¬P(A) ⊢ F(A)" none,
    goalDirected "permission_duality" .deontic [holeA.forbidden.not] holeA.permitted
      "¬F(A) ⊢ P(A)" none]

def combined : List Rule :=
  [forward "always_obligation_k" .combined
      [(holeA.implies holeB).obligatory.always, holeA.obligatory.always] holeB.obligatory.always
      "□O(A → B), □O(A) ⊢ □O(B)" none,
    forward "always_obligation_now" .combined [holeA.obligatory.always] holeA.obligatory
      "a standing obligation holds now: □O(A) ⊢ O(A)" none]

/-- Every rule, in the order in which they are tried. -/
def catalogue : List Rule :=
  propositional ++ quantifier ++ temporal ++ deontic ++ combined

end Deontica.Rule
