import Deontica.Config
import Deontica.Formula.Printer
import Deontica.Rule.Catalogue
import Deontica.Tableau

/-!
# The inference engine

Facts start out as the axioms.  In every round the first active rule that gives a new fact is
applied, until the goal is among the facts, no rule gives anything new, or a limit is reached.  If a
modal logic is in use and the facts are complete without the goal, a tableau has the last word.

Contradictory facts are noted, and the first such pair is reported, but nothing is concluded from
them.
-/

namespace Deontica

/-- The name of the engine as a prover. -/
def nativeName : String := "native"

/-- The working state of one proof. -/
structure Search where
  goal : Formula
  /-- The facts in the order in which they were found, without repetition. -/
  facts : List Formula
  targets : List Formula
  domain : List Term
  steps : List Step
  clash : Option Clash
  deriving Repr, Inhabited

namespace Search

/-- The pair that a fact makes with its negation. -/
def clashOf (fact : Formula) : Clash :=
  match fact with
  | .not a => ⟨a, fact⟩
  | _ => ⟨fact, fact.negation⟩

/-- Adds a fact, and notes the first clash. -/
def addFact (s : Search) (fact : Formula) : Search :=
  let clash := match s.clash with
    | some c => some c
    | none => if fact.negation ∈ s.facts then some (clashOf fact) else none
  { s with clash := clash, facts := if fact ∈ s.facts then s.facts else s.facts ++ [fact] }

/-- The state before the first round. -/
def start (goal : Formula) (axioms : List Formula) : Search :=
  let problem := goal :: axioms
  let empty : Search :=
    { goal := goal
      facts := []
      targets := (problem.flatMap (·.subformulas)).eraseDups
      domain := (SortedSet.ofList (problem.flatMap (·.constantOccurrences))).map .const
      steps := []
      clash := none }
  axioms.foldl addFact empty

/-- Takes a step: its conclusion becomes a fact. -/
def record (s : Search) (step : Step) : Search :=
  let s := s.addFact step.conclusion
  { s with steps := s.steps ++ [step] }

def scene (s : Search) : Scene :=
  ⟨s.facts, s.targets, s.domain⟩

end Search

/-- What a round of forward chaining finds. -/
inductive Round where
  /-- A limit is reached. -/
  | stop (status : Status)
  /-- No rule gives a new fact. -/
  | fixpoint
  | derived (step : Step)
  deriving Repr, Inhabited

/-- How forward chaining ended, with the looks taken and the steps left. -/
structure Chained where
  /-- The status, or `none` at a fixpoint without the goal. -/
  status : Option Status
  search : Search
  looks : Nat
  steps : Nat
  deriving Repr, Inhabited

namespace Engine

/-- The first new fact that a rule gives. -/
def derive (rules : List Rule) (s : Search) : Option Step :=
  rules.findSome? (·.apply s.scene)

/-- One round: the watch is looked at before a rule is sought and again before it is applied. -/
def round (rules : List Rule) (maxFacts : Nat) (isOver : Nat → Bool) (looks : Nat) (s : Search) :
    Round :=
  if isOver looks then .stop .timeout
  else if maxFacts ≤ s.facts.length then .stop .depthExceeded
  else
    match derive rules s with
    | none => .fixpoint
    | some step => if isOver (looks + 1) then .stop .timeout else .derived step

/-- Rounds of forward chaining with the given number of steps. -/
def chain (rules : List Rule) (maxFacts : Nat) (isOver : Nat → Bool) (steps looks : Nat)
    (s : Search) : Chained :=
  match round rules maxFacts isOver looks s with
  | .stop status => ⟨some status, s, looks + 1, steps⟩
  | .fixpoint => ⟨none, s, looks + 1, steps⟩
  | .derived step =>
    match steps with
    | 0 => ⟨some .depthExceeded, s, looks + 2, 0⟩
    | steps + 1 =>
      let s := s.record step
      if step.conclusion = s.goal then ⟨some .proved, s, looks + 2, steps⟩
      else chain rules maxFacts isOver steps (looks + 2) s

/-- Forward chaining from the axioms. -/
def forward (rules : List Rule) (maxFacts : Nat) (isOver : Nat → Bool) (steps : Nat) (s : Search) :
    Chained :=
  if s.goal ∈ s.facts then ⟨some .proved, s, 0, steps⟩
  else chain rules maxFacts isOver steps 0 s

/-- The status that running out of a budget leads to. -/
def exhaustionStatus : Exhaustion → Status
  | .steps => .depthExceeded
  | .time => .timeout

/-- What the tableau's verdict makes of a search that reached its fixpoint. -/
def conclude (logic : Logic) (s : Search) : Verdict → Search × Result
  | .closed branches worlds =>
    let step : Step :=
      { rule := "tableau_closure"
        premises := s.facts
        conclusion := s.goal
        justification := "all " ++ toString branches ++ " branches closed under " ++ logic.name ++
          " (" ++ toString worlds ++ " worlds)" }
    ({ s with steps := s.steps ++ [step] }, .plain .proved nativeName)
  | .open worlds =>
    (s, .noted .disproved nativeName
      ("open tableau branch: counter-model with " ++ toString worlds ++ " worlds under " ++
        logic.name))
  | .incomplete => (s, .noted .unknown nativeName "tableau left branches undecided")
  | .exhausted part => (s, .plain (exhaustionStatus part) nativeName)

/-- The logic for a problem, if one is needed. -/
def logicFor (config : EngineConfig) (goal : Formula) (axioms : List Formula) : Option Logic :=
  if Logic.isNeeded (goal :: axioms) then some (Logic.select config.logic (goal :: axioms)).1
  else none

/-- The rules that are active in a logic. -/
def activeRules (logic : Option Logic) : List Rule :=
  Rule.catalogue.filter (·.isActive logic)

/-- Tries to prove the goal from the axioms, within the limits of the settings and the budget. -/
def prove (config : EngineConfig) (goal : Formula) (axioms : List Formula) (budget : Budget)
    (watch : Watch) : Result :=
  match (goal :: axioms).find? (config.maxFormulaDepth < ·.depth) with
  | some f =>
    .noted .depthExceeded nativeName
      ("formula depth " ++ toString f.depth ++ " exceeds limit " ++
        toString config.maxFormulaDepth)
  | none =>
    let logic := logicFor config goal axioms
    let isOver := watch.isOver budget.time
    let chained :=
      forward (activeRules logic) config.maxFacts isOver budget.maxSteps (.start goal axioms)
    let outcome : Search × Result := match chained.status, logic with
      | some status, _ => (chained.search, .plain status nativeName)
      | none, some logic =>
        let tableau : Tableau := ⟨logic, config.maxWorlds, config.maxBranches⟩
        conclude logic chained.search
          (tableau.refute chained.search.facts goal isOver chained.steps chained.looks)
      | none, none =>
        (chained.search,
          .noted .unknown nativeName "forward chaining reached a fixpoint without the goal")
    { outcome.2 with
      steps := outcome.1.steps
      logic := logic
      clash := outcome.1.clash
      elapsed := .ofMillis (watch.elapsed chained.looks) }

end Engine

end Deontica
