import Deontica.Engine
import Deontica.Proofs.Rule.Instance
import Deontica.Proofs.Tableau.Frame

/-!
# Runs of the engine

Forward chaining goes from search to search by recording what a rule concludes (`Reachable`), so a
property of facts that the axioms have and that rules pass on holds of all facts
(`Reachable.forall_facts`).  It goes on as long as the goal is missing and ends in one of three ways:
at a fixpoint, at a limit, or with a rule that concludes the goal (`Outcome`, `chain_outcome`).  What
the engine reports depends on how chaining ended and, at a fixpoint, on the verdict of the tableau
(`prove_cases`).
-/

namespace Deontica

/-- What ran into a limit decides nothing. -/
theorem Status.isDecisive_of_isResourceLimit {status : Status}
    (h : status.isResourceLimit = true) : status.isDecisive = false := by
  match status, h with
  | .timeout, _ | .depthExceeded, _ => rfl

namespace Search

/-! ### Facts -/

@[simp] theorem mem_addFact {s : Search} {f g : Formula} :
    g ∈ (s.addFact f).facts ↔ g ∈ s.facts ∨ g = f := by
  show g ∈ (if f ∈ s.facts then s.facts else s.facts ++ [f]) ↔ _
  split_ifs with h
  · constructor
    · exact Or.inl
    · rintro (hg | rfl)
      · exact hg
      · exact h
  · rw [List.mem_append, List.mem_singleton]

theorem length_addFact_le (s : Search) (f : Formula) :
    (s.addFact f).facts.length ≤ s.facts.length + 1 := by
  show (if f ∈ s.facts then s.facts else s.facts ++ [f]).length ≤ _
  split_ifs
  · exact Nat.le_succ _
  · rw [List.length_append, List.length_singleton]

/-- The state with nothing but the problem. -/
def blank (goal : Formula) (axioms : List Formula) : Search where
  goal := goal
  facts := []
  targets := ((goal :: axioms).flatMap (·.subformulas)).eraseDups
  domain := (SortedSet.ofList ((goal :: axioms).flatMap (·.constantOccurrences))).map .const
  steps := []
  clash := none

theorem start_eq (goal : Formula) (axioms : List Formula) :
    start goal axioms = axioms.foldl addFact (blank goal axioms) := rfl

/-- Adding facts changes nothing else but what clashes. -/
theorem foldl_addFact_eq (fs : List Formula) (s : Search) :
    fs.foldl addFact s =
      { s with facts := (fs.foldl addFact s).facts, clash := (fs.foldl addFact s).clash } := by
  induction fs generalizing s with
  | nil => rfl
  | cons f fs ih =>
    rw [List.foldl_cons, ih]
    rfl

theorem mem_foldl_addFact (fs : List Formula) (s : Search) (g : Formula) :
    g ∈ (fs.foldl addFact s).facts ↔ g ∈ s.facts ∨ g ∈ fs := by
  induction fs generalizing s with
  | nil => simp
  | cons f fs ih => rw [List.foldl_cons, ih, mem_addFact, List.mem_cons, or_assoc]

section Start

variable {goal : Formula} {axioms : List Formula}

theorem start_goal (goal : Formula) (axioms : List Formula) : (start goal axioms).goal = goal := by
  rw [start_eq, foldl_addFact_eq]
  rfl

theorem start_steps (goal : Formula) (axioms : List Formula) : (start goal axioms).steps = [] := by
  rw [start_eq, foldl_addFact_eq]
  rfl

theorem mem_start {f : Formula} : f ∈ (start goal axioms).facts ↔ f ∈ axioms := by
  rw [start_eq, mem_foldl_addFact]
  simp [blank]

/-- The targets are the subformulas of the problem. -/
theorem mem_start_targets {f : Formula} :
    f ∈ (start goal axioms).targets ↔ ∃ g ∈ goal :: axioms, f ∈ g.subformulas := by
  rw [start_eq, foldl_addFact_eq]
  show f ∈ (blank goal axioms).targets ↔ _
  rw [blank, List.mem_eraseDups, List.mem_flatMap]

/-- Quantifiers are tried with the constants of the problem. -/
theorem mem_start_domain {t : Term} :
    t ∈ (start goal axioms).domain ↔
      ∃ g ∈ goal :: axioms, ∃ c ∈ g.constantOccurrences, t = .const c := by
  rw [start_eq, foldl_addFact_eq]
  show t ∈ (blank goal axioms).domain ↔ _
  rw [blank, List.mem_map]
  constructor
  · rintro ⟨c, hc, rfl⟩
    rw [SortedSet.mem_ofList, List.mem_flatMap] at hc
    obtain ⟨g, hg, hc⟩ := hc
    exact ⟨g, hg, c, hc, rfl⟩
  · rintro ⟨g, hg, c, hc, rfl⟩
    exact ⟨c, (SortedSet.mem_ofList _ _).mpr (List.mem_flatMap.mpr ⟨g, hg, hc⟩), rfl⟩

theorem exists_const_of_mem_start {t : Term} (h : t ∈ (start goal axioms).domain) :
    ∃ c, t = .const c := by
  obtain ⟨_, _, c, _, rfl⟩ := mem_start_domain.mp h
  exact ⟨c, rfl⟩

end Start

/-! ### Reachable searches -/

/-- The searches that applications of the rules lead to. -/
inductive Reachable (rules : List Rule) (s₀ : Search) : Search → Prop
  | start : Reachable rules s₀ s₀
  | record {s : Search} {r : Rule} {d : Step} : Reachable rules s₀ s → r ∈ rules →
      r.apply s.scene = some d → Reachable rules s₀ (s.record d)

namespace Reachable

variable {rules : List Rule} {s₀ s : Search}

theorem goal_eq (h : Reachable rules s₀ s) : s.goal = s₀.goal := by
  induction h with
  | start => rfl
  | record _ _ _ ih => exact ih

theorem domain_eq (h : Reachable rules s₀ s) : s.domain = s₀.domain := by
  induction h with
  | start => rfl
  | record _ _ _ ih => exact ih

theorem targets_eq (h : Reachable rules s₀ s) : s.targets = s₀.targets := by
  induction h with
  | start => rfl
  | record _ _ _ ih => exact ih

theorem mem_record {s : Search} {d : Step} {f : Formula} :
    f ∈ (s.record d).facts ↔ f ∈ s.facts ∨ f = d.conclusion :=
  mem_addFact

/-- No fact is ever dropped. -/
theorem facts_subset (h : Reachable rules s₀ s) : s₀.facts ⊆ s.facts := by
  induction h with
  | start => exact List.Subset.refl _
  | record _ _ _ ih => exact fun f hf => mem_record.mpr (Or.inl (ih hf))

/-- What the first facts have and the rules pass on, all facts have. -/
theorem forall_facts (h : Reachable rules s₀ s) {P : Formula → Prop} (h₀ : ∀ f ∈ s₀.facts, P f)
    (hrule : ∀ (s : Search) (r : Rule) (d : Step), Reachable rules s₀ s → r ∈ rules →
      r.apply s.scene = some d → (∀ f ∈ d.premises, P f) → P d.conclusion) :
    ∀ f ∈ s.facts, P f := by
  induction h with
  | start => exact h₀
  | record hs hr hd ih =>
    intro f hf
    rcases mem_record.mp hf with hf | rfl
    · exact ih f hf
    · exact hrule _ _ _ hs hr hd fun g hg => ih g (Rule.mem_facts_of_apply hd g hg)

end Reachable

end Search

namespace Engine

open Search

/-! ### Chaining -/

variable {rules : List Rule} {maxFacts : Nat} {isOver : Nat → Bool}

/-- What a round finds: a limit, nothing new, or what a rule concludes. -/
theorem round_cases (rules : List Rule) (maxFacts : Nat) (isOver : Nat → Bool) (looks : Nat)
    (s : Search) :
    (∃ status, round rules maxFacts isOver looks s = .stop status ∧
        status.isResourceLimit = true ∧ ((∃ n, isOver n = true) ∨ maxFacts ≤ s.facts.length)) ∨
      (round rules maxFacts isOver looks s = .fixpoint ∧ derive rules s = none) ∨
      ∃ r ∈ rules, ∃ d, r.apply s.scene = some d ∧ s.facts.length < maxFacts ∧
        round rules maxFacts isOver looks s = .derived d := by
  unfold round
  split
  · rename_i hover
    exact Or.inl ⟨.timeout, rfl, rfl, Or.inl ⟨_, hover⟩⟩
  split
  · rename_i hfacts
    exact Or.inl ⟨.depthExceeded, rfl, rfl, Or.inr hfacts⟩
  rename_i hfacts
  split
  · rename_i hnone
    exact Or.inr (Or.inl ⟨rfl, hnone⟩)
  · rename_i d hd
    obtain ⟨r, hr, happly⟩ := List.exists_of_findSome?_eq_some hd
    split
    · rename_i hover
      exact Or.inl ⟨.timeout, rfl, rfl, Or.inl ⟨_, hover⟩⟩
    · exact Or.inr (Or.inr ⟨r, hr, d, happly, Nat.lt_of_not_le hfacts, rfl⟩)

/-- The ways in which chaining ends, where `s` is the last search without the goal. -/
inductive Outcome (rules : List Rule) (maxFacts : Nat) (isOver : Nat → Bool) (s : Search) :
    Chained → Prop
  /-- No rule gives a new fact. -/
  | fixpoint {looks steps : Nat} : derive rules s = none →
      Outcome rules maxFacts isOver s ⟨none, s, looks, steps⟩
  /-- Time is up, there are too many facts, or there is no step left. -/
  | stopped {status : Status} {looks steps : Nat} : status.isResourceLimit = true →
      (∃ n, isOver n = true) ∨ maxFacts ≤ s.facts.length ∨ steps = 0 →
      Outcome rules maxFacts isOver s ⟨some status, s, looks, steps⟩
  /-- A rule concludes the goal. -/
  | goal {r : Rule} {d : Step} {looks steps : Nat} : r ∈ rules → r.apply s.scene = some d →
      d.conclusion = s.goal → s.facts.length < maxFacts →
      Outcome rules maxFacts isOver s ⟨some .proved, s.record d, looks, steps⟩

/-- **Chaining goes on without the goal until one of its outcomes.**  Steps taken and steps left
together are the steps there were, and facts are added only below their limit. -/
theorem chain_outcome {s₀ : Search} :
    ∀ (steps looks : Nat) (s : Search), Reachable rules s₀ s → s.goal ∉ s.facts →
      s.facts.length ≤ max maxFacts s₀.facts.length →
      ∃ last, Reachable rules s₀ last ∧ last.goal ∉ last.facts ∧
        last.facts.length ≤ max maxFacts s₀.facts.length ∧
        Outcome rules maxFacts isOver last (chain rules maxFacts isOver steps looks s) ∧
        (chain rules maxFacts isOver steps looks s).search.steps.length +
          (chain rules maxFacts isOver steps looks s).steps = s.steps.length + steps := by
  intro steps
  induction steps with
  | zero =>
    intro looks s hs hgoal hlen
    refine ⟨s, hs, hgoal, hlen, ?_⟩
    unfold chain
    rcases round_cases rules maxFacts isOver looks s with
      ⟨status, hround, hlimit, hwhy⟩ | ⟨hround, hnone⟩ | ⟨r, hr, d, hd, _, hround⟩ <;> rw [hround]
    · exact ⟨.stopped hlimit (hwhy.imp id Or.inl), rfl⟩
    · exact ⟨.fixpoint hnone, rfl⟩
    · -- there is no step left for what the rule concludes
      exact ⟨.stopped rfl (Or.inr (Or.inr rfl)), rfl⟩
  | succ steps ih =>
    intro looks s hs hgoal hlen
    unfold chain
    rcases round_cases rules maxFacts isOver looks s with
      ⟨status, hround, hlimit, hwhy⟩ | ⟨hround, hnone⟩ | ⟨r, hr, d, hd, hfew, hround⟩ <;>
      rw [hround]
    · exact ⟨s, hs, hgoal, hlen, .stopped hlimit (hwhy.imp id Or.inl), rfl⟩
    · exact ⟨s, hs, hgoal, hlen, .fixpoint hnone, rfl⟩
    · have hsteps : (s.record d).steps.length = s.steps.length + 1 := by
        show (s.steps ++ [d]).length = _
        rw [List.length_append, List.length_singleton]
      by_cases hconc : d.conclusion = (s.record d).goal
      · simp only [if_pos hconc]
        exact ⟨s, hs, hgoal, hlen, .goal hr hd hconc hfew, by omega⟩
      · simp only [if_neg hconc]
        have hgoal' : (s.record d).goal ∉ (s.record d).facts := by
          rw [Reachable.mem_record, not_or]
          exact ⟨hgoal, fun h => hconc h.symm⟩
        have hlen' : (s.record d).facts.length ≤ s.facts.length + 1 := length_addFact_le s _
        obtain ⟨last, hlast, hlastgoal, hlastlen, houtcome, hcount⟩ :=
          ih (looks + 2) (s.record d) (.record hs hr hd) hgoal' (by omega)
        exact ⟨last, hlast, hlastgoal, hlastlen, houtcome, by omega⟩

/-- Forward chaining has the goal from the start or comes to one of its outcomes. -/
theorem forward_outcome (rules : List Rule) (maxFacts : Nat) (isOver : Nat → Bool) (steps : Nat)
    (s : Search) :
    s.goal ∈ s.facts ∧ forward rules maxFacts isOver steps s = ⟨some .proved, s, 0, steps⟩ ∨
      ∃ last, Reachable rules s last ∧ last.goal ∉ last.facts ∧
        last.facts.length ≤ max maxFacts s.facts.length ∧
        Outcome rules maxFacts isOver last (forward rules maxFacts isOver steps s) ∧
        (forward rules maxFacts isOver steps s).search.steps.length +
          (forward rules maxFacts isOver steps s).steps = s.steps.length + steps := by
  unfold forward
  split_ifs with hgoal
  · exact Or.inl ⟨hgoal, rfl⟩
  · exact Or.inr (chain_outcome steps 0 s .start hgoal (le_max_right _ _))

/-- How chaining ends: the search is one that the rules lead to, and if it ended with a decision,
then the goal is among the facts. -/
structure Ends (rules : List Rule) (s₀ : Search) (c : Chained) : Prop where
  reachable : Reachable rules s₀ c.search
  decided : ∀ status, c.status = some status →
    status.isDecisive = false ∨ status = .proved ∧ s₀.goal ∈ c.search.facts

theorem ends_forward (rules : List Rule) (maxFacts : Nat) (isOver : Nat → Bool) (steps : Nat)
    (s : Search) : Ends rules s (forward rules maxFacts isOver steps s) := by
  rcases forward_outcome rules maxFacts isOver steps s with
    ⟨hgoal, heq⟩ | ⟨last, hlast, _, _, houtcome, _⟩
  · rw [heq]
    exact ⟨.start, fun _ h => Or.inr ⟨(Option.some.inj h).symm, hgoal⟩⟩
  · generalize forward rules maxFacts isOver steps s = c at houtcome ⊢
    cases houtcome with
    | fixpoint _ => exact ⟨hlast, fun _ h => absurd h (by simp)⟩
    | stopped hlimit _ =>
      refine ⟨hlast, fun _ h => Or.inl ?_⟩
      rw [← Option.some.inj h]
      exact Status.isDecisive_of_isResourceLimit hlimit
    | goal hr hd hconc _ =>
      refine ⟨.record hlast hr hd, fun _ h => Or.inr ⟨(Option.some.inj h).symm, ?_⟩⟩
      rw [Reachable.mem_record, hconc, hlast.goal_eq]
      exact Or.inr rfl

/-! ### Results -/

/-- What a verdict of the tableau says of the goal. -/
def verdictStatus : Verdict → Status
  | .closed _ _ => .proved
  | .open _ => .disproved
  | .incomplete => .unknown
  | .exhausted part => exhaustionStatus part

theorem conclude_status (logic : Logic) (s : Search) (v : Verdict) :
    (conclude logic s v).2.status = verdictStatus v := by
  cases v <;> rfl

theorem eq_closed_of_verdictStatus {v : Verdict} (h : verdictStatus v = .proved) :
    ∃ branches worlds, v = .closed branches worlds := by
  match v, h with
  | .closed branches worlds, _ => exact ⟨branches, worlds, rfl⟩
  | .exhausted .steps, h | .exhausted .time, h => cases h

theorem eq_open_of_verdictStatus {v : Verdict} (h : verdictStatus v = .disproved) :
    ∃ worlds, v = .open worlds := by
  match v, h with
  | .open worlds, _ => exact ⟨worlds, rfl⟩
  | .exhausted .steps, h | .exhausted .time, h => cases h

/-- How chaining from the axioms ends. -/
def chained (config : EngineConfig) (goal : Formula) (axioms : List Formula) (budget : Budget)
    (watch : Watch) : Chained :=
  forward (activeRules (logicFor config goal axioms)) config.maxFacts (watch.isOver budget.time)
    budget.maxSteps (.start goal axioms)

/-- A problem is turned down unless all its formulas are within the limit of depth. -/
theorem find?_eq_none_iff {config : EngineConfig} {goal : Formula} {axioms : List Formula} :
    (goal :: axioms).find? (config.maxFormulaDepth < ·.depth) = none ↔
      ∀ f ∈ goal :: axioms, f.depth ≤ config.maxFormulaDepth := by
  simp only [List.find?_eq_none, decide_eq_true_eq, not_lt]

section Prove

variable (config : EngineConfig) (goal : Formula) (axioms : List Formula) (budget : Budget)
  (watch : Watch)

/-- What is reported of a problem that is not too deep. -/
theorem prove_eq (h : (goal :: axioms).find? (config.maxFormulaDepth < ·.depth) = none) :
    (prove config goal axioms budget watch).logic = logicFor config goal axioms ∧
    (prove config goal axioms budget watch).status =
      match (chained config goal axioms budget watch).status, logicFor config goal axioms with
      | some status, _ => status
      | none, some logic =>
        verdictStatus (Tableau.refute ⟨logic, config.maxWorlds, config.maxBranches⟩
          (chained config goal axioms budget watch).search.facts goal (watch.isOver budget.time)
          (chained config goal axioms budget watch).steps
          (chained config goal axioms budget watch).looks)
      | none, none => .unknown := by
  unfold prove
  rw [h]
  refine ⟨rfl, ?_⟩
  dsimp only
  rw [← chained]
  cases (chained config goal axioms budget watch).status with
  | some status => rfl
  | none =>
    cases logicFor config goal axioms with
    | none => rfl
    | some logic => exact conclude_status _ _ _

/-- A result tells all steps of the search. -/
theorem chained_steps_subset
    (h : (goal :: axioms).find? (config.maxFormulaDepth < ·.depth) = none) :
    (chained config goal axioms budget watch).search.steps ⊆
      (prove config goal axioms budget watch).steps := by
  unfold prove
  rw [h]
  dsimp only
  rw [← chained]
  cases (chained config goal axioms budget watch).status with
  | some status => exact List.Subset.refl _
  | none =>
    cases logicFor config goal axioms with
    | none => exact List.Subset.refl _
    | some logic =>
      dsimp only
      generalize Tableau.refute _ _ _ _ _ _ = verdict
      cases verdict with
      | closed branches worlds => exact List.subset_append_left _ _
      | «open» worlds | incomplete | exhausted part => exact List.Subset.refl _

/-- A decision about the search that chaining ended with: it found the goal, or the tableau for the
logic in use had the last word. -/
theorem prove_cases_chained
    (h : (prove config goal axioms budget watch).status.isDecisive = true) :
    (prove config goal axioms budget watch).logic = logicFor config goal axioms ∧
    (chained config goal axioms budget watch).search.steps ⊆
      (prove config goal axioms budget watch).steps ∧
    ((prove config goal axioms budget watch).status = .proved ∧
        goal ∈ (chained config goal axioms budget watch).search.facts ∨
      ∃ (t : Tableau) (isOver : Nat → Bool) (steps looks : Nat),
        logicFor config goal axioms = some t.logic ∧
        (prove config goal axioms budget watch).status =
          verdictStatus (t.refute (chained config goal axioms budget watch).search.facts goal
            isOver steps looks)) := by
  cases hdeep : (goal :: axioms).find? (config.maxFormulaDepth < ·.depth) with
  | some f =>
    -- a formula that is too deep is turned down without a decision
    unfold prove at h
    rw [hdeep] at h
    cases h
  | none =>
    obtain ⟨hlogic, hstatus⟩ := prove_eq config goal axioms budget watch hdeep
    have hends : Ends _ _ (chained config goal axioms budget watch) :=
      ends_forward _ _ _ _ _
    rw [hstatus] at h ⊢
    refine ⟨hlogic, chained_steps_subset config goal axioms budget watch hdeep, ?_⟩
    cases hc : (chained config goal axioms budget watch).status with
    | some status =>
      rw [hc] at h
      rcases hends.decided status hc with hnot | ⟨rfl, hgoal⟩
      · exact absurd (h.symm.trans hnot) Bool.noConfusion
      · rw [start_goal] at hgoal
        exact Or.inl ⟨rfl, hgoal⟩
    | none =>
      -- at a fixpoint only the tableau can decide, and there is one only with a logic
      rw [hc] at h
      cases hl : logicFor config goal axioms with
      | none =>
        rw [hl] at h
        cases h
      | some logic =>
        exact Or.inr ⟨⟨logic, config.maxWorlds, config.maxBranches⟩, _, _, _, rfl, rfl⟩

/-- **Where a decision comes from.**  Chaining found the goal, or it came to facts at which the
tableau for the logic in use had the last word. -/
theorem prove_cases (h : (prove config goal axioms budget watch).status.isDecisive = true) :
    (prove config goal axioms budget watch).logic = logicFor config goal axioms ∧
    ∃ s, Reachable (activeRules (logicFor config goal axioms)) (.start goal axioms) s ∧
      ((prove config goal axioms budget watch).status = .proved ∧ goal ∈ s.facts ∨
        ∃ (t : Tableau) (isOver : Nat → Bool) (steps looks : Nat),
          logicFor config goal axioms = some t.logic ∧
          (prove config goal axioms budget watch).status =
            verdictStatus (t.refute s.facts goal isOver steps looks)) := by
  obtain ⟨hlogic, _, hcase⟩ := prove_cases_chained config goal axioms budget watch h
  exact ⟨hlogic, _, (ends_forward _ _ _ _ _).reachable, hcase⟩

end Prove

end Engine

end Deontica
