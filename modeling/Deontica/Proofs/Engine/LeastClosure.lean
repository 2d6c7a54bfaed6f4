import Deontica.Proofs.Engine
import Mathlib.Data.Set.Lattice
import Mathlib.Order.Bounds.Basic

/-!
# Forward chaining computes a least closure

A problem fixes what its facts can become: the least set of formulas that has the axioms and is closed
under the instances of the active rules (`leastClosure`).  Chaining applies one rule at a time, and
only the first instance that gives something new; it stays inside every closed set all the same, and
where no rule gives anything new, the facts are closed themselves.  So a run that no limit stops finds
the goal exactly if the goal is in the least closure, and ends with exactly the least closure if it is
not.

The least closure does not depend on the order of the axioms or on repetitions among them, and so
neither does the outcome.
-/

namespace Deontica

namespace Engine

open Search

/-! ### The least closure -/

/-- The subformulas of a problem. -/
def aims (goal : Formula) (axioms : List Formula) : Set Formula :=
  {f | ∃ g ∈ goal :: axioms, f ∈ g.subformulas}

/-- The constants of a problem. -/
def constants (goal : Formula) (axioms : List Formula) : Set Term :=
  {t | ∃ g ∈ goal :: axioms, ∃ c ∈ g.constantOccurrences, t = .const c}

/-- The set has the axioms, and with the premises of an instance of an active rule it has the
conclusion. -/
structure Closed (logic : Option Logic) (goal : Formula) (axioms : List Formula)
    (X : Set Formula) : Prop where
  given : ∀ f ∈ axioms, f ∈ X
  rules : ∀ r ∈ activeRules logic, ∀ premises conclusion,
    r.Instance (aims goal axioms) (constants goal axioms) premises conclusion →
    (∀ f ∈ premises, f ∈ X) → conclusion ∈ X

/-- What the axioms of a problem lead to by the active rules. -/
def leastClosure (logic : Option Logic) (goal : Formula) (axioms : List Formula) : Set Formula :=
  ⋂₀ {X | Closed logic goal axioms X}

/-- The least closure is the least closed set. -/
theorem isLeast_leastClosure (logic : Option Logic) (goal : Formula) (axioms : List Formula) :
    IsLeast {X | Closed logic goal axioms X} (leastClosure logic goal axioms) := by
  constructor
  · constructor
    · intro f hf X hX
      exact hX.given f hf
    · intro r hr premises conclusion hinst hprem X hX
      exact hX.rules r hr premises conclusion hinst fun f hf => hprem f hf X hX
  · intro X hX
    exact Set.sInter_subset_of_mem hX

variable {config : EngineConfig} {goal : Formula} {axioms axioms' : List Formula}
  {logic : Option Logic} {s : Search}

/-! ### Runs stay inside and end closed -/

/-- What a rule looks at during a search belongs to the problem. -/
theorem scene_eq (hs : Reachable (activeRules logic) (start goal axioms) s) :
    {f | f ∈ s.scene.targets} = aims goal axioms ∧
      {t | t ∈ s.scene.domain} = constants goal axioms := by
  constructor
  · ext f
    show f ∈ s.targets ↔ _
    rw [hs.targets_eq]
    exact mem_start_targets
  · ext t
    show t ∈ s.domain ↔ _
    rw [hs.domain_eq]
    exact mem_start_domain

/-- **No fact is outside the least closure.** -/
theorem mem_leastClosure_of_mem (hs : Reachable (activeRules logic) (start goal axioms) s) :
    ∀ f ∈ s.facts, f ∈ leastClosure logic goal axioms := by
  have hclosed := (isLeast_leastClosure logic goal axioms).1
  refine hs.forall_facts (P := (· ∈ leastClosure logic goal axioms)) ?_ ?_
  · intro f hf
    exact hclosed.given f (mem_start.mp hf)
  · intro s' r d hs' hr hd hprem
    obtain ⟨_, hinst, _⟩ := Rule.apply_instance hd
    rw [(scene_eq hs').1, (scene_eq hs').2] at hinst
    exact hclosed.rules r hr _ _ hinst hprem

/-- **Facts to which no rule adds anything are closed.** -/
theorem closed_of_derive (hs : Reachable (activeRules logic) (start goal axioms) s)
    (hnone : derive (activeRules logic) s = none) :
    Closed logic goal axioms {f | f ∈ s.facts} := by
  constructor
  · intro f hf
    exact hs.facts_subset (mem_start.mpr hf)
  · intro r hr premises conclusion hinst hprem
    by_contra hnew
    rw [← (scene_eq hs).1, ← (scene_eq hs).2] at hinst
    have hsome := Rule.isSome_apply (List.mem_of_mem_filter hr) hinst hprem hnew
    rw [List.findSome?_eq_none_iff.mp hnone r hr] at hsome
    cases hsome

/-- At a fixpoint the facts are the least closure. -/
theorem facts_eq_leastClosure (hs : Reachable (activeRules logic) (start goal axioms) s)
    (hnone : derive (activeRules logic) s = none) :
    {f | f ∈ s.facts} = leastClosure logic goal axioms := by
  apply Set.Subset.antisymm
  · exact mem_leastClosure_of_mem hs
  · exact (isLeast_leastClosure logic goal axioms).2 (closed_of_derive hs hnone)

/-- A run that no limit stops has the goal, which is then in the least closure, or ends with the
least closure, in which the goal is missing. -/
theorem chained_cases (config : EngineConfig) (goal : Formula) (axioms : List Formula)
    (budget : Budget) (watch : Watch)
    (h : ∀ status, (chained config goal axioms budget watch).status = some status →
      status.isResourceLimit = false) :
    ((chained config goal axioms budget watch).status = some .proved ∧
        goal ∈ leastClosure (logicFor config goal axioms) goal axioms) ∨
      ((chained config goal axioms budget watch).status = none ∧
        goal ∉ leastClosure (logicFor config goal axioms) goal axioms ∧
        {f | f ∈ (chained config goal axioms budget watch).search.facts} =
          leastClosure (logicFor config goal axioms) goal axioms) := by
  have hgoal := start_goal goal axioms
  unfold chained at h ⊢
  rcases forward_outcome (activeRules (logicFor config goal axioms)) config.maxFacts
      (watch.isOver budget.time) budget.maxSteps (start goal axioms) with
    ⟨hmem, heq⟩ | ⟨last, hlast, hmissing, _, houtcome, _⟩
  · -- the goal is one of the axioms
    rw [heq]
    rw [hgoal] at hmem
    exact Or.inl ⟨rfl, mem_leastClosure_of_mem .start goal hmem⟩
  · generalize forward _ _ _ _ _ = c at h houtcome ⊢
    rw [hlast.goal_eq, hgoal] at hmissing
    cases houtcome with
    | fixpoint hnone =>
      have hfacts := facts_eq_leastClosure hlast hnone
      refine Or.inr ⟨rfl, ?_, hfacts⟩
      rw [← hfacts]
      exact hmissing
    | stopped hlimit _ =>
      exact absurd (hlimit.symm.trans (h _ rfl)) Bool.noConfusion
    | goal hr hd hconc _ =>
      refine Or.inl ⟨rfl, mem_leastClosure_of_mem (.record hlast hr hd) goal ?_⟩
      rw [Reachable.mem_record, hconc, hlast.goal_eq, hgoal]
      exact Or.inr rfl

/-! ### The order of the axioms -/

/-- Whether some formula of a problem has a property does not depend on the order of the axioms. -/
theorem any_problem_congr (h : ∀ f, f ∈ axioms' ↔ f ∈ axioms) (p : Formula → Bool) :
    (goal :: axioms').any p = (goal :: axioms).any p := by
  rw [Bool.eq_iff_iff]
  simp only [List.any_eq_true, List.mem_cons, h]

theorem logicFor_congr (h : ∀ f, f ∈ axioms' ↔ f ∈ axioms) :
    logicFor config goal axioms' = logicFor config goal axioms := by
  unfold logicFor Logic.isNeeded Logic.select
  simp only [any_problem_congr h]

theorem leastClosure_congr (h : ∀ f, f ∈ axioms' ↔ f ∈ axioms) :
    leastClosure logic goal axioms' = leastClosure logic goal axioms := by
  have haims : aims goal axioms' = aims goal axioms := by
    ext f
    simp only [aims, Set.mem_ofPred_eq, List.mem_cons, h]
  have hconst : constants goal axioms' = constants goal axioms := by
    ext t
    simp only [constants, Set.mem_ofPred_eq, List.mem_cons, h]
  have hclosed : ∀ X, Closed logic goal axioms' X ↔ Closed logic goal axioms X := by
    intro X
    constructor
    · intro hX
      exact ⟨fun f hf => hX.given f ((h f).mpr hf), haims ▸ hconst ▸ hX.rules⟩
    · intro hX
      exact ⟨fun f hf => hX.given f ((h f).mp hf), haims ▸ hconst ▸ hX.rules⟩
  unfold leastClosure
  simp only [hclosed]

/-- **Forward chaining computes the least closure.**  A run that no limit stops finds the goal
exactly if the goal is in the least closure of the axioms under the active rules, and otherwise it
ends with the least closure as its facts.  Another run that no limit stops, on the same axioms in any
order and with any repetitions, ends in the same way and with the same facts. -/
theorem chained_leastClosure (config : EngineConfig) (goal : Formula) (axioms : List Formula)
    (budget : Budget) (watch : Watch)
    (h : ∀ status, (chained config goal axioms budget watch).status = some status →
      status.isResourceLimit = false) :
    ((chained config goal axioms budget watch).status = some .proved ↔
        goal ∈ leastClosure (logicFor config goal axioms) goal axioms) ∧
      ((chained config goal axioms budget watch).status ≠ some .proved →
        (chained config goal axioms budget watch).status = none ∧
        {f | f ∈ (chained config goal axioms budget watch).search.facts} =
          leastClosure (logicFor config goal axioms) goal axioms) ∧
      ∀ (axioms' : List Formula) (budget' : Budget) (watch' : Watch),
        (∀ f, f ∈ axioms' ↔ f ∈ axioms) →
        (∀ status, (chained config goal axioms' budget' watch').status = some status →
          status.isResourceLimit = false) →
        (chained config goal axioms' budget' watch').status =
            (chained config goal axioms budget watch).status ∧
          ((chained config goal axioms budget watch).status = none →
            ∀ f, f ∈ (chained config goal axioms' budget' watch').search.facts ↔
              f ∈ (chained config goal axioms budget watch).search.facts) := by
  rcases chained_cases config goal axioms budget watch h with
    ⟨hstatus, hgoal⟩ | ⟨hstatus, hgoal, hfacts⟩
  · rw [hstatus]
    refine ⟨⟨fun _ => hgoal, fun _ => rfl⟩, fun hne => absurd rfl hne, ?_⟩
    intro axioms' budget' watch' hsame h'
    rcases chained_cases config goal axioms' budget' watch' h' with
      ⟨hstatus', _⟩ | ⟨_, hgoal', _⟩
    · exact ⟨hstatus', fun hnone => absurd hnone (by simp)⟩
    · rw [logicFor_congr hsame, leastClosure_congr hsame] at hgoal'
      exact absurd hgoal hgoal'
  · rw [hstatus]
    refine ⟨⟨fun hproved => absurd hproved (by simp), fun hmem => absurd hmem hgoal⟩,
      fun _ => ⟨rfl, hfacts⟩, ?_⟩
    intro axioms' budget' watch' hsame h'
    rcases chained_cases config goal axioms' budget' watch' h' with
      ⟨_, hgoal'⟩ | ⟨hstatus', _, hfacts'⟩
    · rw [logicFor_congr hsame, leastClosure_congr hsame] at hgoal'
      exact absurd hgoal' hgoal
    · rw [logicFor_congr hsame, leastClosure_congr hsame, ← hfacts] at hfacts'
      exact ⟨hstatus', fun _ f => Set.ext_iff.mp hfacts' f⟩

/-- From `R(a)` and `∀x. (R(x) → Q(x))` chaining comes to `∃x. Q(x)`, but not to `◊R(b)`.  In the
second case it ends with the least closure, and it does so too when the axioms are given in another
order and one of them twice. -/
theorem chained_leastClosure_exists :
    let fact : Formula := .pred "R" [.const "a"]
    let law : Formula := .all "x" (.implies (.pred "R" [.var "x"]) (.pred "Q" [.var "x"]))
    let goal : Formula := .exists "x" (.pred "Q" [.var "x"])
    let missing : Formula := .eventually (.pred "R" [.const "b"])
    (chained {} goal [fact, law] ⟨20, 1⟩ .still).status = some .proved ∧
      goal ∈ leastClosure (logicFor {} goal [fact, law]) goal [fact, law] ∧
      (chained {} missing [fact, law] ⟨20, 1⟩ .still).status = none ∧
      {f | f ∈ (chained {} missing [fact, law] ⟨20, 1⟩ .still).search.facts} =
        leastClosure (logicFor {} missing [fact, law]) missing [fact, law] ∧
      (chained {} missing [law, fact, law] ⟨50, 1⟩ .still).status = none ∧
      ∀ f, f ∈ (chained {} missing [law, fact, law] ⟨50, 1⟩ .still).search.facts ↔
        f ∈ (chained {} missing [fact, law] ⟨20, 1⟩ .still).search.facts := by
  have hsame : ∀ a b f : Formula, f ∈ [b, a, b] ↔ f ∈ [a, b] := by
    intro a b f
    simp only [List.mem_cons, List.not_mem_nil, or_false]
    tauto
  have hfree : ∀ c : Chained, c.status = none ∨ c.status = some .proved →
      ∀ status, c.status = some status → status.isResourceLimit = false := by
    rintro c (hc | hc) status hs <;> rw [hc] at hs <;> cases hs
    rfl
  intro fact law goal missing
  have hgoal : (chained {} goal [fact, law] ⟨20, 1⟩ .still).status = some .proved := by
    decide
  have hmissing : (chained {} missing [fact, law] ⟨20, 1⟩ .still).status = none := by
    decide
  have hagain : (chained {} missing [law, fact, law] ⟨50, 1⟩ .still).status = none := by
    decide
  obtain ⟨hfound, _⟩ := chained_leastClosure {} goal [fact, law] ⟨20, 1⟩ .still
    (hfree _ (Or.inr hgoal))
  obtain ⟨_, hclosure, horder⟩ := chained_leastClosure {} missing [fact, law] ⟨20, 1⟩ .still
    (hfree _ (Or.inl hmissing))
  obtain ⟨_, hfacts⟩ := horder [law, fact, law] ⟨50, 1⟩ .still (hsame fact law)
    (hfree _ (Or.inl hagain))
  refine ⟨hgoal, hfound.mp hgoal, hmissing, (hclosure ?_).2, hagain, hfacts hmissing⟩
  rw [hmissing]
  simp

end Engine

end Deontica
