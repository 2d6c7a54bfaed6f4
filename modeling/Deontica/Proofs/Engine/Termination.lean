import Deontica.Proofs.Engine.Trace
import Deontica.Proofs.Rule.WeightedDepth
import Deontica.Proofs.Tableau.Termination

/-!
# Saturation terminates

Forward chaining stays within the vocabulary and the weighted depth of the problem
(`Reachable.facts_within`) and never finds a fact twice, so there is a number of facts that no search
exceeds.  With more steps and facts allowed than that, chaining ends with the goal or at a fixpoint
(`chained_of_bound`).  The facts that the tableau is given then are within the same bounds, whichever
they are, and so the tableau comes to an end after a number of steps that depends on the problem and
on the limit of worlds only (`exists_bound_saturated`).
-/

namespace Deontica

theorem Formula.mem_subformulas_self (f : Formula) : f ∈ f.subformulas := by
  cases f <;> exact List.mem_cons_self

namespace Search

open Engine

/-! ### How many facts there can be -/

theorem nodup_addFact {s : Search} (h : s.facts.Nodup) (f : Formula) :
    (s.addFact f).facts.Nodup := by
  show (if f ∈ s.facts then s.facts else s.facts ++ [f]).Nodup
  split_ifs with hf
  · exact h
  · rw [← List.concat_eq_append]
    exact List.Nodup.concat hf h

theorem nodup_foldl_addFact (fs : List Formula) {s : Search} (h : s.facts.Nodup) :
    (fs.foldl addFact s).facts.Nodup := by
  induction fs generalizing s with
  | nil => exact h
  | cons f fs ih => exact ih (nodup_addFact h f)

namespace Reachable

variable {logic : Option Logic} {goal : Formula} {axioms : List Formula} {s : Search}

/-- No fact is found twice. -/
theorem nodup_facts (h : Reachable (activeRules logic) (Search.start goal axioms) s) :
    s.facts.Nodup := by
  induction h with
  | start => exact nodup_foldl_addFact axioms List.nodup_nil
  | record _ _ _ ih => exact nodup_addFact ih _

/-- **Facts keep to the vocabulary and the weighted depth of the problem.** -/
theorem facts_within {S C : Set String} {k n : Nat}
    (hs : Reachable (activeRules logic) (Search.start goal axioms) s)
    (h : ∀ f ∈ aims goal axioms, f.Over S C k ∧ f.weightedDepth ≤ n) :
    ∀ f ∈ s.facts, f.Over S C k ∧ f.weightedDepth ≤ n := by
  refine hs.forall_facts (P := fun f => f.Over S C k ∧ f.weightedDepth ≤ n) ?_ ?_
  · intro f hf
    exact h f ⟨f, List.mem_cons_of_mem _ (mem_start.mp hf), f.mem_subformulas_self⟩
  · intro s r d hs hr hd hprem
    obtain ⟨_, hinst, _⟩ := Rule.apply_instance hd
    rw [(scene_eq hs).1, (scene_eq hs).2] at hinst
    refine hinst.within (List.mem_of_mem_filter hr) h ?_ hprem
    rintro t ⟨g, hg, c, hc, rfl⟩
    exact ⟨c, (h g ⟨g, hg, g.mem_subformulas_self⟩).1.constants c hc, rfl⟩

theorem length_steps_le (hs : Reachable (activeRules logic) (Search.start goal axioms) s) :
    s.steps.length ≤ s.facts.length := by
  rw [hs.facts_eq, List.length_append, List.length_map]
  exact Nat.le_add_left _ _

end Reachable

end Search

namespace Engine

open Search

/-- The subformulas of a problem are over some finite vocabulary and keep to some weighted depth. -/
theorem exists_within (goal : Formula) (axioms : List Formula) :
    ∃ (S C : Set String) (k n : Nat), S.Finite ∧ C.Finite ∧
      ∀ f ∈ aims goal axioms, f.Over S C k ∧ f.weightedDepth ≤ n := by
  have hmem : ∀ f ∈ aims goal axioms, f ∈ (goal :: axioms).flatMap (·.subformulas) :=
    fun f hf => List.mem_flatMap.mpr hf
  obtain ⟨S, C, k, hS, hC, hover⟩ :=
    Formula.exists_over ((goal :: axioms).flatMap (·.subformulas))
  obtain ⟨n, hn⟩ := ((List.finite_toSet ((goal :: axioms).flatMap (·.subformulas))).image
    Formula.weightedDepth).bddAbove
  exact ⟨S, C, k, n, hS, hC, fun f hf => ⟨hover f (hmem f hf), hn ⟨f, hmem f hf, rfl⟩⟩⟩

/-- **Chaining that has room enough** ends with the goal or at a fixpoint, and leaves all but
`bound` of its steps. -/
theorem chained_of_bound {config : EngineConfig} {goal : Formula} {axioms : List Formula}
    {budget : Budget} {watch : Watch} {bound : Nat}
    (hbound : ∀ s, Reachable (activeRules (logicFor config goal axioms)) (start goal axioms) s →
      s.facts.length ≤ bound)
    (hsteps : bound < budget.maxSteps) (hfacts : bound < config.maxFacts)
    (hover : ∀ n, watch.isOver budget.time n = false) :
    Reachable (activeRules (logicFor config goal axioms)) (start goal axioms)
        (chained config goal axioms budget watch).search ∧
      budget.maxSteps ≤ (chained config goal axioms budget watch).steps + bound ∧
      ((chained config goal axioms budget watch).status = some .proved ∨
        (chained config goal axioms budget watch).status = none ∧
          derive (activeRules (logicFor config goal axioms))
            (chained config goal axioms budget watch).search = none) := by
  have hzero := start_steps goal axioms
  unfold chained
  rcases forward_outcome (activeRules (logicFor config goal axioms)) config.maxFacts
      (watch.isOver budget.time) budget.maxSteps (start goal axioms) with
    ⟨_, heq⟩ | ⟨last, hlast, _, _, houtcome, hcount⟩
  · rw [heq]
    exact ⟨.start, Nat.le_add_right _ _, Or.inl rfl⟩
  · generalize forward _ _ _ _ _ = c at houtcome hcount ⊢
    rw [hzero, List.length_nil, Nat.zero_add] at hcount
    -- every step has given a fact, so most steps are left
    have hleft : Reachable (activeRules (logicFor config goal axioms)) (start goal axioms)
        c.search → budget.maxSteps ≤ c.steps + bound := by
      intro hs
      have := hs.length_steps_le
      have := hbound _ hs
      omega
    cases houtcome with
    | fixpoint hnone => exact ⟨hlast, hleft hlast, Or.inr ⟨rfl, hnone⟩⟩
    | goal hr hd _ _ =>
      have hs := Reachable.record hlast hr hd
      exact ⟨hs, hleft hs, Or.inl rfl⟩
    | stopped _ hwhy =>
      exfalso
      have hlen := hbound _ hlast
      have hleft := hleft hlast
      rcases hwhy with ⟨n, hn⟩ | hmany | hnone
      · rw [hover] at hn
        cases hn
      · omega
      · dsimp only at hleft
        omega

/-! ### Results -/

/-- The attempt came to an end by itself, after at most `bound` steps of either kind. -/
structure Saturated (config : EngineConfig) (goal : Formula) (axioms : List Formula)
    (budget : Budget) (watch : Watch) (bound : Nat) : Prop where
  /-- The problem is decided or left open, but not for lack of steps, facts or time. -/
  status : (prove config goal axioms budget watch).status = .proved ∨
    (prove config goal axioms budget watch).status = .disproved ∨
    (prove config goal axioms budget watch).status = .unknown
  /-- Chaining ends with the goal or at a fixpoint. -/
  chaining : (chained config goal axioms budget watch).status = some .proved ∨
    (chained config goal axioms budget watch).status = none ∧
      derive (activeRules (logicFor config goal axioms))
        (chained config goal axioms budget watch).search = none
  steps : (chained config goal axioms budget watch).search.steps.length ≤ bound
  /-- No branch of the tableau for the facts can be developed any further than that. -/
  branches : ∀ t, tableauFor config goal axioms = some t → ∀ path : List Branch,
    (t.root (chained config goal axioms budget watch).search.facts goal :: path).IsChain
      (fun b b' => b' ∈ b.step.results) → path.length ≤ bound

/-- A verdict other than exhaustion is no matter of limits. -/
theorem verdictStatus_cases {v : Verdict} (h : ∀ part, v ≠ .exhausted part) :
    verdictStatus v = .proved ∨ verdictStatus v = .disproved ∨ verdictStatus v = .unknown := by
  cases v with
  | closed branches worlds => exact Or.inl rfl
  | «open» worlds => exact Or.inr (Or.inl rfl)
  | incomplete => exact Or.inr (Or.inr rfl)
  | exhausted part => exact absurd rfl (h part)

section Result

variable {config : EngineConfig} {goal : Formula} {axioms : List Formula} {budget : Budget}
  {watch : Watch}

theorem maxWorlds_of_tableauFor {t : Tableau} (h : tableauFor config goal axioms = some t) :
    t.maxWorlds = config.maxWorlds := by
  obtain ⟨logic, _, rfl⟩ := Option.map_eq_some_iff.mp h
  rfl

/-- Where chaining and the tableau are not cut short, the result is not either. -/
theorem status_cases (hdepth : ∀ f ∈ goal :: axioms, f.depth ≤ config.maxFormulaDepth)
    (hchained : (chained config goal axioms budget watch).status = some .proved ∨
      (chained config goal axioms budget watch).status = none)
    (htableau : ∀ t, tableauFor config goal axioms = some t → ∀ part,
      t.refute (chained config goal axioms budget watch).search.facts goal
        (watch.isOver budget.time) (chained config goal axioms budget watch).steps
        (chained config goal axioms budget watch).looks ≠ .exhausted part) :
    (prove config goal axioms budget watch).status = .proved ∨
      (prove config goal axioms budget watch).status = .disproved ∨
      (prove config goal axioms budget watch).status = .unknown := by
  rw [(prove_eq config goal axioms budget watch (find?_eq_none_iff.mpr hdepth)).2]
  unfold tableauFor at htableau
  rcases hchained with hproved | hnone
  · rw [hproved]
    exact Or.inl rfl
  · rw [hnone]
    cases hlogic : logicFor config goal axioms with
    | none => exact Or.inr (Or.inr rfl)
    | some logic =>
      rw [hlogic] at htableau
      exact verdictStatus_cases (htableau _ rfl)

end Result

/-- **Saturation terminates.**  For every problem and every limit of worlds there is a bound such
that with as many steps and facts allowed, the depth of the problem allowed too and no end of time,
every attempt comes to an end by itself, whatever the limit of branches and the logic. -/
theorem exists_bound_saturated (goal : Formula) (axioms : List Formula) (maxWorlds : Nat) :
    ∃ bound, ∀ (config : EngineConfig) (budget : Budget) (watch : Watch),
      config.maxWorlds = maxWorlds → bound ≤ budget.maxSteps → bound ≤ config.maxFacts →
      (∀ f ∈ goal :: axioms, f.depth ≤ config.maxFormulaDepth) →
      (∀ n, watch.isOver budget.time n = false) →
      Saturated config goal axioms budget watch bound := by
  obtain ⟨S, C, k, n, hS, hC, haims⟩ := exists_within goal axioms
  -- the facts that there can be, how many of them, and how much they weigh
  have hV : {f : Formula | f.Over S C k ∧ f.weightedDepth ≤ n}.Finite :=
    (Formula.finite_over hS hC k n).subset fun f hf =>
      ⟨hf.1, f.depth_le_weightedDepth.trans hf.2⟩
  obtain ⟨few, hfew⟩ := exists_length_le hV
  obtain ⟨heavy, hheavy⟩ := (hV.image Formula.weight).bddAbove
  obtain ⟨toil, htoil⟩ := Tableau.exists_bound hS hC k (heavy + 1) maxWorlds
  refine ⟨few + 1 + toil, ?_⟩
  rintro config budget watch rfl hsteps hfacts hdepth hover
  have hbound : ∀ s, Reachable (activeRules (logicFor config goal axioms)) (start goal axioms) s →
      s.facts.length ≤ few := fun s hs => hfew s.facts hs.nodup_facts (hs.facts_within haims)
  obtain ⟨hs, hleft, hend⟩ := chained_of_bound hbound (by omega) (by omega) hover
  -- whatever the facts are that chaining ends with, they suit the tableau
  have hproblem : ∀ f ∈ (chained config goal axioms budget watch).search.facts ++ [goal.negation],
      f.Over S C k ∧ f.weight ≤ heavy + 1 := by
    intro f hf
    rcases List.mem_append.mp hf with hf | hf
    · have hf := hs.facts_within haims f hf
      exact ⟨hf.1, Nat.le_succ_of_le (hheavy ⟨f, hf, rfl⟩)⟩
    · have hgoal := haims goal ⟨goal, List.mem_cons_self, goal.mem_subformulas_self⟩
      rw [List.mem_singleton.mp hf, Formula.over_negation]
      exact ⟨hgoal.1, goal.weight_negation_le.trans (Nat.succ_le_succ (hheavy ⟨goal, hgoal, rfl⟩))⟩
  constructor
  · refine status_cases hdepth (hend.imp id And.left) fun t ht part => ?_
    obtain ⟨hrefute, _⟩ := htoil t _ goal (maxWorlds_of_tableauFor ht) hproblem
    exact hrefute _ _ _ part hover (by omega)
  · exact hend
  · have := hs.length_steps_le
    have := hbound _ hs
    omega
  · intro t ht path hpath
    obtain ⟨_, hpaths⟩ := htoil t _ goal (maxWorlds_of_tableauFor ht) hproblem
    have := hpaths path hpath
    omega

/-- `∀x. ∃y. R(x, y)` asks for a new constant with every constant, and `□◊P` for a new world with
every world.  Still there is a bound. -/
theorem exists_bound_saturated_endless :
    let related : Formula := .all "x" (.exists "y" (.pred "R" [.var "x", .var "y"]))
    let recurring : Formula := .always (.eventually (.pred "P" []))
    ∃ bound, Saturated { maxFacts := bound } (.pred "Q" []) [related, recurring] ⟨bound, 1⟩ .still
      bound := by
  intro related recurring
  obtain ⟨bound, h⟩ := exists_bound_saturated (.pred "Q" []) [related, recurring] 64
  have hdepth : ∀ f ∈ (.pred "Q" []) :: [related, recurring], f.depth ≤ 256 := by decide
  exact ⟨bound, h { maxFacts := bound } ⟨bound, 1⟩ .still rfl le_rfl le_rfl hdepth fun _ => rfl⟩

end Engine

end Deontica
