import Deontica.Proofs.Engine.LeastClosure
import Deontica.Proofs.Engine.Limits
import Mathlib.Data.List.Induction

/-!
# Traces can be checked

The steps of a result are a proof that a reader can check line by line, with the axioms and the
earlier lines at hand (`Checkable`).  A line is justified by an instance of an active rule, or it is
the closure of a tableau, which comes last and uses everything known.

Facts and steps are kept side by side during a search: the facts are the distinct axioms followed by
the conclusions of the steps (`Reachable.facts_eq`), since a rule never concludes a fact.  So what a
rule takes from the facts is an axiom or an earlier conclusion, and what it adds is neither
(`Reachable.justified`).  A result has the steps of one search, and one more if a tableau closed
(`prove_trace`).
-/

namespace Deontica

/-- The name that the closure of a tableau has in a trace. -/
def closureName : String := "tableau_closure"

/-- No rule goes by the name of the closure of a tableau. -/
theorem Rule.name_ne_closureName : ∀ r ∈ catalogue, r.name ≠ closureName := by
  decide

/-- A step of a trace to which one was added is the added one or a step of the trace. -/
theorem Step.split_snoc {steps before after : List Step} {last d : Step}
    (h : steps ++ [last] = before ++ d :: after) :
    (steps = before ∧ last = d ∧ after = []) ∨ ∃ after', steps = before ++ d :: after' := by
  rcases List.eq_nil_or_concat after with rfl | ⟨after', x, rfl⟩
  · obtain ⟨hsteps, hlast⟩ := List.append_inj' h rfl
    exact Or.inl ⟨hsteps, List.singleton_inj.mp hlast, rfl⟩
  · rw [List.concat_eq_append, ← List.cons_append, ← List.append_assoc] at h
    exact Or.inr ⟨after', (List.append_inj' h rfl).1⟩

namespace Search

open Engine

/-! ### Facts and steps -/

/-- Adding facts to none leaves the distinct ones, in the order of their first occurrences. -/
theorem foldl_addFact_facts {s : Search} (hs : s.facts = []) (fs : List Formula) :
    (fs.foldl addFact s).facts = fs.eraseDups := by
  induction fs using List.reverseRecOn with
  | nil => simpa using hs
  | append_singleton fs f ih =>
    have hmem : f ∈ (fs.foldl addFact s).facts ↔ f ∈ fs := by
      rw [mem_foldl_addFact, hs]
      simp
    rw [List.foldl_append, List.eraseDups_append]
    show (if f ∈ (fs.foldl addFact s).facts then _ else _) = _
    by_cases hf : f ∈ fs
    · rw [if_pos (hmem.mpr hf), ih]
      simp [List.removeAll, hf]
    · rw [if_neg fun h => hf (hmem.mp h), ih]
      simp [List.removeAll, List.eraseDups_cons, hf]

/-- The step is justified: it is an instance of an active rule, from axioms and conclusions of the
steps before it to something that is neither. -/
structure Justified (logic : Option Logic) (goal : Formula) (axioms : List Formula)
    (before : List Step) (d : Step) : Prop where
  rule : ∃ r ∈ activeRules logic, r.name = d.rule ∧
    r.Instance (aims goal axioms) (constants goal axioms) d.premises d.conclusion
  premises : ∀ f ∈ d.premises, f ∈ axioms ∨ f ∈ before.map (·.conclusion)
  new : d.conclusion ∉ axioms ∧ d.conclusion ∉ before.map (·.conclusion)

namespace Reachable

variable {logic : Option Logic} {goal : Formula} {axioms : List Formula} {s : Search}

/-- **The facts are the distinct axioms, then the conclusions of the steps.** -/
theorem facts_eq (h : Reachable (activeRules logic) (Search.start goal axioms) s) :
    s.facts = axioms.eraseDups ++ s.steps.map (·.conclusion) := by
  induction h with
  | start =>
    rw [start_steps, start_eq, foldl_addFact_facts rfl]
    simp
  | @record s r d _ _ hd ih =>
    obtain ⟨_, _, _, hnew⟩ := Rule.apply_instance hd
    have hnew : d.conclusion ∉ s.facts := hnew
    show (if d.conclusion ∈ s.facts then s.facts else s.facts ++ [d.conclusion]) =
      axioms.eraseDups ++ (s.steps ++ [d]).map (·.conclusion)
    rw [if_neg hnew, ih, List.map_append, List.append_assoc]
    rfl

theorem mem_facts (h : Reachable (activeRules logic) (Search.start goal axioms) s) {f : Formula} :
    f ∈ s.facts ↔ f ∈ axioms ∨ f ∈ s.steps.map (·.conclusion) := by
  rw [h.facts_eq, List.mem_append, List.mem_eraseDups]

/-- **Every step of a search is justified** by what came before it. -/
theorem justified (h : Reachable (activeRules logic) (Search.start goal axioms) s) :
    ∀ before d after, s.steps = before ++ d :: after → Justified logic goal axioms before d := by
  induction h with
  | start =>
    intro before d after hsteps
    rw [start_steps] at hsteps
    simp at hsteps
  | @record s r d hs hr hd ih =>
    intro before d' after hsteps
    have hsteps : s.steps ++ [d] = before ++ d' :: after := hsteps
    -- the step is the one just taken or one of the earlier ones
    rcases Step.split_snoc hsteps with ⟨rfl, rfl, _⟩ | ⟨after', hsteps⟩
    · obtain ⟨hname, hinst, hprem, hnew⟩ := Rule.apply_instance hd
      rw [(scene_eq hs).1, (scene_eq hs).2] at hinst
      refine ⟨⟨r, hr, hname, hinst⟩, fun f hf => hs.mem_facts.mp (hprem f hf), ?_⟩
      rw [← not_or, ← hs.mem_facts]
      exact hnew
    · exact ih before d' after' hsteps

end Reachable

end Search

namespace Engine

open Search

/-! ### Results -/

/-- The step is the closure of a tableau after the given search. -/
structure ClosesAfter (s : Search) (d : Step) : Prop where
  rule : d.rule = closureName
  premises : d.premises = s.facts
  conclusion : d.conclusion = s.goal

section Prove

variable (config : EngineConfig) (goal : Formula) (axioms : List Formula) (budget : Budget)
  (watch : Watch)

/-- **Where a trace comes from.**  A result tells what one search has found.  If the goal is proved,
it is an axiom, the last conclusion of the search or the conclusion of a closed tableau; if it is not
proved, a limit was met or the search came to a fixpoint. -/
theorem prove_trace (hdeep : (goal :: axioms).find? (config.maxFormulaDepth < ·.depth) = none) :
    ∃ s, Reachable (activeRules (logicFor config goal axioms)) (start goal axioms) s ∧
      s.steps.length ≤ budget.maxSteps ∧
      s.facts.length ≤ max config.maxFacts (start goal axioms).facts.length ∧
      (prove config goal axioms budget watch).clash = s.clash ∧
      ((prove config goal axioms budget watch).steps = s.steps ∧
          (prove config goal axioms budget watch).status ≠ .proved ∧
          ((prove config goal axioms budget watch).status.isResourceLimit = true ∨
            derive (activeRules (logicFor config goal axioms)) s = none) ∨
        (prove config goal axioms budget watch).steps = s.steps ∧
          (prove config goal axioms budget watch).status = .proved ∧
          (goal ∈ axioms ∧ s.steps = [] ∨
            ∃ before d, s.steps = before ++ [d] ∧ d.conclusion = goal) ∨
        ∃ d, (prove config goal axioms budget watch).steps = s.steps ++ [d] ∧
          (prove config goal axioms budget watch).status = .proved ∧ ClosesAfter s d ∧
          goal ∉ s.facts ∧ derive (activeRules (logicFor config goal axioms)) s = none) := by
  rw [prove_eq_outcome hdeep]
  dsimp only
  unfold chained
  have hgoal := start_goal goal axioms
  have hsteps := start_steps goal axioms
  rcases forward_outcome (activeRules (logicFor config goal axioms)) config.maxFacts
      (watch.isOver budget.time) budget.maxSteps (start goal axioms) with
    ⟨hmem, heq⟩ | ⟨last, hlast, hmissing, hlen, houtcome, hcount⟩
  · rw [heq]
    refine ⟨start goal axioms, .start, by rw [hsteps]; exact Nat.zero_le _, le_max_right _ _, rfl,
      Or.inr (Or.inl ⟨rfl, rfl, Or.inl ⟨?_, hsteps⟩⟩)⟩
    rw [hgoal] at hmem
    exact mem_start.mp hmem
  · rw [hsteps] at hcount
    have hcount := Nat.le_of_add_right_le (hcount.trans (Nat.zero_add _)).le
    generalize forward _ _ _ _ _ = c at houtcome hcount ⊢
    cases houtcome with
    | stopped hlimit _ =>
      refine ⟨last, hlast, hcount, hlen, rfl, Or.inl ⟨rfl, ?_, Or.inl hlimit⟩⟩
      rintro rfl
      cases hlimit
    | goal hr hd hconc hfew =>
      refine ⟨_, .record hlast hr hd, hcount, ?_, rfl,
        Or.inr (Or.inl ⟨rfl, rfl, Or.inr ⟨_, _, rfl, ?_⟩⟩)⟩
      · exact ((length_addFact_le last _).trans hfew).trans (Nat.le_max_left _ _)
      · rw [hconc, hlast.goal_eq, hgoal]
    | fixpoint hnone =>
      refine ⟨last, hlast, hcount, hlen, ?_⟩
      rw [hlast.goal_eq, hgoal] at hmissing
      unfold outcome
      cases tableauFor config goal axioms with
      | none => exact ⟨rfl, Or.inl ⟨rfl, (by decide : Status.unknown ≠ .proved), Or.inr hnone⟩⟩
      | some t =>
        dsimp only
        generalize t.refute _ _ _ _ _ = verdict
        cases verdict with
        | closed branches worlds =>
          exact ⟨rfl, Or.inr (Or.inr ⟨_, rfl, rfl, ⟨rfl, rfl, rfl⟩, hmissing, hnone⟩)⟩
        | «open» worlds =>
          exact ⟨rfl, Or.inl ⟨rfl, (by decide : Status.disproved ≠ .proved), Or.inr hnone⟩⟩
        | incomplete =>
          exact ⟨rfl, Or.inl ⟨rfl, (by decide : Status.unknown ≠ .proved), Or.inr hnone⟩⟩
        | exhausted part =>
          have hne : exhaustionStatus part ≠ .proved := by cases part <;> decide
          exact ⟨rfl, Or.inl ⟨rfl, hne, Or.inr hnone⟩⟩

end Prove

/-- The conclusions that rules have contributed to a result. -/
def derived (r : Result) : List Formula :=
  (r.steps.filter (·.rule ≠ closureName)).map (·.conclusion)

/-- The trace of the result can be checked line by line.  In each clause a step `d` of the trace
stands between the steps `before` and `after` it. -/
structure Checkable (config : EngineConfig) (goal : Formula) (axioms : List Formula)
    (budget : Budget) (r : Result) : Prop where
  /-- A step that is not the closure of a tableau is an instance of the active rule it names. -/
  rule : ∀ before d after, r.steps = before ++ d :: after → d.rule ≠ closureName →
    ∃ rule ∈ activeRules r.logic, rule.name = d.rule ∧
      rule.Instance (aims goal axioms) (constants goal axioms) d.premises d.conclusion
  /-- The closure of a tableau ends a proof, and uses the distinct axioms and all earlier
  conclusions, in order. -/
  closure : ∀ before d after, r.steps = before ++ d :: after → d.rule = closureName →
    after = [] ∧ r.status = .proved ∧ d.conclusion = goal ∧
      d.premises = axioms.eraseDups ++ before.map (·.conclusion)
  /-- A premise is an axiom or an earlier conclusion. -/
  premises : ∀ before d after, r.steps = before ++ d :: after →
    ∀ f ∈ d.premises, f ∈ axioms ∨ f ∈ before.map (·.conclusion)
  /-- A conclusion is neither an axiom nor an earlier conclusion. -/
  new : ∀ before d after, r.steps = before ++ d :: after →
    d.conclusion ∉ axioms ∧ d.conclusion ∉ before.map (·.conclusion)
  /-- A goal that is proved is an axiom, and then there is no step, or it is the conclusion of the
  last step and of no other. -/
  proved : r.status = .proved → goal ∈ axioms ∧ r.steps = [] ∨
    ∃ before d, r.steps = before ++ [d] ∧ d.conclusion = goal ∧ goal ∉ before.map (·.conclusion)
  /-- The rules have been applied within the limits of steps and of facts. -/
  limits : (derived r).length ≤ budget.maxSteps ∧
    axioms.eraseDups.length + (derived r).length ≤ max config.maxFacts axioms.eraseDups.length

section Checkable

variable {config : EngineConfig} {goal : Formula} {axioms : List Formula} {budget : Budget}
  {s : Search} {r : Result}

/-- No step of a search is the closure of a tableau. -/
theorem rule_ne_closureName {logic : Option Logic}
    (hs : Reachable (activeRules logic) (start goal axioms) s) {d : Step} (hd : d ∈ s.steps) :
    d.rule ≠ closureName := by
  obtain ⟨before, after, hsteps⟩ := List.mem_iff_append.mp hd
  obtain ⟨rule, hrule, hname, _⟩ := (hs.justified before d after hsteps).rule
  rw [← hname]
  exact Rule.name_ne_closureName rule (List.mem_of_mem_filter hrule)

theorem filter_steps {logic : Option Logic}
    (hs : Reachable (activeRules logic) (start goal axioms) s) :
    s.steps.filter (·.rule ≠ closureName) = s.steps := by
  rw [List.filter_eq_self]
  intro d hd
  exact decide_eq_true (rule_ne_closureName hs hd)

/-- The conclusions of the rules are those of the search behind the result. -/
theorem derived_eq {logic : Option Logic}
    (hs : Reachable (activeRules logic) (start goal axioms) s)
    (h : r.steps = s.steps ∨ ∃ d, r.steps = s.steps ++ [d] ∧ d.rule = closureName) :
    derived r = s.steps.map (·.conclusion) := by
  unfold derived
  rcases h with h | ⟨d, h, hd⟩
  · rw [h, filter_steps hs]
  · rw [h, List.filter_append, filter_steps hs]
    simp [hd]

/-- A search that keeps to the limits keeps the conclusions of its rules within them. -/
theorem limits_of_derived_eq {logic : Option Logic}
    (hs : Reachable (activeRules logic) (start goal axioms) s)
    (hsteps : s.steps.length ≤ budget.maxSteps)
    (hfacts : s.facts.length ≤ max config.maxFacts (start goal axioms).facts.length)
    (h : derived r = s.steps.map (·.conclusion)) :
    (derived r).length ≤ budget.maxSteps ∧
      axioms.eraseDups.length + (derived r).length ≤
        max config.maxFacts axioms.eraseDups.length := by
  have hstart : (start goal axioms).facts = axioms.eraseDups := foldl_addFact_facts rfl axioms
  rw [hs.facts_eq, hstart, List.length_append, List.length_map] at hfacts
  rw [h, List.length_map]
  exact ⟨hsteps, hfacts⟩

/-- The trace of a search can be checked, if what it says of the goal is right. -/
theorem checkable_of_steps_eq (hs : Reachable (activeRules r.logic) (start goal axioms) s)
    (hsteps : r.steps = s.steps)
    (hproved : r.status = .proved → goal ∈ axioms ∧ s.steps = [] ∨
      ∃ before d, s.steps = before ++ [d] ∧ d.conclusion = goal)
    (hlimits : (derived r).length ≤ budget.maxSteps ∧
      axioms.eraseDups.length + (derived r).length ≤
        max config.maxFacts axioms.eraseDups.length) :
    Checkable config goal axioms budget r where
  rule before d after h _ := (hs.justified before d after (hsteps ▸ h)).rule
  closure before d after h hname := by
    have hmem : d ∈ s.steps := by
      rw [← hsteps, h]
      exact List.mem_append_right _ List.mem_cons_self
    exact absurd hname (rule_ne_closureName hs hmem)
  premises before d after h := (hs.justified before d after (hsteps ▸ h)).premises
  new before d after h := (hs.justified before d after (hsteps ▸ h)).new
  proved hstatus := by
    rw [hsteps]
    rcases hproved hstatus with hax | ⟨before, d, hlast, rfl⟩
    · exact Or.inl hax
    · exact Or.inr ⟨before, d, hlast, rfl, (hs.justified before d [] hlast).new.2⟩
  limits := hlimits

/-- The trace of a search that a closed tableau follows can be checked. -/
theorem checkable_of_closure (hs : Reachable (activeRules r.logic) (start goal axioms) s)
    {last : Step} (hsteps : r.steps = s.steps ++ [last]) (hstatus : r.status = .proved)
    (hlast : ClosesAfter s last) (hgoal : goal ∉ s.facts)
    (hlimits : (derived r).length ≤ budget.maxSteps ∧
      axioms.eraseDups.length + (derived r).length ≤
        max config.maxFacts axioms.eraseDups.length) :
    Checkable config goal axioms budget r := by
  have hconc : last.conclusion = goal := by
    rw [hlast.conclusion, hs.goal_eq, start_goal]
  rw [hs.mem_facts, not_or] at hgoal
  constructor
  · intro before d after h hname
    rcases Step.split_snoc (hsteps.symm.trans h) with ⟨rfl, rfl, rfl⟩ | ⟨after', h⟩
    · exact absurd hlast.rule hname
    · exact (hs.justified before d after' h).rule
  · intro before d after h hname
    rcases Step.split_snoc (hsteps.symm.trans h) with ⟨rfl, rfl, rfl⟩ | ⟨after', h⟩
    · exact ⟨rfl, hstatus, hconc, hlast.premises.trans hs.facts_eq⟩
    · have hmem : d ∈ s.steps := h ▸ List.mem_append_right _ List.mem_cons_self
      exact absurd hname (rule_ne_closureName hs hmem)
  · intro before d after h f hf
    rcases Step.split_snoc (hsteps.symm.trans h) with ⟨rfl, rfl, rfl⟩ | ⟨after', h⟩
    · rw [hlast.premises] at hf
      exact hs.mem_facts.mp hf
    · exact (hs.justified before d after' h).premises f hf
  · intro before d after h
    rcases Step.split_snoc (hsteps.symm.trans h) with ⟨rfl, rfl, rfl⟩ | ⟨after', h⟩
    · rw [hconc]
      exact hgoal
    · exact (hs.justified before d after' h).new
  · exact fun _ => Or.inr ⟨s.steps, last, hsteps, hconc, hgoal.2⟩
  · exact hlimits

end Checkable

/-- **Every trace can be checked**, whatever the problem, the settings, the budget and the watch. -/
theorem checkable_prove (config : EngineConfig) (goal : Formula) (axioms : List Formula)
    (budget : Budget) (watch : Watch) :
    Checkable config goal axioms budget (prove config goal axioms budget watch) := by
  cases hdeep : (goal :: axioms).find? (config.maxFormulaDepth < ·.depth) with
  | some f =>
    -- a problem that is too deep is turned down without a step
    have hprove : (prove config goal axioms budget watch).steps = [] ∧
        (prove config goal axioms budget watch).status = .depthExceeded := by
      unfold prove
      rw [hdeep]
      exact ⟨rfl, rfl⟩
    have hs : Reachable (activeRules (prove config goal axioms budget watch).logic)
        (start goal axioms) (start goal axioms) := .start
    have heq : (prove config goal axioms budget watch).steps = (start goal axioms).steps :=
      hprove.1.trans (start_steps goal axioms).symm
    refine checkable_of_steps_eq hs heq (fun h => ?_) ?_
    · rw [hprove.2] at h
      cases h
    · refine limits_of_derived_eq hs ?_ (le_max_right _ _) (derived_eq hs (Or.inl heq))
      rw [start_steps]
      exact Nat.zero_le _
  | none =>
    have hlogic := (prove_eq config goal axioms budget watch hdeep).1
    obtain ⟨s, hs, hsteps, hfacts, _, hcases⟩ := prove_trace config goal axioms budget watch hdeep
    rw [← hlogic] at hs
    rcases hcases with ⟨heq, hne, _⟩ | ⟨heq, _, hgoal⟩ | ⟨last, heq, hproved, hlast, hgoal, _⟩
    · refine checkable_of_steps_eq hs heq (fun h => absurd h hne) ?_
      exact limits_of_derived_eq hs hsteps hfacts (derived_eq hs (Or.inl heq))
    · refine checkable_of_steps_eq hs heq (fun _ => hgoal) ?_
      exact limits_of_derived_eq hs hsteps hfacts (derived_eq hs (Or.inl heq))
    · refine checkable_of_closure hs heq hproved hlast hgoal ?_
      exact limits_of_derived_eq hs hsteps hfacts
        (derived_eq hs (Or.inr ⟨last, heq, hlast.rule⟩))

end Engine

end Deontica
