import Deontica.Proofs.Engine
import Deontica.Prover.Native

/-!
# Limits and answers

Steps, facts, formula depth and time can only cut an attempt short.  An attempt that no limit cuts
short takes the same way as one with no limits at all, so

* a verdict of the tableau other than exhaustion stays with more steps and time (`work_relax`);
* so does the end of forward chaining, if it is the goal or a fixpoint (`chain_relax`);
* so does a whole result that may be kept, up to the time it took (`prove_relax`).

Two attempts under different limits are both compared with one under the wider of the limits, which
is how results that may be kept are seen to agree (`prove_eq_of_isCacheable`).  The numbers of
worlds and branches are not such limits: where one of them is reached, the answer is that nothing is
known.
-/

namespace Deontica

/-! ### The tableau -/

namespace Tableau

/-- A run of the tableau that is not cut short goes the same way with more steps and without a
watch. -/
theorem work_relax (t : Tableau) {isOver : Nat → Bool} {steps looks : Nat} {stack : List Branch}
    {tally : Tally} (h : ∀ part, t.work isOver steps looks stack tally ≠ .exhausted part)
    (more looks' : Nat) :
    t.work (fun _ => false) (more + steps) looks' stack tally =
      t.work isOver steps looks stack tally := by
  induction steps generalizing looks looks' stack tally with
  | zero =>
    rw [work.eq_def] at h
    rw [work.eq_def, work.eq_def t isOver]
    generalize settle stack tally = settled at h ⊢
    obtain ⟨left, tally'⟩ := settled
    cases left with
    | nil => rfl
    | cons b rest =>
      -- a branch that waits needs a step
      cases hover : isOver looks with
      | true => exact absurd (by simp [hover]) (h .time)
      | false => exact absurd (by simp [hover]) (h .steps)
  | succ steps ih =>
    rw [work.eq_def] at h
    rw [← Nat.add_assoc, work.eq_def, work.eq_def t isOver]
    generalize settle stack tally = settled at h ⊢
    obtain ⟨left, tally'⟩ := settled
    cases left with
    | nil => rfl
    | cons b rest =>
      cases hover : isOver looks with
      | true => exact absurd (by simp [hover]) (h .time)
      | false =>
        simp only [hover, Bool.false_eq_true, if_false] at h ⊢
        cases hstep : b.step with
        | progress b' =>
          simp only [hstep] at h ⊢
          exact ih h _
        | split b' alternatives =>
          simp only [hstep] at h ⊢
          split_ifs at h ⊢ with hmany
          · exact ih h _
          · exact ih h _
        | complete b' =>
          simp only [hstep] at h ⊢
          split_ifs at h ⊢ with happrox
          · exact ih h _
          · rfl

end Tableau

namespace Engine

/-! ### Forward chaining -/

/-- A round that is not stopped finds the same without a watch and with more facts allowed. -/
theorem round_relax {rules : List Rule} {maxFacts maxFacts' : Nat} {isOver : Nat → Bool}
    {looks : Nat} {s : Search} (h : ∀ status, round rules maxFacts isOver looks s ≠ .stop status)
    (hfacts : maxFacts ≤ maxFacts') (looks' : Nat) :
    round rules maxFacts' (fun _ => false) looks' s = round rules maxFacts isOver looks s := by
  unfold round at h ⊢
  cases hover : isOver looks with
  | true => exact absurd (by simp [hover]) (h .timeout)
  | false =>
    simp only [hover, Bool.false_eq_true, if_false] at h ⊢
    by_cases hmax : maxFacts ≤ s.facts.length
    · exact absurd (by simp [hmax]) (h .depthExceeded)
    · rw [if_neg hmax] at h ⊢
      rw [if_neg (by omega)]
      cases hd : derive rules s with
      | none => rfl
      | some d =>
        simp only [hd] at h ⊢
        split_ifs at h ⊢ with hover'
        · exact absurd rfl (h .timeout)
        · rfl

/-- What stops a round is nothing that may be kept. -/
theorem isCacheable_of_round_stop {rules : List Rule} {maxFacts : Nat} {isOver : Nat → Bool}
    {looks : Nat} {s : Search} {status : Status}
    (h : round rules maxFacts isOver looks s = .stop status) : status.isCacheable = false := by
  unfold round at h
  split at h
  · cases h; rfl
  split at h
  · cases h; rfl
  split at h
  · cases h
  split at h
  · cases h; rfl
  · cases h

/-- Forward chaining that is not cut short takes the same steps without a watch and with more steps
and facts allowed, and then it has that many more steps left. -/
theorem chain_relax {rules : List Rule} {maxFacts maxFacts' : Nat} {isOver : Nat → Bool}
    {steps looks : Nat} {s : Search}
    (h : ∀ status, (chain rules maxFacts isOver steps looks s).status = some status →
      status.isCacheable = true)
    (hfacts : maxFacts ≤ maxFacts') (more looks' : Nat) :
    ∃ looks'', chain rules maxFacts' (fun _ => false) (more + steps) looks' s =
      { chain rules maxFacts isOver steps looks s with
        looks := looks''
        steps := more + (chain rules maxFacts isOver steps looks s).steps } := by
  induction steps generalizing looks looks' s with
  | zero =>
    rw [chain.eq_def] at h
    rw [chain.eq_def, chain.eq_def rules maxFacts isOver]
    cases hround : round rules maxFacts isOver looks s with
    | stop status =>
      rw [hround] at h
      exact absurd (h status rfl) (by rw [isCacheable_of_round_stop hround]; exact Bool.noConfusion)
    | fixpoint =>
      have hgoes : ∀ status, round rules maxFacts isOver looks s ≠ .stop status := by simp [hround]
      rw [round_relax hgoes hfacts, hround]
      exact ⟨_, rfl⟩
    | derived d =>
      rw [hround] at h
      exact absurd (h .depthExceeded rfl) Bool.noConfusion
  | succ steps ih =>
    rw [chain.eq_def] at h
    rw [← Nat.add_assoc, chain.eq_def,
      chain.eq_def rules maxFacts isOver]
    cases hround : round rules maxFacts isOver looks s with
    | stop status =>
      rw [hround] at h
      exact absurd (h status rfl) (by rw [isCacheable_of_round_stop hround]; exact Bool.noConfusion)
    | fixpoint =>
      have hgoes : ∀ status, round rules maxFacts isOver looks s ≠ .stop status := by simp [hround]
      rw [round_relax hgoes hfacts, hround]
      exact ⟨_, rfl⟩
    | derived d =>
      have hgoes : ∀ status, round rules maxFacts isOver looks s ≠ .stop status := by simp [hround]
      rw [round_relax hgoes hfacts, hround]
      simp only [hround] at h ⊢
      split_ifs at h ⊢ with hgoal
      · exact ⟨_, rfl⟩
      · exact ih h _

theorem forward_relax {rules : List Rule} {maxFacts maxFacts' : Nat} {isOver : Nat → Bool}
    {steps : Nat} {s : Search}
    (h : ∀ status, (forward rules maxFacts isOver steps s).status = some status →
      status.isCacheable = true)
    (hfacts : maxFacts ≤ maxFacts') (more : Nat) :
    ∃ looks, forward rules maxFacts' (fun _ => false) (more + steps) s =
      { forward rules maxFacts isOver steps s with
        looks := looks
        steps := more + (forward rules maxFacts isOver steps s).steps } := by
  unfold forward at h ⊢
  split_ifs at h ⊢ with hgoal
  · exact ⟨0, rfl⟩
  · exact chain_relax h hfacts more 0

/-! ### Results -/

/-- A verdict leads to a result that may be kept exactly if it is no exhaustion. -/
theorem isCacheable_verdictStatus {v : Verdict} :
    (verdictStatus v).isCacheable = true ↔ ∀ part, v ≠ .exhausted part := by
  cases v with
  | closed branches worlds => exact ⟨fun _ => nofun, fun _ => rfl⟩
  | «open» worlds => exact ⟨fun _ => nofun, fun _ => rfl⟩
  | incomplete => exact ⟨fun _ => nofun, fun _ => rfl⟩
  | exhausted part =>
    refine ⟨fun h => ?_, fun h => absurd rfl (h part)⟩
    cases part <;> cases h

/-- What comes of forward chaining that ended as `c`: at a fixpoint a tableau is tried if there is a
logic for it. -/
def outcome (tableau : Option Tableau) (goal : Formula) (isOver : Nat → Bool) (c : Chained) :
    Search × Result :=
  match c.status, tableau with
  | some status, _ => (c.search, .plain status nativeName)
  | none, some t =>
    conclude t.logic c.search (t.refute c.search.facts goal isOver c.steps c.looks)
  | none, none =>
    (c.search, .noted .unknown nativeName "forward chaining reached a fixpoint without the goal")

/-- The tableau for a problem, if a logic is needed. -/
def tableauFor (config : EngineConfig) (goal : Formula) (axioms : List Formula) : Option Tableau :=
  (logicFor config goal axioms).map (⟨·, config.maxWorlds, config.maxBranches⟩)

/-- Results that agree at some time each differ in nothing but the time. -/
theorem Result.eq_of_elapsed {r r' : Result} {d d' : Duration}
    (h : { r with elapsed := d } = { r' with elapsed := d' }) :
    r = { r' with elapsed := r.elapsed } := by
  cases r
  cases r'
  injection h
  subst_vars
  rfl

section Relax

variable {config config' : EngineConfig} {goal : Formula} {axioms : List Formula}
  {budget budget' : Budget} {watch watch' : Watch}

theorem prove_eq_outcome (h : (goal :: axioms).find? (config.maxFormulaDepth < ·.depth) = none) :
    prove config goal axioms budget watch =
      let o := outcome (tableauFor config goal axioms) goal (watch.isOver budget.time)
        (chained config goal axioms budget watch)
      { o.2 with
        steps := o.1.steps
        logic := logicFor config goal axioms
        clash := o.1.clash
        elapsed := .ofMillis (watch.elapsed (chained config goal axioms budget watch).looks) } := by
  unfold prove outcome tableauFor
  rw [h]
  dsimp only
  rw [← chained]
  cases (chained config goal axioms budget watch).status with
  | some status => rfl
  | none =>
    cases logicFor config goal axioms with
    | none => rfl
    | some logic => rfl

/-- A problem with a result that may be kept is not too deep. -/
theorem find?_eq_none_of_isCacheable
    (h : (prove config goal axioms budget watch).status.isCacheable = true) :
    (goal :: axioms).find? (config.maxFormulaDepth < ·.depth) = none := by
  cases hdeep : (goal :: axioms).find? (config.maxFormulaDepth < ·.depth) with
  | none => rfl
  | some f =>
    unfold prove at h
    rw [hdeep] at h
    cases h

theorem isCacheable_of_outcome {tableau : Option Tableau} {isOver : Nat → Bool} {c : Chained}
    (h : (outcome tableau goal isOver c).2.status.isCacheable = true) :
    ∀ status, c.status = some status → status.isCacheable = true := by
  intro status hs
  unfold outcome at h
  rw [hs] at h
  exact h

/-- What comes of forward chaining does not change with more steps for the tableau. -/
theorem outcome_relax {tableau : Option Tableau} {isOver : Nat → Bool} {c : Chained}
    (h : (outcome tableau goal isOver c).2.status.isCacheable = true) (more looks : Nat) :
    outcome tableau goal (fun _ => false) { c with looks := looks, steps := more + c.steps } =
      outcome tableau goal isOver c := by
  unfold outcome at h ⊢
  cases hs : c.status with
  | some status => rfl
  | none =>
    cases tableau with
    | none => rfl
    | some t =>
      simp only [hs, conclude_status] at h ⊢
      rw [Tableau.refute, Tableau.work_relax t (isCacheable_verdictStatus.mp h), ← Tableau.refute]

/-- **A result that may be kept stays** when limits are widened and the watch is taken away, up to
the time that the attempt took. -/
theorem prove_relax (h : (prove config goal axioms budget watch).status.isCacheable = true)
    (hworlds : config.maxWorlds = config'.maxWorlds)
    (hbranches : config.maxBranches = config'.maxBranches) (hlogic : config.logic = config'.logic)
    (hfacts : config.maxFacts ≤ config'.maxFacts)
    (hdepth : config.maxFormulaDepth ≤ config'.maxFormulaDepth)
    (hsteps : budget.maxSteps ≤ budget'.maxSteps)
    (hover : ∀ n, watch'.isOver budget'.time n = false) :
    ∃ elapsed, prove config' goal axioms budget' watch' =
      { prove config goal axioms budget watch with elapsed := elapsed } := by
  have hdeep := find?_eq_none_of_isCacheable h
  have hdeep' : (goal :: axioms).find? (config'.maxFormulaDepth < ·.depth) = none := by
    rw [find?_eq_none_iff] at hdeep ⊢
    exact fun f hf => (hdeep f hf).trans hdepth
  have hlogicFor : logicFor config' goal axioms = logicFor config goal axioms := by
    unfold logicFor
    rw [hlogic]
  have htableau : tableauFor config' goal axioms = tableauFor config goal axioms := by
    unfold tableauFor
    rw [hlogicFor, hworlds, hbranches]
  obtain ⟨more, hmore⟩ := Nat.exists_eq_add_of_le' hsteps
  rw [prove_eq_outcome hdeep] at h
  obtain ⟨looks, hchained⟩ : ∃ looks, chained config' goal axioms budget' watch' =
      { chained config goal axioms budget watch with
        looks := looks
        steps := more + (chained config goal axioms budget watch).steps } := by
    unfold chained
    rw [hlogicFor, funext hover, hmore]
    exact forward_relax (isCacheable_of_outcome h) hfacts more
  rw [prove_eq_outcome hdeep, prove_eq_outcome hdeep', htableau, hlogicFor, funext hover, hchained,
    outcome_relax h]
  exact ⟨_, rfl⟩

/-- Two results that may be kept are compared with the result under the wider of the limits. -/
theorem eq_of_isCacheable (hworlds : config.maxWorlds = config'.maxWorlds)
    (hbranches : config.maxBranches = config'.maxBranches) (hlogic : config.logic = config'.logic)
    (h : (prove config goal axioms budget watch).status.isCacheable = true)
    (h' : (prove config' goal axioms budget' watch').status.isCacheable = true) :
    prove config goal axioms budget watch =
      { prove config' goal axioms budget' watch' with
        elapsed := (prove config goal axioms budget watch).elapsed } := by
  let wide : EngineConfig :=
    { config with
      maxFacts := max config.maxFacts config'.maxFacts
      maxFormulaDepth := max config.maxFormulaDepth config'.maxFormulaDepth }
  let ample : Budget := ⟨max budget.maxSteps budget'.maxSteps, 1⟩
  obtain ⟨elapsed, he⟩ : ∃ elapsed, prove wide goal axioms ample .still =
      { prove config goal axioms budget watch with elapsed := elapsed } :=
    prove_relax h rfl rfl rfl (le_max_left _ _) (le_max_left _ _) (le_max_left _ _) fun _ => rfl
  obtain ⟨elapsed', he'⟩ : ∃ elapsed, prove wide goal axioms ample .still =
      { prove config' goal axioms budget' watch' with elapsed := elapsed } :=
    prove_relax h' hworlds.symm hbranches.symm hlogic.symm (le_max_right _ _) (le_max_right _ _)
      (le_max_right _ _) fun _ => rfl
  exact Result.eq_of_elapsed (he.symm.trans he')

end Relax

end Engine

/-! ### The native prover -/

namespace Native

theorem eq_of_toString_eq {m n : Nat} (h : toString m = toString n) : m = n := by
  rw [Nat.toString_eq_ofList_toDigits, Nat.toString_eq_ofList_toDigits, String.ofList_inj] at h
  rw [← Nat.ofDigitChars_ten_toDigits (n := m), h, Nat.ofDigitChars_ten_toDigits]

/-- The name for a choice of logic tells which it is. -/
theorem logic_eq_of_name {l l' : Option Logic}
    (h : (l.map Logic.name).getD "auto" = (l'.map Logic.name).getD "auto") : l = l' := by
  rcases l with _ | l <;> rcases l' with _ | l'
  · rfl
  · cases l' <;> simp [Logic.name] at h
  · cases l <;> simp [Logic.name] at h
  · cases l <;> cases l' <;> simp [Logic.name] at h ⊢

/-- Engines with the same fingerprint differ in their time alone. -/
theorem fingerprint_eq_iff {config config' : EngineConfig} :
    fingerprint config = fingerprint config' ↔
      config' = { config with timeBudget := config'.timeBudget } := by
  constructor
  · intro h
    simp only [fingerprint, List.cons.injEq, Prod.mk.injEq, true_and, and_true] at h
    obtain ⟨hbranches, hfacts, hdepth, hsteps, hworlds, hlogic⟩ := h
    cases config
    cases config'
    rw [EngineConfig.mk.injEq]
    exact ⟨(eq_of_toString_eq hsteps).symm, rfl, (eq_of_toString_eq hfacts).symm,
      (eq_of_toString_eq hdepth).symm, (eq_of_toString_eq hworlds).symm,
      (eq_of_toString_eq hbranches).symm, (logic_eq_of_name hlogic).symm⟩
  · intro h
    rw [h]
    rfl

end Native

namespace Engine

/-- **Limits never change a result that may be kept.**  Two attempts at one problem that agree on
the logic and on the numbers of worlds and branches, and both come to a result that may be kept,
come to the same result up to the time they took, whatever their other limits, their budgets and
what their watches say.  So do two native provers with one fingerprint, whatever the time they are
allowed. -/
theorem prove_eq_of_isCacheable (goal : Formula) (axioms : List Formula) :
    (∀ (config config' : EngineConfig) (budget budget' : Budget) (watch watch' : Watch),
      config.maxWorlds = config'.maxWorlds → config.maxBranches = config'.maxBranches →
      config.logic = config'.logic →
      (prove config goal axioms budget watch).status.isCacheable = true →
      (prove config' goal axioms budget' watch').status.isCacheable = true →
      prove config goal axioms budget watch =
        { prove config' goal axioms budget' watch' with
          elapsed := (prove config goal axioms budget watch).elapsed }) ∧
    ∀ (config config' : EngineConfig) (timeout timeout' : Nat) (watch watch' : Watch),
      Native.fingerprint config = Native.fingerprint config' →
      (Native.prove config goal axioms timeout watch).status.isCacheable = true →
      (Native.prove config' goal axioms timeout' watch').status.isCacheable = true →
      Native.prove config goal axioms timeout watch =
        { Native.prove config' goal axioms timeout' watch' with
          elapsed := (Native.prove config goal axioms timeout watch).elapsed } := by
  refine ⟨fun _ _ _ _ _ _ => eq_of_isCacheable, ?_⟩
  intro config config' timeout timeout' watch watch' hprint h h'
  have hconfig := Native.fingerprint_eq_iff.mp hprint
  exact eq_of_isCacheable (by rw [hconfig]) (by rw [hconfig]) (by rw [hconfig]) h h'

/-- That `P` holds at some time does not mean that it always does.  The engine finds that out in ten
steps as well as in a thousand of which all but the first fifty would be called off, and as a prover
it finds it out in one millisecond as well as in a minute. -/
theorem prove_eq_of_isCacheable_eventually :
    let goal : Formula := (Formula.atom "P").always
    let axioms : List Formula := [(Formula.atom "P").eventually]
    let late : Watch := ⟨fun n => n, fun n => decide (50 ≤ n)⟩
    (prove {} goal axioms ⟨10, 1⟩ .still).status = .disproved ∧
      (prove { maxFacts := 3 } goal axioms ⟨1000, 5000⟩ late).status = .disproved ∧
      prove {} goal axioms ⟨10, 1⟩ .still =
        { prove { maxFacts := 3 } goal axioms ⟨1000, 5000⟩ late with
          elapsed := (prove {} goal axioms ⟨10, 1⟩ .still).elapsed } ∧
      Native.prove {} goal axioms 1 .still =
        { Native.prove { timeBudget := 80 } goal axioms 60000 late with
          elapsed := (Native.prove {} goal axioms 1 .still).elapsed } := by
  intro goal axioms late
  have h : (prove {} goal axioms ⟨10, 1⟩ .still).status = .disproved := by decide +kernel
  have h' : (prove { maxFacts := 3 } goal axioms ⟨1000, 5000⟩ late).status = .disproved := by
    decide +kernel
  refine ⟨h, h', (prove_eq_of_isCacheable _ _).1 _ _ _ _ _ _ rfl rfl rfl ?_ ?_,
    (prove_eq_of_isCacheable _ _).2 _ _ _ _ _ _ rfl ?_ ?_⟩
  · rw [h]; rfl
  · rw [h']; rfl
  · decide +kernel
  · decide +kernel

end Engine

end Deontica
