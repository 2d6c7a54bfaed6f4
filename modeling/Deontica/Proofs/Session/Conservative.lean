import Deontica.Proofs.Engine.Consequence
import Deontica.Proofs.Engine.CounterModel
import Deontica.Proofs.Session

/-!
# When theorems may be relied on

A goal that a session proves is proved from the axioms and earlier theorems.  If the axioms alone
refute it, there is a model in which they are true and the goal is false
(`exists_model_of_disproved`), and in this model a theorem of the session must have been false that
some proof led to.  That cannot be if every proof counts in the model:

* if the logic for the goal and the axioms has reflexive relations, every proof does, since no logic
  that can have been used for another problem asks for more;
* else the proofs must have used that very logic, or none, and not one of the two rules that rely on
  worlds seeing themselves, and under `K` they must not be about the next world.

The logic is chosen for every problem anew, so a theorem can have been proved in a stronger logic
than the one in which the axioms refute a goal that follows from it.
-/

namespace Deontica

universe u v

variable {W : Type u} {D : Type v}

/-! ### The counter-model of a refutation -/

namespace Branch

/-- The model of the branch in which a constant that the branch does not have is another name of
something that it has. -/
noncomputable def namedModel (b : Branch) : Model World Term :=
  (b.model plainSpans).naming fun c => Model.retract b.named_nonempty (.const c)

theorem const_namedModel_mem (b : Branch) (c : String) : b.namedModel.const c ∈ b.named := by
  have hrange : Model.retract b.named_nonempty (.const c) ∈
      Set.range (Model.retract b.named_nonempty) := ⟨_, rfl⟩
  rw [Model.range_retract] at hrange
  exact hrange

variable {Q : Formula → Prop} {b : Branch}

/-- The names of constants that do not occur make no difference. -/
theorem Saturated.mem_truthIn_namedModel (hb : Saturated Q b) {w : World} {f : Formula}
    (hf : (w, f) ∈ b.seen) : w ∈ b.namedModel.truthIn b.named f .var := by
  have hconst := (hb.wellFormed.seen _ hf).2.1
  have hnaming : b.namedModel.truthIn b.named f .var =
      ((b.model plainSpans).naming .const).truthIn b.named f .var :=
    Model.truthIn_naming_congr _ _ _ _ f
      (fun c hc => Model.retract_of_mem _ (const_mem_named (hconst hc))) _
  rw [hnaming]
  exact hb.mem_truthIn_named plainSpans hf

theorem Saturated.meets_namedModel (hb : Saturated Q b) : b.namedModel.Meets b.logic :=
  have h := hb.meets_model plainSpans
  ⟨h.reflexive, h.transitive, h.symmetric, h.serial⟩

end Branch

namespace Engine

/-- **A refuted goal fails in a model of the axioms**, if quantifiers need not range over the whole
domain.  Nothing is assumed of the problem. -/
theorem exists_model_of_disproved {config : EngineConfig} {goal : Formula} {axioms : List Formula}
    {budget : Budget} {watch : Watch}
    (h : (prove config goal axioms budget watch).status = .disproved) :
    ∃ logic, logicFor config goal axioms = some logic ∧
      ∃ (M : Model World Term) (E : Set Term) (ν : String → Term) (w : World), M.Meets logic ∧
        (logic.isSerial = true → M.SeesNext) ∧ M.Bounded ∧ (∀ c, M.const c ∈ E) ∧
        (∀ f ∈ axioms, w ∈ M.truthIn E f ν) ∧ w ∉ M.truthIn E goal ν := by
  obtain ⟨hused, _, _, hcase⟩ := prove_cases config goal axioms budget watch (by rw [h]; rfl)
  obtain ⟨logic, hlogic⟩ : ∃ logic, logicFor config goal axioms = some logic := by
    rcases hcase with ⟨hproved, _⟩ | ⟨t, _, _, _, ht, _⟩
    · rw [h] at hproved
      cases hproved
    · exact ⟨t.logic, ht⟩
  obtain ⟨b, hb, rfl, hax, hgoal⟩ := exists_saturated_of_disproved h (hused.trans hlogic)
  refine ⟨b.logic, hlogic, b.namedModel, b.named, .var, 0, hb.meets_namedModel,
    fun hserial => hb.seesNext_model Branch.plainSpans hserial, Branch.bounded_of_span_eq rfl,
    b.const_namedModel_mem, fun f hf => hb.mem_truthIn_namedModel (hax f hf), ?_⟩
  rw [← Model.mem_truthIn_negation]
  exact hb.mem_truthIn_namedModel hgoal

/-- Where none is prescribed, `S4` is the only logic with reflexive relations that is chosen. -/
theorem select_none_cases (problem : List Formula) :
    (Logic.select none problem).1 = .D ∨ (Logic.select none problem).1 = .S4 ∨
      (Logic.select none problem).1 = .K := by
  unfold Logic.select
  dsimp only
  split_ifs
  · exact Or.inl rfl
  · exact Or.inr (Or.inl rfl)
  · exact Or.inr (Or.inl rfl)
  · exact Or.inr (Or.inr rfl)

/-- If one problem gets a logic with reflexive relations, its models are models of the logic that
any other problem gets: the same one if it is prescribed, and else `S4` or less. -/
theorem meets_of_logicFor {config : EngineConfig} {goal goal' : Formula}
    {axioms axioms' : List Formula} {logic logic' : Logic}
    (h : logicFor config goal axioms = some logic) (hrefl : logic.isReflexive = true)
    (h' : logicFor config goal' axioms' = some logic') {M : Model W D} (hM : M.Meets logic) :
    M.Meets logic' := by
  unfold logicFor at h h'
  split_ifs at h h'
  rw [← Option.some.inj h] at hrefl hM
  rw [← Option.some.inj h']
  cases hprescribed : config.logic with
  | some prescribed =>
    rw [hprescribed] at hM
    exact hM
  | none =>
    rw [hprescribed] at hM hrefl
    have hS4 : M.Meets .S4 := by
      rcases select_none_cases (goal :: axioms) with heq | heq | heq <;> rw [heq] at hM hrefl
      · cases hrefl
      · exact hM
      · cases hrefl
    rcases select_none_cases (goal' :: axioms') with heq | heq | heq <;> rw [heq]
    · exact hS4.mono fun | .serial, _ => rfl
    · exact hS4
    · exact M.meets_K

end Engine

/-! ### Sessions -/

namespace Session

open Engine

/-- The proof of a goal counts in all models of the logic: it used this logic or none, not one of
the rules that rely on worlds seeing themselves, and under `K` it is not about the next world. -/
def CountsIn (logic : Logic) (goal : Formula) (result : Result) : Prop :=
  (result.logic = none ∨ result.logic = some logic) ∧
    (∀ d ∈ result.steps, d.rule ≠ "until_eventually" ∧ d.rule ≠ "always_obligation_now") ∧
    (logic = .K → NextFree goal)

instance (logic : Logic) (goal : Formula) (result : Result) :
    Decidable (CountsIn logic goal result) :=
  inferInstanceAs (Decidable (_ ∧ _ ∧ _))

/-- A proof that counts makes its goal true, in a model of the logic that a problem gets, wherever
all that was known is true. -/
theorem mem_truthIn_of_proveGoal {s : Session} {config : EngineConfig} (hconfig : s.config = config)
    {goal goal' : Formula} {axioms : List Formula} {watch : Watch} {logic : Logic}
    (hlogic : logicFor config goal axioms = some logic)
    (hproved : (s.proveGoal goal' watch).1.status = .proved)
    (hcounts : logic.isReflexive = false → CountsIn logic goal' (s.proveGoal goal' watch).1)
    {M : Model W D} (hM : M.Meets logic) (hserial : logic.isSerial = true → M.SeesNext)
    (hB : M.Bounded) {E : Set D} (hE : ∀ c, M.const c ∈ E) {ν : String → D} {w : W}
    (hknown : ∀ f ∈ s.base.facts, w ∈ M.truthIn E f ν ∧ (logic = .K → NextFree f)) :
    w ∈ M.truthIn E goal' ν := by
  subst hconfig
  have hproved : (Engine.prove s.config goal' s.base.facts s.config.budget watch).status =
      .proved := hproved
  have hfacts : ∀ f ∈ s.base.facts, w ∈ M.truthIn E f ν := fun f hf => (hknown f hf).1
  cases hrefl : logic.isReflexive with
  | true =>
    have hnext := hserial (Logic.isSerial_of_isReflexive hrefl)
    refine mem_truthIn_of_proved hproved (fun logic' hlogic' => ?_) hB
      (Or.inl (hM.reflexive hrefl .temporal)) (Or.inl hnext) hE hfacts
    have hused := (prove_cases _ _ _ _ _ (by rw [hproved]; rfl)).1
    exact meets_of_logicFor hlogic hrefl (hused.symm.trans hlogic') hM
  | false =>
    obtain ⟨hused, hrules, hnext⟩ := hcounts hrefl
    refine mem_truthIn_of_proved hproved (fun logic' hlogic' => ?_) hB (Or.inr hrules) ?_ hE hfacts
    · rcases hused with hnone | hsome
      · cases hnone.symm.trans hlogic'
      · exact Option.some.inj (hsome.symm.trans hlogic') ▸ hM
    · cases logic with
      | K => exact Or.inr (List.forall_mem_cons.mpr ⟨hnext rfl, fun f hf => (hknown f hf).2 rfl⟩)
      | D => exact Or.inl (hserial rfl)
      | T | S4 | S5 => cases hrefl

/-- **Sessions are conservative.**  Whatever was asked before, a goal that a session proves is not
refuted by its axioms alone, if the logic for the goal and the axioms is reflexive or all proofs so
far, and this one, count in its models. -/
theorem prove_ne_disproved_of_proveGoal (config : EngineConfig) (axioms : List Formula)
    (calls : List Call) (goal : Formula) (watch : Watch)
    (hproved : (((ofAxioms config axioms).after calls).proveGoal goal watch).1.status = .proved)
    (hcounts : ∀ logic, logicFor config goal axioms = some logic → logic.isReflexive = false →
      (logic = .K → ∀ f ∈ axioms, NextFree f) ∧
        ∀ p ∈ (goal, (((ofAxioms config axioms).after calls).proveGoal goal watch).1) ::
          (ofAxioms config axioms).proofs calls, CountsIn logic p.1 p.2)
    (budget : Budget) (watch' : Watch) :
    (Engine.prove config goal axioms budget watch').status ≠ .disproved := by
  intro hdisproved
  obtain ⟨logic, hlogic, M, E, ν, w, hM, hserial, hB, hE, hax, hgoal⟩ :=
    exists_model_of_disproved hdisproved
  have hK : logic = .K → logic.isReflexive = false := by
    rintro rfl
    rfl
  -- at the world where the goal fails the axioms are true, and so is every theorem
  have hknown : ∀ f ∈ ((ofAxioms config axioms).after calls).base.facts,
      w ∈ M.truthIn E f ν ∧ (logic = .K → NextFree f) := by
    apply forall_facts_after
    · intro f hf
      have hf : f ∈ axioms ++ [] := hf
      rw [List.append_nil] at hf
      exact ⟨hax f hf, fun h => (hcounts logic hlogic (hK h)).1 h f hf⟩
    · intro s' goal' watch' hconfig hfacts hproved hmem
      have hcount : logic.isReflexive = false →
          CountsIn logic goal' (s'.proveGoal goal' watch').1 :=
        fun hrefl => (hcounts logic hlogic hrefl).2 _ (List.mem_cons_of_mem _ hmem)
      refine ⟨mem_truthIn_of_proveGoal hconfig hlogic ?_ hcount hM hserial hB hE hfacts,
        fun h => (hcount (hK h)).2.2 h⟩
      simpa [Result.isProved] using hproved
  exact hgoal (mem_truthIn_of_proveGoal (config_after _ calls) hlogic hproved
    (fun hrefl => (hcounts logic hlogic hrefl).2 _ List.mem_cons_self) hM hserial hB hE hknown)

/-- What brings about something forbidden is forbidden, and so not obligatory: under `D` the second
theorem is proved with the help of the first. -/
theorem prove_ne_disproved_of_proveGoal_forbidden :
    let P := Formula.atom "P"
    let axioms := [Formula.obligatory (P.implies (.atom "Q")), .forbidden (.atom "Q")]
    let s := (ofAxioms {} axioms).after [.proveGoal (.forbidden P) .still]
    (s.proveGoal (Formula.not (.obligatory P)) .still).1.status = .proved ∧
      Engine.logicFor {} (Formula.not (.obligatory P)) axioms = some .D ∧
      (∀ p ∈ (Formula.not (.obligatory P), (s.proveGoal (Formula.not (.obligatory P)) .still).1) ::
        (ofAxioms {} axioms).proofs [.proveGoal (.forbidden P) .still], CountsIn .D p.1 p.2) ∧
      (Engine.prove {} (Formula.not (.obligatory P)) axioms ⟨100, 1⟩ .still).status ≠
        .disproved := by
  intro P axioms s
  have hproved : (s.proveGoal (Formula.not (.obligatory P)) .still).1.status = .proved := by
    decide +kernel
  have hlogic : Engine.logicFor {} (Formula.not (.obligatory P)) axioms = some .D := by
    decide +kernel
  have hcounts : ∀ p ∈ (Formula.not (.obligatory P),
      (s.proveGoal (Formula.not (.obligatory P)) .still).1) ::
        (ofAxioms {} axioms).proofs [.proveGoal (.forbidden P) .still], CountsIn .D p.1 p.2 := by
    decide +kernel
  refine ⟨hproved, hlogic, hcounts,
    prove_ne_disproved_of_proveGoal {} axioms _ _ _ hproved (fun logic h _ => ?_) ⟨100, 1⟩ .still⟩
  cases hlogic.symm.trans h
  exact ⟨fun h => Logic.noConfusion h, hcounts⟩

/-- A session proves one goal, with its help another, and the axioms alone refute the other. -/
def Overreaches (config : EngineConfig) (axioms : List Formula) (first second : Formula) : Prop :=
  let s := ofAxioms config axioms
  (s.proveGoal first .still).1.status = .proved ∧
    ((s.after [.proveGoal first .still]).proveGoal second .still).1.status = .proved ∧
    (Engine.prove config second axioms config.budget .still).status = .disproved

instance (config : EngineConfig) (axioms : List Formula) (first second : Formula) :
    Decidable (Overreaches config axioms first second) :=
  inferInstanceAs (Decidable (_ ∧ _ ∧ _))

/-- Sessions overreach if a theorem was proved in another logic (`P` from `□P` in `S4`, where
`P ∨ O(Q)` gets `D`), by a rule that relies on worlds seeing themselves, or about the next world
under `K`. -/
theorem overreaches_unless_counted :
    let P := Formula.atom "P"
    let Q := Formula.atom "Q"
    Overreaches {} [P.always] P (P.or Q.obligatory) ∧
      Overreaches { logic := some .D } [P] (Q.until P) P.eventually ∧
      Overreaches {} [P.obligatory.always.xor (Q.and Q.not)] P.obligatory.always P.obligatory ∧
      Overreaches { logic := some .K } [] ((P.and P.not).always.implies Q.next)
        (P.and P.not).always.not := by
  decide +kernel

end Session

end Deontica
