import Deontica.Formula.Parser
import Deontica.Proofs.Engine
import Deontica.Proofs.Range
import Deontica.Proofs.Tableau.BranchModel

/-!
# Counter-models

When the engine reports that a goal is disproved, a tableau has found a saturated branch with the
axioms and the negation of the goal at its first world (`exists_saturated_of_disproved`).  The
branch is a model in which quantifiers range over the constants of the branch, since universal
formulas are put to no other terms.

* Without function symbols the domain can be collapsed to those constants, and the goal has a
  counter-model.
* If no quantifier has universal force, the range may be enlarged to all terms, and the goal has a
  counter-model.
* Otherwise it need not have one: from `∀x. R(x)` the goal `R(f(a))` follows, but the branch has put
  the axiom to `a` only.
-/

namespace Deontica

universe u v

variable {W : Type u} {D : Type v}

/-- The model with another reading of the spanning formulas. -/
def Model.reading (M : Model W D) (spans : Span → Set W → Set W → Set W) : Model W D :=
  { M with span := spans }

/-- There is a model of the logic and a world of it at which the axioms are true and the goal is
false, whatever the variables stand for and however spanning formulas are read within their bounds.
Where `X` occurs, the next world is one that is seen. -/
def HasCounterModel (logic : Logic) (axioms : List Formula) (goal : Formula) : Prop :=
  ∃ (W D : Type) (M : Model W D), M.Meets logic ∧
    ((∃ f ∈ goal :: axioms, f.hasNext = true) → M.SeesNext) ∧ M.Bounded ∧
    ∃ w, ∀ spans, (M.reading spans).Bounded → ∀ ν,
      (∀ f ∈ axioms, w ∈ (M.reading spans).truth f ν) ∧ w ∉ (M.reading spans).truth goal ν

/-- Whether a function is applied in the problem. -/
def appliesFunction (goal : Formula) (axioms : List Formula) : Bool :=
  (goal :: axioms).any (!·.isFunctionFree)

/-- Whether a quantifier has universal force when the axioms are asserted and the goal is denied. -/
def quantifiesUniversally (goal : Formula) (axioms : List Formula) : Bool :=
  goal.hasUniversal false || axioms.any (·.hasUniversal true)

namespace Branch

/-- The reading of spanning formulas by their second part. -/
def plainSpans : Spans := fun _ _ B => B

theorem bounded_of_span_eq {M : Model World Term} (h : M.span = plainSpans) : M.Bounded := by
  constructor <;> intro A B <;> rw [h]
  · exact Set.Subset.rfl
  · exact Set.subset_union_left
  · exact Set.Subset.rfl
  · exact Set.subset_union_left

variable {Q : Formula → Prop} {b : Branch} {goal : Formula} {axioms : List Formula}

/-- A model on the frame of a saturated branch, in which the first world refutes the goal, is a
counter-model. -/
theorem Saturated.hasCounterModel (hb : Saturated Q b)
    (hnext : b.logic ≠ .K ∨ ∀ f ∈ goal :: axioms, f.hasNext = false) (M : Model World Term)
    (hM : M.sees = (b.model plainSpans).sees ∧ M.next = (b.model plainSpans).next ∧
      M.span = plainSpans)
    (htruth : ∀ spans ν, (∀ f ∈ axioms, 0 ∈ (M.reading spans).truth f ν) ∧
      0 ∉ (M.reading spans).truth goal ν) :
    HasCounterModel b.logic axioms goal := by
  obtain ⟨hsees, hnexts, hspan⟩ := hM
  have hmeets := hb.meets_model plainSpans
  refine ⟨World, Term, M, ⟨hsees ▸ hmeets.reflexive, hsees ▸ hmeets.transitive,
    hsees ▸ hmeets.symmetric, hsees ▸ hmeets.serial⟩, ?_, bounded_of_span_eq hspan, 0,
    fun spans _ => htruth spans⟩
  rintro ⟨f, hf, hX⟩
  rcases hnext with hK | hnone
  · have hserial : b.logic.isSerial = true := by
      cases hl : b.logic with
      | K => exact absurd hl hK
      | T | S4 | S5 | D => rfl
    intro w
    rw [hsees, hnexts]
    exact hb.seesNext_model plainSpans hserial w
  · exact absurd (hX.symm.trans (hnone f hf)) Bool.noConfusion

/-- **Without function symbols** the domain is collapsed to the constants of the branch. -/
theorem Saturated.hasCounterModel_of_isFunctionFree (hb : Saturated Q b)
    (hnext : b.logic ≠ .K ∨ ∀ f ∈ goal :: axioms, f.hasNext = false)
    (hclosed : ∀ f ∈ goal :: axioms, f.isClosed = true)
    (hfree : ∀ f ∈ goal :: axioms, f.isFunctionFree = true)
    (hax : ∀ f ∈ axioms, (0, f) ∈ b.seen) (hgoal : (0, goal.negation) ∈ b.seen) :
    HasCounterModel b.logic axioms goal := by
  have hE := b.named_nonempty
  -- the constants of a formula on the branch stand for themselves
  have hcollapse : ∀ f ∈ goal :: axioms, f.constantOccurrences ⊆ b.domain → ∀ spans ν,
      (((b.model plainSpans).collapse (Model.retract hE)).reading spans).truth f ν =
        (b.model spans).truthIn b.named f .var := by
    intro f hf hconst spans ν
    have htruth := Model.truth_collapse (b.model spans) (Model.retract hE) f (hfree f hf)
      (fun c hc => Model.retract_of_mem hE (const_mem_named (hconst hc))) ν
    rw [Model.range_retract] at htruth
    exact htruth.trans (Model.truthIn_eq_of_isClosed _ _ (hclosed f hf) _ _)
  refine hb.hasCounterModel hnext ((b.model plainSpans).collapse (Model.retract hE))
    ⟨rfl, rfl, rfl⟩ fun spans ν => ⟨fun f hf => ?_, ?_⟩
  · rw [hcollapse f (List.mem_cons_of_mem _ hf) (hb.wellFormed.seen _ (hax f hf)).2.1]
    exact hb.mem_truthIn_named spans (hax f hf)
  · have hconst := (hb.wellFormed.seen _ hgoal).2.1
    rw [Formula.constantOccurrences_negation] at hconst
    rw [hcollapse goal List.mem_cons_self hconst, ← Model.mem_truthIn_negation]
    exact hb.mem_truthIn_named spans hgoal

/-- **Without quantifiers of universal force** the range may grow to all terms. -/
theorem Saturated.hasCounterModel_of_hasUniversal (hb : Saturated Q b)
    (hnext : b.logic ≠ .K ∨ ∀ f ∈ goal :: axioms, f.hasNext = false)
    (hclosed : ∀ f ∈ goal :: axioms, f.isClosed = true)
    (hforce : quantifiesUniversally goal axioms = false)
    (hax : ∀ f ∈ axioms, (0, f) ∈ b.seen) (hgoal : (0, goal.negation) ∈ b.seen) :
    HasCounterModel b.logic axioms goal := by
  obtain ⟨hdenied, hasserted⟩ := Bool.or_eq_false_iff.mp hforce
  rw [List.any_eq_false] at hasserted
  have hall : b.named ⊆ Set.univ := Set.subset_univ _
  have hvar : ∀ f ∈ goal :: axioms, ∀ spans ν,
      (b.model spans).truth f ν = (b.model spans).truth f .var := fun f hf spans ν =>
    Model.truthIn_eq_of_isClosed _ _ (hclosed f hf) ν .var
  refine hb.hasCounterModel hnext (b.model plainSpans) ⟨rfl, rfl, rfl⟩ fun spans ν =>
    ⟨fun f hf => ?_, fun htrue => ?_⟩
  · show 0 ∈ (b.model spans).truth f ν
    rw [hvar f (List.mem_cons_of_mem _ hf)]
    apply ((b.model spans).truthIn_mono hall f .var).1 (Bool.not_eq_true _ ▸ hasserted f hf)
    exact hb.mem_truthIn_named spans (hax f hf)
  · have htrue : 0 ∈ (b.model spans).truth goal ν := htrue
    rw [hvar goal List.mem_cons_self] at htrue
    have hfalse := hb.mem_truthIn_named spans hgoal
    rw [Model.mem_truthIn_negation] at hfalse
    exact hfalse (((b.model spans).truthIn_mono hall goal .var).2 hdenied htrue)

end Branch

namespace Engine

open Branch Search

/-- A goal that is disproved has a saturated branch on which the axioms hold and the goal fails. -/
theorem exists_saturated_of_disproved {config : EngineConfig} {goal : Formula}
    {axioms : List Formula} {budget : Budget} {watch : Watch} {logic : Logic}
    (hstatus : (prove config goal axioms budget watch).status = .disproved)
    (hlogic : (prove config goal axioms budget watch).logic = some logic) :
    ∃ b, Branch.Saturated (fun _ => True) b ∧ b.logic = logic ∧
      (∀ f ∈ axioms, (0, f) ∈ b.seen) ∧ (0, goal.negation) ∈ b.seen := by
  obtain ⟨hused, s, hs, hcase⟩ := prove_cases config goal axioms budget watch (by rw [hstatus]; rfl)
  rcases hcase with ⟨hproved, _⟩ | ⟨t, isOver, steps, looks, ht, hverdict⟩
  · rw [hstatus] at hproved
    cases hproved
  · rw [hstatus] at hverdict
    obtain ⟨n, hopen⟩ := eq_open_of_verdictStatus hverdict.symm
    obtain ⟨b, hb, hbt, hseen⟩ := Tableau.exists_saturated_of_refute (Q := fun _ => True)
      hereditary_true (fun _ _ => trivial) hopen
    refine ⟨b, hb, ?_, fun f hf => hseen f (List.mem_append_left _ ?_),
      hseen _ (List.mem_append_right _ (List.mem_singleton.mpr rfl))⟩
    · rw [hbt]
      exact Option.some.inj (ht.symm.trans (hused.symm.trans hlogic))
    · exact hs.facts_subset (mem_start.mpr hf)

/-- **What is disproved has a counter-model, if no function is applied.** -/
theorem hasCounterModel_of_disproved (config : EngineConfig) (goal : Formula)
    (axioms : List Formula) (budget : Budget) (watch : Watch) (logic : Logic)
    (hclosed : ∀ f ∈ goal :: axioms, f.isClosed = true)
    (hfree : ∀ f ∈ goal :: axioms, f.isFunctionFree = true)
    (hnext : logic = .K → ∀ f ∈ goal :: axioms, f.hasNext = false)
    (hstatus : (prove config goal axioms budget watch).status = .disproved)
    (hlogic : (prove config goal axioms budget watch).logic = some logic) :
    HasCounterModel logic axioms goal := by
  obtain ⟨b, hb, rfl, hax, hgoal⟩ := exists_saturated_of_disproved hstatus hlogic
  exact hb.hasCounterModel_of_isFunctionFree (Classical.or_iff_not_imp_left.mpr fun hK =>
    hnext (Classical.not_not.mp hK)) hclosed hfree hax hgoal

/-- From `∃x. X(R(x))` and `□Q(b)` it does not follow that `X(R(b))`: the next world has another
witness. -/
theorem hasCounterModel_of_disproved_next :
    (prove {} (.next (.pred "R" [.const "b"]))
      [.exists "x" (.next (.pred "R" [.var "x"])), .always (.pred "Q" [.const "b"])]
      ⟨100, 1⟩ .still).status = .disproved ∧
    HasCounterModel .S4
      [.exists "x" (.next (.pred "R" [.var "x"])), .always (.pred "Q" [.const "b"])]
      (.next (.pred "R" [.const "b"])) :=
  ⟨by decide +kernel, hasCounterModel_of_disproved {} _ _ ⟨100, 1⟩ .still .S4 (by decide +kernel)
    (by decide +kernel) nofun (by decide +kernel) (by decide +kernel)⟩

/-! ### Compound terms -/

/-- `R(f(a))` -/
def compoundGoal : Formula := .pred "R" [.app "f" [.const "a"]]

/-- `∀x. R(x)` and, to call for a modal logic, `□Q` -/
def compoundAxioms : List Formula := [.all "x" (.pred "R" [.var "x"]), .always (.atom "Q")]

example : Formula.parse "R(f(a))" = .ok compoundGoal := by decide +kernel

example : ["∀x. R(x)", "□Q"].map Formula.parse = compoundAxioms.map Except.ok := by decide +kernel

theorem prove_compound :
    (prove {} compoundGoal compoundAxioms ⟨100, 1⟩ .still).status = .disproved ∧
      (prove {} compoundGoal compoundAxioms ⟨100, 1⟩ .still).logic = some .S4 := by
  decide +kernel

/-- The goal follows by instantiation with a compound term. -/
theorem not_hasCounterModel_compound (logic : Logic) :
    ¬HasCounterModel logic compoundAxioms compoundGoal := by
  rintro ⟨W, D, M, _, _, hB, w, h⟩
  obtain ⟨hax, hgoal⟩ := h M.span hB fun _ => M.const "a"
  apply hgoal
  have hall := hax (.all "x" (.pred "R" [.var "x"])) List.mem_cons_self
    ((M.reading M.span).func "f" [(M.reading M.span).const "a"]) (Set.mem_univ _)
  simpa [compoundGoal, Model.truthIn, Model.values, Model.value] using hall

/-- A goal with a compound term is disproved although it follows. -/
theorem compound_disproved_without_counterModel :
    (∀ f ∈ compoundGoal :: compoundAxioms, f.isClosed = true) ∧
      appliesFunction compoundGoal compoundAxioms = true ∧
      (prove {} compoundGoal compoundAxioms ⟨100, 1⟩ .still).status = .disproved ∧
      (prove {} compoundGoal compoundAxioms ⟨100, 1⟩ .still).logic = some .S4 ∧
      ¬HasCounterModel .S4 compoundAxioms compoundGoal :=
  ⟨by decide +kernel, by decide +kernel, prove_compound.1, prove_compound.2,
    not_hasCounterModel_compound .S4⟩

/-- **When what is disproved has a counter-model.**  Of the problems in which functions are applied
or not, and quantifiers have universal force or not, those with both are the ones in which a goal
can be disproved that has no counter-model. -/
theorem disproved_hasCounterModel_iff (applied universal : Bool) :
    (∀ (config : EngineConfig) (goal : Formula) (axioms : List Formula) (budget : Budget)
      (watch : Watch) (logic : Logic), (∀ f ∈ goal :: axioms, f.isClosed = true) →
      appliesFunction goal axioms = applied → quantifiesUniversally goal axioms = universal →
      logic ≠ .K → (prove config goal axioms budget watch).status = .disproved →
      (prove config goal axioms budget watch).logic = some logic →
      HasCounterModel logic axioms goal) ↔ ¬(applied = true ∧ universal = true) := by
  constructor
  · rintro h ⟨rfl, rfl⟩
    exact not_hasCounterModel_compound .S4 (h {} compoundGoal compoundAxioms ⟨100, 1⟩ .still .S4
      (by decide +kernel) (by decide +kernel) (by decide +kernel) nofun prove_compound.1
      prove_compound.2)
  · intro hnot config goal axioms budget watch logic hclosed happlied huniversal hK hstatus hlogic
    obtain ⟨b, hb, rfl, hax, hgoal⟩ := exists_saturated_of_disproved hstatus hlogic
    cases applied with
    | false =>
      refine hb.hasCounterModel_of_isFunctionFree (Or.inl hK) hclosed (fun f hf => ?_) hax hgoal
      have hfree := List.any_eq_false.mp happlied f hf
      simpa using hfree
    | true =>
      have hforce : universal = false := by
        cases universal with
        | false => rfl
        | true => exact absurd ⟨rfl, rfl⟩ hnot
      exact hb.hasCounterModel_of_hasUniversal (Or.inl hK) hclosed (huniversal.trans hforce) hax
        hgoal

end Engine

end Deontica
