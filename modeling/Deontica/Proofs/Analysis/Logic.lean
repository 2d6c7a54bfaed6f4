import Deontica.Proofs.Analysis
import Deontica.Proofs.Engine

/-!
# The fragment of a problem and the logic it is tried in

The analysis tells the fragment from counts that one walk over all formulas adds up; the engine
chooses its logic by looking for operators in one formula after another.  They do not share a line,
and yet both come to one of three cases: a deontic operator occurs, no deontic but a temporal one,
or neither (`logic?_fragment`, `logicFor_of_unprescribed`).  So the provers that an analysis
recommends are those for the logic that the engine works in (`fragment_iff_logic`).
-/

namespace Deontica

namespace Formula

/-- A temporal operator occurs if one is met on some path. -/
theorem hasTemporal_iff (f : Formula) : f.hasTemporal = true ↔ 0 < f.temporalNesting := by
  induction f with
  | pred name args => simp [hasTemporal, temporalNesting]
  | tense op a ih | span op a b iha ihb => simp [hasTemporal, temporalNesting]
  | not a ih | quant q x a ih | deontic op a ih => exact ih
  | binary op a b iha ihb => simp [hasTemporal, temporalNesting, iha, ihb]

end Formula

namespace Logic

theorem isNeeded_eq (problem : List Formula) :
    isNeeded problem = (problem.any (·.hasDeontic) || problem.any (·.hasTemporal)) := by
  induction problem with
  | nil => rfl
  | cons f fs ih =>
    unfold isNeeded at ih ⊢
    simp only [List.any_cons, ih]
    cases f.hasDeontic <;> cases f.hasTemporal <;> simp

/-- Unless a logic is prescribed, deontic operators come first, and how deep temporal ones are
nested makes no difference but to the grounds. -/
theorem select_none_fst (problem : List Formula) :
    (select none problem).1 =
      if problem.any (·.hasDeontic) then .D
      else if problem.any (·.hasTemporal) then .S4 else .K := by
  have hnested : problem.any (2 ≤ ·.temporalNesting) = true →
      problem.any (·.hasTemporal) = true := by
    simp only [List.any_eq_true, decide_eq_true_eq, Formula.hasTemporal_iff]
    rintro ⟨f, hf, hlevels⟩
    exact ⟨f, hf, Nat.zero_lt_of_lt hlevels⟩
  unfold select
  dsimp only
  split_ifs with hdeontic htwo htemporal htemporal
  · rfl
  · rfl
  · exact absurd (hnested htwo) htemporal
  · rfl
  · rfl

end Logic

namespace Fragment

/-- The logic that a fragment calls for. -/
def logic? : Fragment → Option Logic
  | .deontic | .mixed => some .D
  | .modal | .temporal => some .S4
  | .arithmetic | .quantified | .firstOrder | .propositional => none

theorem logic?_eq_D_iff (fragment : Fragment) :
    fragment.logic? = some .D ↔ fragment = .deontic ∨ fragment = .mixed := by
  cases fragment <;> decide

theorem logic?_eq_S4_iff (fragment : Fragment) :
    fragment.logic? = some .S4 ↔ fragment = .modal ∨ fragment = .temporal := by
  cases fragment <;> decide

theorem logic?_eq_none_iff (fragment : Fragment) :
    fragment.logic? = none ↔ fragment = .arithmetic ∨ fragment = .quantified ∨
      fragment = .firstOrder ∨ fragment = .propositional := by
  cases fragment <;> decide

end Fragment

/-! ### What the analysis goes by -/

/-- Which logic a profile's fragment calls for depends on two counts. -/
theorem Profile.logic?_fragment (p : Profile) :
    p.fragment.logic? =
      if 0 < p.counts.deontic then some .D else if 0 < p.counts.tensed then some .S4 else none := by
  have htensed : 0 < p.counts.tensed ↔ 0 < p.counts.modal ∨ 0 < p.counts.temporal :=
    Nat.add_pos_iff_pos_or_pos
  unfold Profile.fragment
  simp only [Bool.and_eq_true, Bool.or_eq_true, decide_eq_true_eq]
  by_cases hdeontic : 0 < p.counts.deontic
  · simp only [hdeontic, true_and, if_true]
    split_ifs <;> rfl
  · simp only [hdeontic, false_and, if_false, htensed]
    by_cases htemporal : 0 < p.counts.temporal
    · simp only [htemporal, or_true, if_true, Fragment.logic?]
    · by_cases hmodal : 0 < p.counts.modal
      · simp only [htemporal, hmodal, or_false, if_true, if_false, Fragment.logic?]
      · simp only [htemporal, hmodal, or_false, if_false]
        split_ifs <;> rfl

/-- The fragment of a problem calls for a logic by what occurs in its formulas. -/
theorem AnalyzerConfig.logic?_fragment (analyzer : AnalyzerConfig) (goal : Formula)
    (axioms : List Formula) :
    (analyzer.analyzeProblem goal axioms).fragment.logic? =
      if (goal :: axioms).any (·.hasDeontic) then some .D
      else if (goal :: axioms).any (·.hasTemporal) then some .S4 else none := by
  have hdeontic := Formula.pos_iff_any (m := OperatorCounts.deontic) rfl OperatorCounts.deontic_add
    Formula.deontic_pos_iff (goal :: axioms)
  have htensed := Formula.pos_iff_any (m := OperatorCounts.tensed) rfl OperatorCounts.tensed_add
    Formula.tensed_pos_iff (goal :: axioms)
  show (Profile.ofFormulas _ _).fragment.logic? = _
  rw [Profile.logic?_fragment, Profile.counts_ofFormulas]
  simp only [hdeontic, htensed]

/-! ### What the engine goes by -/

namespace Engine

variable {config : EngineConfig}

/-- Unless it is prescribed, the logic in use depends on what occurs in the formulas. -/
theorem logicFor_of_unprescribed (h : config.logic = none) (goal : Formula)
    (axioms : List Formula) :
    logicFor config goal axioms =
      if (goal :: axioms).any (·.hasDeontic) then some .D
      else if (goal :: axioms).any (·.hasTemporal) then some .S4 else none := by
  rw [logicFor, h, Logic.isNeeded_eq, Logic.select_none_fst]
  cases (goal :: axioms).any (·.hasDeontic) <;> cases (goal :: axioms).any (·.hasTemporal) <;> rfl

/-- **Both come to the same logic.** -/
theorem logicFor_eq_logic?_fragment (analyzer : AnalyzerConfig) (h : config.logic = none)
    (goal : Formula) (axioms : List Formula) :
    logicFor config goal axioms = (analyzer.analyzeProblem goal axioms).fragment.logic? := by
  rw [logicFor_of_unprescribed h, AnalyzerConfig.logic?_fragment]

theorem isNeeded_eq_isSome (config : EngineConfig) (goal : Formula) (axioms : List Formula) :
    Logic.isNeeded (goal :: axioms) = (logicFor config goal axioms).isSome := by
  unfold logicFor
  split_ifs with h
  · exact h
  · exact Bool.eq_false_of_not_eq_true h

/-- Chaining never refutes a goal and never fails. -/
theorem status_chained (config : EngineConfig) (goal : Formula) (axioms : List Formula)
    (budget : Budget) (watch : Watch) {status : Status}
    (h : (chained config goal axioms budget watch).status = some status) :
    status = .proved ∨ status.isResourceLimit = true := by
  unfold chained at h
  rcases forward_outcome _ _ _ _ _ with ⟨_, heq⟩ | ⟨last, _, _, _, houtcome, _⟩
  · rw [heq] at h
    exact Or.inl (Option.some.inj h).symm
  · generalize forward _ _ _ _ _ = c at h houtcome
    cases houtcome with
    | fixpoint _ => cases h
    | stopped hlimit _ => exact Or.inr (Option.some.inj h ▸ hlimit)
    | goal _ _ _ _ => exact Or.inl (Option.some.inj h).symm

/-- Without a logic there is no tableau, so nothing is disproved. -/
theorem status_of_logicFor_eq_none (goal : Formula) (axioms : List Formula) (budget : Budget)
    (watch : Watch) (hdepth : ∀ f ∈ goal :: axioms, f.depth ≤ config.maxFormulaDepth)
    (h : logicFor config goal axioms = none) :
    (prove config goal axioms budget watch).status ≠ .disproved ∧
      (prove config goal axioms budget watch).status ≠ .error := by
  rw [(prove_eq config goal axioms budget watch (find?_eq_none_iff.mpr hdepth)).2, h]
  cases hchained : (chained config goal axioms budget watch).status with
  | none => exact ⟨by simp, by simp⟩
  | some status =>
    dsimp only
    rcases status_chained config goal axioms budget watch hchained with rfl | hlimit
    · decide
    · refine ⟨?_, ?_⟩ <;> rintro rfl <;> cases hlimit

/-- **The fragment of a problem is that of the logic it is tried in.**  Unless a logic is prescribed
or a formula is too deep, deontic and mixed problems are those for which `D` is selected and
reported, modal and temporal ones those that need a logic for which `S4` is selected and reported,
and the others those that need none, for which none is reported; these are never disproved and never
end in an error. -/
theorem fragment_iff_logic (analyzer : AnalyzerConfig) (config : EngineConfig) (goal : Formula)
    (axioms : List Formula) (budget : Budget) (watch : Watch) (hlogic : config.logic = none)
    (hdepth : ∀ f ∈ goal :: axioms, f.depth ≤ config.maxFormulaDepth) :
    let fragment := (analyzer.analyzeProblem goal axioms).fragment
    let selected := (Logic.select config.logic (goal :: axioms)).1
    let result := prove config goal axioms budget watch
    (fragment = .deontic ∨ fragment = .mixed ↔ selected = .D ∧ result.logic = some .D) ∧
      (fragment = .modal ∨ fragment = .temporal ↔
        Logic.isNeeded (goal :: axioms) = true ∧ selected = .S4 ∧ result.logic = some .S4) ∧
      (fragment = .arithmetic ∨ fragment = .quantified ∨ fragment = .firstOrder ∨
          fragment = .propositional ↔
        Logic.isNeeded (goal :: axioms) = false ∧ result.logic = none) ∧
      (Logic.isNeeded (goal :: axioms) = false →
        result.status ≠ .disproved ∧ result.status ≠ .error) := by
  intro fragment selected result
  have hfragment : logicFor config goal axioms = fragment.logic? :=
    logicFor_eq_logic?_fragment analyzer hlogic goal axioms
  have hresult : result.logic = logicFor config goal axioms :=
    (prove_eq config goal axioms budget watch (find?_eq_none_iff.mpr hdepth)).1
  -- what is reported is what was selected, if that was needed
  have hselected : ∀ l, logicFor config goal axioms = some l → selected = l := by
    intro l hl
    unfold logicFor at hl
    split_ifs at hl
    exact Option.some.inj hl
  rw [← Fragment.logic?_eq_D_iff, ← Fragment.logic?_eq_S4_iff, ← Fragment.logic?_eq_none_iff,
    ← hfragment, hresult, isNeeded_eq_isSome config]
  refine ⟨⟨fun h => ⟨hselected _ h, h⟩, fun h => h.2⟩, ⟨fun h => ⟨?_, hselected _ h, h⟩,
    fun h => h.2.2⟩, ⟨fun h => ⟨?_, h⟩, fun h => h.2⟩, fun h => ?_⟩
  · rw [h, Option.isSome_some]
  · rw [h, Option.isSome_none]
  · rw [Option.isSome_eq_false_iff, Option.isNone_iff_eq_none] at h
    exact status_of_logicFor_eq_none goal axioms budget watch hdepth h

/-- An operator below a quantifier and a negation of an axiom makes the problem temporal and the
logic `S4`; without it the goal does not follow either, and yet it is not disproved. -/
theorem fragment_iff_logic_buried :
    let p := Formula.atom "P"
    let buried := Formula.quant .all "x" (.not (.tense .next p))
    let tried := fun premise => prove {} p [premise] ⟨10, 1⟩ .still
    ((({} : EngineConfig).logic = none ∧
        (∀ f ∈ [p, buried], f.depth ≤ ({} : EngineConfig).maxFormulaDepth) ∧
        (({} : AnalyzerConfig).analyzeProblem p [buried]).fragment = .temporal) ∧
      (tried buried).logic = some .S4) ∧
    (Logic.isNeeded [p, .not (.not (.atom "Q"))] = false ∧
      (tried (.not (.not (.atom "Q")))).status ≠ .disproved) := by
  intro p buried tried
  have hdeep : ∀ f ∈ [p, buried], f.depth ≤ ({} : EngineConfig).maxFormulaDepth := by decide
  have htemporal : (({} : AnalyzerConfig).analyzeProblem p [buried]).fragment = .temporal := by
    decide
  have hburied := fragment_iff_logic {} {} p [buried] ⟨10, 1⟩ .still rfl hdeep
  have hplain := fragment_iff_logic {} {} p [.not (.not (.atom "Q"))] ⟨10, 1⟩ .still rfl (by decide)
  exact ⟨⟨⟨rfl, hdeep, htemporal⟩, (hburied.2.1.mp (Or.inr htemporal)).2.2⟩,
    ⟨rfl, (hplain.2.2.2 rfl).1⟩⟩

end Engine

end Deontica
