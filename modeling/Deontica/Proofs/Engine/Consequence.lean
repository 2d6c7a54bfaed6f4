import Deontica.Proofs.Engine
import Deontica.Proofs.Tableau.Closure

/-!
# What is proved follows

A goal follows from axioms in a modal logic if it is true at every world of every model of the logic
at which the axioms are; without a logic, if it is true in every first-order structure in which they
are (`Entails`).  Rules preserve truth and closed tableaux refute, so in the logics with reflexive
relations, and without a logic, all that the engine proves follows.
-/

namespace Deontica

universe u v

variable {W : Type u} {D : Type v}

/-! ### First-order structures -/

/-- What a connective makes of two statements. -/
def Connective.holds (op : Connective) (p q : Prop) : Prop :=
  match op with
  | .and => p ∧ q
  | .or => p ∨ q
  | .implies => p → q
  | .iff => p ↔ q
  | .xor => ¬(p ↔ q)

/-- A first-order structure with the domain `D`. -/
structure Structure (D : Type v) where
  const : String → D
  func : String → List D → D
  pred : String → List D → Prop

namespace Structure

mutual

/-- The value of a term when `ν` gives the values of the variables. -/
def value (S : Structure D) (ν : String → D) : Term → D
  | .var x => ν x
  | .const c => S.const c
  | .app f args => S.func f (S.values ν args)

/-- The values of some terms. -/
def values (S : Structure D) (ν : String → D) : List Term → List D
  | [] => []
  | t :: ts => S.value ν t :: S.values ν ts

end

/-- Whether a formula is true.  A modal operator has no meaning in a structure. -/
def holds (S : Structure D) : Formula → (String → D) → Prop
  | .pred p args, ν => S.pred p (S.values ν args)
  | .not a, ν => ¬S.holds a ν
  | .binary op a b, ν => op.holds (S.holds a ν) (S.holds b ν)
  | .quant .all x a, ν => ∀ d, S.holds a (Function.update ν x d)
  | .quant .exists x a, ν => ∃ d, S.holds a (Function.update ν x d)
  | .deontic _ _, _ | .tense _ _, _ | .span _ _ _, _ => False

/-- The structure as the only world of a model, which sees itself. -/
def toModel (S : Structure D) : Model Unit D where
  sees _ _ _ := True
  next _ := ()
  const := S.const
  func := S.func
  pred _ := S.pred
  span _ _ B := B

mutual

theorem value_toModel (S : Structure D) (ν : String → D) :
    ∀ t : Term, S.toModel.value ν t = S.value ν t
  | .var _ => rfl
  | .const _ => rfl
  | .app f args => by
    show S.func f (S.toModel.values ν args) = S.func f (S.values ν args)
    rw [values_toModel S ν args]

theorem values_toModel (S : Structure D) (ν : String → D) :
    ∀ ts : List Term, S.toModel.values ν ts = S.values ν ts
  | [] => rfl
  | t :: ts => by
    show S.toModel.value ν t :: S.toModel.values ν ts = S.value ν t :: S.values ν ts
    rw [value_toModel S ν t, values_toModel S ν ts]

end

/-- A formula without modal operators is true in the structure if it is true in the model. -/
theorem mem_truth_toModel (S : Structure D) (w : Unit) (f : Formula) :
    f.hasDeontic = false → f.hasTemporal = false →
      ∀ ν, w ∈ S.toModel.truth f ν ↔ S.holds f ν := by
  induction f with
  | pred p args =>
    intro _ _ ν
    show S.pred p (S.toModel.values ν args) ↔ S.pred p (S.values ν args)
    rw [values_toModel]
  | not a ih =>
    intro hd ht ν
    exact not_congr (ih hd ht ν)
  | binary op a b iha ihb =>
    intro hd ht ν
    obtain ⟨hda, hdb⟩ := Bool.or_eq_false_iff.mp hd
    obtain ⟨hta, htb⟩ := Bool.or_eq_false_iff.mp ht
    have ha := iha hda hta ν
    have hb := ihb hdb htb ν
    cases op
    · exact and_congr ha hb
    · exact or_congr ha hb
    · show (w ∉ S.toModel.truth a ν ∨ w ∈ S.toModel.truth b ν) ↔ (S.holds a ν → S.holds b ν)
      rw [ha, hb, imp_iff_not_or]
    · exact iff_congr ha hb
    · exact not_congr (iff_congr ha hb)
  | quant q x a ih =>
    intro hd ht ν
    cases q
    · show (∀ d ∈ Set.univ, w ∈ S.toModel.truth a _) ↔ ∀ d, S.holds a _
      simp only [Set.mem_univ, true_implies, ih hd ht]
    · show (∃ d ∈ Set.univ, w ∈ S.toModel.truth a _) ↔ ∃ d, S.holds a _
      simp only [Set.mem_univ, true_and, ih hd ht]
  | deontic op a ih =>
    intro hd
    cases hd
  | tense op a ih =>
    intro _ ht
    cases ht
  | span op a b iha ihb =>
    intro _ ht
    cases ht

theorem meets_toModel (S : Structure D) (logic : Logic) : S.toModel.Meets logic :=
  ⟨fun _ _ _ => trivial, fun _ _ _ _ _ _ _ => trivial, fun _ _ _ _ _ => trivial,
    fun _ _ _ => ⟨(), trivial⟩⟩

theorem bounded_toModel (S : Structure D) : S.toModel.Bounded :=
  ⟨fun _ _ => Set.Subset.rfl, fun _ _ => Set.subset_union_left, fun _ _ => Set.Subset.rfl,
    fun _ _ => Set.subset_union_left⟩

end Structure

/-! ### Consequence -/

/-- The goal is true wherever the premises are: at the worlds of all models of the logic in which
the next world is seen and spanning formulas keep their bounds, or, without a logic, in all
first-order structures. -/
def Entails (logic : Option Logic) (premises : List Formula) (goal : Formula) : Prop :=
  match logic with
  | some logic =>
    ∀ (W : Type u) (D : Type v) (M : Model W D), M.Meets logic → M.SeesNext → M.Bounded →
      ∀ (w : W) (ν : String → D), (∀ f ∈ premises, w ∈ M.truth f ν) → w ∈ M.truth goal ν
  | none =>
    ∀ (D : Type v) (S : Structure D) (ν : String → D),
      (∀ f ∈ premises, S.holds f ν) → S.holds goal ν

namespace Engine

open Search

/-- In reflexive models `A U B` promises `◊B`. -/
theorem until_subset_diamond {M : Model W D} (hB : M.Bounded)
    (hrefl : ∀ w, M.sees .temporal w w) (A B : Set W) :
    M.span .until A B ⊆ M.diamond .temporal B := by
  intro w hw
  rcases hB.until_le A B hw with hb | ⟨_, hb⟩
  · exact ⟨w, hrefl w, hb⟩
  · exact hb

/-- A rule that is active without a logic is active in all. -/
theorem isActive_of_isActive_none {r : Rule} (h : r.isActive none = true) (logic : Logic) :
    r.isActive (some logic) = true := by
  cases r with
  | schema s =>
    simp only [Rule.isActive] at h ⊢
    cases hf : s.frame with
    | none => rfl
    | some condition =>
      rw [hf] at h
      cases h
  | instantiation => rfl
  | generalization => rfl

/-- **Facts are true wherever the axioms are**, in the models of a logic in which the rules are
active, with quantifiers over any range in which all constants have their values.  Two rules need
more than the logic asks for, if they were used. -/
theorem mem_truthIn_of_reachable {used : Option Logic} (logic : Logic)
    (hrules : ∀ r : Rule, r.isActive used = true → r.isActive (some logic) = true)
    {M : Model W D} (hM : M.Meets logic) {E : Set D} (hE : ∀ c, M.const c ∈ E)
    {goal : Formula} {axioms : List Formula} {s : Search}
    (hs : Reachable (activeRules used) (.start goal axioms) s)
    (huntil : (∃ d ∈ s.steps, d.rule = "until_eventually") →
      ∀ A B, M.span .until A B ⊆ M.diamond .temporal B)
    (hnow : (∃ d ∈ s.steps, d.rule = "always_obligation_now") → ∀ w, M.sees .temporal w w)
    {w : W} {ν : String → D} (hax : ∀ f ∈ axioms, w ∈ M.truthIn E f ν) :
    ∀ f ∈ s.facts, w ∈ M.truthIn E f ν := by
  induction hs with
  | start => exact fun f hf => hax f (mem_start.mp hf)
  | @record s r d hs hr hd ih =>
    have hkeep : ∀ d' ∈ s.steps, d' ∈ (s.record d).steps := fun d' h => List.mem_append_left _ h
    have hold := ih (fun ⟨d', h, hname⟩ => huntil ⟨d', hkeep d' h, hname⟩)
      (fun ⟨d', h, hname⟩ => hnow ⟨d', hkeep d' h, hname⟩)
    intro f hf
    rcases Reachable.mem_record.mp hf with hf | rfl
    · exact hold f hf
    · obtain ⟨hcat, hactive⟩ := List.mem_filter.mp hr
      have hlast : d ∈ (s.record d).steps := List.mem_append_right _ (List.mem_singleton.mpr rfl)
      have hname := (Rule.apply_instance hd).1
      refine Rule.mem_truthIn_of_apply hcat (hrules r hactive) hd (fun t ht => ?_) hM
        (fun h => huntil ⟨d, hlast, hname.symm.trans h⟩)
        (fun h => hnow ⟨d, hlast, hname.symm.trans h⟩) ⟨M.const "", hE ""⟩
        (fun _ _ c _ => hE c) fun g hg => hold g (Rule.mem_facts_of_apply hd g hg)
      have hdomain : t ∈ s.domain := ht
      rw [hs.domain_eq] at hdomain
      exact exists_const_of_mem_start hdomain

/-- In the models of a reflexive logic all rules can be relied on. -/
theorem mem_truth_of_reachable {used : Option Logic} (logic : Logic)
    (hrules : ∀ r : Rule, r.isActive used = true → r.isActive (some logic) = true)
    (hlogic : logic.isReflexive = true) {M : Model W D} (hM : M.Meets logic) (hB : M.Bounded)
    {goal : Formula} {axioms : List Formula} {s : Search}
    (hs : Reachable (activeRules used) (.start goal axioms) s) {w : W} {ν : String → D}
    (hax : ∀ f ∈ axioms, w ∈ M.truth f ν) : ∀ f ∈ s.facts, w ∈ M.truth f ν :=
  have hrefl := hM.reflexive hlogic .temporal
  mem_truthIn_of_reachable logic hrules hM (fun _ => Set.mem_univ _) hs
    (fun _ => until_subset_diamond hB hrefl) (fun _ => hrefl) hax

/-- **A goal that is proved is true wherever the axioms are**, in every model of the logic that was
used, if worlds see themselves or the two rules that need it were not used, and the next world is
seen or `X` does not occur. -/
theorem mem_truthIn_of_proved {config : EngineConfig} {goal : Formula} {axioms : List Formula}
    {budget : Budget} {watch : Watch}
    (hproved : (prove config goal axioms budget watch).status = .proved) {M : Model W D}
    (hM : ∀ logic, (prove config goal axioms budget watch).logic = some logic → M.Meets logic)
    (hB : M.Bounded)
    (hrules : (∀ w, M.sees .temporal w w) ∨ ∀ d ∈ (prove config goal axioms budget watch).steps,
      d.rule ≠ "until_eventually" ∧ d.rule ≠ "always_obligation_now")
    (hN : M.SeesNext ∨ ∀ f ∈ goal :: axioms, NextFree f) {E : Set D} (hE : ∀ c, M.const c ∈ E)
    {w : W} {ν : String → D} (hax : ∀ f ∈ axioms, w ∈ M.truthIn E f ν) :
    w ∈ M.truthIn E goal ν := by
  obtain ⟨hused, hsteps, hcase⟩ :=
    prove_cases_chained config goal axioms budget watch (by rw [hproved]; rfl)
  have hs : Reachable (activeRules (logicFor config goal axioms)) (.start goal axioms)
      (chained config goal axioms budget watch).search := (ends_forward _ _ _ _ _).reachable
  rw [hused] at hM
  generalize hsearch : (chained config goal axioms budget watch).search = s at hs hsteps hcase
  -- the rules were active in a logic of which the model is one
  obtain ⟨logic, hactive, hmeets⟩ : ∃ logic,
      (∀ r : Rule, r.isActive (logicFor config goal axioms) = true →
        r.isActive (some logic) = true) ∧ M.Meets logic := by
    cases hl : logicFor config goal axioms with
    | none => exact ⟨.K, fun r hr => isActive_of_isActive_none hr _, M.meets_K⟩
    | some logic => exact ⟨logic, fun _ hr => hr, hM logic hl⟩
  have hfacts : ∀ f ∈ s.facts, w ∈ M.truthIn E f ν := by
    refine mem_truthIn_of_reachable logic hactive hmeets hE hs ?_ ?_ hax
    · rintro ⟨d, hd, hname⟩
      rcases hrules with hrefl | hnone
      · exact until_subset_diamond hB hrefl
      · exact absurd hname (hnone d (hsteps hd)).1
    · rintro ⟨d, hd, hname⟩
      rcases hrules with hrefl | hnone
      · exact hrefl
      · exact absurd hname (hnone d (hsteps hd)).2
  rcases hcase with ⟨_, hgoal⟩ | ⟨t, isOver, steps, looks, ht, hstatus⟩
  · exact hfacts goal hgoal
  · rw [hproved] at hstatus
    obtain ⟨branches, worlds, hclosed⟩ := eq_closed_of_verdictStatus hstatus.symm
    refine Tableau.mem_truthIn_of_refute hclosed (hM _ ht) (hN.imp id fun hfree => ?_) hB hE hfacts
    exact List.forall_mem_cons.mpr ⟨hfree goal List.mem_cons_self, hs.nextFree hfree⟩

theorem not_modal_of_logicFor {config : EngineConfig} {goal : Formula} {axioms : List Formula}
    (h : logicFor config goal axioms = none) :
    ∀ f ∈ goal :: axioms, f.hasDeontic = false ∧ f.hasTemporal = false := by
  unfold logicFor at h
  split_ifs at h with hneeded
  intro f hf
  rw [Logic.isNeeded, List.any_eq_true, not_exists] at hneeded
  have := hneeded f
  simp only [not_and, Bool.not_eq_true, Bool.or_eq_false_iff] at this
  exact this hf

/-- **What is proved follows.**  If the engine proves a goal from axioms and used no logic, `T`,
`S4` or `S5`, then the goal is a consequence of the axioms. -/
theorem entails_of_proved (config : EngineConfig) (goal : Formula) (axioms : List Formula)
    (budget : Budget) (watch : Watch)
    (hproved : (prove config goal axioms budget watch).status = .proved)
    (hlogic : (prove config goal axioms budget watch).logic ∈
      [none, some .T, some .S4, some .S5]) :
    Entails.{u, v} (prove config goal axioms budget watch).logic axioms goal := by
  obtain ⟨hused, s, hs, hcase⟩ := prove_cases config goal axioms budget watch (by rw [hproved]; rfl)
  rw [hused] at hlogic ⊢
  cases hl : logicFor config goal axioms with
  | none =>
    rw [hl] at hs hcase
    rcases hcase with ⟨_, hgoal⟩ | ⟨t, _, _, _, ht, _⟩
    · -- without modal operators a structure is a model of every logic, so take the strongest
      intro D S ν hax
      have hplain := not_modal_of_logicFor hl
      obtain ⟨hd, ht⟩ := hplain goal List.mem_cons_self
      rw [← S.mem_truth_toModel () goal hd ht]
      refine mem_truth_of_reachable .S5 (fun r hr => isActive_of_isActive_none hr _) rfl
        (S.meets_toModel _) S.bounded_toModel hs (fun f hf => ?_) goal hgoal
      obtain ⟨hd, ht⟩ := hplain f (List.mem_cons_of_mem _ hf)
      exact (S.mem_truth_toModel () f hd ht ν).mpr (hax f hf)
    · cases ht
  | some logic =>
    rw [hl] at hs hcase hlogic
    have hrefl : logic.isReflexive = true := by
      simp only [List.mem_cons, reduceCtorEq, Option.some.injEq, List.not_mem_nil, or_false,
        false_or] at hlogic
      rcases hlogic with rfl | rfl | rfl <;> rfl
    intro W D M hM hN hB w ν hax
    have hfacts := mem_truth_of_reachable logic (fun _ hr => hr) hrefl hM hB hs hax
    rcases hcase with ⟨_, hgoal⟩ | ⟨t, isOver, steps, looks, ht, hstatus⟩
    · exact hfacts goal hgoal
    · cases ht
      rw [hproved] at hstatus
      obtain ⟨branches, worlds, hclosed⟩ := eq_closed_of_verdictStatus hstatus.symm
      exact Tableau.mem_truth_of_refute hclosed hM hN hB hfacts

/-- In `S5` what is possibly always so is so: two worlds have to be closed by the tableau. -/
theorem entails_of_proved_possibly_always :
    (prove { logic := some .S5 } (.atom "P") [(Formula.atom "P").always.eventually] ⟨100, 1⟩
      .still).status = .proved ∧
    Entails.{0, 0} (prove { logic := some .S5 } (.atom "P")
      [(Formula.atom "P").always.eventually] ⟨100, 1⟩ .still).logic
      [(Formula.atom "P").always.eventually] (.atom "P") :=
  ⟨by decide +kernel, entails_of_proved _ _ _ _ _ (by decide +kernel) (by decide +kernel)⟩

end Engine

end Deontica
