import Deontica.Proofs.Rule
import Deontica.Proofs.Tableau.BranchModel

/-!
# Rules and tableaux

A rule is active in the logics that meet its frame condition, and in those the tableau should never
find a counter-model to what the rule concludes.  It does not, since what a rule concludes is true
in the model of a saturated branch if its premises are; but the rule from `□O(A)` to `O(A)` has no
frame condition although it needs a reflexive relation.  That rule apart, rules and tableaux agree
(`refute_ne_open_iff`).
-/

namespace Deontica

namespace Rule

open Branch

/-- A tableau does not find a counter-model to what a valid rule concludes. -/
theorem refute_ne_open {r : Rule} {logic : Logic} (hr : r ∈ catalogue)
    (hactive : r.isActive (some logic) = true)
    (hnow : r.name = "always_obligation_now" → logic.isReflexive = true) {scene : Scene} {d : Step}
    (hdomain : ∀ t ∈ scene.domain, ∃ c, t = .const c) (h : r.apply scene = some d)
    {t : Tableau} (ht : t.logic = logic) (isOver : Nat → Bool) (steps looks n : Nat) :
    t.refute d.premises d.conclusion isOver steps looks ≠ .open n := by
  intro hopen
  obtain ⟨b, hb, hlogic, hseen⟩ := Tableau.exists_saturated_of_refute (Q := fun _ => True)
    hereditary_true (fun _ _ => trivial) hopen
  rw [ht] at hlogic
  have hprem : ∀ f ∈ d.premises, (0, f) ∈ b.seen := fun f hf =>
    hseen f (List.mem_append_left _ hf)
  have hneg : (0, d.conclusion.negation) ∈ b.seen :=
    hseen _ (List.mem_append_right _ (List.mem_singleton.mpr rfl))
  -- no spanning formula is on the branch, so they may be read as never true
  have hmeets := hb.meets_model fun _ _ _ => ∅
  rw [hlogic] at hmeets
  have htrue := mem_truthIn_of_apply hr hactive h hdomain hmeets
    (fun _ _ _ => Set.empty_subset _) (fun hname => hmeets.reflexive (hnow hname) _)
    b.named_nonempty
    (fun f hf c hc => const_mem_named ?_)
    (fun f hf => hb.mem_truthIn_named _ (hprem f hf))
  · -- but the branch has the opposite of the conclusion
    have hfalse := hb.mem_truthIn_named (fun _ _ _ => ∅) hneg
    rw [Model.mem_truthIn_negation] at hfalse
    exact hfalse htrue
  · -- all constants that occur are those of formulas on the branch
    rcases List.mem_cons.mp hf with rfl | hf
    · have hconst := (hb.wellFormed.seen _ hneg).2.1
      rw [Formula.constantOccurrences_negation] at hconst
      exact hconst hc
    · exact (hb.wellFormed.seen _ (hprem f hf)).2.1 hc

/-! ### Standing obligations -/

/-- The rule from `□O(A)` to `O(A)`. -/
def standingRule : Rule :=
  forward "always_obligation_now" .combined [holeA.obligatory.always] holeA.obligatory
    "a standing obligation holds now: □O(A) ⊢ O(A)" none

theorem standingRule_mem : standingRule ∈ catalogue :=
  List.mem_append_right _ (List.mem_cons_of_mem _ (List.mem_singleton.mpr rfl))

/-- A scene with the standing obligation `□O(P)`. -/
def standing : Scene := ⟨[(Formula.atom "P").obligatory.always], [], []⟩

/-- The step from `□O(P)` to `O(P)`. -/
def standingStep : Step where
  rule := "always_obligation_now"
  premises := [(Formula.atom "P").obligatory.always]
  conclusion := (Formula.atom "P").obligatory
  justification := "a standing obligation holds now: □O(A) ⊢ O(A)"

theorem apply_standing : ∀ r ∈ catalogue, r.name = "always_obligation_now" →
    r.apply standing = some standingStep := by
  decide +kernel

/-- Without reflexivity the world itself need not be one at which the obligation stands. -/
theorem refute_standing {logic : Logic} (h : logic.isReflexive = false) :
    ∃ n, Tableau.refute ⟨logic, 8, 8⟩ standingStep.premises standingStep.conclusion
      (fun _ => false) 20 0 = .open n := by
  cases logic with
  | K => exact ⟨2, by decide +kernel⟩
  | D => exact ⟨4, by decide +kernel⟩
  | T | S4 | S5 => cases h

/-- **Rules and tableaux agree**, except for the rule that a standing obligation holds now: for an
active rule, the tableau never finds a counter-model to a step exactly if the rule is another one or
the logic is reflexive. -/
theorem refute_ne_open_iff {r : Rule} {logic : Logic} (hr : r ∈ catalogue)
    (hactive : r.isActive (some logic) = true) :
    (∀ (scene : Scene) (d : Step) (maxWorlds maxBranches : Nat) (isOver : Nat → Bool)
      (steps looks n : Nat), (∀ t ∈ scene.domain, ∃ c, t = .const c) → r.apply scene = some d →
      Tableau.refute ⟨logic, maxWorlds, maxBranches⟩ d.premises d.conclusion isOver steps looks ≠
        .open n) ↔
      (r.name = "always_obligation_now" → logic.isReflexive = true) := by
  constructor
  · intro h hname
    by_contra hrefl
    obtain ⟨n, hopen⟩ := refute_standing (Bool.not_eq_true _ ▸ hrefl)
    exact h standing standingStep 8 8 (fun _ => false) 20 0 n nofun
      (apply_standing r hr hname) hopen
  · intro hnow scene d maxWorlds maxBranches isOver steps looks n hdomain h
    exact refute_ne_open hr hactive hnow hdomain h rfl isOver steps looks n

/-- In `S4` no tableau finds a counter-model to an obligation that holds because it stands. -/
theorem refute_ne_open_iff_standing :
    standingRule ∈ catalogue ∧ standingRule.isActive (some .S4) = true ∧
      ∀ (isOver : Nat → Bool) (steps looks n : Nat),
        Tableau.refute ⟨.S4, 64, 1024⟩ standingStep.premises standingStep.conclusion isOver steps
          looks ≠ .open n :=
  ⟨standingRule_mem, rfl, fun isOver steps looks n =>
    (refute_ne_open_iff standingRule_mem rfl).mpr (fun _ => rfl) standing standingStep 64 1024
      isOver steps looks n nofun (apply_standing standingRule standingRule_mem rfl)⟩

/-- In `D` the step is taken, and the tableau finds a counter-model to it. -/
theorem standing_open_in_serial :
    standingRule ∈ catalogue ∧ standingRule.isActive (some .D) = true ∧
      standingRule.apply standing = some standingStep ∧
      Tableau.refute ⟨.D, 64, 1024⟩ standingStep.premises standingStep.conclusion
        (fun _ => false) 1000 0 = .open 4 :=
  ⟨standingRule_mem, rfl, apply_standing standingRule standingRule_mem rfl, by decide +kernel⟩

end Rule

end Deontica
