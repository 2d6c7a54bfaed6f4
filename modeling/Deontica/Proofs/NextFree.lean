import Deontica.Proofs.Engine
import Deontica.Proofs.Range
import Deontica.Proofs.Tableau.Branch

/-!
# Formulas without `X`

Where the operator `X` does not occur in a problem, it never comes up: a tableau only takes formulas
apart (`hereditary_nextFree`), and no rule has `X` in a conclusion (`Reachable.nextFree`).  So
nothing is ever asked of the next world, and models in which it is not seen will do.
-/

namespace Deontica

namespace Formula

/-! ### Taking formulas apart -/

@[simp] theorem hasNext_negation (f : Formula) : f.negation.hasNext = f.hasNext := by
  cases f <;> rfl

theorem hasNext_substitute (f : Formula) (x : String) (t : Term) :
    (f.substitute x t).hasNext = f.hasNext := by
  induction f with
  | pred p args => rfl
  | not a ih => exact ih
  | binary op a b iha ihb => simp only [substitute, hasNext, iha, ihb]
  | quant q y a ih =>
    rw [substitute]
    split_ifs
    · rfl
    · exact ih
  | deontic op a ih => exact ih
  | tense op a ih =>
    cases op with
    | always | eventually => exact ih
    | next => rfl
  | span op a b iha ihb => simp only [substitute, hasNext, iha, ihb]

/-- A denial is about formulas with `X` only if the formula has `X`. -/
theorem hasNext_of_mem_denial {f g : Formula} (hg : g ∈ f.denial.parts) (h : g.hasNext = true) :
    f.hasNext = true := by
  match f, hg with
  | .not a, hg =>
    rw [List.mem_singleton.mp hg] at h
    exact h
  | .binary op l r, hg =>
    rw [hasNext, Bool.or_eq_true]
    cases op <;> simp [denial, Demand.parts] at hg <;> grind [hasNext_negation]
  | .quant q x a, hg =>
    cases q <;> rw [List.mem_singleton.mp hg, hasNext_negation] at h <;> exact h
  | .obligatory a, hg | .permitted a, hg =>
    rw [List.mem_singleton.mp hg, hasNext_negation] at h
    exact h
  | .forbidden a, hg =>
    rw [List.mem_singleton.mp hg] at h
    exact h
  | .always a, hg | .eventually a, hg =>
    rw [List.mem_singleton.mp hg, hasNext_negation] at h
    exact h
  | .next a, _ => rfl
  | .span op l r, hg =>
    rw [List.mem_singleton.mp hg, hasNext_negation] at h
    rw [hasNext, h, Bool.or_true]

/-- A demand is about formulas with `X` only if the formula has `X`. -/
theorem hasNext_of_mem_demand {f g : Formula} (hg : g ∈ f.demand.parts) (h : g.hasNext = true) :
    f.hasNext = true := by
  match f, hg with
  | .not a, hg => exact hasNext_of_mem_denial (f := a) hg h
  | .binary op l r, hg =>
    rw [hasNext, Bool.or_eq_true]
    cases op <;> simp [demand, Demand.parts] at hg <;> grind [hasNext_negation]
  | .quant q x a, hg =>
    cases q <;> rw [List.mem_singleton.mp hg] at h <;> exact h
  | .obligatory a, hg | .permitted a, hg =>
    rw [List.mem_singleton.mp hg] at h
    exact h
  | .forbidden a, hg =>
    rw [List.mem_singleton.mp hg, hasNext_negation] at h
    exact h
  | .always a, hg | .eventually a, hg =>
    rw [List.mem_singleton.mp hg] at h
    exact h
  | .next a, _ => rfl
  | .span op l r, hg =>
    rw [hasNext, Bool.or_eq_true]
    cases op <;> simp [demand, Demand.parts] at hg <;> grind [hasNext]

/-- Only a formula with `X` demands something of the next world. -/
theorem hasNext_of_demand_eq_next {f a : Formula} (h : f.demand = .next a) : f.hasNext = true := by
  match f, h with
  | .not (.next b), _ => rfl
  | .next b, _ => rfl

end Formula

/-- The formula has no `X`. -/
def NextFree (f : Formula) : Prop :=
  f.hasNext = false

instance : DecidablePred NextFree := fun f => inferInstanceAs (Decidable (f.hasNext = false))

theorem Branch.hereditary_nextFree : Hereditary NextFree where
  parts hf hg := by
    rw [NextFree, ← Bool.not_eq_true] at hf ⊢
    exact fun h => hf (Formula.hasNext_of_mem_demand hg h)
  substitute x c hf := (Formula.hasNext_substitute _ x _).trans hf

/-! ### Rules -/

namespace Pattern

/-- Whether `X` occurs in the pattern itself. -/
def hasNext : Pattern → Bool
  | .hole _ => false
  | .tense .next _ => true
  | .not p | .deontic _ p | .tense .always p | .tense .eventually p => p.hasNext
  | .binary _ p q | .span _ p q => p.hasNext || q.hasNext

/-- A filled pattern has `X` if the pattern has, or what fills one of its holes. -/
theorem nextFree_fill_iff (σ : String → Formula) (p : Pattern) :
    NextFree (p.fill σ) ↔ p.hasNext = false ∧ ∀ x ∈ p.holes, NextFree (σ x) := by
  induction p with
  | hole x => simp [fill, hasNext, holes]
  | not p ih => exact ih
  | binary op p q ihp ihq =>
    simp only [NextFree] at ihp ihq
    simp [NextFree, fill, hasNext, holes, Formula.hasNext, ihp, ihq, or_imp, forall_and]
    tauto
  | deontic op p ih => exact ih
  | tense op p ih =>
    cases op with
    | always | eventually => exact ih
    | next => simp [NextFree, fill, hasNext, Formula.hasNext]
  | span op p q ihp ihq =>
    simp only [NextFree] at ihp ihq
    simp [NextFree, fill, hasNext, holes, Formula.hasNext, ihp, ihq, or_imp, forall_and]
    tauto

end Pattern

namespace Rule

/-- Whether `X` occurs in the conclusion of the rule, if it is a schema. -/
def concludesNext : Rule → Bool
  | .schema s => s.conclusion.hasNext
  | .instantiation | .generalization => false

theorem concludesNext_of_mem_catalogue : ∀ r ∈ catalogue, r.concludesNext = false := by
  decide

/-- **No rule brings `X` up.**  What a rule concludes is without `X` if its premises and the
formulas aimed at are. -/
theorem Instance.nextFree {r : Rule} (hr : r ∈ catalogue) {targets : Set Formula}
    {domain : Set Term} {premises : List Formula} {conclusion : Formula}
    (h : Instance targets domain r premises conclusion) (htargets : ∀ f ∈ targets, NextFree f)
    (hprem : ∀ f ∈ premises, NextFree f) : NextFree conclusion := by
  cases h with
  | @schema s bs premises conclusion hfits htarget =>
    cases hdir : s.direction with
    | goalDirected => exact htargets _ (htarget hdir)
    | forward =>
      -- what fills a hole of the conclusion fills one of a premise
      obtain ⟨hpremises, hconclusion⟩ := hfits.eq_fill
      rw [hconclusion, Pattern.nextFree_fill_iff]
      refine ⟨concludesNext_of_mem_catalogue _ hr, fun x hx => ?_⟩
      obtain ⟨p, hp, hxp⟩ :=
        Schema.exists_mem_holes (isDetermined_of_mem_catalogue _ hr) hdir hx
      have hfree : NextFree (p.fill bs.filling) :=
        hprem _ (hpremises ▸ List.mem_map_of_mem hp)
      exact ((Pattern.nextFree_fill_iff _ p).mp hfree).2 x hxp
  | instantiation _ =>
    have hall : NextFree _ := List.forall_mem_singleton.mp hprem
    exact (Formula.hasNext_substitute _ _ _).trans hall
  | generalization htarget _ => exact htargets _ htarget

end Rule

/-- A subformula has `X` only if the formula has. -/
theorem NextFree.of_mem_subformulas {f g : Formula} (hf : NextFree f) (hg : g ∈ f.subformulas) :
    NextFree g := by
  induction f with
  | pred p args => exact List.mem_singleton.mp hg ▸ hf
  | not a ih =>
    rcases List.mem_cons.mp hg with rfl | hg
    · exact hf
    · exact ih hf hg
  | binary op a b iha ihb | span op a b iha ihb =>
    obtain ⟨ha, hb⟩ := Bool.or_eq_false_iff.mp hf
    rcases List.mem_cons.mp hg with rfl | hg
    · exact hf
    · exact (List.mem_append.mp hg).elim (iha ha) (ihb hb)
  | quant q x a ih | deontic op a ih =>
    rcases List.mem_cons.mp hg with rfl | hg
    · exact hf
    · exact ih hf hg
  | tense op a ih =>
    rcases List.mem_cons.mp hg with rfl | hsub
    · exact hf
    · cases op with
      | always | eventually => exact ih hf hsub
      | next => cases hf

open Engine in
/-- **Facts are without `X`** if the problem is. -/
theorem Search.Reachable.nextFree {logic : Option Logic} {goal : Formula} {axioms : List Formula}
    {s : Search} (hs : Reachable (activeRules logic) (Search.start goal axioms) s)
    (h : ∀ f ∈ goal :: axioms, NextFree f) : ∀ f ∈ s.facts, NextFree f := by
  refine hs.forall_facts (fun f hf => h f (List.mem_cons_of_mem _ (mem_start.mp hf))) ?_
  intro s r d hs' hr hd hprem
  obtain ⟨_, hinst, _, _⟩ := Rule.apply_instance hd
  refine hinst.nextFree (List.mem_filter.mp hr).1 (fun f hf => ?_) hprem
  have htarget : f ∈ s.targets := hf
  rw [hs'.targets_eq, mem_start_targets] at htarget
  obtain ⟨g, hg, hsub⟩ := htarget
  exact (h g hg).of_mem_subformulas hsub

end Deontica
