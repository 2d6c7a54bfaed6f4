import Deontica.Proofs.Kripke
import Deontica.Tableau.Branch
import Mathlib.Tactic.Tauto

/-!
# What a formula demands of a branch

Expanding a formula takes one of a few forms, whatever operator stands at its root: some formulas
are to hold at the same world, one of several lists of them is, something holds for every constant
or for some constant, at every successor, at some successor, or at the next world.  `Formula.demand`
says which, and `Branch.expand_eq` that expanding a formula is to meet its demand.  So a fact about
steps has one case for each form in place of one for each operator and its negation.

A formula that is true meets its demand (`Demand.met_of_mem`).  The converse (`Demand.met_iff`)
holds unless the formula is spanning, when its demand is weaker than itself, or a literal, when it
demands nothing.
-/

namespace Deontica

universe u v

/-- What a formula asks for at the world where it is to hold. -/
inductive Demand where
  | nothing
  /-- All the formulas hold. -/
  | all (fs : List Formula)
  /-- All the formulas of one of the lists hold. -/
  | choice (alternatives : List (List Formula))
  | every (x : String) (a : Formula)
  | some (x : String) (a : Formula)
  | box (r : Relation) (a : Formula)
  | diamond (r : Relation) (a : Formula)
  | next (a : Formula)

namespace Formula

/-- What the negation of a formula demands. -/
def denial : Formula → Demand
  | .pred _ _ => .nothing
  | .not a => .all [a]
  | .and l r => .choice [[l.negation], [r.negation]]
  | .or l r => .all [l.negation, r.negation]
  | .implies l r => .all [l, r.negation]
  | .iff l r => .choice [[l, r.negation], [l.negation, r]]
  | .xor l r => .choice [[l, r], [l.negation, r.negation]]
  | .all x a => .some x a.negation
  | .exists x a => .every x a.negation
  | .obligatory a => .diamond .deontic a.negation
  | .permitted a => .box .deontic a.negation
  | .forbidden a => .diamond .deontic a
  | .always a => .diamond .temporal a.negation
  | .eventually a => .box .temporal a.negation
  | .next a => .next a.negation
  | .span _ _ r => .all [r.negation]

/-- What a formula demands. -/
def demand : Formula → Demand
  | .pred _ _ => .nothing
  | .not a => a.denial
  | .and l r => .all [l, r]
  | .or l r => .choice [[l], [r]]
  | .implies l r => .choice [[l.negation], [r]]
  | .iff l r => .choice [[l, r], [l.negation, r.negation]]
  | .xor l r => .choice [[l, r.negation], [l.negation, r]]
  | .all x a => .every x a
  | .exists x a => .some x a
  | .obligatory a => .box .deontic a
  | .permitted a => .diamond .deontic a
  | .forbidden a => .box .deontic a.negation
  | .always a => .box .temporal a
  | .eventually a => .diamond .temporal a
  | .next a => .next a
  | .until l r => .choice [[r], [l, r.eventually]]
  | .since l r => .choice [[r], [l]]

/-- Whether the formula is a spanning formula or the negation of one. -/
def isSpanning : Formula → Bool
  | .span _ _ _ | .not (.span _ _ _) => true
  | _ => false

/-- Whether the formula is a predicate or the negation of one. -/
def isLiteral : Formula → Bool
  | .pred _ _ | .not (.pred _ _) => true
  | _ => false

end Formula

namespace Branch

/-- Meets a demand at a world. -/
def meet (b : Branch) (w : World) : Demand → Step
  | .nothing => .progress b
  | .all fs => .progress (b.addAll (fs.map (w, ·)))
  | .choice alternatives => .split b (alternatives.map (·.map (w, ·)))
  | .every x a => .progress (b.universal w x a)
  | .some x a => .progress (b.existential w x a)
  | .box r a => .progress (b.box r w a)
  | .diamond r a => .progress (b.diamond r w a)
  | .next a => .progress (b.next w a)

/-- The branch, marked as approximate if what is expanded is a spanning formula. -/
def noting (b : Branch) (f : Formula) : Branch :=
  if f.isSpanning then { b with approximate := true } else b

/-- Expanding the negation of a formula is to meet its denial. -/
theorem expandNot_eq (b : Branch) (w : World) (f : Formula) :
    b.expandNot w f = (b.noting f.not).meet w f.denial := by
  match f with
  | .pred _ _ | .not _ | .span _ _ _ => rfl
  | .binary op _ _ => cases op <;> rfl
  | .quant q _ _ => cases q <;> rfl
  | .deontic op _ => cases op <;> rfl
  | .tense op _ => cases op <;> rfl

/-- **Expanding a formula is to meet its demand.** -/
theorem expand_eq (b : Branch) (w : World) (f : Formula) :
    b.expand w f = (b.noting f).meet w f.demand := by
  match f with
  | .not a => exact expandNot_eq b w a
  | .pred _ _ => rfl
  | .binary op _ _ => cases op <;> rfl
  | .quant q _ _ => cases q <;> rfl
  | .deontic op _ => cases op <;> rfl
  | .tense op _ => cases op <;> rfl
  | .span op _ _ => cases op <;> rfl

end Branch

/-! ### Constants of an instance -/

namespace Term

theorem append_subset_cons {c : String} {xs ys us vs : List String} (h : us ⊆ c :: xs)
    (h' : vs ⊆ c :: ys) : us ++ vs ⊆ c :: (xs ++ ys) := by
  intro d hd
  rcases List.mem_append.mp hd with hd | hd
  · exact (List.mem_cons.mp (h hd)).elim (· ▸ List.mem_cons_self)
      fun hd => List.mem_cons_of_mem _ (List.mem_append_left _ hd)
  · exact (List.mem_cons.mp (h' hd)).elim (· ▸ List.mem_cons_self)
      fun hd => List.mem_cons_of_mem _ (List.mem_append_right _ hd)

mutual

theorem constants_substitute (x c : String) :
    ∀ t : Term, (t.substitute x (.const c)).constants ⊆ c :: t.constants
  | .var y => by
    unfold substitute
    split_ifs
    · exact List.Subset.refl _
    · exact List.nil_subset _
  | .const _ => List.subset_cons_self _ _
  | .app _ args => constantsArgs_substitute x c args

theorem constantsArgs_substitute (x c : String) :
    ∀ ts : List Term, constantsArgs (substituteArgs ts x (.const c)) ⊆ c :: constantsArgs ts
  | [] => List.nil_subset _
  | t :: ts => append_subset_cons (constants_substitute x c t) (constantsArgs_substitute x c ts)

end

theorem append_subset_append {xs ys us vs : List String} (h : us ⊆ xs) (h' : vs ⊆ ys) :
    us ++ vs ⊆ xs ++ ys :=
  List.append_subset.mpr ⟨List.subset_append_of_subset_left _ h,
    List.subset_append_of_subset_right _ h'⟩

mutual

theorem constants_subset_substitute (x : String) (s : Term) :
    ∀ t : Term, t.constants ⊆ (t.substitute x s).constants
  | .var _ => List.nil_subset _
  | .const _ => List.Subset.refl _
  | .app _ args => constantsArgs_subset_substitute x s args

theorem constantsArgs_subset_substitute (x : String) (s : Term) :
    ∀ ts : List Term, constantsArgs ts ⊆ constantsArgs (substituteArgs ts x s)
  | [] => List.nil_subset _
  | t :: ts => append_subset_append (constants_subset_substitute x s t)
      (constantsArgs_subset_substitute x s ts)

end

end Term

/-! ### The formulas of a demand -/

namespace Demand

/-- The formulas that a demand is about. -/
def parts : Demand → List Formula
  | .nothing => []
  | .all fs => fs
  | .choice alternatives => alternatives.flatten
  | .every _ a | .some _ a | .box _ a | .diamond _ a | .next a => [a]

end Demand

namespace Formula

/-- A demand about a single formula is about that formula. -/
theorem mem_parts_of_demand {f a : Formula} {d : Demand} (hd : f.demand = d) (ha : d.parts = [a]) :
    a ∈ f.demand.parts := by
  rw [hd, ha]
  exact List.mem_singleton.mpr rfl

/-- The number of nodes, where a prohibition counts twice: it demands the opposite of its body, so
that a plain count would not go down. -/
def weight : Formula → Nat
  | .pred _ _ => 1
  | .not a | .quant _ _ a | .tense _ a | .obligatory a | .permitted a => a.weight + 1
  | .forbidden a => a.weight + 2
  | .binary _ a b | .span _ a b => a.weight + b.weight + 1

theorem weight_pos (f : Formula) : 0 < f.weight := by
  match f with
  | .pred _ _ | .not _ | .quant _ _ _ | .tense _ _ | .obligatory _ | .permitted _ | .forbidden _
  | .binary _ _ _ | .span _ _ _ => simp [weight]

theorem weight_negation_le (f : Formula) : f.negation.weight ≤ f.weight + 1 := by
  cases f with
  | not a =>
    show a.weight ≤ a.weight + 1 + 1
    omega
  | _ => exact Nat.le_refl _

theorem weight_substitute (f : Formula) (x : String) (t : Term) :
    (f.substitute x t).weight = f.weight := by
  induction f with
  | pred p args => rfl
  | not a ih => simp only [substitute, weight, ih]
  | binary op a b iha ihb => simp only [substitute, weight, iha, ihb]
  | quant q y a ih =>
    by_cases hy : y = x
    · simp only [substitute, if_pos hy]
    · simp only [substitute, if_neg hy, weight, ih]
  | deontic op a ih => cases op <;> simp only [substitute, weight, ih]
  | tense op a ih => simp only [substitute, weight, ih]
  | span op a b iha ihb => simp only [substitute, weight, iha, ihb]

/-- What a denial is about weighs less than the negation. -/
theorem weight_lt_of_mem_denial {f g : Formula} (hg : g ∈ f.denial.parts) :
    g.weight < f.weight + 1 := by
  have hneg := weight_negation_le
  have hpos := weight_pos
  match f, hg with
  | .not a, hg =>
    rw [List.mem_singleton.mp hg]
    simp only [weight]
    omega
  | .binary op l r, hg =>
    have := hneg l
    have := hneg r
    have := hpos l
    have := hpos r
    cases op <;> simp [denial, Demand.parts] at hg <;> rcases hg with rfl | rfl | rfl | rfl <;>
      simp only [weight] <;> omega
  | .quant q x a, hg =>
    have := hneg a
    cases q <;> rw [List.mem_singleton.mp hg] <;> simp only [weight] <;> omega
  | .deontic op a, hg =>
    have := hneg a
    cases op <;> rw [List.mem_singleton.mp hg] <;> simp only [weight] <;> omega
  | .tense op a, hg =>
    have := hneg a
    cases op <;> rw [List.mem_singleton.mp hg] <;> simp only [weight] <;> omega
  | .span op l r, hg =>
    have := hneg r
    have := hpos l
    rw [List.mem_singleton.mp hg]
    simp only [weight]
    omega

/-- What a demand is about weighs less than the formula. -/
theorem weight_lt_of_mem_demand {f g : Formula} (hg : g ∈ f.demand.parts) :
    g.weight < f.weight := by
  have hneg := weight_negation_le
  have hpos := weight_pos
  match f, hg with
  | .not a, hg => exact weight_lt_of_mem_denial hg
  | .binary op l r, hg =>
    have := hneg l
    have := hneg r
    have := hpos l
    have := hpos r
    cases op <;> simp [demand, Demand.parts] at hg <;> rcases hg with rfl | rfl | rfl | rfl <;>
      simp only [weight] <;> omega
  | .quant q x a, hg =>
    cases q <;> rw [List.mem_singleton.mp hg] <;> simp only [weight] <;> omega
  | .deontic op a, hg =>
    have := hneg a
    cases op <;> rw [List.mem_singleton.mp hg] <;> simp only [weight] <;> omega
  | .tense op a, hg =>
    cases op <;> rw [List.mem_singleton.mp hg] <;> simp only [weight] <;> omega
  | .span op l r, hg =>
    have := hpos l
    have := hpos r
    cases op <;> simp [demand, Demand.parts] at hg <;> rcases hg with rfl | rfl | rfl <;>
      simp only [weight] <;> omega

@[simp] theorem constantOccurrences_negation (f : Formula) :
    f.negation.constantOccurrences = f.constantOccurrences := by
  cases f <;> rfl

theorem constantOccurrences_denial {f g : Formula} (hg : g ∈ f.denial.parts) :
    g.constantOccurrences ⊆ f.constantOccurrences := by
  match f, hg with
  | .not a, hg =>
    rw [List.mem_singleton.mp hg]
    exact List.Subset.refl _
  | .binary op l r, hg =>
    cases op <;> simp [denial, Demand.parts] at hg <;>
      grind [constantOccurrences, constantOccurrences_negation]
  | .quant q x a, hg =>
    cases q <;> rw [List.mem_singleton.mp hg] <;> simp [constantOccurrences]
  | .deontic op a, hg =>
    cases op <;> rw [List.mem_singleton.mp hg] <;> simp [constantOccurrences]
  | .tense op a, hg =>
    cases op <;> rw [List.mem_singleton.mp hg] <;> simp [constantOccurrences]
  | .span op l r, hg =>
    rw [List.mem_singleton.mp hg]
    simp [constantOccurrences]

/-- A demand is about formulas with no other constants. -/
theorem constantOccurrences_demand {f g : Formula} (hg : g ∈ f.demand.parts) :
    g.constantOccurrences ⊆ f.constantOccurrences := by
  match f, hg with
  | .not a, hg => exact constantOccurrences_denial (f := a) hg
  | .binary op l r, hg =>
    cases op <;> simp [demand, Demand.parts] at hg <;>
      grind [constantOccurrences, constantOccurrences_negation]
  | .quant q x a, hg =>
    cases q <;> rw [List.mem_singleton.mp hg] <;> simp [constantOccurrences]
  | .deontic op a, hg =>
    cases op <;> rw [List.mem_singleton.mp hg] <;> simp [constantOccurrences]
  | .tense op a, hg =>
    cases op <;> rw [List.mem_singleton.mp hg] <;> simp [constantOccurrences]
  | .span op l r, hg =>
    cases op <;> simp [demand, Demand.parts] at hg <;> grind [constantOccurrences]

/-- An instance has no constants but the new one and those of the formula. -/
theorem constantOccurrences_substitute (f : Formula) (x c : String) :
    (f.substitute x (.const c)).constantOccurrences ⊆ c :: f.constantOccurrences := by
  induction f with
  | pred p args => exact Term.constantsArgs_substitute x c args
  | not a ih => exact ih
  | binary op a b iha ihb => exact Term.append_subset_cons iha ihb
  | quant q y a ih =>
    by_cases hy : y = x
    · simp only [substitute, if_pos hy]
      exact List.subset_cons_self _ _
    · simp only [substitute, if_neg hy]
      exact ih
  | deontic op a ih => exact ih
  | tense op a ih => exact ih
  | span op a b iha ihb => exact Term.append_subset_cons iha ihb

/-- An instance has the constants of the formula. -/
theorem constantOccurrences_subset_substitute (f : Formula) (x : String) (t : Term) :
    f.constantOccurrences ⊆ (f.substitute x t).constantOccurrences := by
  induction f with
  | pred p args => exact Term.constantsArgs_subset_substitute x t args
  | not a ih => exact ih
  | binary op a b iha ihb => exact Term.append_subset_append iha ihb
  | quant q y a ih =>
    by_cases hy : y = x
    · simp only [substitute, if_pos hy]
      exact List.Subset.refl _
    · simp only [substitute, if_neg hy]
      exact ih
  | deontic op a ih => exact ih
  | tense op a ih => exact ih
  | span op a b iha ihb => exact Term.append_subset_append iha ihb

theorem demand_of_isLiteral {f : Formula} (hf : f.isLiteral = true) : f.demand = .nothing := by
  match f, hf with
  | .pred _ _, _ => rfl
  | .not (.pred _ _), _ => rfl

end Formula

/-! ### Truth and demands -/

namespace Demand

variable {W : Type u} {D : Type v}

/-- The demand is met at a world of a model. -/
def Met (M : Model W D) (E : Set D) (ν : String → D) (w : W) : Demand → Prop
  | .nothing => True
  | .all fs => ∀ f ∈ fs, w ∈ M.truthIn E f ν
  | .choice alternatives => ∃ fs ∈ alternatives, ∀ f ∈ fs, w ∈ M.truthIn E f ν
  | .every x a => ∀ d ∈ E, w ∈ M.truthIn E a (Function.update ν x d)
  | .some x a => ∃ d ∈ E, w ∈ M.truthIn E a (Function.update ν x d)
  | .box r a => w ∈ M.box r (M.truthIn E a ν)
  | .diamond r a => w ∈ M.diamond r (M.truthIn E a ν)
  | .next a => M.next w ∈ M.truthIn E a ν

variable {M : Model W D} {E : Set D} {ν : String → D} {w : W}

theorem met_denial_iff {f : Formula} (hs : f.not.isSpanning = false)
    (hl : f.not.isLiteral = false) : f.denial.Met M E ν w ↔ w ∉ M.truthIn E f ν := by
  match f with
  | .not a => simp [Formula.denial, Met, Model.truthIn]
  | .binary op l r =>
    cases op <;> simp [Formula.denial, Met, Model.truthIn, Connective.on] <;> tauto
  | .quant q x a =>
    cases q <;> simp [Formula.denial, Met]
  | .deontic op a =>
    cases op <;> simp [Formula.denial, Met, Model.truthIn, Model.norm]
  | .tense op a =>
    cases op <;> simp [Formula.denial, Met, Model.truthIn, Model.tense]

/-- A formula that is neither spanning nor a literal is true exactly where its demand is met. -/
theorem met_iff {f : Formula} (hs : f.isSpanning = false) (hl : f.isLiteral = false) :
    f.demand.Met M E ν w ↔ w ∈ M.truthIn E f ν := by
  match f with
  | .not a => exact met_denial_iff hs hl
  | .binary op l r =>
    cases op <;> simp [Formula.demand, Met, Model.truthIn, Connective.on] <;> tauto
  | .quant q x a =>
    cases q <;> exact Iff.rfl
  | .deontic op a =>
    cases op <;> simp [Formula.demand, Met, Model.truthIn, Model.norm]
  | .tense op a =>
    cases op <;> simp [Formula.demand, Met, Model.truthIn, Model.tense]

/-- **A true formula meets its demand.** -/
theorem met_of_mem (hM : M.Bounded) {f : Formula} (hf : w ∈ M.truthIn E f ν) :
    f.demand.Met M E ν w := by
  by_cases hl : f.isLiteral = true
  · rw [Formula.demand_of_isLiteral hl]
    trivial
  by_cases hs : f.isSpanning = true
  · -- the demand of a spanning formula is one of the bounds of its reading
    match f, hs with
    | .until l r, _ =>
      rcases hM.until_le _ _ hf with hr | ⟨hl, hr⟩
      · exact ⟨[r], by simp, by simpa using hr⟩
      · exact ⟨[l, r.eventually], by simp, by simpa using ⟨hl, hr⟩⟩
    | .since l r, _ =>
      rcases hM.since_le _ _ hf with hr | hl
      · exact ⟨[r], by simp, by simpa using hr⟩
      · exact ⟨[l], by simp, by simpa using hl⟩
    | .not (.until l r), _ =>
      have hr : w ∉ M.truthIn E r ν := fun hr => hf (hM.until_ge _ _ hr)
      simpa [Formula.demand, Formula.denial, Met] using hr
    | .not (.since l r), _ =>
      have hr : w ∉ M.truthIn E r ν := fun hr => hf (hM.since_ge _ _ hr)
      simpa [Formula.demand, Formula.denial, Met] using hr
  · rw [Bool.not_eq_true] at hl hs
    exact (met_iff hs hl).mpr hf

end Demand

end Deontica
