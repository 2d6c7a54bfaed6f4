import Deontica.Proofs.Formula.Vocabulary
import Deontica.Proofs.Rule.Instance

/-!
# Rules do not go deeper

A rule may conclude a formula that is no subformula of its premises and that is larger than each of
them: `A → C` from `A → B` and `B → C`, `¬A ∨ ¬B` from `¬(A ∧ B)`, `O(¬A)` from `F(A)` and back.
What no rule increases is the depth, if binary operators and prohibitions count for two levels
(`Formula.weightedDepth`).

For a schema this can be read off from its patterns.  A filled pattern is as deep as the deepest of
the formulas in its holes together with what is above the hole (`Pattern.offsets`), so it is enough
that each hole of the conclusion stands at least as deep in some premise (`Schema.isLevel`).
-/

namespace Deontica

/-- The number of levels that a deontic operator counts for: a prohibition is an obligation and a
negation. -/
def Norm.weight : Norm → Nat
  | .obligatory | .permitted => 1
  | .forbidden => 2

namespace Formula

/-- The depth, where binary operators and prohibitions count for two levels. -/
def weightedDepth : Formula → Nat
  | .pred _ _ => 1
  | .not a | .quant _ _ a | .tense _ a => a.weightedDepth + 1
  | .deontic op a => a.weightedDepth + op.weight
  | .binary _ a b | .span _ a b => max a.weightedDepth b.weightedDepth + 2

theorem depth_le_weightedDepth (f : Formula) : f.depth ≤ f.weightedDepth := by
  induction f with
  | pred p args => exact Nat.le_refl _
  | not a ih => exact Nat.succ_le_succ ih
  | quant q x a ih => exact Nat.succ_le_succ ih
  | tense op a ih => exact Nat.succ_le_succ ih
  | deontic op a ih => cases op <;> simp only [depth, weightedDepth, Norm.weight] <;> omega
  | binary op a b iha ihb => simp only [depth, weightedDepth]; omega
  | span op a b iha ihb => simp only [depth, weightedDepth]; omega

theorem weightedDepth_substitute (f : Formula) (x : String) (t : Term) :
    (f.substitute x t).weightedDepth = f.weightedDepth := by
  induction f with
  | pred p args => rfl
  | not a ih => simp only [substitute, weightedDepth, ih]
  | binary op a b iha ihb => simp only [substitute, weightedDepth, iha, ihb]
  | quant q y a ih =>
    by_cases hy : y = x
    · simp only [substitute, if_pos hy]
    · simp only [substitute, if_neg hy, weightedDepth, ih]
  | deontic op a ih => simp only [substitute, weightedDepth, ih]
  | tense op a ih => simp only [substitute, weightedDepth, ih]
  | span op a b iha ihb => simp only [substitute, weightedDepth, iha, ihb]

end Formula

namespace Pattern

/-! ### Patterns -/

/-- The holes and the number of levels above each. -/
def offsets : Pattern → List (String × Nat)
  | .hole x => [(x, 0)]
  | .not p | .tense _ p => p.offsets.map fun e => (e.1, e.2 + 1)
  | .deontic op p => p.offsets.map fun e => (e.1, e.2 + op.weight)
  | .binary _ p q | .span _ p q => (p.offsets ++ q.offsets).map fun e => (e.1, e.2 + 2)

/-- How deep a filled pattern is below `m` levels can be told hole by hole. -/
theorem weightedDepth_fill_add_le {σ : String → Formula} {n : Nat} (p : Pattern) (m : Nat) :
    (p.fill σ).weightedDepth + m ≤ n ↔
      ∀ e ∈ p.offsets, (σ e.1).weightedDepth + (e.2 + m) ≤ n := by
  -- what is above a part is added to what is above the whole
  induction p generalizing m with
  | hole x => simp [fill, offsets]
  | not p ih =>
    simp only [fill, offsets, Formula.weightedDepth, List.forall_mem_map, Nat.add_assoc, ih]
  | tense op p ih =>
    simp only [fill, offsets, Formula.weightedDepth, List.forall_mem_map, Nat.add_assoc, ih]
  | deontic op p ih =>
    simp only [fill, offsets, Formula.weightedDepth, List.forall_mem_map, Nat.add_assoc, ih]
  | binary op p q ihp ihq =>
    simp only [fill, offsets, Formula.weightedDepth, List.forall_mem_map, List.forall_mem_append,
      Nat.add_assoc, ← ihp, ← ihq]
    omega
  | span op p q ihp ihq =>
    simp only [fill, offsets, Formula.weightedDepth, List.forall_mem_map, List.forall_mem_append,
      Nat.add_assoc, ← ihp, ← ihq]
    omega

/-- **How deep a filled pattern is** can be told hole by hole. -/
theorem weightedDepth_fill_le {σ : String → Formula} {n : Nat} (p : Pattern) :
    (p.fill σ).weightedDepth ≤ n ↔ ∀ e ∈ p.offsets, (σ e.1).weightedDepth + e.2 ≤ n :=
  p.weightedDepth_fill_add_le 0

theorem over_fill {S C : Set String} {k : Nat} {σ : String → Formula} (p : Pattern) :
    (p.fill σ).Over S C k ↔ ∀ x ∈ p.holes, (σ x).Over S C k := by
  induction p with
  | hole x => simp [fill, holes]
  | not p ih => simpa [fill, holes] using ih
  | tense op p ih => simpa [fill, holes] using ih
  | deontic op p ih => simpa [fill, holes] using ih
  | binary op p q ihp ihq =>
    simp only [fill, holes, Formula.over_binary, ihp, ihq, List.mem_append, or_imp, forall_and]
  | span op p q ihp ihq =>
    simp only [fill, holes, Formula.over_span, ihp, ihq, List.mem_append, or_imp, forall_and]

end Pattern

namespace Schema

/-! ### Schemas -/

/-- Whether each hole of the conclusion of a forward schema stands as deep in some premise. -/
def isLevel (s : Schema) : Bool :=
  s.direction == .goalDirected || s.conclusion.offsets.all fun e =>
    s.premises.any fun p => p.offsets.any fun e' => e'.1 == e.1 && decide (e.2 ≤ e'.2)

/-- What a level schema concludes is no deeper than its premises. -/
theorem weightedDepth_conclusion_le {s : Schema} (hs : s.isLevel = true)
    (hdir : s.direction = .forward) {σ : String → Formula} {n : Nat}
    (hprem : ∀ p ∈ s.premises, (p.fill σ).weightedDepth ≤ n) :
    (s.conclusion.fill σ).weightedDepth ≤ n := by
  simp only [isLevel, hdir, Bool.or_eq_true, List.all_eq_true, List.any_eq_true, Bool.and_eq_true,
    beq_iff_eq, decide_eq_true_eq] at hs
  have hs := hs.resolve_left (by decide)
  rw [Pattern.weightedDepth_fill_le]
  intro e he
  obtain ⟨p, hp, e', he', hname, hle⟩ := hs e he
  have hdeep := (Pattern.weightedDepth_fill_le p).mp (hprem p hp) e' he'
  rw [hname] at hdeep
  omega

end Schema

namespace Rule

/-! ### All rules -/

/-- Whether the rule is level, if it is a schema. -/
def isLevel : Rule → Bool
  | .schema s => s.isLevel
  | .instantiation | .generalization => true

theorem isLevel_of_mem_catalogue : ∀ r ∈ catalogue, r.isLevel = true := by
  decide

variable {S C : Set String} {k n : Nat}

/-- **No rule goes deeper or beyond the vocabulary** of its premises and its targets. -/
theorem Instance.within {r : Rule} (hr : r ∈ catalogue) {targets : Set Formula}
    {domain : Set Term} {premises : List Formula} {conclusion : Formula}
    (h : r.Instance targets domain premises conclusion)
    (htargets : ∀ f ∈ targets, f.Over S C k ∧ f.weightedDepth ≤ n)
    (hdomain : ∀ t ∈ domain, ∃ c ∈ C, t = .const c)
    (hprem : ∀ f ∈ premises, f.Over S C k ∧ f.weightedDepth ≤ n) :
    conclusion.Over S C k ∧ conclusion.weightedDepth ≤ n := by
  cases h with
  | @schema s bs premises conclusion hfits htarget =>
    cases hdir : s.direction with
    | goalDirected => exact htargets conclusion (htarget hdir)
    | forward =>
      obtain ⟨rfl, rfl⟩ := hfits.eq_fill
      rw [List.forall_mem_map] at hprem
      refine ⟨?_, Schema.weightedDepth_conclusion_le (isLevel_of_mem_catalogue _ hr) hdir
        fun p hp => (hprem p hp).2⟩
      rw [Pattern.over_fill]
      intro x hx
      obtain ⟨p, hp, hxp⟩ := Schema.exists_mem_holes (isDetermined_of_mem_catalogue _ hr) hdir hx
      exact p.over_fill.mp (hprem p hp).1 x hxp
  | @instantiation x a t ht =>
    obtain ⟨c, hc, rfl⟩ := hdomain t ht
    obtain ⟨hover, hdeep⟩ := hprem _ List.mem_cons_self
    refine ⟨(Formula.over_quant.mp hover).2.substitute x hc, ?_⟩
    rw [Formula.weightedDepth_substitute]
    exact Nat.le_of_succ_le hdeep
  | generalization htarget _ => exact htargets _ htarget

end Rule

end Deontica
