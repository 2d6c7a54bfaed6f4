import Deontica.Proofs.Analysis.Profile
import Deontica.Proofs.Analysis.Rounding
import Mathlib.Algebra.Order.Floor.Div

/-!
# The analysis of a problem

What an analysis says of a goal and its axioms is read off their joined profile.  So sizes and
counts are sums over the formulas and depths are maxima, each formula being measured by recursion,
and the score follows from these by one formula.  The order of goal and axioms does not matter, and
no measure, nor the score with its bucket, gets less when an axiom is added or a formula is put in
the place of one of its subformulas (`analyzeProblem_compositional`).
-/

namespace Deontica

/-! ### Measures of a problem -/

namespace Formula

/-- The number of nodes is the number of operators and predicates. -/
theorem total_operators (f : Formula) : f.operators.total = f.size := by
  induction f with
  | pred name args => rfl
  | not a ih | quant q x a ih =>
    rw [operators, OperatorCounts.total_add, ih, size, Nat.add_comm]
    rfl
  | deontic op a ih | tense op a ih =>
    rw [operators, OperatorCounts.total_add, ih, size, Nat.add_comm]
    cases op <;> rfl
  | binary op a b iha ihb | span op a b iha ihb =>
    rw [operators, OperatorCounts.total_add, OperatorCounts.total_add, iha, ihb, size]
    show 1 + a.size + b.size = a.size + b.size + 1
    omega

end Formula

namespace Profile

variable (isSymbol : String → Bool) (fs : List Formula)

theorem size_ofFormulas : (ofFormulas isSymbol fs).size = Formula.sizeAll fs := by
  induction fs with
  | nil => rfl
  | cons f fs ih =>
    rw [ofFormulas_cons, Formula.sizeAll, ← ih]
    rfl

theorem total_counts_ofFormulas :
    (ofFormulas isSymbol fs).counts.total = (ofFormulas isSymbol fs).size := by
  induction fs with
  | nil => rfl
  | cons f fs ih =>
    rw [ofFormulas_cons]
    show (f.operators + (ofFormulas isSymbol fs).counts).total = f.size + _
    rw [OperatorCounts.total_add, Formula.total_operators, ih]

theorem nesting_ofFormulas :
    (ofFormulas isSymbol fs).nesting = fs.foldr (fun f m => max (f.depth - 1) m) 0 := by
  induction fs with
  | nil => rfl
  | cons f fs ih =>
    rw [ofFormulas_cons, List.foldr_cons, ← ih]
    show max (0 + (f.depth - 1)) _ = _
    rw [Nat.zero_add]

theorem quantifierDepth_ofFormulas :
    (ofFormulas isSymbol fs).quantifierDepth =
      fs.foldr (fun f m => max f.quantifierDepth m) 0 := by
  induction fs with
  | nil => rfl
  | cons f fs ih =>
    rw [ofFormulas_cons, List.foldr_cons, ← ih]
    show max (0 + f.quantifierDepth) _ = _
    rw [Nat.zero_add]

/-- The weight grows with everything that is weighed. -/
theorem Le.score {p q : Profile} (h : p.Le q) : p.score ≤ q.score := by
  have hcounts := h.counts
  have hweight : p.doubleWeight ≤ q.doubleWeight := by
    have := h.size
    have := h.nesting
    have := h.quantifierDepth
    have := hcounts.quantifiers
    have := hcounts.deontic
    have := hcounts.modal
    have := hcounts.temporal
    unfold doubleWeight
    omega
  exact min_le_min_left 100 (Nat.div_le_div_right (Nat.add_le_add_right hweight 1))

end Profile

/-! ### Buckets -/

/-- The place of a bucket among the three. -/
def Bucket.rank : Bucket → Nat
  | .low => 0
  | .medium => 1
  | .high => 2

/-- A greater score is not in a lower bucket, however the thresholds are set. -/
theorem AnalyzerConfig.rank_bucket_le (c : AnalyzerConfig) {m n : Nat} (h : m ≤ n) :
    (c.bucket m).rank ≤ (c.bucket n).rank := by
  unfold bucket
  split_ifs <;> simp only [Bucket.rank] <;> omega

/-! ### Analyses -/

/-- No measure, nor the score or the bucket, is greater in the first analysis. -/
structure Analysis.Le (a b : Analysis) : Prop where
  size : a.size ≤ b.size
  nesting : a.nesting ≤ b.nesting
  quantifierDepth : a.quantifierDepth ≤ b.quantifierDepth
  counts : a.counts.Le b.counts
  score : a.score ≤ b.score
  bucket : a.bucket.rank ≤ b.bucket.rank

namespace AnalyzerConfig

variable (c : AnalyzerConfig)

theorem conclude_le {p q : Profile} (h : p.Le q) : (c.conclude p).Le (c.conclude q) where
  size := h.size
  nesting := h.nesting
  quantifierDepth := h.quantifierDepth
  counts := h.counts
  score := h.score
  bucket := c.rank_bucket_le h.score

/-- **The analysis of a problem is put together from its formulas.**  Size and counts are sums and
depths are maxima over the formulas, all measured by recursion; the score is half of the weight,
rounded up and cut off, also if the weight is computed in double precision; the nodes may as well be
visited with a list of pending ones.  The order of goal and axioms does not matter.  Another axiom,
or a formula in the place of one of its subformulas, makes no measure less. -/
theorem analyzeProblem_compositional (goal : Formula) (axioms : List Formula) :
    let a := c.analyzeProblem goal axioms
    let problem := goal :: axioms
    a.size = Formula.sizeAll problem ∧ a.size = a.counts.total ∧
      a.counts = Formula.operatorsAll problem ∧
      a.nesting = problem.foldr (fun f m => max (f.depth - 1) m) 0 ∧
      a.quantifierDepth = problem.foldr (fun f m => max f.quantifierDepth m) 0 ∧
      a.score = min 100 ((a.size + 4 * a.nesting + 6 * a.counts.quantifiers +
        16 * a.quantifierDepth + 8 * a.counts.deontic + 8 * a.counts.modal +
          10 * a.counts.temporal) ⌈/⌉ 2) ∧
      a.score = min 100 ((Double.sumOfProducts a.weighed + 1) / 2) ∧
      a = c.conclude
        (problem.foldl (fun p f => Profile.visit c.isArithmetic [(f, 0, 0)] p) {}) ∧
      (∀ goal' axioms', (goal' :: axioms').Perm problem → c.analyzeProblem goal' axioms' = a) ∧
      c.analyze goal = c.analyzeProblem goal [] ∧
      (∀ f axioms', axioms'.Perm (f :: axioms) → a.Le (c.analyzeProblem goal axioms')) ∧
      (∀ f, goal ∈ f.subformulas → a.Le (c.analyzeProblem f axioms)) ∧
      ∀ f g others, axioms.Perm (g :: others) → g ∈ f.subformulas →
        a.Le (c.analyzeProblem goal (f :: others)) := by
  intro a problem
  have hperm : ∀ {fs gs : List Formula}, fs.Perm gs →
      Profile.ofFormulas c.isArithmetic fs = Profile.ofFormulas c.isArithmetic gs :=
    Profile.ofFormulas_perm c.isArithmetic
  refine ⟨Profile.size_ofFormulas _ _, (Profile.total_counts_ofFormulas _ _).symm,
    Profile.counts_ofFormulas _ _, Profile.nesting_ofFormulas _ _,
    Profile.quantifierDepth_ofFormulas _ _, ?_, c.score_conclude_eq_rounded _,
    congrArg c.conclude (Profile.ofFormulas_eq_visit _ _),
    fun goal' axioms' h => congrArg c.conclude (hperm h), rfl, fun f axioms' h => ?_,
    fun f h => ?_, fun f g others h hg => ?_⟩
  · rw [Nat.ceilDiv_eq_add_pred_div]
    rfl
  · refine c.conclude_le ?_
    rw [hperm ((h.cons goal).trans (.swap f goal axioms)), Profile.ofFormulas_cons _ f]
    exact Profile.le_join_right _ _
  · refine c.conclude_le ?_
    rw [Profile.ofFormulas_cons, Profile.ofFormulas_cons]
    exact (Formula.profile_le_of_mem_subformulas h).join (.refl _)
  · refine c.conclude_le ?_
    rw [hperm ((h.cons goal).trans (.swap g goal others)), hperm (.swap f goal others),
      Profile.ofFormulas_cons, Profile.ofFormulas_cons _ f]
    exact (Formula.profile_le_of_mem_subformulas hg).join (.refl _)

/-- A quantified axiom is added to a goal and in front of another axiom; the goal is put under an
obligation. -/
theorem analyzeProblem_compositional_added :
    let goal : Formula := .atom "Q"
    let always : Formula := .always (.atom "P")
    let related : Formula := .all "x" (.exists "y" (.pred "Loves" [.var "x", .var "y"]))
    let c : AnalyzerConfig := {}
    [related, always].Perm [related, always] ∧ goal ∈ (Formula.obligatory goal).subformulas ∧
      (c.analyzeProblem goal [always]).Le (c.analyzeProblem goal [related, always]) ∧
      (c.analyzeProblem goal [always]).Le (c.analyzeProblem goal.obligatory [always]) ∧
      c.analyzeProblem always [goal, related] = c.analyzeProblem goal [related, always] ∧
      (c.analyzeProblem goal [always]).score = 8 ∧
      (c.analyzeProblem goal [related, always]).score = 33 := by
  intro goal always related c
  obtain ⟨_, _, _, _, _, _, _, _, _, _, hadded, hgoal, _⟩ :=
    c.analyzeProblem_compositional goal [always]
  obtain ⟨_, _, _, _, _, _, _, _, hperm, _⟩ :=
    c.analyzeProblem_compositional goal [related, always]
  exact ⟨.refl _, by decide, hadded related _ (.refl _), hgoal _ (by decide),
    hperm _ _ (by decide), by decide +kernel, by decide +kernel⟩

end AnalyzerConfig

end Deontica
