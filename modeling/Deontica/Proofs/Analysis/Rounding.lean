import Deontica.Analysis
import Deontica.Text.Share
import Mathlib.Algebra.Ring.Nat
import Mathlib.Order.Basic

/-!
# Scores in double precision

A score is computed from whole numbers of halves.  Nothing is lost if the weights are multiplied and
added up in double precision instead, with every intermediate number rounded to 53 significant bits
(`score_conclude_eq_rounded`): below 2⁵³ halves no number is rounded at all, and from there on the
score is cut off at 100 whatever the rounding does.
-/

namespace Deontica

namespace Double

/-- The whole numbers below this one have at most 53 bits. -/
def bound : Nat := 2 ^ 53

/-- The nearest number with 53 significant bits; a tie goes to the one with an even last bit. -/
def nearest (n : Nat) : Nat :=
  let spare := n.log2 - 52
  Text.roundDiv n (2 ^ spare) * 2 ^ spare

/-- A sum of products where every number is rounded, and every product and every sum again. -/
def sumOfProducts (parts : List (Nat × Nat)) : Nat :=
  parts.foldl (fun sum part => nearest (sum + nearest (part.1 * nearest part.2))) 0

/-! ### Rounding -/

theorem nearest_of_lt {n : Nat} (h : n < bound) : nearest n = n := by
  have hspare : n.log2 - 52 = 0 := by
    rcases Nat.eq_zero_or_pos n with rfl | hpos
    · rfl
    · have := (Nat.log2_lt hpos.ne').mpr h
      omega
  simp [nearest, hspare, Text.roundDiv, Nat.mod_one]

theorem bound_le_nearest {n : Nat} (h : bound ≤ n) : bound ≤ nearest n := by
  have hne : n ≠ 0 := (Nat.lt_of_lt_of_le (Nat.two_pow_pos 53) h).ne'
  have hlog : 53 ≤ n.log2 := (Nat.le_log2 hne).mpr h
  let spare := n.log2 - 52
  have hquotient : 2 ^ 52 ≤ n / 2 ^ spare := by
    rw [Nat.le_div_iff_mul_le (Nat.two_pow_pos _), ← Nat.pow_add]
    exact (Nat.pow_le_pow_right Nat.two_pos (by omega)).trans (Nat.log2_self_le hne)
  have hround : n / 2 ^ spare ≤ Text.roundDiv n (2 ^ spare) := by
    unfold Text.roundDiv
    dsimp only
    split_ifs
    · exact Nat.le_refl _
    · exact Nat.le_succ _
  calc bound = 2 ^ 52 * 2 ^ 1 := by decide
    _ ≤ Text.roundDiv n (2 ^ spare) * 2 ^ spare :=
      Nat.mul_le_mul (hquotient.trans hround) (Nat.pow_le_pow_right Nat.two_pos (by omega))

/-- Two numbers are equal, or both too great for 53 bits. -/
def Agree (m n : Nat) : Prop :=
  m = n ∨ bound ≤ m ∧ bound ≤ n

/-- Rounding changes only what is too great, and leaves it so. -/
theorem agree_nearest (n : Nat) : Agree (nearest n) n := by
  rcases Nat.lt_or_ge n bound with h | h
  · exact Or.inl (nearest_of_lt h)
  · exact Or.inr ⟨bound_le_nearest h, h⟩

namespace Agree

variable {l m n m' n' : Nat}

theorem trans (h : Agree l m) (h' : Agree m n) : Agree l n := by
  unfold Agree at *
  omega

theorem add (h : Agree m m') (h' : Agree n n') : Agree (m + n) (m' + n') := by
  unfold Agree at *
  omega

theorem mul (weight : Nat) (h : Agree n n') : Agree (weight * n) (weight * n') := by
  rcases h with rfl | ⟨hn, hn'⟩
  · exact Or.inl rfl
  · rcases Nat.eq_zero_or_pos weight with rfl | hpos
    · exact Or.inl (by rw [Nat.zero_mul, Nat.zero_mul])
    · exact Or.inr ⟨hn.trans (Nat.le_mul_of_pos_left _ hpos),
        hn'.trans (Nat.le_mul_of_pos_left _ hpos)⟩

end Agree

theorem agree_foldl (parts : List (Nat × Nat)) {m n : Nat} (h : Agree m n) :
    Agree (parts.foldl (fun sum part => nearest (sum + nearest (part.1 * nearest part.2))) m)
      (parts.foldl (fun sum part => sum + part.1 * part.2) n) := by
  induction parts generalizing m n with
  | nil => exact h
  | cons part parts ih =>
    have hproduct : Agree (nearest (part.1 * nearest part.2)) (part.1 * part.2) :=
      (agree_nearest _).trans ((agree_nearest part.2).mul part.1)
    rw [List.foldl_cons, List.foldl_cons]
    exact ih ((agree_nearest _).trans (h.add hproduct))

end Double

/-! ### Scores -/

/-- What is weighed in an analysis, each with its weight in halves. -/
def Analysis.weighed (a : Analysis) : List (Nat × Nat) :=
  [(1, a.size), (4, a.nesting), (6, a.counts.quantifiers), (16, a.quantifierDepth),
    (8, a.counts.deontic), (8, a.counts.modal), (10, a.counts.temporal)]

/-- **The score is the same in double precision.** -/
theorem AnalyzerConfig.score_conclude_eq_rounded (c : AnalyzerConfig) (p : Profile) :
    (c.conclude p).score = min 100 ((Double.sumOfProducts (c.conclude p).weighed + 1) / 2) := by
  have hweight : (c.conclude p).weighed.foldl (fun sum part => sum + part.1 * part.2) 0 =
      p.doubleWeight := by
    simp [Analysis.weighed, conclude, Profile.doubleWeight]
  have hagree : Double.Agree (Double.sumOfProducts (c.conclude p).weighed) p.doubleWeight := by
    rw [← hweight]
    exact Double.agree_foldl _ (Or.inl rfl)
  show min 100 ((p.doubleWeight + 1) / 2) = _
  rcases hagree with heq | ⟨hrounded, hexact⟩
  · rw [heq]
  · -- both weights are far above the hundred points at which scores are cut off
    have : 200 ≤ Double.bound := by decide
    omega

end Deontica
