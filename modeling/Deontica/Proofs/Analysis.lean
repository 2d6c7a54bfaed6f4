import Deontica.Analysis

/-!
# What the walk over formulas counts

The walk carries one profile from node to node.  Its counts are what they were before, plus what
occurs in the formula, whatever lies above it (`counts_observe`).  So the counts of a problem are
the sum over its formulas (`counts_ofFormulas`), and a count is positive if one of them has such an
operator (`pos_iff_any`).
-/

namespace Deontica

/-! ### Sums of counts -/

namespace OperatorCounts

/-- Adds up two counts, each kind of operator on its own. -/
instance : Add OperatorCounts where
  add c d :=
    { predicates := c.predicates + d.predicates
      negations := c.negations + d.negations
      connectives := c.connectives + d.connectives
      quantifiers := c.quantifiers + d.quantifiers
      obligations := c.obligations + d.obligations
      permissions := c.permissions + d.permissions
      prohibitions := c.prohibitions + d.prohibitions
      modal := c.modal + d.modal
      temporal := c.temporal + d.temporal }

/-- How often a temporal operator occurs, `□` and `◊` among them. -/
def tensed (c : OperatorCounts) : Nat :=
  c.modal + c.temporal

theorem add_def (c d : OperatorCounts) :
    c + d = ⟨c.predicates + d.predicates, c.negations + d.negations, c.connectives + d.connectives,
      c.quantifiers + d.quantifiers, c.obligations + d.obligations, c.permissions + d.permissions,
      c.prohibitions + d.prohibitions, c.modal + d.modal, c.temporal + d.temporal⟩ := rfl

protected theorem add_assoc (c d e : OperatorCounts) : c + d + e = c + (d + e) := by
  simp only [add_def, Nat.add_assoc]

protected theorem empty_add (c : OperatorCounts) : {} + c = c := by
  simp only [add_def, Nat.zero_add]

theorem deontic_add (c d : OperatorCounts) : (c + d).deontic = c.deontic + d.deontic := by
  simp only [add_def, deontic]
  omega

theorem tensed_add (c d : OperatorCounts) : (c + d).tensed = c.tensed + d.tensed := by
  simp only [add_def, tensed]
  omega

theorem countNorm_eq (c : OperatorCounts) (op : Norm) :
    Profile.countNorm c op = c + Profile.countNorm {} op := by
  cases op <;> rfl

theorem countTense_eq (c : OperatorCounts) (op : Tense) :
    Profile.countTense c op = c + Profile.countTense {} op := by
  cases op <;> rfl

end OperatorCounts

/-! ### Operators of a formula -/

namespace Formula

/-- The operators and predicates of a formula. -/
def operators : Formula → OperatorCounts
  | .pred _ _ => { predicates := 1 }
  | .not a => { negations := 1 } + a.operators
  | .binary _ a b => { connectives := 1 } + a.operators + b.operators
  | .quant _ _ a => { quantifiers := 1 } + a.operators
  | .deontic op a => Profile.countNorm {} op + a.operators
  | .tense op a => Profile.countTense {} op + a.operators
  | .span _ a b => { temporal := 1 } + a.operators + b.operators

/-- The operators and predicates of several formulas. -/
def operatorsAll : List Formula → OperatorCounts
  | [] => {}
  | f :: fs => f.operators + operatorsAll fs

/-- Deontic operators are counted exactly if there are any. -/
theorem deontic_pos_iff (f : Formula) : 0 < f.operators.deontic ↔ f.hasDeontic = true := by
  induction f with
  | pred name args => simp [operators, hasDeontic, OperatorCounts.deontic]
  | deontic op a ih =>
    have hone : (Profile.countNorm {} op).deontic = 1 := by cases op <;> rfl
    rw [operators, hasDeontic, OperatorCounts.deontic_add, hone]
    exact iff_of_true (Nat.add_pos_left Nat.one_pos _) rfl
  | tense op a ih =>
    have hzero : (Profile.countTense {} op).deontic = 0 := by cases op <;> rfl
    rw [operators, hasDeontic, OperatorCounts.deontic_add, hzero, Nat.zero_add, ih]
  | not a ih | quant q x a ih =>
    rw [operators, hasDeontic, OperatorCounts.deontic_add, ← ih]
    simp [OperatorCounts.deontic]
  | binary op a b iha ihb | span op a b iha ihb =>
    rw [operators, hasDeontic, OperatorCounts.deontic_add, OperatorCounts.deontic_add,
      Bool.or_eq_true, ← iha, ← ihb, ← Nat.add_pos_iff_pos_or_pos]
    simp [OperatorCounts.deontic]

/-- Temporal operators are counted exactly if there are any. -/
theorem tensed_pos_iff (f : Formula) : 0 < f.operators.tensed ↔ f.hasTemporal = true := by
  induction f with
  | pred name args => simp [operators, hasTemporal, OperatorCounts.tensed]
  | tense op a ih =>
    have hone : (Profile.countTense {} op).tensed = 1 := by cases op <;> rfl
    rw [operators, hasTemporal, OperatorCounts.tensed_add, hone]
    exact iff_of_true (Nat.add_pos_left Nat.one_pos _) rfl
  | span op a b iha ihb =>
    rw [operators, hasTemporal, OperatorCounts.tensed_add, OperatorCounts.tensed_add]
    exact iff_of_true (Nat.add_pos_left (Nat.add_pos_left Nat.one_pos _) _) rfl
  | deontic op a ih =>
    have hzero : (Profile.countNorm {} op).tensed = 0 := by cases op <;> rfl
    rw [operators, hasTemporal, OperatorCounts.tensed_add, hzero, Nat.zero_add, ih]
  | not a ih | quant q x a ih =>
    rw [operators, hasTemporal, OperatorCounts.tensed_add, ← ih]
    simp [OperatorCounts.tensed]
  | binary op a b iha ihb =>
    rw [operators, hasTemporal, OperatorCounts.tensed_add, OperatorCounts.tensed_add,
      Bool.or_eq_true, ← iha, ← ihb, ← Nat.add_pos_iff_pos_or_pos]
    simp [OperatorCounts.tensed]

/-- Whatever adds up and is positive for the formulas that have something is positive for several
formulas if one of them has it. -/
theorem pos_iff_any {m : OperatorCounts → Nat} (hempty : m {} = 0)
    (hadd : ∀ c d, m (c + d) = m c + m d) {has : Formula → Bool}
    (hhas : ∀ f : Formula, 0 < m f.operators ↔ has f = true) (fs : List Formula) :
    0 < m (operatorsAll fs) ↔ fs.any has = true := by
  induction fs with
  | nil => simp [operatorsAll, hempty]
  | cons f fs ih =>
    rw [operatorsAll, hadd, Nat.add_pos_iff_pos_or_pos, hhas, ih, List.any_cons, Bool.or_eq_true]

end Formula

/-! ### The walk -/

namespace Profile

/-- **The walk adds what occurs in the formula**, whatever lies above it. -/
theorem counts_observe (isSymbol : String → Bool) (f : Formula) (nesting quantifiers : Nat)
    (p : Profile) : (observe isSymbol f nesting quantifiers p).counts = p.counts + f.operators := by
  induction f generalizing nesting quantifiers p with
  | pred name args => rfl
  | not a ih | quant q x a ih =>
    rw [observe, ih, Formula.operators, ← OperatorCounts.add_assoc]
    rfl
  | deontic op a ih =>
    rw [observe, ih, Formula.operators, ← OperatorCounts.add_assoc, ← OperatorCounts.countNorm_eq]
  | tense op a ih =>
    rw [observe, ih, Formula.operators, ← OperatorCounts.add_assoc, ← OperatorCounts.countTense_eq]
  | binary op a b iha ihb | span op a b iha ihb =>
    rw [observe, ihb, iha, Formula.operators, ← OperatorCounts.add_assoc,
      ← OperatorCounts.add_assoc]
    rfl

theorem counts_foldl_observe (isSymbol : String → Bool) (fs : List Formula) (p : Profile) :
    (fs.foldl (fun p f => observe isSymbol f 0 0 p) p).counts =
      p.counts + Formula.operatorsAll fs := by
  induction fs generalizing p with
  | nil => rfl
  | cons f fs ih =>
    rw [List.foldl_cons, ih, counts_observe, OperatorCounts.add_assoc, Formula.operatorsAll]

/-- **The counts of a problem are the sum over its formulas.** -/
theorem counts_ofFormulas (isSymbol : String → Bool) (fs : List Formula) :
    (ofFormulas isSymbol fs).counts = Formula.operatorsAll fs := by
  rw [ofFormulas, counts_foldl_observe, OperatorCounts.empty_add]

end Profile

end Deontica
