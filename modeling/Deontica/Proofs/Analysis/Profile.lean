import Deontica.Formula.Walk
import Deontica.Proofs.Analysis
import Mathlib.Data.List.Perm.Basic
import Mathlib.Order.MinMax

/-!
# Profiles are put together from profiles

Two profiles are joined by adding up counts and sizes and taking the greater depths (`join`).  The
order of joining makes no difference.  A formula has a profile of its own, each part of which is
defined by recursion on the formula (`Formula.profile`).  It is what the root contributes, joined
with the profiles of the children (`profile_eq`).

So the walk that carries one profile from node to node joins what it is given with the profile of
the formula (`observe_eq`), and a walk that keeps a list of pending nodes, and takes the one put
there last, does the same (`visit_eq`).  A problem has the profiles of its formulas joined
(`ofFormulas_cons`), in whatever order they come (`ofFormulas_perm`).

No part of a profile can become less by joining, nor by passing from a formula to one that contains
it (`profile_le_of_mem_subformulas`).
-/

namespace Deontica

/-! ### Counts -/

namespace OperatorCounts

protected theorem add_comm (c d : OperatorCounts) : c + d = d + c := by
  simp only [add_def, Nat.add_comm]

/-- All operators and predicates together. -/
def total (c : OperatorCounts) : Nat :=
  c.predicates + c.negations + c.connectives + c.quantifiers + c.obligations + c.permissions +
    c.prohibitions + c.modal + c.temporal

theorem total_add (c d : OperatorCounts) : (c + d).total = c.total + d.total := by
  simp only [add_def, total]
  omega

/-- No kind of operator occurs more often in the first counts. -/
structure Le (c d : OperatorCounts) : Prop where
  predicates : c.predicates ≤ d.predicates
  negations : c.negations ≤ d.negations
  connectives : c.connectives ≤ d.connectives
  quantifiers : c.quantifiers ≤ d.quantifiers
  obligations : c.obligations ≤ d.obligations
  permissions : c.permissions ≤ d.permissions
  prohibitions : c.prohibitions ≤ d.prohibitions
  modal : c.modal ≤ d.modal
  temporal : c.temporal ≤ d.temporal

variable {c d c' d' : OperatorCounts}

theorem Le.trans {e : OperatorCounts} (h : Le c d) (h' : Le d e) : Le c e := by
  cases h
  cases h'
  constructor <;> omega

theorem Le.add (h : Le c c') (h' : Le d d') : Le (c + d) (c' + d') := by
  cases h
  cases h'
  constructor <;> simp only [add_def] <;> omega

theorem Le.deontic (h : Le c d) : c.deontic ≤ d.deontic :=
  Nat.add_le_add (Nat.add_le_add h.obligations h.permissions) h.prohibitions

theorem empty_le (c : OperatorCounts) : Le {} c := by
  constructor <;> exact Nat.zero_le _

theorem Le.refl (c : OperatorCounts) : Le c c := by
  constructor <;> exact Nat.le_refl _

end OperatorCounts

/-! ### The profile of a formula -/

namespace Formula

/-- The greatest number of quantifiers on a path from the root. -/
def quantifierDepth : Formula → Nat
  | .pred _ _ => 0
  | .not a | .deontic _ a | .tense _ a => a.quantifierDepth
  | .binary _ a b | .span _ a b => max a.quantifierDepth b.quantifierDepth
  | .quant _ _ a => a.quantifierDepth + 1

/-- Whether an arithmetic symbol or a numeral occurs. -/
def usesArithmetic (isSymbol : String → Bool) : Formula → Bool
  | .pred name args => isSymbol name || Profile.arithmeticArgs isSymbol args
  | .not a | .quant _ _ a | .deontic _ a | .tense _ a => a.usesArithmetic isSymbol
  | .binary _ a b | .span _ a b => a.usesArithmetic isSymbol || b.usesArithmetic isSymbol

/-- Whether a predicate with arguments occurs. -/
def hasArguments : Formula → Bool
  | .pred _ args => !args.isEmpty
  | .not a | .quant _ _ a | .deontic _ a | .tense _ a => a.hasArguments
  | .binary _ a b | .span _ a b => a.hasArguments || b.hasArguments

/-- The profile of a formula that has so many operators and quantifiers above it. -/
def profile (isSymbol : String → Bool) (nesting quantifiers : Nat) (f : Formula) : Profile where
  counts := f.operators
  quantifierDepth := quantifiers + f.quantifierDepth
  nesting := nesting + (f.depth - 1)
  size := f.size
  arithmetic := f.usesArithmetic isSymbol
  hasArgs := f.hasArguments

/-- How often the root is an operator of each kind. -/
def rootOperator : Formula → OperatorCounts
  | .pred _ _ => { predicates := 1 }
  | .not _ => { negations := 1 }
  | .binary _ _ _ => { connectives := 1 }
  | .quant _ _ _ => { quantifiers := 1 }
  | .deontic op _ => Profile.countNorm {} op
  | .tense op _ => Profile.countTense {} op
  | .span _ _ _ => { temporal := 1 }

/-- What the root contributes to a profile, with so many operators and quantifiers above it. -/
def rootProfile (isSymbol : String → Bool) (nesting quantifiers : Nat) (f : Formula) : Profile where
  counts := f.rootOperator
  quantifierDepth := quantifiers + f.rootOperator.quantifiers
  nesting := nesting
  size := 1
  arithmetic := f.isAtomic && f.usesArithmetic isSymbol
  hasArgs := f.isAtomic && f.hasArguments

theorem depth_pos (f : Formula) : 0 < f.depth := by
  cases f <;> exact Nat.succ_pos _

end Formula

namespace Profile

/-- Two profiles taken together: counts add up, depths take the greater. -/
def join (p q : Profile) : Profile where
  counts := p.counts + q.counts
  quantifierDepth := max p.quantifierDepth q.quantifierDepth
  nesting := max p.nesting q.nesting
  size := p.size + q.size
  arithmetic := p.arithmetic || q.arithmetic
  hasArgs := p.hasArgs || q.hasArgs

theorem join_comm (p q : Profile) : p.join q = q.join p := by
  simp only [join, OperatorCounts.add_comm, Nat.max_comm, Nat.add_comm, Bool.or_comm]

theorem join_assoc (p q r : Profile) : (p.join q).join r = p.join (q.join r) := by
  simp only [join, OperatorCounts.add_assoc, Nat.max_assoc, Nat.add_assoc, Bool.or_assoc]

theorem empty_join (p : Profile) : join {} p = p := by
  simp only [join, OperatorCounts.empty_add, Nat.zero_max, Nat.zero_add, Bool.false_or]

instance : Std.Commutative join := ⟨join_comm⟩

instance : Std.Associative join := ⟨join_assoc⟩

end Profile

namespace Formula

theorem quantifiers_countNorm (op : Norm) : (Profile.countNorm {} op).quantifiers = 0 := by
  cases op <;> rfl

theorem quantifiers_countTense (op : Tense) : (Profile.countTense {} op).quantifiers = 0 := by
  cases op <;> rfl

/-- **A profile is what the root contributes, joined with the profiles of the children.** -/
theorem profile_eq (isSymbol : String → Bool) (nesting quantifiers : Nat) (f : Formula) :
    f.profile isSymbol nesting quantifiers =
      (f.children.map (profile isSymbol (nesting + 1)
        (quantifiers + f.rootOperator.quantifiers))).foldl .join
          (f.rootProfile isSymbol nesting quantifiers) := by
  cases f with
  | pred name args => rfl
  | not a | quant q x a | deontic op a | tense op a =>
    have hdepth := a.depth_pos
    simp only [profile, rootProfile, children, rootOperator, List.map_cons, List.map_nil,
      List.foldl_cons, List.foldl_nil, Profile.join, Profile.mk.injEq, quantifierDepth, depth, size,
      quantifiers_countNorm, quantifiers_countTense]
    refine ⟨rfl, ?_, ?_, ?_, rfl, rfl⟩ <;> omega
  | binary op a b | span op a b =>
    have hleft := a.depth_pos
    have hright := b.depth_pos
    simp only [profile, rootProfile, children, rootOperator, List.map_cons, List.map_nil,
      List.foldl_cons, List.foldl_nil, Profile.join, Profile.mk.injEq, quantifierDepth, depth, size]
    refine ⟨rfl, ?_, ?_, ?_, rfl, rfl⟩ <;> omega

end Formula

/-! ### Walks -/

namespace Profile

variable (isSymbol : String → Bool)

theorem foldl_join (ps : List Profile) (p : Profile) :
    ps.foldl join p = p.join (ps.foldl join {}) := by
  induction ps generalizing p with
  | nil => rw [List.foldl_nil, List.foldl_nil, join_comm, empty_join]
  | cons q ps ih =>
    rw [List.foldl_cons, List.foldl_cons, ih, ih (join {} q), empty_join, join_assoc]

/-- The walk accounts for the root and then goes through the children from left to right. -/
theorem observe_eq_foldl (f : Formula) (nesting quantifiers : Nat) (p : Profile) :
    observe isSymbol f nesting quantifiers p =
      f.children.foldl (fun p a => observe isSymbol a (nesting + 1)
        (quantifiers + f.rootOperator.quantifiers) p)
          (p.join (f.rootProfile isSymbol nesting quantifiers)) := by
  cases f with
  | deontic op a | tense op a =>
    cases op <;>
      simp [observe, join, meet, countNorm, countTense, Formula.children, Formula.rootProfile,
        Formula.rootOperator, Formula.isAtomic, OperatorCounts.add_def]
  | _ =>
    simp [observe, join, meet, Formula.children, Formula.rootProfile, Formula.rootOperator,
      Formula.isAtomic, Formula.usesArithmetic, Formula.hasArguments, OperatorCounts.add_def,
      Bool.or_assoc]

/-- **The walk joins the profile of the formula to what it is given.** -/
theorem observe_eq (f : Formula) : ∀ (nesting quantifiers : Nat) (p : Profile),
    observe isSymbol f nesting quantifiers p = p.join (f.profile isSymbol nesting quantifiers) := by
  induction f with
  | pred name args =>
    intro nesting quantifiers p
    rw [observe_eq_foldl, Formula.profile_eq]
    rfl
  | not a ih | quant q x a ih | deontic op a ih | tense op a ih =>
    intro nesting quantifiers p
    rw [observe_eq_foldl, Formula.profile_eq]
    simp only [Formula.children, List.map_cons, List.map_nil, List.foldl_cons, List.foldl_nil, ih,
      join_assoc]
  | binary op a b iha ihb | span op a b iha ihb =>
    intro nesting quantifiers p
    rw [observe_eq_foldl, Formula.profile_eq]
    simp only [Formula.children, List.map_cons, List.map_nil, List.foldl_cons, List.foldl_nil, iha,
      ihb, join_assoc]

/-- Works off a list of pending nodes, each with the operators and quantifiers above it.  The
children of a node are put in front one after the other, so the last of them is taken first. -/
def visit : List (Formula × Nat × Nat) → Profile → Profile
  | [], p => p
  | (f, nesting, quantifiers) :: pending, p =>
    let below := f.children.map (·, nesting + 1, quantifiers + f.rootOperator.quantifiers)
    visit (below.reverse ++ pending) (p.join (f.rootProfile isSymbol nesting quantifiers))
termination_by pending => Formula.sizeAll (pending.map (·.1))
decreasing_by
  have := Formula.sizeAll_children f
  simp only [List.map_append, List.map_reverse, List.map_map, Function.comp_def, List.map_id_fun',
    id_eq, List.map_cons, Formula.sizeAll_append, Formula.sizeAll_reverse, Formula.sizeAll]
  omega

/-- **The order in which nodes are visited makes no difference.** -/
theorem visit_eq (pending : List (Formula × Nat × Nat)) (p : Profile) :
    visit isSymbol pending p =
      (pending.map fun t => t.1.profile isSymbol t.2.1 t.2.2).foldl join p := by
  fun_induction visit with
  | case1 p => rfl
  | case2 f nesting quantifiers pending p below ih =>
    let root := f.rootProfile isSymbol nesting quantifiers
    let parts := f.children.map
      (Formula.profile isSymbol (nesting + 1) (quantifiers + f.rootOperator.quantifiers))
    have hbelow : below.map (fun t => t.1.profile isSymbol t.2.1 t.2.2) = parts := List.map_map ..
    have hnode : (below.reverse.map fun t => t.1.profile isSymbol t.2.1 t.2.2).foldl join
        (p.join root) = p.join (f.profile isSymbol nesting quantifiers) :=
      calc _ = parts.foldl join (p.join root) := by
            rw [List.map_reverse, hbelow]
            exact (List.reverse_perm parts).foldl_eq _
        _ = p.join (parts.foldl join root) := by
            rw [foldl_join, join_assoc, ← foldl_join]
        _ = p.join (f.profile isSymbol nesting quantifiers) := by rw [Formula.profile_eq]
    rw [ih, List.map_append, List.foldl_append, hnode]
    rfl

/-! ### Problems -/

/-- **A problem has the profiles of its formulas joined.** -/
theorem ofFormulas_eq (fs : List Formula) :
    ofFormulas isSymbol fs = (fs.map (Formula.profile isSymbol 0 0)).foldl join {} := by
  rw [ofFormulas, List.foldl_map]
  exact congrArg (fun step => fs.foldl step ({} : Profile))
    (funext₂ fun p f => observe_eq isSymbol f 0 0 p)

theorem ofFormulas_cons (f : Formula) (fs : List Formula) :
    ofFormulas isSymbol (f :: fs) = (f.profile isSymbol 0 0).join (ofFormulas isSymbol fs) := by
  rw [ofFormulas_eq, ofFormulas_eq, List.map_cons, List.foldl_cons, foldl_join, empty_join]

/-- The order of the formulas makes no difference. -/
theorem ofFormulas_perm {fs gs : List Formula} (h : fs.Perm gs) :
    ofFormulas isSymbol fs = ofFormulas isSymbol gs := by
  rw [ofFormulas_eq, ofFormulas_eq]
  exact (h.map _).foldl_eq _

/-- A problem may be walked with a list of pending nodes. -/
theorem ofFormulas_eq_visit (fs : List Formula) :
    ofFormulas isSymbol fs = fs.foldl (fun p f => visit isSymbol [(f, 0, 0)] p) {} := by
  unfold ofFormulas
  refine congrArg (fun step => fs.foldl step ({} : Profile)) (funext₂ fun p f => ?_)
  rw [observe_eq, visit_eq]
  rfl

/-! ### What can only grow -/

/-- No count, depth or size is greater in the first profile. -/
structure Le (p q : Profile) : Prop where
  counts : p.counts.Le q.counts
  quantifierDepth : p.quantifierDepth ≤ q.quantifierDepth
  nesting : p.nesting ≤ q.nesting
  size : p.size ≤ q.size

theorem Le.refl (p : Profile) : Le p p :=
  ⟨.refl _, Nat.le_refl _, Nat.le_refl _, Nat.le_refl _⟩

theorem Le.trans {p q r : Profile} (h : Le p q) (h' : Le q r) : Le p r where
  counts := h.counts.trans h'.counts
  quantifierDepth := Nat.le_trans h.quantifierDepth h'.quantifierDepth
  nesting := Nat.le_trans h.nesting h'.nesting
  size := Nat.le_trans h.size h'.size

theorem Le.join {p q p' q' : Profile} (h : Le p p') (h' : Le q q') :
    Le (p.join q) (p'.join q') where
  counts := h.counts.add h'.counts
  quantifierDepth := max_le_max h.quantifierDepth h'.quantifierDepth
  nesting := max_le_max h.nesting h'.nesting
  size := Nat.add_le_add h.size h'.size

theorem empty_le (p : Profile) : Le {} p :=
  ⟨OperatorCounts.empty_le _, Nat.zero_le _, Nat.zero_le _, Nat.zero_le _⟩

theorem le_join_right (p q : Profile) : Le q (p.join q) := by
  have h := (empty_le p).join (.refl q)
  rwa [empty_join] at h

theorem le_join_left (p q : Profile) : Le p (p.join q) :=
  join_comm q p ▸ le_join_right q p

theorem le_foldl_join_of_mem {p : Profile} {ps : List Profile} (h : p ∈ ps) (q : Profile) :
    Le p (ps.foldl join q) := by
  induction ps generalizing q with
  | nil => cases h
  | cons r ps ih =>
    rcases List.mem_cons.mp h with rfl | h
    · rw [List.foldl_cons, foldl_join]
      exact (le_join_right q p).trans (le_join_left _ _)
    · exact ih h _

end Profile

namespace Formula

variable {isSymbol : String → Bool} {f g : Formula} {nesting quantifiers : Nat}

theorem profile_le_of_le (f : Formula) {nesting' quantifiers' : Nat} (hnesting : nesting ≤ nesting')
    (hquantifiers : quantifiers ≤ quantifiers') :
    (f.profile isSymbol nesting quantifiers).Le (f.profile isSymbol nesting' quantifiers') where
  counts := .refl _
  quantifierDepth := Nat.add_le_add_right hquantifiers _
  nesting := Nat.add_le_add_right hnesting _
  size := Nat.le_refl _

/-- The profile of a child is part of its parent's. -/
theorem profile_le_of_mem_children (h : g ∈ f.children) :
    (g.profile isSymbol nesting quantifiers).Le (f.profile isSymbol nesting quantifiers) := by
  rw [f.profile_eq]
  exact (g.profile_le_of_le (Nat.le_succ _) (Nat.le_add_right _ _)).trans
    (Profile.le_foldl_join_of_mem (List.mem_map_of_mem h) _)

/-- **The profile of a subformula is part of the formula's.** -/
theorem profile_le_of_mem_subformulas (h : g ∈ f.subformulas) :
    (g.profile isSymbol nesting quantifiers).Le (f.profile isSymbol nesting quantifiers) := by
  induction f with
  | pred name args =>
    rw [List.mem_singleton.mp h]
    exact .refl _
  | not a ih | quant q x a ih | deontic op a ih | tense op a ih =>
    rcases List.mem_cons.mp h with rfl | h
    · exact .refl _
    · exact (ih h).trans (profile_le_of_mem_children (List.mem_singleton.mpr rfl))
  | binary op a b iha ihb | span op a b iha ihb =>
    rcases List.mem_cons.mp h with rfl | h
    · exact .refl _
    rcases List.mem_append.mp h with h | h
    · exact (iha h).trans (profile_le_of_mem_children List.mem_cons_self)
    · exact (ihb h).trans
        (profile_le_of_mem_children (List.mem_cons_of_mem _ (List.mem_singleton.mpr rfl)))

end Formula

end Deontica
