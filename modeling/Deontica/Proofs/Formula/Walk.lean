import Deontica.Formula.Walk
import Deontica.Proofs.Cache.Key
import Mathlib.Algebra.Ring.Nat
import Mathlib.Data.List.MinMax
import Mathlib.Data.List.Perm.Basic
import Mathlib.Order.Bounds.Basic

/-!
# Walks and recursion

The walks over a formula give what recursion on the tree gives (`walks_eq_recursion`).

The invariant of a walk speaks of all pending nodes, whatever they are: what the walk has still to
contribute is what recursion gives for each of them, put together (`Walk.visit_eq`,
`Walk.countOnto_eq`, `Walk.greatest_eq`, `Stream.terms_eq`, `Stream.formulas_eq`).  A step replaces
a node by its children, so all that is asked of the recursion is its equation over the children.
Listings and streams are put together by appending, so the children have to stay in order; a sum or
a maximum does not depend on the order, so the measures may take the last child first.
-/

namespace Deontica

namespace Formula

/-! ### Recursion over the children -/

/-- What a node has whenever all its children have it, every formula has. -/
theorem induction_children {P : Formula → Prop} (step : ∀ f, (∀ g ∈ f.children, P g) → P f)
    (f : Formula) : P f := by
  induction f with
  | pred p args => exact step _ (List.forall_mem_nil P)
  | not a ih | quant q x a ih | deontic op a ih | tense op a ih =>
    exact step _ (List.forall_mem_singleton.mpr ih)
  | binary op a b iha ihb | span op a b iha ihb =>
    exact step _ (List.forall_mem_cons.mpr ⟨iha, List.forall_mem_singleton.mpr ihb⟩)

theorem subformulas_eq_cons (f : Formula) :
    f.subformulas = f :: f.children.flatMap subformulas := by
  cases f <;> simp [subformulas, children]

theorem length_subformulas (f : Formula) : f.subformulas.length = f.size := by
  induction f with
  | pred p args => rfl
  | not a ih | quant q x a ih | deontic op a ih | tense op a ih =>
    rw [subformulas, size, List.length_cons, ih]
  | binary op a b iha ihb | span op a b iha ihb =>
    rw [subformulas, size, List.length_cons, List.length_append, iha, ihb]

theorem depth_eq_foldr (f : Formula) : f.depth = (f.children.map depth).foldr max 0 + 1 := by
  cases f <;> simp [depth, children]

theorem temporalNesting_eq_foldr (f : Formula) :
    f.temporalNesting =
      (f.children.map temporalNesting).foldr max 0 + if f.isTemporal then 1 else 0 := by
  cases f <;> simp [temporalNesting, isTemporal, children]

/-! ### Paths -/

/-- The nodes on a way down from the root, the root first. -/
inductive IsPath : Formula → List Formula → Prop where
  | root (f : Formula) : IsPath f [f]
  | cons {f g : Formula} {path : List Formula} (hg : g ∈ f.children) (hpath : IsPath g path) :
    IsPath f (f :: path)

theorem foldr_max_eq_zero_or_mem (l : List Nat) : l.foldr max 0 = 0 ∨ l.foldr max 0 ∈ l := by
  induction l with
  | nil => exact Or.inl rfl
  | cons n l ih =>
    rw [List.foldr_cons]
    obtain hmax | hmax := max_choice n (l.foldr max 0)
    · rw [hmax]
      exact Or.inr List.mem_cons_self
    · rw [hmax]
      exact ih.imp_right (List.mem_cons_of_mem n)

section

variable {kind : Formula → Bool} {most : Formula → Nat}
  (hmost : ∀ f, most f = (f.children.map most).foldr max 0 + if kind f then 1 else 0)

include hmost

theorem countP_le_of_isPath {f : Formula} {path : List Formula} (h : f.IsPath path) :
    path.countP kind ≤ most f := by
  induction h with
  | root f =>
    rw [hmost f, List.countP_cons, List.countP_nil]
    exact Nat.add_le_add_right (Nat.zero_le _) _
  | cons hg _ ih =>
    rw [hmost, List.countP_cons]
    exact Nat.add_le_add_right (List.le_max_of_le' 0 (List.mem_map_of_mem hg) ih) _

theorem exists_isPath_countP (f : Formula) : ∃ path, f.IsPath path ∧ path.countP kind = most f := by
  induction f using induction_children with
  | step f ih =>
    obtain hzero | hmem := foldr_max_eq_zero_or_mem (f.children.map most)
    · -- nothing of the kind is below, so the root alone will do
      exact ⟨[f], .root f, by rw [hmost f, hzero, List.countP_cons, List.countP_nil]⟩
    · obtain ⟨g, hg, hgreatest⟩ := List.mem_map.mp hmem
      obtain ⟨path, hpath, hcount⟩ := ih g hg
      exact ⟨f :: path, .cons hg hpath, by rw [hmost f, List.countP_cons, hcount, hgreatest]⟩

/-- Recursion for the nodes of a kind gives the greatest number of them on a path. -/
theorem isGreatest_countP (f : Formula) :
    IsGreatest {n | ∃ path, f.IsPath path ∧ path.countP kind = n} (most f) := by
  refine ⟨exists_isPath_countP hmost f, ?_⟩
  rintro n ⟨path, hpath, rfl⟩
  exact countP_le_of_isPath hmost hpath

end

/-- The depth is the greatest number of nodes on a path. -/
theorem isGreatest_length (f : Formula) :
    IsGreatest {n | ∃ path, f.IsPath path ∧ path.length = n} f.depth := by
  have hcount : IsGreatest {n | ∃ path, f.IsPath path ∧ path.countP (fun _ => true) = n} f.depth :=
    isGreatest_countP depth_eq_foldr f
  simpa only [List.countP_true] using hcount

/-! ### The listing and the number of nodes -/

namespace Walk

theorem visit_eq (pending : List Formula) :
    visit pending = pending.flatMap Formula.subformulas := by
  induction pending using visit.induct with
  | case1 => rw [visit, List.flatMap_nil]
  | case2 f pending ih =>
    rw [visit, ih, List.flatMap_append, List.flatMap_cons, subformulas_eq_cons, List.cons_append]

theorem countOnto_eq (count : Nat) (pending : List Formula) :
    countOnto count pending = count + sizeAll pending := by
  induction count, pending using countOnto.induct with
  | case1 count => rw [countOnto, sizeAll, Nat.add_zero]
  | case2 count f pending ih =>
    have hchildren := sizeAll_children f
    rw [countOnto, ih, sizeAll_append, sizeAll_reverse, sizeAll]
    omega

/-! ### The greatest label -/

/-- If `peak` is the greatest label in a tree by recursion, the walk gives the greatest of `best`
and the peaks of the pending trees. -/
theorem greatest_eq {own : Formula → Nat → Nat} {below : Nat → Nat} {peak : Formula → Nat → Nat}
    (hpeak : ∀ f n, peak f n =
      (f.children.map fun g => peak g (below (own f n))).foldr max (own f n))
    (best : Nat) (pending : List (Formula × Nat)) :
    greatest own below best pending = (pending.map fun t => peak t.1 t.2).foldr max best := by
  induction best, pending using greatest.induct own below with
  | case1 best => rw [greatest]; rfl
  | case2 best f n pending label ih =>
    let parts := f.children.map fun g => peak g (below label)
    let others := pending.map fun t => peak t.1 t.2
    have hparts : ((f.children.map (·, below label)).reverse.map fun t => peak t.1 t.2) =
        parts.reverse := by
      rw [List.map_reverse, List.map_map]
      rfl
    calc greatest own below best ((f, n) :: pending)
        = (parts.reverse ++ others).foldr max (max best label) := by
          rw [greatest, ih, List.map_append, hparts]
      _ = parts.foldr max (others.foldr max (max best label)) := by
          rw [List.foldr_append]
          exact (List.reverse_perm parts).foldr_eq _
      _ = parts.foldr max (max label (others.foldr max best)) := by
          rw [List.foldr_assoc, max_comm]
      _ = max (peak f n) (others.foldr max best) := by
          rw [List.foldr_assoc, hpeak f n]

theorem foldr_max_add (n : Nat) (h : Formula → Nat) (fs : List Formula) :
    (fs.map fun g => n + h g).foldr max n = n + (fs.map h).foldr max 0 := by
  induction fs with
  | nil => rfl
  | cons f fs ih =>
    rw [List.map_cons, List.map_cons, List.foldr_cons, List.foldr_cons, ih, Nat.add_max_add_left]

theorem depth_eq (f : Formula) : depth f = f.depth := by
  have hpeak : ∀ (f : Formula) (n : Nat), n + (f.depth - 1) =
      (f.children.map fun g => n + 1 + (g.depth - 1)).foldr max n := by
    intro f n
    have hbelow : ∀ g : Formula, n + 1 + (g.depth - 1) = n + g.depth := by
      intro g
      have hg := Formula.depth_eq_foldr g
      omega
    rw [funext hbelow, foldr_max_add, Formula.depth_eq_foldr f, Nat.add_sub_cancel]
  have hf := Formula.depth_eq_foldr f
  rw [depth, greatest_eq hpeak]
  show max (1 + (f.depth - 1)) 0 = f.depth
  omega

theorem temporalNesting_eq (f : Formula) : temporalNesting f = f.temporalNesting := by
  have hpeak : ∀ (f : Formula) (n : Nat), n + f.temporalNesting =
      (f.children.map fun g => (if f.isTemporal then n + 1 else n) + g.temporalNesting).foldr max
        (if f.isTemporal then n + 1 else n) := by
    intro f n
    rw [foldr_max_add, Formula.temporalNesting_eq_foldr f]
    split <;> omega
  rw [temporalNesting, greatest_eq hpeak]
  show max (0 + f.temporalNesting) 0 = f.temporalNesting
  omega

end Walk

end Formula

/-! ### Streams -/

namespace Stream

mutual

/-- The bytes of a term by recursion. -/
def ofTerm : Term → List UInt8
  | .var x => frame 0x20 x
  | .const c => frame 0x21 c
  | .app f args => frame 0x22 f ++ count args.length ++ ofTerms args

/-- The bytes of some terms by recursion, one term after the other. -/
def ofTerms : List Term → List UInt8
  | [] => []
  | t :: ts => ofTerm t ++ ofTerms ts

end

/-- The bytes of a formula by recursion. -/
def ofFormula : Formula → List UInt8
  | .pred p args => frame 0x10 p ++ count args.length ++ ofTerms args
  | .not a => 0x11 :: ofFormula a
  | .binary op a b => 0x12 :: op.rank.toUInt8 :: (ofFormula a ++ ofFormula b)
  | .quant q x a => 0x13 :: q.rank.toUInt8 :: (frame 0x13 x ++ ofFormula a)
  | .deontic op a => 0x14 :: op.rank.toUInt8 :: ofFormula a
  | .tense op a => 0x15 :: op.rank.toUInt8 :: ofFormula a
  | .span op a b => 0x16 :: op.rank.toUInt8 :: (ofFormula a ++ ofFormula b)

theorem ofTerms_append (ts us : List Term) : ofTerms (ts ++ us) = ofTerms ts ++ ofTerms us := by
  induction ts with
  | nil => rfl
  | cons t ts ih => rw [List.cons_append, ofTerms, ofTerms, ih, List.append_assoc]

theorem ofTerm_eq_append (t : Term) : ofTerm t = termNode t ++ ofTerms t.args := by
  cases t <;> simp [ofTerm, ofTerms, termNode, Term.args]

theorem terms_eq (ts : List Term) : terms ts = ofTerms ts := by
  induction ts using Term.Walk.visit.induct with
  | case1 => rw [terms, Term.Walk.visit, List.flatMap_nil, ofTerms]
  | case2 t ts ih =>
    rw [terms_cons, ih, ofTerms_append, ofTerms, ofTerm_eq_append, List.append_assoc]

theorem ofFormula_eq_append (f : Formula) :
    ofFormula f = node f ++ f.children.flatMap ofFormula := by
  cases f <;> simp [ofFormula, node, Formula.children, terms_eq]

theorem formulas_eq (fs : List Formula) : formulas fs = fs.flatMap ofFormula := by
  induction fs using Formula.Walk.visit.induct with
  | case1 => rw [formulas, Formula.Walk.visit, List.flatMap_nil, List.flatMap_nil]
  | case2 f fs ih =>
    rw [formulas_cons, ih, List.flatMap_append, List.flatMap_cons, ofFormula_eq_append,
      List.append_assoc]

end Stream

namespace Formula

/-- **The walks do what recursion does.**  The listing is the formula followed by the listings of
its children in order, and the number of nodes is its length.  The depth is one more than the
greatest depth of a child, and the greatest number of nodes on a path; the temporal nesting is the
greatest one of a child, and one more at a temporal operator, which is the greatest number of
temporal operators on a path.  The stream is that of the root followed by those of the children. -/
theorem walks_eq_recursion (f : Formula) :
    (Walk.subformulas f = f.subformulas ∧ f.subformulas = f :: f.children.flatMap subformulas) ∧
      (Walk.size f = f.size ∧ f.size = f.subformulas.length) ∧
      (Walk.depth f = f.depth ∧ f.depth = (f.children.map depth).foldr max 0 + 1 ∧
        IsGreatest {n | ∃ path, f.IsPath path ∧ path.length = n} f.depth) ∧
      (Walk.temporalNesting f = f.temporalNesting ∧
        f.temporalNesting =
          (f.children.map temporalNesting).foldr max 0 + (if f.isTemporal then 1 else 0) ∧
        IsGreatest {n | ∃ path, f.IsPath path ∧ path.countP isTemporal = n} f.temporalNesting) ∧
      (Stream.formula f = Stream.ofFormula f ∧
        Stream.ofFormula f = Stream.node f ++ f.children.flatMap Stream.ofFormula) ∧
      ∀ ts, Stream.terms ts = Stream.ofTerms ts := by
  refine ⟨⟨?_, subformulas_eq_cons f⟩, ⟨?_, (length_subformulas f).symm⟩,
    ⟨Walk.depth_eq f, depth_eq_foldr f, isGreatest_length f⟩,
    ⟨Walk.temporalNesting_eq f, temporalNesting_eq_foldr f,
      isGreatest_countP temporalNesting_eq_foldr f⟩,
    ⟨?_, Stream.ofFormula_eq_append f⟩, Stream.terms_eq⟩
  · rw [Walk.subformulas, Walk.visit_eq, List.flatMap_singleton]
  · rw [Walk.size, Walk.countOnto_eq, sizeAll, sizeAll, Nat.zero_add, Nat.add_zero]
  · exact (Stream.formulas_eq [f]).trans (List.flatMap_singleton ..)

end Formula

end Deontica
