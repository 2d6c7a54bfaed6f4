import Deontica.Proofs.Tableau.Demand
import Deontica.Term.Walk
import Mathlib.Data.Set.Finite.Lattice
import Mathlib.Data.Finite.Prod
import Mathlib.Data.Fintype.Card

/-!
# Formulas over a finite vocabulary

Neither rules nor the expansion of a tableau make up names: what they come to is spelled with the
names of the problem, with constants of the problem or fresh ones, and with no longer arguments than
there were (`Formula.Over`).  There are only finitely many such formulas of a given depth
(`Formula.finite_over`), so whatever keeps to a vocabulary and a depth comes to an end.
-/

namespace Deontica

instance : Fintype Connective :=
  Fintype.ofList [.and, .or, .implies, .iff, .xor] fun op => by cases op <;> decide

instance : Fintype Quantifier :=
  Fintype.ofList [.all, .exists] fun q => by cases q <;> decide

instance : Fintype Norm :=
  Fintype.ofList [.obligatory, .permitted, .forbidden] fun op => by cases op <;> decide

instance : Fintype Tense :=
  Fintype.ofList [.always, .eventually, .next] fun op => by cases op <;> decide

instance : Fintype Span :=
  Fintype.ofList [.until, .since] fun op => by cases op <;> decide

/-- Lists without repetition, with members in a finite set, have bounded length. -/
theorem exists_length_le {α : Type} {V : Set α} (hV : V.Finite) :
    ∃ n, ∀ l : List α, l.Nodup → (∀ x ∈ l, x ∈ V) → l.length ≤ n := by
  refine ⟨hV.toFinset.card, fun l hl hmem => ?_⟩
  have hsub : (⟨l, Multiset.coe_nodup.mpr hl⟩ : Finset α) ⊆ hV.toFinset := by
    intro x hx
    exact hV.mem_toFinset.mpr (hmem x hx)
  exact Finset.card_le_card hsub

namespace Term

/-! ### Terms -/

mutual

/-- The names of the variables and functions of a term, one for each occurrence. -/
def names : Term → List String
  | .var x => [x]
  | .const _ => []
  | .app f args => f :: namesArgs args

/-- The names of the variables and functions of a list of terms. -/
def namesArgs : List Term → List String
  | [] => []
  | t :: ts => names t ++ namesArgs ts

end

mutual

theorem names_substitute (x c : String) :
    ∀ t : Term, (t.substitute x (.const c)).names ⊆ t.names
  | .var y => by
    unfold substitute
    split_ifs
    · exact List.nil_subset _
    · exact List.Subset.refl _
  | .const _ => List.Subset.refl _
  | .app f args => List.cons_subset_cons f (namesArgs_substitute x c args)

theorem namesArgs_substitute (x c : String) :
    ∀ ts : List Term, namesArgs (substituteArgs ts x (.const c)) ⊆ namesArgs ts
  | [] => List.Subset.refl _
  | t :: ts => append_subset_append (names_substitute x c t) (namesArgs_substitute x c ts)

end

mutual

/-- A constant is as large as the variable it is put for. -/
theorem size_substitute (x c : String) : ∀ t : Term, (t.substitute x (.const c)).size = t.size
  | .var y => by
    unfold substitute
    split_ifs <;> rfl
  | .const _ => rfl
  | .app _ args => congrArg (· + 1) (sizeArgs_substitute x c args)

theorem sizeArgs_substitute (x c : String) :
    ∀ ts : List Term, sizeArgs (substituteArgs ts x (.const c)) = sizeArgs ts
  | [] => rfl
  | t :: ts => congrArg₂ (· + ·) (size_substitute x c t) (sizeArgs_substitute x c ts)

end

theorem size_pos (t : Term) : 0 < t.size := by
  have := sizeArgs_args t
  omega

section Finite

variable {S C : Set String}

/-- The term has names in `S` and constants in `C`. -/
def Over (S C : Set String) (t : Term) : Prop :=
  (∀ x ∈ t.names, x ∈ S) ∧ ∀ c ∈ t.constants, c ∈ C

/-- The terms have names in `S` and constants in `C`. -/
def OverArgs (S C : Set String) (ts : List Term) : Prop :=
  (∀ x ∈ namesArgs ts, x ∈ S) ∧ ∀ c ∈ constantsArgs ts, c ∈ C

theorem overArgs_of_app {f : String} {args : List Term} (h : Over S C (.app f args)) :
    f ∈ S ∧ OverArgs S C args := by
  obtain ⟨hf, hnames⟩ := List.forall_mem_cons.mp h.1
  exact ⟨hf, hnames, h.2⟩

theorem over_of_cons {t : Term} {ts : List Term} (h : OverArgs S C (t :: ts)) :
    Over S C t ∧ OverArgs S C ts := by
  obtain ⟨hnames, hnames'⟩ := List.forall_mem_append.mp h.1
  obtain ⟨hconst, hconst'⟩ := List.forall_mem_append.mp h.2
  exact ⟨⟨hnames, hconst⟩, hnames', hconst'⟩

/-- Terms over a finite vocabulary, of a bounded size, are finitely many; so are lists of them. -/
theorem finite_over (hS : S.Finite) (hC : C.Finite) (n : Nat) :
    {t | Over S C t ∧ t.size ≤ n}.Finite ∧ {ts | OverArgs S C ts ∧ sizeArgs ts ≤ n}.Finite := by
  induction n with
  | zero =>
    constructor
    · refine Set.finite_empty.subset fun t ht => ?_
      have := t.size_pos
      have := ht.2
      omega
    · refine (Set.finite_singleton []).subset fun ts hts => ?_
      cases ts with
      | nil => rfl
      | cons t ts =>
        have := t.size_pos
        have : t.size + sizeArgs ts ≤ 0 := hts.2
        omega
  | succ n ih =>
    have hterms : {t | Over S C t ∧ t.size ≤ n + 1}.Finite := by
      refine ((hS.image .var).union ((hC.image .const).union (hS.image2 .app ih.2))).subset ?_
      rintro t ⟨hover, hsize⟩
      cases t with
      | var x => exact Or.inl ⟨x, hover.1 x List.mem_cons_self, rfl⟩
      | const c => exact Or.inr (Or.inl ⟨c, hover.2 c List.mem_cons_self, rfl⟩)
      | app f args =>
        obtain ⟨hf, hargs⟩ := overArgs_of_app hover
        exact Or.inr (Or.inr ⟨f, hf, args, ⟨hargs, Nat.le_of_succ_le_succ hsize⟩, rfl⟩)
    refine ⟨hterms, ((Set.finite_singleton []).union (hterms.image2 .cons ih.2)).subset ?_⟩
    rintro ts ⟨hover, hsize⟩
    cases ts with
    | nil => exact Or.inl rfl
    | cons t ts =>
      have := t.size_pos
      have : t.size + sizeArgs ts ≤ n + 1 := hsize
      obtain ⟨ht, hts⟩ := over_of_cons hover
      exact Or.inr ⟨t, ⟨ht, by omega⟩, ts, ⟨hts, by omega⟩, rfl⟩

end Finite

end Term

namespace Formula

/-! ### Formulas -/

/-- The names of the predicates, functions and variables, one for each occurrence. -/
def names : Formula → List String
  | .pred p args => p :: Term.namesArgs args
  | .quant _ x a => x :: a.names
  | .not a | .deontic _ a | .tense _ a => a.names
  | .binary _ a b | .span _ a b => a.names ++ b.names

/-- The most nodes that the arguments of a predicate have together. -/
def width : Formula → Nat
  | .pred _ args => Term.sizeArgs args
  | .not a | .quant _ _ a | .deontic _ a | .tense _ a => a.width
  | .binary _ a b | .span _ a b => max a.width b.width

/-- The formula has names in `S`, constants in `C` and arguments of at most `k` nodes. -/
structure Over (S C : Set String) (k : Nat) (f : Formula) : Prop where
  names : ∀ x ∈ f.names, x ∈ S
  constants : ∀ c ∈ f.constantOccurrences, c ∈ C
  width : f.width ≤ k

section Over

variable {S C : Set String} {k : Nat} {f a b : Formula} {x : String}

theorem over_pred {p : String} {args : List Term} :
    (pred p args).Over S C k ↔ p ∈ S ∧ Term.OverArgs S C args ∧ Term.sizeArgs args ≤ k := by
  constructor
  · rintro ⟨hnames, hconst, hwidth⟩
    have hnames := List.forall_mem_cons.mp hnames
    exact ⟨hnames.1, ⟨hnames.2, hconst⟩, hwidth⟩
  · rintro ⟨hp, ⟨hnames, hconst⟩, hwidth⟩
    exact ⟨List.forall_mem_cons.mpr ⟨hp, hnames⟩, hconst, hwidth⟩

@[simp] theorem over_not : a.not.Over S C k ↔ a.Over S C k :=
  ⟨fun h => ⟨h.names, h.constants, h.width⟩, fun h => ⟨h.names, h.constants, h.width⟩⟩

@[simp] theorem over_deontic {op : Norm} : (deontic op a).Over S C k ↔ a.Over S C k :=
  ⟨fun h => ⟨h.names, h.constants, h.width⟩, fun h => ⟨h.names, h.constants, h.width⟩⟩

@[simp] theorem over_tense {op : Tense} : (tense op a).Over S C k ↔ a.Over S C k :=
  ⟨fun h => ⟨h.names, h.constants, h.width⟩, fun h => ⟨h.names, h.constants, h.width⟩⟩

@[simp] theorem over_quant {q : Quantifier} :
    (quant q x a).Over S C k ↔ x ∈ S ∧ a.Over S C k := by
  constructor
  · rintro ⟨hnames, hconst, hwidth⟩
    have hnames := List.forall_mem_cons.mp hnames
    exact ⟨hnames.1, hnames.2, hconst, hwidth⟩
  · rintro ⟨hx, hnames, hconst, hwidth⟩
    exact ⟨List.forall_mem_cons.mpr ⟨hx, hnames⟩, hconst, hwidth⟩

@[simp] theorem over_binary {op : Connective} :
    (binary op a b).Over S C k ↔ a.Over S C k ∧ b.Over S C k := by
  constructor
  · rintro ⟨hnames, hconst, hwidth⟩
    obtain ⟨hnames, hnames'⟩ := List.forall_mem_append.mp hnames
    obtain ⟨hconst, hconst'⟩ := List.forall_mem_append.mp hconst
    obtain ⟨hwidth, hwidth'⟩ := max_le_iff.mp hwidth
    exact ⟨⟨hnames, hconst, hwidth⟩, ⟨hnames', hconst', hwidth'⟩⟩
  · rintro ⟨ha, hb⟩
    exact ⟨List.forall_mem_append.mpr ⟨ha.names, hb.names⟩,
      List.forall_mem_append.mpr ⟨ha.constants, hb.constants⟩, max_le ha.width hb.width⟩

/-- A spanning formula has the names, the constants and the width of a binary one. -/
@[simp] theorem over_span {op : Span} :
    (span op a b).Over S C k ↔ a.Over S C k ∧ b.Over S C k := by
  have hspan : (span op a b).Over S C k ↔ (and a b).Over S C k :=
    ⟨fun h => ⟨h.names, h.constants, h.width⟩, fun h => ⟨h.names, h.constants, h.width⟩⟩
  exact hspan.trans over_binary

@[simp] theorem over_negation : f.negation.Over S C k ↔ f.Over S C k := by
  cases f with
  | not a => exact over_not.symm
  | _ => exact over_not

/-- An instance is spelled like the formula, but for the new constant. -/
theorem Over.substitute (h : f.Over S C k) (x : String) {c : String} (hc : c ∈ C) :
    (f.substitute x (.const c)).Over S C k := by
  induction f with
  | pred p args =>
    rw [over_pred] at h
    obtain ⟨hp, ⟨hnames, hconst⟩, hsize⟩ := h
    refine over_pred.mpr ⟨hp, ⟨fun y hy => ?_, fun d hd => ?_⟩, ?_⟩
    · exact hnames y (Term.namesArgs_substitute x c args hy)
    · rcases List.mem_cons.mp (Term.constantsArgs_substitute x c args hd) with rfl | hd
      · exact hc
      · exact hconst d hd
    · rw [Term.sizeArgs_substitute]
      exact hsize
  | not a ih => exact over_not.mpr (ih (over_not.mp h))
  | deontic op a ih => exact over_deontic.mpr (ih (over_deontic.mp h))
  | tense op a ih => exact over_tense.mpr (ih (over_tense.mp h))
  | binary op a b iha ihb =>
    rw [over_binary] at h
    exact over_binary.mpr ⟨iha h.1, ihb h.2⟩
  | span op a b iha ihb =>
    rw [over_span] at h
    exact over_span.mpr ⟨iha h.1, ihb h.2⟩
  | quant q y a ih =>
    unfold Formula.substitute
    split_ifs
    · exact h
    · rw [over_quant] at h
      exact over_quant.mpr ⟨h.1, ih h.2⟩

theorem over_of_mem_denial {g : Formula} (h : f.Over S C k) (hg : g ∈ f.denial.parts) :
    g.Over S C k := by
  match f, hg with
  | .not a, hg =>
    rw [List.mem_singleton.mp hg]
    exact over_not.mp h
  | .binary op l r, hg =>
    cases op <;> simp [denial, Demand.parts] at hg <;> grind [over_binary, over_negation]
  | .quant q x a, hg =>
    cases q <;> rw [List.mem_singleton.mp hg] <;> exact over_negation.mpr (over_quant.mp h).2
  | .deontic op a, hg => 
    cases op <;> rw [List.mem_singleton.mp hg] <;> simpa using h
  | .tense op a, hg =>
    cases op <;> rw [List.mem_singleton.mp hg] <;> simpa using h
  | .span op l r, hg =>
    rw [List.mem_singleton.mp hg]
    exact over_negation.mpr (over_span.mp h).2

/-- A demand is about formulas over the same vocabulary. -/
theorem Over.demand {g : Formula} (h : f.Over S C k) (hg : g ∈ f.demand.parts) :
    g.Over S C k := by
  match f, hg with
  | .not a, hg => exact over_of_mem_denial (over_not.mp h) hg
  | .binary op l r, hg =>
    cases op <;> simp [Formula.demand, Demand.parts] at hg <;> grind [over_binary, over_negation]
  | .quant q x a, hg =>
    cases q <;> rw [List.mem_singleton.mp hg] <;> exact (over_quant.mp h).2
  | .deontic op a, hg => 
    cases op <;> rw [List.mem_singleton.mp hg] <;> simpa using h
  | .tense op a, hg =>
    cases op <;> rw [List.mem_singleton.mp hg] <;> simpa using h
  | .span op l r, hg =>
    cases op <;> simp [Formula.demand, Demand.parts] at hg <;> grind [over_span, over_tense]

/-- **Formulas over a finite vocabulary, of a bounded depth, are finitely many.** -/
theorem finite_over (hS : S.Finite) (hC : C.Finite) (k n : Nat) :
    {f : Formula | f.Over S C k ∧ f.depth ≤ n}.Finite := by
  induction n with
  | zero =>
    refine Set.finite_empty.subset ?_
    rintro f ⟨_, hdepth⟩
    cases f <;> simp [depth] at hdepth
  | succ n ih =>
    have hpred := hS.image2 pred (Term.finite_over hS hC k).2
    have hquant := (Set.finite_univ.prod hS).image2 (fun q => quant q.1 q.2) ih
    have hdeontic := Set.finite_univ.image2 deontic ih
    have htense := Set.finite_univ.image2 tense ih
    have hbinary := Set.finite_univ.image2 (fun op (p : Formula × Formula) => binary op p.1 p.2)
      (ih.prod ih)
    have hspan := Set.finite_univ.image2 (fun op (p : Formula × Formula) => span op p.1 p.2)
      (ih.prod ih)
    refine ((hpred.union hquant).union (((ih.image not).union (hdeontic.union htense)).union
      (hbinary.union hspan))).subset ?_
    rintro f ⟨hover, hdepth⟩
    cases f with
    | pred p args =>
      rw [over_pred] at hover
      exact Or.inl (Or.inl ⟨p, hover.1, args, hover.2, rfl⟩)
    | quant q x a =>
      rw [over_quant] at hover
      have ha := Nat.le_of_succ_le_succ hdepth
      exact Or.inl (Or.inr ⟨(q, x), ⟨trivial, hover.1⟩, a, ⟨hover.2, ha⟩, rfl⟩)
    | not a =>
      have ha := Nat.le_of_succ_le_succ hdepth
      exact Or.inr (Or.inl (Or.inl ⟨a, ⟨over_not.mp hover, ha⟩, rfl⟩))
    | deontic op a =>
      have ha := Nat.le_of_succ_le_succ hdepth
      exact Or.inr (Or.inl (Or.inr (Or.inl ⟨op, trivial, a, ⟨over_deontic.mp hover, ha⟩, rfl⟩)))
    | tense op a =>
      have ha := Nat.le_of_succ_le_succ hdepth
      exact Or.inr (Or.inl (Or.inr (Or.inr ⟨op, trivial, a, ⟨over_tense.mp hover, ha⟩, rfl⟩)))
    | binary op a b =>
      rw [over_binary] at hover
      obtain ⟨ha, hb⟩ := max_le_iff.mp (Nat.le_of_succ_le_succ hdepth)
      exact Or.inr (Or.inr (Or.inl ⟨op, trivial, (a, b), ⟨⟨hover.1, ha⟩, ⟨hover.2, hb⟩⟩, rfl⟩))
    | span op a b =>
      rw [over_span] at hover
      obtain ⟨ha, hb⟩ := max_le_iff.mp (Nat.le_of_succ_le_succ hdepth)
      exact Or.inr (Or.inr (Or.inr ⟨op, trivial, (a, b), ⟨⟨hover.1, ha⟩, ⟨hover.2, hb⟩⟩, rfl⟩))

end Over

/-- Every list of formulas is over some finite vocabulary and keeps to some bounds. -/
theorem exists_over (fs : List Formula) :
    ∃ (S C : Set String) (k : Nat), S.Finite ∧ C.Finite ∧ ∀ f ∈ fs, f.Over S C k := by
  obtain ⟨k, hk⟩ := ((List.finite_toSet fs).image width).bddAbove
  refine ⟨{x | x ∈ fs.flatMap names}, {c | c ∈ fs.flatMap constantOccurrences}, k,
    List.finite_toSet _, List.finite_toSet _, fun f hf => ⟨fun x hx => ?_, fun c hc => ?_, ?_⟩⟩
  · exact List.mem_flatMap.mpr ⟨f, hf, hx⟩
  · exact List.mem_flatMap.mpr ⟨f, hf, hc⟩
  · exact hk ⟨f, hf, rfl⟩

end Formula

end Deontica
