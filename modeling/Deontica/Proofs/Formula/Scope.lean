import Deontica.Proofs.Formula.RoundTrip

/-!
# Names and scopes

A formula is *lawful* if every place of it is: predicates, functions, variables and constants are
called by names, no predicate with arguments is called like an operator, and a name that stands as
an argument is a variable exactly if a quantifier above that place binds it (`Formula.Lawful`).  The
terms of a formula are listed with the variables in scope where they stand
(`Formula.scopedTerms`).

Well-formedness is tested by one recursion that takes the variables in scope along, and comes to the
same (`isWellFormedOver_iff`).  So the formulas that can be read from a text are the lawful ones
(`accepted_iff_lawful`).
-/

namespace Deontica

namespace Term

mutual

/-- The term itself and all terms in it. -/
def subterms : Term → List Term
  | .var x => [.var x]
  | .const c => [.const c]
  | .app f args => .app f args :: subtermsArgs args

/-- All terms in a list of terms. -/
def subtermsArgs : List Term → List Term
  | [] => []
  | t :: ts => subterms t ++ subtermsArgs ts

end

/-- The law for a term where the variables `bound` are in scope: it is called by a name, and one
without arguments is a variable if its name is in scope and a constant if not. -/
def Fits (bound : List String) : Term → Prop
  | .var x => Token.isName x = true ∧ x ∈ bound
  | .const c => Token.isName c = true ∧ c ∉ bound
  | .app f _ => Token.isName f = true

mutual

theorem isWellFormedOver_iff (bound : List String) :
    ∀ t : Term, t.isWellFormedOver bound = true ↔ ∀ s ∈ t.subterms, s.Fits bound
  | .var x => by simp [isWellFormedOver, subterms, Fits]
  | .const c => by simp [isWellFormedOver, subterms, Fits]
  | .app f args => by
    rw [isWellFormedOver, Bool.and_eq_true, allWellFormedOver_iff bound args, subterms,
      List.forall_mem_cons]
    exact Iff.rfl

theorem allWellFormedOver_iff (bound : List String) :
    ∀ ts : List Term, allWellFormedOver bound ts = true ↔ ∀ s ∈ subtermsArgs ts, s.Fits bound
  | [] => by simp [allWellFormedOver, subtermsArgs]
  | t :: ts => by
    rw [allWellFormedOver, Bool.and_eq_true, isWellFormedOver_iff bound t,
      allWellFormedOver_iff bound ts, subtermsArgs, List.forall_mem_append]

end

end Term

namespace Formula

/-- The terms of a formula, each with the variables in scope where it stands: those of the list and
those of the quantifiers above it. -/
def scopedTerms (bound : List String) : Formula → List (List String × Term)
  | .pred _ args => (Term.subtermsArgs args).map (bound, ·)
  | .not a | .deontic _ a | .tense _ a => a.scopedTerms bound
  | .binary _ a b | .span _ a b => a.scopedTerms bound ++ b.scopedTerms bound
  | .quant _ x a => a.scopedTerms (x :: bound)

/-- The law for what stands at the root of a formula: a predicate is called by a name, and not like
an operator if it has arguments; a quantifier is over a name. -/
def IsSpelt : Formula → Prop
  | .pred p args => Token.isName p = true ∧ (args ≠ [] → p ∉ operatorNames)
  | .quant _ x _ => Token.isName x = true
  | _ => True

/-- Every subformula and every term keeps its law, where the variables `bound` are in scope. -/
structure LawfulOver (bound : List String) (f : Formula) : Prop where
  formulas : ∀ g ∈ f.subformulas, g.IsSpelt
  terms : ∀ scope t, (scope, t) ∈ f.scopedTerms bound → t.Fits scope

/-- Every subformula and every term keeps its law. -/
abbrev Lawful (f : Formula) : Prop :=
  f.LawfulOver []

theorem lawfulOver_iff {bound : List String} {f : Formula} :
    f.LawfulOver bound ↔
      (∀ g ∈ f.subformulas, g.IsSpelt) ∧ ∀ p ∈ f.scopedTerms bound, p.2.Fits p.1 :=
  ⟨fun h => ⟨h.formulas, fun p => h.terms p.1 p.2⟩, fun h => ⟨h.1, fun _ _ ht => h.2 _ ht⟩⟩

/-- **A formula is well formed if every place of it is lawful.** -/
theorem isWellFormedOver_iff (f : Formula) :
    ∀ bound, f.isWellFormedOver bound = true ↔ f.LawfulOver bound := by
  induction f with
  | pred p args =>
    intro bound
    rw [isWellFormedOver, Bool.and_eq_true, Term.allWellFormedOver_iff, lawfulOver_iff]
    refine and_congr ?_ ?_
    · cases args <;> simp [subformulas, IsSpelt]
    · rw [scopedTerms, List.forall_mem_map]
  | not a ih | deontic _ a ih | tense _ a ih =>
    intro bound
    rw [isWellFormedOver, ih]
    simp only [lawfulOver_iff, subformulas, scopedTerms, List.forall_mem_cons, IsSpelt, true_and]
  | binary _ a b iha ihb | span _ a b iha ihb =>
    intro bound
    rw [isWellFormedOver, Bool.and_eq_true, iha, ihb]
    simp only [lawfulOver_iff, subformulas, scopedTerms, List.forall_mem_cons,
      List.forall_mem_append, IsSpelt, true_and]
    exact and_and_and_comm
  | quant q x a ih =>
    -- below the quantifier its variable is in scope
    intro bound
    rw [isWellFormedOver, Bool.and_eq_true, ih]
    simp only [lawfulOver_iff, subformulas, scopedTerms, List.forall_mem_cons, IsSpelt, and_assoc]

/-- **The formulas that can be read are the lawful ones**, and what is read under a limit is no
deeper than the limit. -/
theorem accepted_iff_lawful (f : Formula) :
    ((∃ limit text, parseWithin limit text = .ok f) ↔ f.Lawful) ∧
      ∀ limit text, parseWithin limit text = .ok f → f.depth ≤ limit := by
  refine ⟨⟨?_, fun hf => ?_⟩, fun limit text h => (isWellFormed_of_parseWithin h).2⟩
  · rintro ⟨limit, text, h⟩
    exact (f.isWellFormedOver_iff []).mp (isWellFormed_of_parseWithin h).1
  · -- its canonical text is read back to it, if the limit leaves room for its levels
    have hwell : f.isWellFormed = true := (f.isWellFormedOver_iff []).mpr hf
    exact ⟨max f.depth f.levels, f.render,
      parseWithin_render_of_levels hwell (Nat.le_max_left _ _) (Nat.le_max_right _ _)⟩

/-- One name is a constant and a variable by turns, and a letter is an operator, a predicate and a
constant. -/
theorem accepted_iff_lawful_turns :
    ∃ f : Formula, parseWithin 9 "R(x, P) ∧ P & ∀x: P(Q(f(x, y)) | exists y S(x, y))" = .ok f ∧
      f.scopedTerms [] = [([], .const "x"), ([], .const "P"),
        (["x"], .app "f" [.var "x", .const "y"]), (["x"], .var "x"), (["x"], .const "y"),
        (["y", "x"], .var "x"), (["y", "x"], .var "y")] ∧
      f.Lawful ∧ f.depth ≤ 9 := by
  let f : Formula := .and (.and (.pred "R" [.const "x", .const "P"]) (.atom "P"))
    (.all "x" (.permitted (.or (.pred "Q" [.app "f" [.var "x", .const "y"]])
      (.exists "y" (.pred "S" [.var "x", .var "y"])))))
  have hread : parseWithin 9 "R(x, P) ∧ P & ∀x: P(Q(f(x, y)) | exists y S(x, y))" = .ok f := by
    decide +kernel
  exact ⟨f, hread, rfl, (accepted_iff_lawful f).1.mp ⟨9, _, hread⟩,
    (accepted_iff_lawful f).2 9 _ hread⟩

end Formula

end Deontica
