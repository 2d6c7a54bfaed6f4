import Deontica.Formula

/-!
# Free variables and capture

A variable is free in a formula if it occurs in the scope of no quantifier over it.  Each free
occurrence stands in the scope of some quantifiers over other variables, which are listed with it
(`scopes`).  A term put for the variable is *captured* at an occurrence if one of these quantifiers
is over a variable of the term (`captures`).

Substitution goes on below every quantifier over another variable, without renaming it.  So the
replacement leaves a variable of its own free in the result only where a free occurrence is outside
the quantifiers over it (`mem_freeVariables_substitute`).
-/

namespace Deontica

/-! ### Terms -/

namespace Term

mutual

/-- The variables of a term, one for each occurrence. -/
def vars : Term → List String
  | .var x => [x]
  | .const _ => []
  | .app _ args => varsArgs args

/-- The variables of some terms, one for each occurrence. -/
def varsArgs : List Term → List String
  | [] => []
  | t :: ts => vars t ++ varsArgs ts

end

variable (x : String) (s : Term)

mutual

theorem mem_vars_substitute (y : String) : ∀ t : Term,
    y ∈ (t.substitute x s).vars ↔ y ∈ t.vars ∧ y ≠ x ∨ y ∈ s.vars ∧ x ∈ t.vars
  | .var z => by
    by_cases hz : z = x
    · simp [substitute, vars, hz]
    · have hz' : ¬x = z := fun h => hz h.symm
      simp only [substitute, hz, hz', vars, if_false, List.mem_singleton, and_false, or_false]
      exact ⟨fun h => ⟨h, h ▸ hz⟩, And.left⟩
  | .const _ => by simp [substitute, vars]
  | .app _ args => mem_varsArgs_substitute y args

theorem mem_varsArgs_substitute (y : String) : ∀ ts : List Term,
    y ∈ varsArgs (substituteArgs ts x s) ↔
      y ∈ varsArgs ts ∧ y ≠ x ∨ y ∈ s.vars ∧ x ∈ varsArgs ts
  | [] => by simp [substituteArgs, varsArgs]
  | t :: ts => by
    simp only [substituteArgs, varsArgs, List.mem_append, mem_vars_substitute y t,
      mem_varsArgs_substitute y ts]
    grind

end

mutual

theorem substitute_of_notMem : ∀ t : Term, x ∉ t.vars → t.substitute x s = t
  | .var _, h => if_neg fun hz => h (List.mem_singleton.mpr hz.symm)
  | .const _, _ => rfl
  | .app f args, h => congrArg (Term.app f) (substituteArgs_of_notMem args h)

theorem substituteArgs_of_notMem : ∀ ts : List Term, x ∉ varsArgs ts →
    substituteArgs ts x s = ts
  | [], _ => rfl
  | t :: ts, h => by
    rw [varsArgs, List.mem_append, not_or] at h
    rw [substituteArgs, substitute_of_notMem t h.1, substituteArgs_of_notMem ts h.2]

end

end Term

/-! ### Formulas -/

namespace Formula

/-- The free variables of a formula, one for each free occurrence. -/
def freeVariables : Formula → List String
  | .pred _ args => Term.varsArgs args
  | .not a | .deontic _ a | .tense _ a => a.freeVariables
  | .binary _ a b | .span _ a b => a.freeVariables ++ b.freeVariables
  | .quant _ y a => a.freeVariables.filter (· ≠ y)

/-- For each free occurrence of the variable the variables of the quantifiers above it. -/
def scopes (x : String) : Formula → List (List String)
  | .pred _ args => ((Term.varsArgs args).filter (· = x)).map fun _ => []
  | .not a | .deontic _ a | .tense _ a => a.scopes x
  | .binary _ a b | .span _ a b => a.scopes x ++ b.scopes x
  | .quant _ y a => if y = x then [] else (a.scopes x).map (y :: ·)

/-- Whether some free occurrence of the variable stands below a quantifier over a variable of the
term. -/
def captures (f : Formula) (x : String) (t : Term) : Bool :=
  (f.scopes x).any fun scope => scope.any (· ∈ t.vars)

theorem captures_eq_false_iff {f : Formula} {x : String} {t : Term} :
    f.captures x t = false ↔ ∀ scope ∈ f.scopes x, ∀ y ∈ scope, y ∉ t.vars := by
  simp [captures]

/-- No quantifier is above the variables of a predicate. -/
theorem mem_scopes_pred {x p : String} {args : List Term} {scope : List String} :
    scope ∈ (Formula.pred p args).scopes x ↔ x ∈ Term.varsArgs args ∧ scope = [] := by
  rw [scopes, List.mem_map]
  constructor
  · rintro ⟨y, hy, rfl⟩
    obtain ⟨hy, hyx⟩ := List.mem_filter.mp hy
    exact ⟨of_decide_eq_true hyx ▸ hy, rfl⟩
  · rintro ⟨hx, rfl⟩
    exact ⟨x, List.mem_filter.mpr ⟨hx, decide_eq_true rfl⟩, rfl⟩

/-- A variable is free if it has a free occurrence. -/
theorem mem_freeVariables_iff {x : String} (f : Formula) :
    x ∈ f.freeVariables ↔ ∃ scope, scope ∈ f.scopes x := by
  induction f with
  | pred p args => simp [freeVariables, mem_scopes_pred]
  | not a ih | deontic op a ih | tense op a ih => exact ih
  | binary op a b iha ihb | span op a b iha ihb =>
    simp only [freeVariables, scopes, List.mem_append, iha, ihb, exists_or]
  | quant q y a ih =>
    by_cases hy : y = x
    · simp [freeVariables, scopes, hy]
    · have hy' : ¬x = y := fun h => hy h.symm
      simp only [freeVariables, scopes, hy, hy', if_false, List.mem_filter, ih, List.mem_map,
        decide_not, decide_false, Bool.not_false, and_true]
      constructor
      · rintro ⟨scope, hscope⟩
        exact ⟨y :: scope, scope, hscope, rfl⟩
      · rintro ⟨_, scope, hscope, _⟩
        exact ⟨scope, hscope⟩

/-- A quantifier over the variable leaves no free occurrence below it. -/
theorem notMem_of_mem_scopes {x : String} {f : Formula} :
    ∀ {scope : List String}, scope ∈ f.scopes x → x ∉ scope := by
  induction f with
  | pred p args =>
    intro scope h
    rw [(mem_scopes_pred.mp h).2]
    exact List.not_mem_nil
  | not a ih | deontic op a ih | tense op a ih =>
    intro scope h
    exact ih h
  | binary op a b iha ihb | span op a b iha ihb =>
    intro scope h
    exact (List.mem_append.mp h).elim iha ihb
  | quant q y a ih =>
    intro scope h
    by_cases hy : y = x
    · rw [scopes, if_pos hy] at h
      exact absurd h List.not_mem_nil
    · rw [scopes, if_neg hy] at h
      obtain ⟨inner, hinner, rfl⟩ := List.mem_map.mp h
      exact List.not_mem_cons_of_ne_of_not_mem (fun hx => hy hx.symm) (ih hinner)

/-- A ground term is never captured, nor one whose only variable is the one it is put for. -/
theorem captures_eq_false_of_vars (f : Formula) {x : String} {t : Term}
    (h : ∀ y ∈ t.vars, y = x) : f.captures x t = false := by
  refine captures_eq_false_iff.mpr fun scope hscope y hy hyt => ?_
  rw [h y hyt] at hy
  exact notMem_of_mem_scopes hscope hy

/-- What it takes that nothing is captured below a quantifier. -/
theorem captures_quant_eq_false {q : Quantifier} {x y : String} {a : Formula} {t : Term}
    (hf : (quant q y a).captures x t = false) (hx : x ∈ (quant q y a).freeVariables) :
    y ≠ x ∧ y ∉ t.vars ∧ a.captures x t = false := by
  obtain ⟨hxa, hxy⟩ := List.mem_filter.mp hx
  have hyx : y ≠ x := fun h => of_decide_eq_true hxy h.symm
  have h : ∀ scope ∈ a.scopes x, y ∉ t.vars ∧ ∀ z ∈ scope, z ∉ t.vars := by
    simpa [captures, scopes, hyx] using hf
  obtain ⟨scope, hscope⟩ := (mem_freeVariables_iff a).mp hxa
  refine ⟨hyx, (h scope hscope).1, captures_eq_false_iff.mpr fun inner hinner => ?_⟩
  exact (h inner hinner).2

/-- Where the variable is not free there is nothing to substitute. -/
theorem substitute_of_notMem {x : String} (t : Term) {f : Formula} (h : x ∉ f.freeVariables) :
    f.substitute x t = f := by
  induction f with
  | pred p args => exact congrArg (Formula.pred p) (Term.substituteArgs_of_notMem x t args h)
  | not a ih | deontic op a ih | tense op a ih => rw [substitute, ih h]
  | binary op a b iha ihb | span op a b iha ihb =>
    rw [freeVariables, List.mem_append, not_or] at h
    rw [substitute, iha h.1, ihb h.2]
  | quant q y a ih =>
    by_cases hy : y = x
    · rw [substitute, if_pos hy]
    · have hx : x ∉ a.freeVariables := by
        intro hx
        exact h (List.mem_filter.mpr ⟨hx, decide_eq_true fun hxy => hy hxy.symm⟩)
      rw [substitute, if_neg hy, ih hx]

/-- **The free variables after substitution** are those that were free besides `x`, and those of the
replacement that are not bound at every free occurrence of `x`. -/
theorem mem_freeVariables_substitute (x y : String) (t : Term) (f : Formula) :
    y ∈ (f.substitute x t).freeVariables ↔
      y ∈ f.freeVariables ∧ y ≠ x ∨ y ∈ t.vars ∧ ∃ scope ∈ f.scopes x, y ∉ scope := by
  induction f with
  | pred p args =>
    simp [substitute, freeVariables, mem_scopes_pred, Term.mem_varsArgs_substitute, and_assoc]
  | not a ih | deontic op a ih | tense op a ih => exact ih
  | binary op a b iha ihb | span op a b iha ihb =>
    simp only [substitute, freeVariables, scopes, List.mem_append, iha, ihb]
    grind
  | quant q z a ih =>
    by_cases hz : z = x
    · simp [substitute, freeVariables, scopes, hz]
    · simp only [substitute, hz, if_false, freeVariables, scopes, List.mem_filter, ih]
      grind

/-- Where nothing is captured, the variables of the replacement take the place of `x`. -/
theorem mem_freeVariables_substitute_of_captures {x : String} {t : Term} {f : Formula}
    (hf : f.captures x t = false) (hx : x ∈ f.freeVariables) (y : String) :
    y ∈ (f.substitute x t).freeVariables ↔ y ∈ f.freeVariables ∧ y ≠ x ∨ y ∈ t.vars := by
  obtain ⟨scope, hscope⟩ := (mem_freeVariables_iff f).mp hx
  have hout : y ∈ t.vars → ∃ scope ∈ f.scopes x, y ∉ scope := by
    intro hy
    exact ⟨scope, hscope, fun hmem => captures_eq_false_iff.mp hf scope hscope y hmem hy⟩
  rw [mem_freeVariables_substitute, and_iff_left_of_imp hout]

end Formula

end Deontica
