import Deontica.Proofs.Kripke

/-!
# When substitution is capture-free

A formula with a term put for a variable should say what the formula says of the term's value.  It
does wherever the term is not captured, in every model and whatever domains the worlds have
(`substitute_captureFree`).  Substitution does not rename, so capture does happen: only a term with
no variable other than the one it is put for is safe in every formula.

A model of one world and two individuals shows that the other terms are not safe.  In `anyTrue` a
term is `true` if some variable in it is, so that its value changes with every variable.
-/

namespace Deontica

universe u v

namespace Model

/-- One world and the individuals `true` and `false`: a function asks for some `true` argument, a
constant is `false`, and a predicate holds of the single argument `false`. -/
def anyTrue : Model Unit Bool where
  sees _ _ _ := True
  next := id
  const _ := false
  func _ args := args.any id
  pred _ _ args := args = [false]
  span _ _ B := B

mutual

theorem value_anyTrue (ν : String → Bool) : ∀ t : Term, anyTrue.value ν t = t.vars.any ν
  | .var _ => by simp [value, Term.vars]
  | .const _ => rfl
  | .app _ args => any_values_anyTrue ν args

theorem any_values_anyTrue (ν : String → Bool) :
    ∀ ts : List Term, (anyTrue.values ν ts).any id = (Term.varsArgs ts).any ν
  | [] => rfl
  | t :: ts => by
    rw [values, List.any_cons, id, value_anyTrue ν t, any_values_anyTrue ν ts, Term.varsArgs,
      List.any_append]

end

/-- `∀y. R(x)` says that `R` holds of the value of `x`.  With `t` put for `x` it says so of all the
values that `t` takes as `y` varies. -/
theorem truthOver_anyTrue_captured {x y : String} {t : Term} (hyx : y ≠ x)
    (hy : y ∈ t.vars) :
    anyTrue.truthOver (fun _ => Set.univ) ((Formula.all y (.pred "R" [.var x])).substitute x t)
        (fun _ => false) ≠
      anyTrue.truthOver (fun _ => Set.univ) (.all y (.pred "R" [.var x]))
        (Function.update (fun _ => false) x (anyTrue.value (fun _ => false) t)) := by
  have hfalse : anyTrue.value (fun _ => false) t = false := by
    rw [value_anyTrue]
    exact List.any_eq_false.mpr fun _ _ => Bool.false_ne_true
  have htrue : anyTrue.value (Function.update (fun _ => false) y true) t = true := by
    rw [value_anyTrue]
    exact List.any_eq_true.mpr ⟨y, hy, Function.update_self ..⟩
  have hholds : () ∈ anyTrue.truthOver (fun _ => Set.univ) (.all y (.pred "R" [.var x]))
      (Function.update (fun _ => false) x (anyTrue.value (fun _ => false) t)) := by
    intro d _
    show anyTrue.values _ [.var x] = [false]
    rw [values, value, Function.update_of_ne hyx.symm, Function.update_self, hfalse, values]
  intro h
  rw [← h, Formula.substitute, if_neg hyx] at hholds
  have hfails : anyTrue.values (Function.update (fun _ => false) y true)
      (Term.substituteArgs [.var x] x t) = [false] := hholds true trivial
  rw [values_substitute, values, value, Function.update_self, htrue] at hfails
  cases hfails

/-- One world and the individuals `true` and `false`, each of which is related to itself alone. -/
def selfOnly : Model Unit Bool :=
  { anyTrue with pred := fun _ _ args => args.head? = args.getLast? }

end Model

namespace Formula

/-- **When substitution is capture-free.**  If no free occurrence of `x` stands below a quantifier
over a variable of `t`, then the formula with `t` for `x` is true at the worlds where the formula is
with `x` reassigned to the value of `t`, and the variables of `t` take the place of `x` among the
free ones.  In any case a variable of `t` is free in the result if some free occurrence of `x` is
outside its quantifiers.  The terms for which truth comes out right in every formula are those with
no variable but `x`. -/
theorem substitute_captureFree (x : String) (t : Term) :
    (∀ f : Formula, f.captures x t = false →
      (∀ {W : Type u} {D : Type v} (M : Model W D) (E : W → Set D) (ν : String → D),
        M.truthOver E (f.substitute x t) ν =
          M.truthOver E f (Function.update ν x (M.value ν t))) ∧
      (x ∈ f.freeVariables → ∀ y, y ∈ (f.substitute x t).freeVariables ↔
        y ∈ f.freeVariables ∧ y ≠ x ∨ y ∈ t.vars)) ∧
    (∀ (f : Formula) (y : String), y ∈ (f.substitute x t).freeVariables ↔
      y ∈ f.freeVariables ∧ y ≠ x ∨ y ∈ t.vars ∧ ∃ scope ∈ f.scopes x, y ∉ scope) ∧
    ((∀ (f : Formula) {W D : Type} (M : Model W D) (E : W → Set D) (ν : String → D),
        M.truthOver E (f.substitute x t) ν =
          M.truthOver E f (Function.update ν x (M.value ν t))) ↔
      ∀ y ∈ t.vars, y = x) := by
  refine ⟨?_, fun f y => mem_freeVariables_substitute x y t f, ?_, ?_⟩
  · intro f hf
    exact ⟨fun M E ν => M.truthOver_substitute E x t f hf ν,
      fun hx y => mem_freeVariables_substitute_of_captures hf hx y⟩
  · intro h y hy
    by_contra hyx
    exact Model.truthOver_anyTrue_captured hyx hy (h _ _ _ _)
  · intro h f W D M E ν
    exact M.truthOver_substitute E x t f (f.captures_eq_false_of_vars h) ν

/-- `g(x, z)` put for `x` in `R(x) ∧ ∀y. Q(x, y)`, which does not bind `z`. -/
theorem substitute_captureFree_unbound :
    captures (.and (.pred "R" [.var "x"]) (.all "y" (.pred "Q" [.var "x", .var "y"]))) "x"
        (.app "g" [.var "x", .var "z"]) = false ∧
      (∀ (M : Model Nat Nat) (E : Nat → Set Nat) (ν : String → Nat),
        M.truthOver E (.and (.pred "R" [.app "g" [.var "x", .var "z"]])
            (.all "y" (.pred "Q" [.app "g" [.var "x", .var "z"], .var "y"]))) ν =
          M.truthOver E (.and (.pred "R" [.var "x"]) (.all "y" (.pred "Q" [.var "x", .var "y"])))
            (Function.update ν "x" (M.func "g" [ν "x", ν "z"]))) ∧
      "z" ∈ (substitute (.and (.pred "R" [.var "x"]) (.all "y" (.pred "Q" [.var "x", .var "y"])))
        "x" (.app "g" [.var "x", .var "z"])).freeVariables := by
  have hcaptures : captures (.and (.pred "R" [.var "x"])
      (.all "y" (.pred "Q" [.var "x", .var "y"]))) "x" (.app "g" [.var "x", .var "z"]) = false := by
    decide
  obtain ⟨htruth, hfree⟩ :=
    (substitute_captureFree.{0, 0} "x" (.app "g" [.var "x", .var "z"])).1 _ hcaptures
  exact ⟨hcaptures, fun M E ν => htruth M E ν, (hfree (by decide) "z").mpr (.inr (by decide))⟩

/-- With `y` put for `x`, `∀y. Loves(x, y)` becomes `∀y. Loves(y, y)`: `y` is not free in it, and
where all love themselves and nobody else it is true, although the one that `y` stands for does not
love all. -/
theorem all_loves_captured :
    substitute (.all "y" (.pred "Loves" [.var "x", .var "y"])) "x" (.var "y") =
        .all "y" (.pred "Loves" [.var "y", .var "y"]) ∧
      "y" ∉ (substitute (.all "y" (.pred "Loves" [.var "x", .var "y"])) "x"
        (.var "y")).freeVariables ∧
      ∃ (M : Model Unit Bool) (ν : String → Bool),
        M.truthOver (fun _ => Set.univ)
            (substitute (.all "y" (.pred "Loves" [.var "x", .var "y"])) "x" (.var "y")) ν ≠
          M.truthOver (fun _ => Set.univ) (.all "y" (.pred "Loves" [.var "x", .var "y"]))
            (Function.update ν "x" (M.value ν (.var "y"))) := by
  refine ⟨by decide, by decide, .selfOnly, fun _ => false, fun h => ?_⟩
  have hself : () ∈ Model.selfOnly.truthOver (fun _ => Set.univ)
      (.all "y" (.pred "Loves" [.var "y", .var "y"])) fun _ => false := fun _ _ => rfl
  have hother : some false = some true := h.subset hself true trivial
  cases hother

end Formula

end Deontica
