import Deontica.Tableau.Frame
import Deontica.Proofs.Formula.FreeVariables
import Mathlib.Data.Set.Basic
import Mathlib.Logic.Function.Basic
import Mathlib.Order.BooleanAlgebra.Set

/-!
# Kripke models

A model has worlds with two accessibility relations, and one domain that all worlds share.
Constants and function symbols mean the same at every world; predicates are read world by world.
A formula is true on a set of worlds, and every operator is an operation on such sets.

* `X` follows a function `next` on worlds.
* `U` and `S` are read by any operation on sets of worlds; `Model.Bounded` says how far it may go.
* Quantifiers range over a set `E` of the domain (`truthIn`), in an ordinary reading over all of it
  (`truth`).  Each world may also have a set of its own (`truthOver`).

Main facts: the truth of a formula depends only on its free variables (`truthOver_congr`) and on the
constants that occur in it (`truthIn_naming_congr`), and putting a term for a variable is the same
as giving the variable that value, unless the term is captured (`truthOver_substitute`).  A constant
never is (`truthIn_substitute`).
-/

namespace Deontica

universe u v

variable {W : Type u} {D : Type v}

/-- What a connective makes of two sets of worlds. -/
def Connective.on (op : Connective) (A B : Set W) : Set W :=
  match op with
  | .and => A ∩ B
  | .or => A ∪ B
  | .implies => Aᶜ ∪ B
  | .iff => {w | w ∈ A ↔ w ∈ B}
  | .xor => {w | ¬(w ∈ A ↔ w ∈ B)}

/-- A Kripke model with worlds in `W` and the constant domain `D`. -/
structure Model (W : Type u) (D : Type v) where
  /-- Accessibility, temporal and deontic. -/
  sees : Relation → W → W → Prop
  /-- The next world. -/
  next : W → W
  const : String → D
  func : String → List D → D
  pred : W → String → List D → Prop
  /-- Where a spanning formula is true, given where its two parts are. -/
  span : Span → Set W → Set W → Set W

/-- The logic that asks for symmetry asks for transitivity too. -/
theorem Logic.isTransitive_of_isSymmetric {logic : Logic} (h : logic.isSymmetric = true) :
    logic.isTransitive = true := by
  cases logic with
  | S5 => rfl
  | K | T | S4 | D => cases h

theorem Logic.isSerial_of_isReflexive {logic : Logic} (h : logic.isReflexive = true) :
    logic.isSerial = true := by
  rw [isSerial, h, Bool.or_true]

namespace Model

/-! ### Truth -/

/-- The worlds all of whose successors are in `A`. -/
def box (M : Model W D) (r : Relation) (A : Set W) : Set W :=
  {w | ∀ v, M.sees r w v → v ∈ A}

/-- The worlds with a successor in `A`. -/
def diamond (M : Model W D) (r : Relation) (A : Set W) : Set W :=
  {w | ∃ v, M.sees r w v ∧ v ∈ A}

/-- What a deontic operator makes of a set of worlds: forbidden is what is obligatory not to be. -/
def norm (M : Model W D) (op : Norm) (A : Set W) : Set W :=
  match op with
  | .obligatory => M.box .deontic A
  | .permitted => M.diamond .deontic A
  | .forbidden => M.box .deontic Aᶜ

/-- What a temporal operator makes of a set of worlds. -/
def tense (M : Model W D) (op : Tense) (A : Set W) : Set W :=
  match op with
  | .always => M.box .temporal A
  | .eventually => M.diamond .temporal A
  | .next => {w | M.next w ∈ A}

mutual

/-- The value of a term when `ν` gives the values of the variables. -/
def value (M : Model W D) (ν : String → D) : Term → D
  | .var x => ν x
  | .const c => M.const c
  | .app f args => M.func f (M.values ν args)

/-- The values of some terms. -/
def values (M : Model W D) (ν : String → D) : List Term → List D
  | [] => []
  | t :: ts => M.value ν t :: M.values ν ts

end

/-- The worlds at which a formula is true when quantifiers range over `E` and `ν` gives the values
of the variables. -/
def truthIn (M : Model W D) (E : Set D) : Formula → (String → D) → Set W
  | .pred p args, ν => {w | M.pred w p (M.values ν args)}
  | .not a, ν => (M.truthIn E a ν)ᶜ
  | .binary op a b, ν => op.on (M.truthIn E a ν) (M.truthIn E b ν)
  | .quant .all x a, ν => {w | ∀ d ∈ E, w ∈ M.truthIn E a (Function.update ν x d)}
  | .quant .exists x a, ν => {w | ∃ d ∈ E, w ∈ M.truthIn E a (Function.update ν x d)}
  | .deontic op a, ν => M.norm op (M.truthIn E a ν)
  | .tense op a, ν => M.tense op (M.truthIn E a ν)
  | .span op a b, ν => M.span op (M.truthIn E a ν) (M.truthIn E b ν)

/-- The worlds at which a formula is true when quantifiers range over the whole domain. -/
abbrev truth (M : Model W D) (f : Formula) (ν : String → D) : Set W :=
  M.truthIn Set.univ f ν

/-- The worlds at which a formula is true when quantifiers range over `E w` at the world `w`. -/
def truthOver (M : Model W D) (E : W → Set D) : Formula → (String → D) → Set W
  | .pred p args, ν => {w | M.pred w p (M.values ν args)}
  | .not a, ν => (M.truthOver E a ν)ᶜ
  | .binary op a b, ν => op.on (M.truthOver E a ν) (M.truthOver E b ν)
  | .quant .all x a, ν => {w | ∀ d ∈ E w, w ∈ M.truthOver E a (Function.update ν x d)}
  | .quant .exists x a, ν => {w | ∃ d ∈ E w, w ∈ M.truthOver E a (Function.update ν x d)}
  | .deontic op a, ν => M.norm op (M.truthOver E a ν)
  | .tense op a, ν => M.tense op (M.truthOver E a ν)
  | .span op a b, ν => M.span op (M.truthOver E a ν) (M.truthOver E b ν)

/-- One set for all worlds is the same set at each of them. -/
theorem truthIn_eq_truthOver (M : Model W D) (E : Set D) (f : Formula) :
    ∀ ν : String → D, M.truthIn E f ν = M.truthOver (fun _ => E) f ν := by
  induction f with
  | pred p args =>
    intro ν
    rfl
  | not a ih | deontic op a ih | tense op a ih =>
    intro ν
    simp only [truthIn, truthOver, ih]
  | binary op a b iha ihb | span op a b iha ihb =>
    intro ν
    simp only [truthIn, truthOver, iha, ihb]
  | quant q x a ih =>
    intro ν
    cases q <;> simp only [truthIn, truthOver, ih]

/-! ### Kinds of models -/

/-- Both relations satisfy what the logic asks for. -/
structure Meets (M : Model W D) (logic : Logic) : Prop where
  reflexive : logic.isReflexive = true → ∀ r w, M.sees r w w
  transitive : logic.isTransitive = true → ∀ r u v w, M.sees r u v → M.sees r v w → M.sees r u w
  symmetric : logic.isSymmetric = true → ∀ r v w, M.sees r v w → M.sees r w v
  serial : logic.isSerial = true → ∀ r w, ∃ v, M.sees r w v

/-- All models are models of `K`, which asks for nothing. -/
theorem meets_K (M : Model W D) : M.Meets .K where
  reflexive h := Bool.noConfusion h
  transitive h := Bool.noConfusion h
  symmetric h := Bool.noConfusion h
  serial h := Bool.noConfusion h

/-- A model of a logic is a model of all logics that ask for less. -/
theorem Meets.mono {M : Model W D} {logic logic' : Logic} (h : M.Meets logic)
    (hle : ∀ condition, logic'.meets condition = true → logic.meets condition = true) :
    M.Meets logic' where
  reflexive hr := h.reflexive (hle .reflexive hr)
  transitive ht := h.transitive (hle .transitive ht)
  symmetric hs := h.symmetric (hle .symmetric hs)
  serial hs := h.serial (hle .serial hs)

/-- The next world is one that is seen. -/
def SeesNext (M : Model W D) : Prop :=
  ∀ w, M.sees .temporal w (M.next w)

/-- `A U B` holds wherever `B` does, and elsewhere only where `A` and `◊B` do; `A S B` holds
wherever `B` does, and elsewhere only where `A` does. -/
structure Bounded (M : Model W D) : Prop where
  until_ge : ∀ A B, B ⊆ M.span .until A B
  until_le : ∀ A B, M.span .until A B ⊆ B ∪ (A ∩ M.diamond .temporal B)
  since_ge : ∀ A B, B ⊆ M.span .since A B
  since_le : ∀ A B, M.span .since A B ⊆ B ∪ A

/-! ### Reading truth off -/

section Membership

variable (M : Model W D) (E : Set D) (ν : String → D) (w : W)

@[simp] theorem mem_box {r : Relation} {A : Set W} :
    w ∈ M.box r A ↔ ∀ v, M.sees r w v → v ∈ A := Iff.rfl

@[simp] theorem mem_diamond {r : Relation} {A : Set W} :
    w ∈ M.diamond r A ↔ ∃ v, M.sees r w v ∧ v ∈ A := Iff.rfl

@[simp] theorem mem_truthIn_all {x : String} {a : Formula} :
    w ∈ M.truthIn E (.all x a) ν ↔ ∀ d ∈ E, w ∈ M.truthIn E a (Function.update ν x d) := Iff.rfl

@[simp] theorem mem_truthIn_exists {x : String} {a : Formula} :
    w ∈ M.truthIn E (.exists x a) ν ↔ ∃ d ∈ E, w ∈ M.truthIn E a (Function.update ν x d) :=
  Iff.rfl

/-- The opposite of a formula is true where the formula is not. -/
theorem truthIn_negation (f : Formula) : M.truthIn E f.negation ν = (M.truthIn E f ν)ᶜ := by
  cases f with
  | not a =>
    show M.truthIn E a ν = (M.truthIn E a ν)ᶜᶜ
    rw [compl_compl]
  | _ => rfl

@[simp] theorem mem_truthIn_negation {f : Formula} :
    w ∈ M.truthIn E f.negation ν ↔ w ∉ M.truthIn E f ν := by
  rw [truthIn_negation, Set.mem_compl_iff]

end Membership

/-! ### Free variables -/

mutual

theorem value_congr (M : Model W D) {ν ν' : String → D} :
    ∀ t : Term, (∀ x ∈ t.vars, ν x = ν' x) → M.value ν t = M.value ν' t
  | .var x, h => h x (List.mem_singleton.mpr rfl)
  | .const _, _ => rfl
  | .app f args, h => by
    show M.func f (M.values ν args) = M.func f (M.values ν' args)
    rw [values_congr M args h]

theorem values_congr (M : Model W D) {ν ν' : String → D} :
    ∀ ts : List Term, (∀ x ∈ Term.varsArgs ts, ν x = ν' x) → M.values ν ts = M.values ν' ts
  | [], _ => rfl
  | t :: ts, h => by
    show M.value ν t :: M.values ν ts = M.value ν' t :: M.values ν' ts
    rw [value_congr M t fun x hx => h x (List.mem_append_left _ hx),
      values_congr M ts fun x hx => h x (List.mem_append_right _ hx)]

end

/-- The truth of a formula depends only on the values of its free variables. -/
theorem truthOver_congr (M : Model W D) (E : W → Set D) (f : Formula) :
    ∀ {ν ν' : String → D}, (∀ x ∈ f.freeVariables, ν x = ν' x) →
      M.truthOver E f ν = M.truthOver E f ν' := by
  induction f with
  | pred p args =>
    intro ν ν' h
    simp only [truthOver, values_congr M args h]
  | not a ih | deontic op a ih | tense op a ih =>
    intro ν ν' h
    simp only [truthOver, ih h]
  | binary op a b iha ihb | span op a b iha ihb =>
    intro ν ν' h
    simp only [truthOver, iha fun x hx => h x (List.mem_append_left _ hx),
      ihb fun x hx => h x (List.mem_append_right _ hx)]
  | quant q x a ih =>
    intro ν ν' h
    have hupdate : ∀ d, M.truthOver E a (Function.update ν x d) =
        M.truthOver E a (Function.update ν' x d) := by
      intro d
      refine ih fun y hy => ?_
      by_cases hyx : y = x
      · rw [hyx, Function.update_self, Function.update_self]
      · rw [Function.update_of_ne hyx, Function.update_of_ne hyx]
        exact h y (List.mem_filter.mpr ⟨hy, decide_eq_true hyx⟩)
    cases q <;> simp only [truthOver, hupdate]

/-! ### Substitution -/

mutual

theorem value_substitute (M : Model W D) (ν : String → D) (x : String) (s : Term) :
    ∀ t : Term, M.value ν (t.substitute x s) = M.value (Function.update ν x (M.value ν s)) t
  | .var y => by
    by_cases hy : y = x
    · subst hy
      simp [Term.substitute, value]
    · simp [Term.substitute, value, hy]
  | .const _ => rfl
  | .app f args => by
    show M.func f (M.values ν (Term.substituteArgs args x s)) = _
    rw [values_substitute M ν x s args]
    rfl

theorem values_substitute (M : Model W D) (ν : String → D) (x : String) (s : Term) :
    ∀ ts : List Term,
      M.values ν (Term.substituteArgs ts x s) = M.values (Function.update ν x (M.value ν s)) ts
  | [] => rfl
  | t :: ts => by
    show M.value ν (t.substitute x s) :: M.values ν (Term.substituteArgs ts x s) = _
    rw [value_substitute M ν x s t, values_substitute M ν x s ts]
    rfl

end

/-- **Substitution.**  A term put for a variable has the effect of giving the variable the term's
value, if the term is not captured. -/
theorem truthOver_substitute (M : Model W D) (E : W → Set D) (x : String) (t : Term) (f : Formula) :
    f.captures x t = false → ∀ ν : String → D, M.truthOver E (f.substitute x t) ν =
      M.truthOver E f (Function.update ν x (M.value ν t)) := by
  induction f with
  | pred p args =>
    intro _ ν
    show {w | M.pred w p (M.values ν (Term.substituteArgs args x t))} = _
    rw [values_substitute]
    rfl
  | not a ih | deontic op a ih | tense op a ih =>
    intro hf ν
    simp only [Formula.substitute, truthOver, ih hf]
  | binary op a b iha ihb | span op a b iha ihb =>
    intro hf ν
    rw [Formula.captures, Formula.scopes, List.any_append, Bool.or_eq_false_iff] at hf
    obtain ⟨ha, hb⟩ := hf
    simp only [Formula.substitute, truthOver, iha ha, ihb hb]
  | quant q y a ih =>
    intro hf ν
    by_cases hx : x ∈ (Formula.quant q y a).freeVariables
    · -- `x` is free below, so `y` is not in `t`, and its value does not change that of `t`
      obtain ⟨hyx, hyt, ha⟩ := Formula.captures_quant_eq_false hf hx
      have hvalue : ∀ d, M.value (Function.update ν y d) t = M.value ν t := by
        intro d
        refine value_congr M t fun z hz => Function.update_of_ne ?_ d ν
        rintro rfl
        exact hyt hz
      have hcomm : ∀ d, Function.update (Function.update ν y d) x (M.value ν t) =
          Function.update (Function.update ν x (M.value ν t)) y d :=
        fun d => Function.update_comm hyx _ _ _
      cases q <;> simp only [Formula.substitute, if_neg hyx, truthOver, ih ha, hvalue, hcomm]
    · rw [Formula.substitute_of_notMem t hx]
      refine truthOver_congr M E _ fun z hz => (Function.update_of_ne ?_ _ _).symm
      rintro rfl
      exact hx hz

/-- A constant is never captured, since no variable occurs in it. -/
theorem truthIn_substitute (M : Model W D) (E : Set D) (x c : String) (f : Formula) :
    ∀ ν : String → D, M.truthIn E (f.substitute x (.const c)) ν =
      M.truthIn E f (Function.update ν x (M.const c)) := by
  intro ν
  have hf : f.captures x (.const c) = false :=
    f.captures_eq_false_of_vars fun _ h => absurd h List.not_mem_nil
  rw [truthIn_eq_truthOver, truthIn_eq_truthOver]
  exact truthOver_substitute M _ x _ f hf ν

/-! ### Names -/

/-- The model with other values for the constants. -/
def naming (M : Model W D) (κ : String → D) : Model W D :=
  { M with const := κ }

mutual

theorem value_naming_congr (M : Model W D) (κ κ' ν : String → D) :
    ∀ t : Term, (∀ c ∈ t.constants, κ c = κ' c) →
      (M.naming κ).value ν t = (M.naming κ').value ν t
  | .var _, _ => rfl
  | .const c, h => h c (List.mem_singleton.mpr rfl)
  | .app f args, h => by
    show M.func f ((M.naming κ).values ν args) = M.func f ((M.naming κ').values ν args)
    rw [values_naming_congr M κ κ' ν args h]

theorem values_naming_congr (M : Model W D) (κ κ' ν : String → D) :
    ∀ ts : List Term, (∀ c ∈ Term.constantsArgs ts, κ c = κ' c) →
      (M.naming κ).values ν ts = (M.naming κ').values ν ts
  | [], _ => rfl
  | t :: ts, h => by
    show (M.naming κ).value ν t :: (M.naming κ).values ν ts = _
    rw [value_naming_congr M κ κ' ν t fun c hc => h c (List.mem_append_left _ hc),
      values_naming_congr M κ κ' ν ts fun c hc => h c (List.mem_append_right _ hc)]
    rfl

end

/-- The truth of a formula depends only on the values of the constants that occur in it. -/
theorem truthIn_naming_congr (M : Model W D) (E : Set D) (κ κ' : String → D) (f : Formula) :
    (∀ c ∈ f.constantOccurrences, κ c = κ' c) →
      ∀ ν, (M.naming κ).truthIn E f ν = (M.naming κ').truthIn E f ν := by
  induction f with
  | pred p args =>
    intro h ν
    simp only [truthIn, values_naming_congr M κ κ' ν args h]
    rfl
  | not a ih =>
    intro h ν
    simp only [truthIn, ih h]
  | binary op a b iha ihb =>
    intro h ν
    simp only [truthIn, iha fun c hc => h c (List.mem_append_left _ hc),
      ihb fun c hc => h c (List.mem_append_right _ hc)]
  | quant q x a ih =>
    intro h ν
    cases q <;> simp only [truthIn, ih h]
  | deontic op a ih =>
    intro h ν
    simp only [truthIn, ih h]
    rfl
  | tense op a ih =>
    intro h ν
    simp only [truthIn, ih h]
    rfl
  | span op a b iha ihb =>
    intro h ν
    simp only [truthIn, iha fun c hc => h c (List.mem_append_left _ hc),
      ihb fun c hc => h c (List.mem_append_right _ hc)]
    rfl

end Model

/-! ### Closed formulas -/

mutual

/-- Whether every variable of a term is in the list. -/
def Term.isClosedOver (bound : List String) : Term → Bool
  | .var x => bound.contains x
  | .const _ => true
  | .app _ args => Term.allClosedOver bound args

/-- Whether every variable of the terms is in the list. -/
def Term.allClosedOver (bound : List String) : List Term → Bool
  | [] => true
  | t :: ts => t.isClosedOver bound && Term.allClosedOver bound ts

end

namespace Formula

/-- Whether every variable is in the list or bound by a quantifier above it. -/
def isClosedOver (bound : List String) : Formula → Bool
  | .pred _ args => Term.allClosedOver bound args
  | .not a | .deontic _ a | .tense _ a => a.isClosedOver bound
  | .binary _ a b | .span _ a b => a.isClosedOver bound && b.isClosedOver bound
  | .quant _ x a => a.isClosedOver (x :: bound)

/-- Whether every variable is bound by a quantifier above it. -/
def isClosed (f : Formula) : Bool :=
  f.isClosedOver []

end Formula

mutual

theorem Term.isClosedOver_iff {bound : List String} :
    ∀ t : Term, t.isClosedOver bound = true ↔ ∀ x ∈ t.vars, x ∈ bound
  | .var x => by simp [Term.isClosedOver, Term.vars]
  | .const _ => by simp [Term.isClosedOver, Term.vars]
  | .app _ args => Term.allClosedOver_iff args

theorem Term.allClosedOver_iff {bound : List String} :
    ∀ ts : List Term, Term.allClosedOver bound ts = true ↔
      ∀ x ∈ Term.varsArgs ts, x ∈ bound
  | [] => by simp [Term.allClosedOver, Term.varsArgs]
  | t :: ts => by
    rw [Term.allClosedOver, Bool.and_eq_true, Term.isClosedOver_iff t, Term.allClosedOver_iff ts,
      Term.varsArgs, List.forall_mem_append]

end

/-- A formula is closed over a list if its free variables are in the list. -/
theorem Formula.isClosedOver_iff (f : Formula) : ∀ {bound : List String},
    f.isClosedOver bound = true ↔ ∀ x ∈ f.freeVariables, x ∈ bound := by
  induction f with
  | pred p args =>
    intro bound
    exact Term.allClosedOver_iff args
  | not a ih | deontic op a ih | tense op a ih =>
    intro bound
    exact ih
  | binary op a b iha ihb | span op a b iha ihb =>
    intro bound
    rw [isClosedOver, Bool.and_eq_true, iha, ihb, freeVariables, List.forall_mem_append]
  | quant q x a ih =>
    intro bound
    rw [isClosedOver, ih, freeVariables]
    grind

/-- A closed formula is true or false whatever the variables stand for. -/
theorem Model.truthIn_eq_of_isClosed (M : Model W D) (E : Set D) {f : Formula}
    (hf : f.isClosed = true) (ν ν' : String → D) : M.truthIn E f ν = M.truthIn E f ν' := by
  rw [truthIn_eq_truthOver, truthIn_eq_truthOver]
  exact truthOver_congr M _ f fun x hx =>
    absurd (f.isClosedOver_iff.mp hf x hx) List.not_mem_nil

end Deontica
