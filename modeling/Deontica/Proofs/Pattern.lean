import Deontica.Pattern
import Deontica.Proofs.Kripke

/-!
# What patterns match

Matching and instantiating are inverse to each other: a match extends the bindings so that the
pattern becomes the formula (`matchWith_spec`), it is found whenever there is one and binds no more
than it has to (`exists_matchWith`), and later bindings do not change it (`instantiate_mono`).  So an
application of a schema fills the holes of its patterns in one way (`Schema.apply_spec` with the
rules), and what a filled pattern means depends only on what the formulas in the holes mean
(`truthIn_fill`).
-/

namespace Deontica

universe u v

variable {W : Type u} {D : Type v}

namespace Bindings

/-- The second bindings have all of the first. -/
def Le (bs bs' : Bindings) : Prop :=
  ∀ x f, bs.lookup x = some f → bs'.lookup x = some f

theorem Le.refl (bs : Bindings) : Le bs bs := fun _ _ h => h

theorem Le.trans {bs bs' bs'' : Bindings} (h : Le bs bs') (h' : Le bs' bs'') : Le bs bs'' :=
  fun x f hx => h' x f (h x f hx)

theorem nil_le (bs : Bindings) : Le [] bs := fun _ _ h => absurd h (by simp)

/-- Binding a hole that is not bound yet keeps the other bindings. -/
theorem le_cons {bs : Bindings} {x : String} (f : Formula) (h : bs.lookup x = none) :
    Le bs ((x, f) :: bs) := by
  intro y g hy
  have hne : y ≠ x := by
    rintro rfl
    rw [h] at hy
    cases hy
  rw [List.lookup_cons, beq_eq_false_iff_ne.mpr hne]
  exact hy

/-- What the holes stand for; one that is not bound may stand for anything. -/
def filling (bs : Bindings) (x : String) : Formula :=
  (bs.lookup x).getD default

end Bindings

namespace Pattern

open Bindings

/-! ### Matching -/

theorem instantiate_mono {bs bs' : Bindings} (h : Le bs bs') :
    ∀ {p : Pattern} {f : Formula}, p.instantiate bs = some f → p.instantiate bs' = some f
  | .hole x, f, hf => h x f hf
  | .not p, f, hf => by
    obtain ⟨a, ha, rfl⟩ := Option.map_eq_some_iff.mp hf
    simp [instantiate, instantiate_mono h ha]
  | .binary op p q, f, hf => by
    simp only [instantiate, Option.bind_eq_bind, Option.bind_eq_some_iff] at hf
    obtain ⟨a, ha, b, hb, heq⟩ := hf
    simpa [instantiate, instantiate_mono h ha, instantiate_mono h hb] using heq
  | .deontic op p, f, hf => by
    obtain ⟨a, ha, rfl⟩ := Option.map_eq_some_iff.mp hf
    simp [instantiate, instantiate_mono h ha]
  | .tense op p, f, hf => by
    obtain ⟨a, ha, rfl⟩ := Option.map_eq_some_iff.mp hf
    simp [instantiate, instantiate_mono h ha]
  | .span op p q, f, hf => by
    simp only [instantiate, Option.bind_eq_bind, Option.bind_eq_some_iff] at hf
    obtain ⟨a, ha, b, hb, heq⟩ := hf
    simpa [instantiate, instantiate_mono h ha, instantiate_mono h hb] using heq

/-- **A match extends the bindings so that the pattern becomes the formula.** -/
theorem matchWith_spec : ∀ {p : Pattern} {f : Formula} {bs bs' : Bindings},
    p.matchWith f bs = some bs' → Le bs bs' ∧ p.instantiate bs' = some f
  | .hole x, f, bs, bs', h => by
    simp only [matchWith] at h
    cases hx : bs.lookup x with
    | some g =>
      simp only [hx, Option.ite_none_right_eq_some, Option.some.injEq] at h
      obtain ⟨rfl, rfl⟩ := h
      exact ⟨.refl _, hx⟩
    | none =>
      -- the hole is bound now
      simp only [hx, Option.some.injEq] at h
      subst h
      exact ⟨le_cons f hx, List.lookup_cons_self⟩
  | .not p, .not a, bs, bs', h => by
    obtain ⟨hle, ha⟩ := matchWith_spec (p := p) h
    exact ⟨hle, by simp [instantiate, ha]⟩
  | .binary op p q, .binary op' a b, bs, bs', h => by
    simp only [matchWith, Option.ite_none_right_eq_some, Option.bind_eq_some_iff] at h
    -- what the first part has bound stays bound while the second is matched
    obtain ⟨rfl, mid, hp, hq⟩ := h
    obtain ⟨hle, ha⟩ := matchWith_spec hp
    obtain ⟨hle', hb⟩ := matchWith_spec hq
    exact ⟨hle.trans hle', by simp [instantiate, instantiate_mono hle' ha, hb]⟩
  | .deontic op p, .deontic op' a, bs, bs', h => by
    simp only [matchWith, Option.ite_none_right_eq_some] at h
    obtain ⟨rfl, hp⟩ := h
    obtain ⟨hle, ha⟩ := matchWith_spec hp
    exact ⟨hle, by simp [instantiate, ha]⟩
  | .tense op p, .tense op' a, bs, bs', h => by
    simp only [matchWith, Option.ite_none_right_eq_some] at h
    obtain ⟨rfl, hp⟩ := h
    obtain ⟨hle, ha⟩ := matchWith_spec hp
    exact ⟨hle, by simp [instantiate, ha]⟩
  | .span op p q, .span op' a b, bs, bs', h => by
    simp only [matchWith, Option.ite_none_right_eq_some, Option.bind_eq_some_iff] at h
    obtain ⟨rfl, mid, hp, hq⟩ := h
    obtain ⟨hle, ha⟩ := matchWith_spec hp
    obtain ⟨hle', hb⟩ := matchWith_spec hq
    exact ⟨hle.trans hle', by simp [instantiate, instantiate_mono hle' ha, hb]⟩

/-- **A match is found whenever some extension of the bindings gives one**, and the bindings it
makes are among those of the extension. -/
theorem exists_matchWith {bs'' : Bindings} :
    ∀ {p : Pattern} {f : Formula} {bs : Bindings}, Le bs bs'' → p.instantiate bs'' = some f →
      ∃ bs', p.matchWith f bs = some bs' ∧ Le bs' bs''
  | .hole x, f, bs, hle, hf => by
    unfold matchWith
    cases hx : bs.lookup x with
    | some g =>
      -- a hole that is bound already is bound to what the extension has for it
      have hg : g = f := Option.some.inj ((hle x g hx).symm.trans hf)
      exact ⟨bs, by simp [hg], hle⟩
    | none =>
      refine ⟨(x, f) :: bs, rfl, fun y g hy => ?_⟩
      by_cases hyx : y = x
      · rw [hyx, List.lookup_cons_self] at hy
        rw [hyx, ← hy]
        exact hf
      · rw [List.lookup_cons, beq_eq_false_iff_ne.mpr hyx] at hy
        exact hle y g hy
  | .not p, f, bs, hle, hf => by
    obtain ⟨a, ha, rfl⟩ := Option.map_eq_some_iff.mp hf
    exact exists_matchWith (p := p) hle ha
  | .binary op p q, f, bs, hle, hf => by
    simp only [instantiate, Option.bind_eq_bind, Option.bind_eq_some_iff] at hf
    obtain ⟨a, ha, b, hb, heq⟩ := hf
    obtain rfl := Option.some.inj heq
    obtain ⟨mid, hp, hmid⟩ := exists_matchWith hle ha
    obtain ⟨bs', hq, hle'⟩ := exists_matchWith hmid hb
    exact ⟨bs', by simp [matchWith, hp, hq], hle'⟩
  | .deontic op p, f, bs, hle, hf => by
    obtain ⟨a, ha, rfl⟩ := Option.map_eq_some_iff.mp hf
    obtain ⟨bs', hp, hle'⟩ := exists_matchWith hle ha
    exact ⟨bs', by simp [matchWith, hp], hle'⟩
  | .tense op p, f, bs, hle, hf => by
    obtain ⟨a, ha, rfl⟩ := Option.map_eq_some_iff.mp hf
    obtain ⟨bs', hp, hle'⟩ := exists_matchWith hle ha
    exact ⟨bs', by simp [matchWith, hp], hle'⟩
  | .span op p q, f, bs, hle, hf => by
    simp only [instantiate, Option.bind_eq_bind, Option.bind_eq_some_iff] at hf
    obtain ⟨a, ha, b, hb, heq⟩ := hf
    obtain rfl := Option.some.inj heq
    obtain ⟨mid, hp, hmid⟩ := exists_matchWith hle ha
    obtain ⟨bs', hq, hle'⟩ := exists_matchWith hmid hb
    exact ⟨bs', by simp [matchWith, hp, hq], hle'⟩

/-! ### Holes -/

/-- The names of the holes, from left to right. -/
def holes : Pattern → List String
  | .hole x => [x]
  | .not p | .deontic _ p | .tense _ p => p.holes
  | .binary _ p q | .span _ p q => p.holes ++ q.holes

/-- A pattern becomes a formula exactly if all its holes are bound. -/
theorem isSome_instantiate_iff {bs : Bindings} (p : Pattern) :
    (p.instantiate bs).isSome ↔ ∀ x ∈ p.holes, (bs.lookup x).isSome := by
  induction p with
  | hole x => simp [instantiate, holes]
  | not p ih => simpa [instantiate, holes] using ih
  | deontic op p ih => simpa [instantiate, holes] using ih
  | tense op p ih => simpa [instantiate, holes] using ih
  | binary op p q ihp ihq | span op p q ihp ihq =>
    simp only [holes, List.mem_append, or_imp, forall_and, ← ihp, ← ihq]
    cases hp : p.instantiate bs <;> cases hq : q.instantiate bs <;>
      simp [instantiate, hp, hq]

/-! ### Meaning -/

/-- The pattern with formulas in its holes. -/
def fill (σ : String → Formula) : Pattern → Formula
  | .hole x => σ x
  | .not p => .not (p.fill σ)
  | .binary op p q => .binary op (p.fill σ) (q.fill σ)
  | .deontic op p => .deontic op (p.fill σ)
  | .tense op p => .tense op (p.fill σ)
  | .span op p q => .span op (p.fill σ) (q.fill σ)

theorem eq_fill {bs : Bindings} :
    ∀ {p : Pattern} {f : Formula}, p.instantiate bs = some f → f = p.fill bs.filling
  | .hole x, f, h => by
    show f = (bs.lookup x).getD default
    rw [show bs.lookup x = some f from h]
    rfl
  | .not p, f, h => by
    obtain ⟨a, ha, rfl⟩ := Option.map_eq_some_iff.mp h
    rw [fill, ← eq_fill ha]
  | .binary op p q, f, h => by
    simp only [instantiate, Option.bind_eq_bind, Option.bind_eq_some_iff] at h
    obtain ⟨a, ha, b, hb, heq⟩ := h
    rw [fill, ← eq_fill ha, ← eq_fill hb]
    exact (Option.some.inj heq).symm
  | .deontic op p, f, h => by
    obtain ⟨a, ha, rfl⟩ := Option.map_eq_some_iff.mp h
    rw [fill, ← eq_fill ha]
  | .tense op p, f, h => by
    obtain ⟨a, ha, rfl⟩ := Option.map_eq_some_iff.mp h
    rw [fill, ← eq_fill ha]
  | .span op p q, f, h => by
    simp only [instantiate, Option.bind_eq_bind, Option.bind_eq_some_iff] at h
    obtain ⟨a, ha, b, hb, heq⟩ := h
    rw [fill, ← eq_fill ha, ← eq_fill hb]
    exact (Option.some.inj heq).symm

/-- Where a pattern is true when the formulas in its holes are true on the sets `τ`. -/
def meaning (M : Model W D) (τ : String → Set W) : Pattern → Set W
  | .hole x => τ x
  | .not p => (p.meaning M τ)ᶜ
  | .binary op p q => op.on (p.meaning M τ) (q.meaning M τ)
  | .deontic op p => M.norm op (p.meaning M τ)
  | .tense op p => M.tense op (p.meaning M τ)
  | .span op p q => M.span op (p.meaning M τ) (q.meaning M τ)

theorem truthIn_fill (M : Model W D) (E : Set D) (ν : String → D) (σ : String → Formula)
    (p : Pattern) : M.truthIn E (p.fill σ) ν = p.meaning M fun x => M.truthIn E (σ x) ν := by
  induction p with
  | hole x => rfl
  | not p ih => simp only [fill, meaning, Model.truthIn, ih]
  | binary op p q ihp ihq => simp only [fill, meaning, Model.truthIn, ihp, ihq]
  | deontic op p ih => simp only [fill, meaning, Model.truthIn, ih]
  | tense op p ih => simp only [fill, meaning, Model.truthIn, ih]
  | span op p q ihp ihq => simp only [fill, meaning, Model.truthIn, ihp, ihq]

end Pattern

end Deontica
