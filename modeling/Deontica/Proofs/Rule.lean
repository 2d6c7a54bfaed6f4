import Deontica.Proofs.Pattern
import Deontica.Proofs.Tableau.Demand
import Deontica.Rule.Catalogue

/-!
# Soundness of the rules

A schema is valid in a model if its conclusion is true wherever its premises are, whatever the
formulas in its holes; an application of a valid schema is then truth-preserving (`Valid.apply`).
Every schema of the catalogue is valid in the models of the logics in which it is active, with two
provisos: `A U B ⊢ ◊B` needs a reading of `U` that promises `◊B`, and `□O(A) ⊢ O(A)` needs a
reflexive logic (`valid_of_mem_catalogue`).

Instantiation and generalization are truth-preserving if the constants that occur have values in the
range of the quantifiers.
-/

namespace Deontica

universe u v

variable {W : Type u} {D : Type v}

namespace Schema

/-! ### Applying a schema -/

/-- The bindings turn the premises of the schema, one by one, into the first formulas and its
conclusion into the last. -/
structure Fits (s : Schema) (bs : Bindings) (premises : List Formula) (conclusion : Formula) :
    Prop where
  premises : s.premises.map (·.instantiate bs) = premises.map some
  conclusion : s.conclusion.instantiate bs = some conclusion

/-- A search that succeeds extends the bindings so that the remaining premises become facts and the
conclusion something new. -/
theorem search_spec (s : Schema) (facts : List Formula) :
    ∀ {remaining : List Pattern} {bs : Bindings} {chosen : List Formula} {d : Step},
      s.search facts remaining bs chosen = some d →
      ∃ bs' used, bs.Le bs' ∧ d.rule = s.name ∧ d.premises = chosen ++ used ∧
        remaining.map (·.instantiate bs') = used.map some ∧ (∀ f ∈ used, f ∈ facts) ∧
        s.conclusion.instantiate bs' = some d.conclusion ∧ d.conclusion ∉ facts
  | [], bs, chosen, d, h => by
    simp only [search, Option.bind_eq_bind, Option.bind_eq_some_iff,
      Option.ite_none_left_eq_some, Option.some.injEq] at h
    obtain ⟨conclusion, hc, hnew, rfl⟩ := h
    exact ⟨bs, [], .refl bs, rfl, by simp, rfl, fun _ hf => absurd hf List.not_mem_nil, hc, hnew⟩
  | p :: remaining, bs, chosen, d, h => by
    -- whether the premise is looked up or matched, it is a fact that the pattern has become
    obtain ⟨fact, mid, hfact, hle, hinst, hrest⟩ : ∃ fact mid, fact ∈ facts ∧ bs.Le mid ∧
        p.instantiate mid = some fact ∧
        s.search facts remaining mid (chosen ++ [fact]) = some d := by
      unfold search at h
      split at h
      · rename_i required hr
        rw [Option.ite_none_right_eq_some] at h
        exact ⟨required, bs, h.1, .refl bs, hr, h.2⟩
      · obtain ⟨fact, hfact, hbind⟩ := List.exists_of_findSome?_eq_some h
        obtain ⟨mid, hmatch, hrest⟩ := Option.bind_eq_some_iff.mp hbind
        obtain ⟨hle, hinst⟩ := Pattern.matchWith_spec hmatch
        exact ⟨fact, mid, hfact, hle, hinst, hrest⟩
    obtain ⟨bs', used, hle', hname, hprem, hmap, hfacts, hconc, hnew⟩ := search_spec s facts hrest
    refine ⟨bs', fact :: used, hle.trans hle', hname, ?_, ?_, ?_, hconc, hnew⟩
    · rw [hprem, List.append_assoc]
      rfl
    · rw [List.map_cons, List.map_cons, hmap, Pattern.instantiate_mono hle' hinst]
    · exact List.forall_mem_cons.mpr ⟨hfact, hfacts⟩

/-- **An application of a schema fits it.**  Its premises are facts and its conclusion is new; a
goal-directed schema concludes a target. -/
theorem apply_fits {s : Schema} {scene : Scene} {d : Step} (h : s.apply scene = some d) :
    (∃ bs, s.Fits bs d.premises d.conclusion) ∧ d.rule = s.name ∧
      (s.direction = .goalDirected → d.conclusion ∈ scene.targets) ∧
      (∀ f ∈ d.premises, f ∈ scene.facts) ∧ d.conclusion ∉ scene.facts := by
  obtain ⟨bs, hsearch, htarget⟩ : ∃ bs, s.search scene.facts s.premises bs [] = some d ∧
      (s.direction = .goalDirected →
        ∃ target ∈ scene.targets, s.conclusion.instantiate bs = some target) := by
    unfold apply at h
    split at h
    · rename_i hforward
      exact ⟨[], h, fun hgoal => absurd (hforward.symm.trans hgoal) (by decide)⟩
    · obtain ⟨target, hmem, htarget⟩ := List.exists_of_findSome?_eq_some h
      rw [Option.ite_none_left_eq_some] at htarget
      obtain ⟨bs, hmatch, hsearch⟩ := Option.bind_eq_some_iff.mp htarget.2
      exact ⟨bs, hsearch, fun _ => ⟨target, hmem, (Pattern.matchWith_spec hmatch).2⟩⟩
  obtain ⟨bs', used, hle, hname, hprem, hmap, hfacts, hconc, hnew⟩ :=
    s.search_spec scene.facts hsearch
  rw [List.nil_append] at hprem
  refine ⟨⟨bs', hprem ▸ hmap, hconc⟩, hname, fun hgoal => ?_, hprem ▸ hfacts, hnew⟩
  obtain ⟨target, hmem, hinst⟩ := htarget hgoal
  -- what the search binds later does not change the conclusion
  rw [Pattern.instantiate_mono hle hinst] at hconc
  exact Option.some.inj hconc ▸ hmem

/-- A premise of a schema becomes one of the formulas that fit it. -/
theorem Fits.exists_premise {s : Schema} {bs : Bindings} {premises : List Formula}
    {conclusion : Formula} (h : s.Fits bs premises conclusion) {p : Pattern} (hp : p ∈ s.premises) :
    ∃ f ∈ premises, p.instantiate bs = some f := by
  have hmem : p.instantiate bs ∈ premises.map some := h.premises ▸ List.mem_map_of_mem hp
  obtain ⟨f, hf, heq⟩ := List.mem_map.mp hmem
  exact ⟨f, hf, heq.symm⟩

/-- Formulas that fit a schema fill its holes. -/
theorem Fits.eq_fill {s : Schema} {bs : Bindings} {premises : List Formula} {conclusion : Formula}
    (h : s.Fits bs premises conclusion) :
    premises = s.premises.map (·.fill bs.filling) ∧ conclusion = s.conclusion.fill bs.filling := by
  refine ⟨?_, Pattern.eq_fill h.conclusion⟩
  have hfill : s.premises.map (·.instantiate bs) =
      (s.premises.map (·.fill bs.filling)).map some := by
    rw [List.map_map]
    refine List.map_congr_left fun p hp => ?_
    obtain ⟨f, _, hf⟩ := h.exists_premise hp
    rw [hf, Function.comp_apply, ← Pattern.eq_fill hf]
  exact (List.map_inj_right fun _ _ => Option.some.inj).mp (h.premises.symm.trans hfill)

/-- **An application of a schema fills its holes in one way**, and its premises are facts. -/
theorem apply_spec {s : Schema} {scene : Scene} {d : Step} (h : s.apply scene = some d) :
    ∃ σ, d.premises = s.premises.map (·.fill σ) ∧ (∀ f ∈ d.premises, f ∈ scene.facts) ∧
      d.conclusion = s.conclusion.fill σ := by
  obtain ⟨⟨bs, hfits⟩, _, _, hfacts, _⟩ := apply_fits h
  exact ⟨bs.filling, hfits.eq_fill.1, hfacts, hfits.eq_fill.2⟩

/-- The conclusion is true wherever the premises are, whatever stands in the holes. -/
def Valid (M : Model W D) (s : Schema) : Prop :=
  ∀ (τ : String → Set W) (w : W), (∀ p ∈ s.premises, w ∈ p.meaning M τ) →
    w ∈ s.conclusion.meaning M τ

theorem Valid.apply {M : Model W D} {s : Schema} (hs : s.Valid M) {scene : Scene} {d : Step}
    (h : s.apply scene = some d) {E : Set D} {ν : String → D} {w : W}
    (hprem : ∀ f ∈ d.premises, w ∈ M.truthIn E f ν) : w ∈ M.truthIn E d.conclusion ν := by
  obtain ⟨σ, hp, _, hc⟩ := apply_spec h
  rw [hc, Pattern.truthIn_fill]
  apply hs
  intro p hmem
  rw [← Pattern.truthIn_fill]
  apply hprem
  rw [hp]
  exact List.mem_map.mpr ⟨p, hmem, rfl⟩

end Schema

namespace Rule

/-! ### The schemas of the catalogue -/

section Families

variable {M : Model W D} {s : Schema}

open Pattern

theorem valid_propositional (hs : .schema s ∈ propositional) : s.Valid M := by
  intro τ w
  simp only [propositional, forward, goalDirected, holeA, holeB, holeC, List.mem_cons,
    List.not_mem_nil, or_false, Rule.schema.injEq] at hs
  rcases hs with rfl | rfl | rfl | rfl | rfl | rfl | rfl | rfl | rfl | rfl | rfl | rfl | rfl | rfl |
    rfl | rfl | rfl | rfl <;>
    -- no modal operator occurs, so each is a tautology at the world
    simp [meaning, Connective.on] <;> tauto

theorem valid_temporal {logic : Logic} (hM : M.Meets logic)
    (huntil : s.name = "until_eventually" → ∀ A B, M.span .until A B ⊆ M.diamond .temporal B)
    (hs : .schema s ∈ temporal) (hactive : (Rule.schema s).isActive (some logic) = true) :
    s.Valid M := by
  intro τ w
  simp only [temporal, forward, goalDirected, holeA, holeB, List.mem_cons, List.not_mem_nil,
    or_false, Rule.schema.injEq] at hs
  rcases hs with rfl | rfl | rfl | rfl | rfl | rfl | rfl | rfl | rfl | rfl | rfl <;>
    simp only [List.forall_mem_cons, List.not_mem_nil, false_implies, implies_true, and_true,
      meaning, Model.tense, Connective.on]
  · rintro ⟨hAB, hA⟩ v hv
    exact (hAB v hv).resolve_left fun hnot => hnot (hA v hv)
  · intro hA
    exact hA w (hM.reflexive hactive _ w)
  · intro hA
    obtain ⟨v, hv⟩ := hM.serial hactive .temporal w
    exact ⟨v, hv, hA v hv⟩
  · intro hA v hv u hu
    exact hA u (hM.transitive hactive _ w v u hv hu)
  · -- only symmetric logics have the rule, and they are transitive too
    rintro ⟨u, hu, hA⟩ v hv
    have ht := Logic.isTransitive_of_isSymmetric hactive
    exact ⟨u, hM.transitive ht _ v w u (hM.symmetric hactive _ w v hv) hu, hA⟩
  · intro hA
    exact ⟨w, hM.reflexive hactive _ w, hA⟩
  · intro hAB v hv
    exact (hAB v hv).1
  · intro hAB v hv
    exact (hAB v hv).2
  · intro hU
    exact huntil rfl _ _ hU
  · intro hnot
    simpa using hnot
  · intro hnot
    simpa using hnot

theorem valid_deontic {logic : Logic} (hM : M.Meets logic) (hs : .schema s ∈ deontic)
    (hactive : (Rule.schema s).isActive (some logic) = true) : s.Valid M := by
  intro τ w
  simp only [deontic, forward, goalDirected, holeA, holeB, List.mem_cons, List.not_mem_nil,
    or_false, Rule.schema.injEq] at hs
  rcases hs with rfl | rfl | rfl | rfl | rfl | rfl <;>
    simp only [List.forall_mem_cons, List.not_mem_nil, false_implies, implies_true, and_true,
      meaning, Model.norm, Connective.on]
  · rintro ⟨hAB, hA⟩ v hv
    exact (hAB v hv).resolve_left fun hnot => hnot (hA v hv)
  · intro hA
    obtain ⟨v, hv⟩ := hM.serial hactive .deontic w
    exact ⟨v, hv, hA v hv⟩
  · exact id
  · exact id
  · intro hnot
    simpa using hnot
  · intro hnot
    simpa using hnot

theorem valid_combined (hnow : s.name = "always_obligation_now" → ∀ w, M.sees .temporal w w)
    (hs : .schema s ∈ combined) : s.Valid M := by
  intro τ w
  simp only [combined, forward, holeA, holeB, List.mem_cons, List.not_mem_nil, or_false,
    Rule.schema.injEq] at hs
  rcases hs with rfl | rfl <;>
    simp only [List.forall_mem_cons, List.not_mem_nil, false_implies, implies_true, and_true,
      meaning, Model.norm, Model.tense, Connective.on]
  · rintro ⟨hAB, hA⟩ v hv u hu
    exact (hAB v hv u hu).resolve_left fun hnot => hnot (hA v hv u hu)
  · intro hA
    exact hA w (hnow rfl w)

/-- **The schemas of the catalogue are valid** in the models of the logics in which they are active,
if, for the one rule that says so, `A U B` promises `◊B` and, for a standing obligation to hold now,
worlds see themselves. -/
theorem valid_of_mem_catalogue {logic : Logic} (hM : M.Meets logic)
    (huntil : s.name = "until_eventually" → ∀ A B, M.span .until A B ⊆ M.diamond .temporal B)
    (hnow : s.name = "always_obligation_now" → ∀ w, M.sees .temporal w w)
    (hs : .schema s ∈ catalogue) (hactive : (Rule.schema s).isActive (some logic) = true) :
    s.Valid M := by
  simp only [catalogue, List.mem_append, quantifier, List.mem_cons, reduceCtorEq,
    List.not_mem_nil, or_false] at hs
  rcases hs with ((hs | hs) | hs) | hs
  · exact valid_propositional hs
  · exact valid_temporal hM huntil hs hactive
  · exact valid_deontic hM hs hactive
  · exact valid_combined hnow hs

end Families

/-! ### The quantifier rules -/

theorem instantiate_spec {scene : Scene} {d : Step} (h : instantiate scene = some d) :
    ∃ x a, ∃ t ∈ scene.domain, .all x a ∈ scene.facts ∧ d.premises = [.all x a] ∧
      d.conclusion = a.substitute x t ∧ d.rule = instantiation.name ∧
      d.conclusion ∉ scene.facts := by
  obtain ⟨fact, hfact, hsome⟩ := List.exists_of_findSome?_eq_some h
  match fact, hsome with
  | .all x a, hsome =>
    obtain ⟨t, ht, hstep⟩ := List.exists_of_findSome?_eq_some hsome
    simp only [Option.ite_none_left_eq_some, Option.some.injEq] at hstep
    obtain ⟨hnew, rfl⟩ := hstep
    exact ⟨x, a, t, ht, hfact, rfl, rfl, rfl, hnew⟩

theorem generalize_spec {scene : Scene} {d : Step} (h : generalize scene = some d) :
    ∃ x a, ∃ t ∈ scene.domain, a.substitute x t ∈ scene.facts ∧
      d.premises = [a.substitute x t] ∧ d.conclusion = .exists x a ∧
      d.rule = generalization.name ∧ .exists x a ∈ scene.targets ∧ d.conclusion ∉ scene.facts := by
  obtain ⟨target, htarget, hsome⟩ := List.exists_of_findSome?_eq_some h
  match target, hsome with
  | .exists x a, hsome =>
    simp only [Option.ite_none_left_eq_some] at hsome
    obtain ⟨t, ht, hstep⟩ := List.exists_of_findSome?_eq_some hsome.2
    simp only [Option.ite_none_right_eq_some, Option.some.injEq] at hstep
    obtain ⟨hwitness, rfl⟩ := hstep
    exact ⟨x, a, t, ht, hwitness, rfl, rfl, rfl, htarget, hsome.1⟩

/-- An instance by a constant says of some value in the range what the formula says of the variable:
of the value of the constant, or of any if the constant does not occur. -/
theorem exists_truthIn_substitute (M : Model W D) {E : Set D} (hE : E.Nonempty) {a : Formula}
    {x c : String} (hc : c ∈ (a.substitute x (.const c)).constantOccurrences → M.const c ∈ E)
    (ν : String → D) : ∃ e ∈ E, M.truthIn E (a.substitute x (.const c)) ν =
      M.truthIn E a (Function.update ν x e) := by
  by_cases hoccurs : c ∈ (a.substitute x (.const c)).constantOccurrences
  · exact ⟨M.const c, hc hoccurs, M.truthIn_substitute E x c a ν⟩
  · obtain ⟨e, he⟩ := hE
    refine ⟨e, he, ?_⟩
    -- naming `e` by the constant changes neither side, and then substitution applies
    have hkeep : ∀ f : Formula, f.constantOccurrences ⊆
        (a.substitute x (.const c)).constantOccurrences → ∀ μ, M.truthIn E f μ =
          (M.naming (Function.update M.const c e)).truthIn E f μ := by
      intro f hf μ
      refine M.truthIn_naming_congr E M.const _ f (fun d hd => ?_) μ
      rw [Function.update_of_ne]
      rintro rfl
      exact hoccurs (hf hd)
    rw [hkeep _ (List.Subset.refl _), Model.truthIn_substitute,
      hkeep a (Formula.constantOccurrences_subset_substitute a x _)]
    congr 2
    exact Function.update_self c e M.const

/-! ### All rules -/

/-- The premises that a rule reports are facts. -/
theorem mem_facts_of_apply {r : Rule} {scene : Scene} {d : Step} (h : r.apply scene = some d) :
    ∀ f ∈ d.premises, f ∈ scene.facts := by
  cases r with
  | schema s =>
    obtain ⟨_, _, hfacts, _⟩ := Schema.apply_spec h
    exact hfacts
  | instantiation =>
    obtain ⟨x, a, t, _, hfact, hprem, _⟩ := instantiate_spec h
    rw [hprem]
    exact List.forall_mem_singleton.mpr hfact
  | generalization =>
    obtain ⟨x, a, t, _, hfact, hprem, _⟩ := generalize_spec h
    rw [hprem]
    exact List.forall_mem_singleton.mpr hfact

/-- **The rules preserve truth.**  In a model of a logic in which the rule is active, what a rule
concludes is true wherever its premises are, if `A U B` promises `◊B` where the rule says so, worlds
see themselves where a standing obligation is to hold now, and the constants that occur have values
in the range of the quantifiers. -/
theorem mem_truthIn_of_apply {logic : Logic} {M : Model W D} {r : Rule} {scene : Scene} {d : Step}
    (hr : r ∈ catalogue) (hactive : r.isActive (some logic) = true) (h : r.apply scene = some d)
    (hdomain : ∀ t ∈ scene.domain, ∃ c, t = .const c) (hM : M.Meets logic)
    (huntil : r.name = "until_eventually" → ∀ A B, M.span .until A B ⊆ M.diamond .temporal B)
    (hnow : r.name = "always_obligation_now" → ∀ w, M.sees .temporal w w) {E : Set D}
    (hE : E.Nonempty)
    (hconst : ∀ f ∈ d.conclusion :: d.premises, ∀ c ∈ f.constantOccurrences, M.const c ∈ E)
    {ν : String → D} {w : W} (hprem : ∀ f ∈ d.premises, w ∈ M.truthIn E f ν) :
    w ∈ M.truthIn E d.conclusion ν := by
  cases r with
  | schema s => exact (valid_of_mem_catalogue hM huntil hnow hr hactive).apply h hprem
  | instantiation =>
    obtain ⟨x, a, t, ht, _, hp, hc, _⟩ := instantiate_spec h
    obtain ⟨c, rfl⟩ := hdomain t ht
    obtain ⟨e, he, heq⟩ := exists_truthIn_substitute M hE
      (fun hmem => hconst _ List.mem_cons_self c (hc ▸ hmem)) ν
    rw [hp, List.forall_mem_singleton] at hprem
    rw [hc, heq]
    exact hprem e he
  | generalization =>
    obtain ⟨x, a, t, ht, _, hp, hc, _⟩ := generalize_spec h
    obtain ⟨c, rfl⟩ := hdomain t ht
    rw [hp] at hconst hprem
    rw [List.forall_mem_singleton] at hprem
    obtain ⟨e, he, heq⟩ := exists_truthIn_substitute M hE
      (hconst _ (List.mem_cons_of_mem _ (List.mem_singleton.mpr rfl)) c) ν
    rw [hc]
    exact ⟨e, he, heq ▸ hprem⟩

end Rule

end Deontica
