import Deontica.Proofs.Rule
import Mathlib.Data.Set.Basic

/-!
# Instances of rules

An instance of a rule is a list of premises and a conclusion that the rule allows, whatever the
facts are and however they are searched (`Rule.Instance`).

* What a rule gives is an instance of it whose premises are facts and whose conclusion is not
  (`Rule.apply_instance`).
* As long as there is such an instance, the rule gives something (`Rule.isSome_apply`).  For a schema
  this says that the search over the facts is exhaustive.  A premise whose holes are all bound can
  only be the one formula that is looked up; another premise is matched with every fact, and matching
  binds no hole otherwise than the instance does, so the search for the later premises succeeds too.
  At the end the conclusion is bound, because every hole in it is a hole of a premise or was bound by
  the target.
-/

namespace Deontica

namespace Schema

/-! ### The search for premises -/

/-- **The search is exhaustive.**  It succeeds if some extension of the bindings turns the remaining
premises into facts and the conclusion into something new, provided that the conclusion is bound once
the premises are. -/
theorem isSome_search (s : Schema) (facts : List Formula) {bs'' : Bindings} {conclusion : Formula}
    (hconc : s.conclusion.instantiate bs'' = some conclusion) (hnew : conclusion ∉ facts) :
    ∀ {remaining : List Pattern} {bs : Bindings} {chosen : List Formula}, bs.Le bs'' →
      (∀ p ∈ remaining, ∃ f ∈ facts, p.instantiate bs'' = some f) →
      (∀ bs', bs.Le bs' → (∀ p ∈ remaining, (p.instantiate bs').isSome) →
        (s.conclusion.instantiate bs').isSome) →
      (s.search facts remaining bs chosen).isSome
  | [], bs, chosen, hle, _, hbound => by
    have hsome := hbound bs (.refl bs) fun p hp => absurd hp List.not_mem_nil
    obtain ⟨c, hc⟩ := Option.isSome_iff_exists.mp hsome
    have hcc : c = conclusion :=
      Option.some.inj ((Pattern.instantiate_mono hle hc).symm.trans hconc)
    rw [hcc] at hc
    simp [search, hc, hnew]
  | p :: remaining, bs, chosen, hle, hprem, hbound => by
    obtain ⟨⟨fact, hfact, hinst⟩, hrest⟩ := List.forall_mem_cons.mp hprem
    -- once `p` is bound, what was enough for the conclusion is so without mentioning `p`
    have hlater : ∀ {mid : Bindings}, bs.Le mid → p.instantiate mid = some fact →
        ∀ bs', mid.Le bs' → (∀ q ∈ remaining, (q.instantiate bs').isSome) →
          (s.conclusion.instantiate bs').isSome := by
      intro mid hmid hp bs' hle' hall
      refine hbound bs' (hmid.trans hle') (List.forall_mem_cons.mpr ⟨?_, hall⟩)
      rw [Pattern.instantiate_mono hle' hp]
      rfl
    unfold search
    cases hreq : p.instantiate bs with
    | some required =>
      have heq : required = fact :=
        Option.some.inj ((Pattern.instantiate_mono hle hreq).symm.trans hinst)
      rw [heq] at hreq ⊢
      simp only [if_pos hfact]
      exact isSome_search s facts hconc hnew hle hrest (hlater (.refl bs) hreq)
    | none =>
      obtain ⟨mid, hmatch, hmid⟩ := Pattern.exists_matchWith hle hinst
      obtain ⟨hle', hp⟩ := Pattern.matchWith_spec hmatch
      refine List.findSome?_isSome_iff.mpr ⟨fact, hfact, ?_⟩
      rw [hmatch, Option.bind_some]
      exact isSome_search s facts hconc hnew hmid hrest (hlater hle' hp)

/-- Whether binding the premises of a forward schema binds its conclusion. -/
def isDetermined (s : Schema) : Bool :=
  s.direction == .goalDirected ||
    s.conclusion.holes.all fun x => s.premises.any fun p => p.holes.contains x

/-- The holes of the conclusion of a forward schema are holes of its premises. -/
theorem exists_mem_holes {s : Schema} (hs : s.isDetermined = true) (hdir : s.direction = .forward)
    {x : String} (hx : x ∈ s.conclusion.holes) : ∃ p ∈ s.premises, x ∈ p.holes := by
  simp only [isDetermined, hdir, Bool.or_eq_true, List.all_eq_true, List.any_eq_true,
    List.contains_iff_mem] at hs
  exact hs.resolve_left (by decide) x hx

/-- **A schema gives something as long as it can.** -/
theorem isSome_apply {s : Schema} (hs : s.isDetermined = true) {scene : Scene} {bs : Bindings}
    {premises : List Formula} {conclusion : Formula} (hfits : s.Fits bs premises conclusion)
    (htarget : s.direction = .goalDirected → conclusion ∈ scene.targets)
    (hprem : ∀ f ∈ premises, f ∈ scene.facts) (hnew : conclusion ∉ scene.facts) :
    (s.apply scene).isSome := by
  have hfacts : ∀ p ∈ s.premises, ∃ f ∈ scene.facts, p.instantiate bs = some f := by
    intro p hp
    obtain ⟨f, hf, hinst⟩ := hfits.exists_premise hp
    exact ⟨f, hprem f hf, hinst⟩
  unfold apply
  cases hdir : s.direction with
  | forward =>
    refine s.isSome_search scene.facts hfits.conclusion hnew bs.nil_le hfacts fun bs' _ hall => ?_
    rw [Pattern.isSome_instantiate_iff]
    intro x hx
    obtain ⟨p, hp, hxp⟩ := exists_mem_holes hs hdir hx
    exact p.isSome_instantiate_iff.mp (hall p hp) x hxp
  | goalDirected =>
    obtain ⟨mid, hmatch, hmid⟩ := Pattern.exists_matchWith bs.nil_le hfits.conclusion
    refine List.findSome?_isSome_iff.mpr ⟨conclusion, htarget hdir, ?_⟩
    rw [if_neg hnew, hmatch, Option.bind_some]
    refine s.isSome_search scene.facts hfits.conclusion hnew hmid hfacts fun bs' hle _ => ?_
    -- the target has bound the conclusion
    rw [Pattern.instantiate_mono hle (Pattern.matchWith_spec hmatch).2]
    rfl

end Schema

namespace Rule

/-! ### All rules -/

/-- The premises and the conclusion that a rule allows, when `targets` are the formulas that may be
aimed at and `domain` are the terms that quantifiers range over. -/
inductive Instance (targets : Set Formula) (domain : Set Term) :
    Rule → List Formula → Formula → Prop
  /-- One choice of bindings for the patterns of a schema; a goal-directed schema aims at a
  target. -/
  | schema {s : Schema} {bs : Bindings} {premises : List Formula} {conclusion : Formula} :
      s.Fits bs premises conclusion → (s.direction = .goalDirected → conclusion ∈ targets) →
      Instance targets domain (.schema s) premises conclusion
  | instantiation {x : String} {a : Formula} {t : Term} : t ∈ domain →
      Instance targets domain .instantiation [.all x a] (a.substitute x t)
  | generalization {x : String} {a : Formula} {t : Term} : .exists x a ∈ targets → t ∈ domain →
      Instance targets domain .generalization [a.substitute x t] (.exists x a)

/-- **What a rule gives is an instance of it**, from facts to something new. -/
theorem apply_instance {r : Rule} {scene : Scene} {d : Step} (h : r.apply scene = some d) :
    r.name = d.rule ∧
      Instance {f | f ∈ scene.targets} {t | t ∈ scene.domain} r d.premises d.conclusion ∧
      (∀ f ∈ d.premises, f ∈ scene.facts) ∧ d.conclusion ∉ scene.facts := by
  cases r with
  | schema s =>
    obtain ⟨⟨bs, hfits⟩, hname, htarget, hprem, hnew⟩ := Schema.apply_fits h
    exact ⟨hname.symm, .schema hfits htarget, hprem, hnew⟩
  | instantiation =>
    obtain ⟨x, a, t, ht, hfact, hprem, hconc, hname, hnew⟩ := instantiate_spec h
    rw [hprem]
    refine ⟨hname.symm, ?_, List.forall_mem_singleton.mpr hfact, hnew⟩
    rw [hconc]
    exact .instantiation ht
  | generalization =>
    obtain ⟨x, a, t, ht, hwitness, hprem, hconc, hname, htarget, hnew⟩ := generalize_spec h
    rw [hprem]
    refine ⟨hname.symm, ?_, List.forall_mem_singleton.mpr hwitness, hnew⟩
    rw [hconc]
    exact .generalization htarget ht

/-- Whether the premises of the rule determine its conclusion, if it is a schema. -/
def isDetermined : Rule → Bool
  | .schema s => s.isDetermined
  | .instantiation | .generalization => true

/-- The schemas of the catalogue conclude nothing that their premises and their target leave open. -/
theorem isDetermined_of_mem_catalogue : ∀ r ∈ catalogue, r.isDetermined = true := by
  decide

/-- **A rule gives something as long as it can**: if it has an instance from facts to something new,
then it applies. -/
theorem isSome_apply {r : Rule} (hr : r ∈ catalogue) {scene : Scene} {premises : List Formula}
    {conclusion : Formula}
    (h : Instance {f | f ∈ scene.targets} {t | t ∈ scene.domain} r premises conclusion)
    (hprem : ∀ f ∈ premises, f ∈ scene.facts) (hnew : conclusion ∉ scene.facts) :
    (r.apply scene).isSome := by
  cases h with
  | schema hfits htarget =>
    exact Schema.isSome_apply (isDetermined_of_mem_catalogue _ hr) hfits htarget hprem hnew
  | instantiation ht =>
    rw [List.forall_mem_singleton] at hprem
    refine List.findSome?_isSome_iff.mpr ⟨_, hprem, List.findSome?_isSome_iff.mpr ⟨_, ht, ?_⟩⟩
    rw [if_neg hnew]
    rfl
  | generalization htarget ht =>
    rw [List.forall_mem_singleton] at hprem
    refine List.findSome?_isSome_iff.mpr ⟨_, htarget, ?_⟩
    show Option.isSome (if _ then _ else _) = true
    rw [if_neg hnew]
    refine List.findSome?_isSome_iff.mpr ⟨_, ht, ?_⟩
    rw [if_pos hprem]
    rfl

end Rule

end Deontica
