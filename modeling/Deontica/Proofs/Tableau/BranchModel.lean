import Deontica.Proofs.Tableau.Saturation

/-!
# The model of a saturated branch

A saturated branch is a model: its worlds are those of the branch, its domain are the terms, each of
which stands for itself, and a predicate is true where the branch says so.  Quantifiers are to range
over the constants of the branch (`named`), since a universal formula has been put to no other term.
Nothing on a saturated branch depends on how spanning formulas are read.

Main fact: every formula on the branch is true (`Saturated.mem_truthIn_named`).
-/

namespace Deontica

namespace Branch

/-- A reading of the spanning formulas. -/
abbrev Spans : Type := Span → Set World → Set World → Set World

/-- The model that a branch describes.  A world without a successor sees itself if the logic asks
for one; the next world is the one called for, or else any successor. -/
def model (b : Branch) (spans : Spans) : Model World Term where
  sees r v w := ⟨r, v, w⟩ ∈ b.edges ∨ b.logic.isSerial = true ∧ v = w ∧ b.successors r v = []
  next w := (b.nextOf.lookup w).getD ((b.successors .temporal w).headD w)
  const := .const
  func := .app
  pred w p args := (w, .pred p args) ∈ b.seen
  span := spans

/-- What the constants of the branch stand for, or everything if it has none. -/
def named (b : Branch) : Set Term :=
  {t | (∃ c ∈ b.domain, t = .const c) ∨ b.domain = []}

theorem named_nonempty (b : Branch) : b.named.Nonempty := by
  cases h : b.domain with
  | nil => exact ⟨.var "", Or.inr h⟩
  | cons c cs => exact ⟨.const c, Or.inl ⟨c, h ▸ List.mem_cons_self, rfl⟩⟩

theorem const_mem_named {b : Branch} {c : String} (h : c ∈ b.domain) : .const c ∈ b.named :=
  Or.inl ⟨c, h, rfl⟩

/-! ### Terms stand for themselves -/

mutual

theorem value_model (b : Branch) (spans : Spans) : ∀ t : Term, (b.model spans).value .var t = t
  | .var _ => rfl
  | .const _ => rfl
  | .app f args => by
    show Term.app f ((b.model spans).values .var args) = .app f args
    rw [values_model b spans args]

theorem values_model (b : Branch) (spans : Spans) :
    ∀ ts : List Term, (b.model spans).values .var ts = ts
  | [] => rfl
  | t :: ts => by
    show (b.model spans).value .var t :: (b.model spans).values .var ts = t :: ts
    rw [value_model b spans t, values_model b spans ts]

end

namespace Saturated

variable {Q : Formula → Prop} {b : Branch}

/-! ### The frame -/

theorem successors_eq_nil (h : Saturated Q b) {w : World} (hw : b.worlds ≤ w) (r : Relation) :
    b.successors r w = [] := by
  rw [List.eq_nil_iff_forall_not_mem]
  intro v hv
  have hlt := (h.wellFormed.range _ (Edge.mem_successors.mp hv)).1
  exact absurd hlt (Nat.not_lt.mpr hw)

theorem meets_model (h : Saturated Q b) (spans : Spans) : (b.model spans).Meets b.logic where
  reflexive hr r w := by
    by_cases hw : w < b.worlds
    · exact Or.inl (h.wellFormed.reflexive hr r w hw)
    · exact Or.inr ⟨Logic.isSerial_of_isReflexive hr, rfl,
        h.successors_eq_nil (Nat.not_lt.mp hw) r⟩
  transitive ht r u v w huv hvw := by
    -- a loop that was added for want of a successor leads nowhere else
    rcases huv with huv | ⟨_, rfl, _⟩
    · rcases hvw with hvw | ⟨_, rfl, _⟩
      · exact Or.inl (h.wellFormed.closed.transitive ht huv hvw)
      · exact Or.inl huv
    · exact hvw
  symmetric hs r v w hvw := by
    rcases hvw with hvw | ⟨hserial, rfl, hnone⟩
    · exact Or.inl (h.wellFormed.closed.symmetric hs hvw)
    · exact Or.inr ⟨hserial, rfl, hnone⟩
  serial hs r w := by
    cases hsucc : b.successors r w with
    | nil => exact ⟨w, Or.inr ⟨hs, rfl, hsucc⟩⟩
    | cons v vs =>
      refine ⟨v, Or.inl (Edge.mem_successors.mp ?_)⟩
      show v ∈ b.successors r w
      rw [hsucc]
      exact List.mem_cons_self

theorem seesNext_model (h : Saturated Q b) (spans : Spans) (hs : b.logic.isSerial = true) :
    (b.model spans).SeesNext := by
  intro w
  cases hnext : b.nextOf.lookup w with
  | some v =>
    have heq : (b.model spans).next w = v := by simp only [model, hnext, Option.getD_some]
    rw [heq]
    exact Or.inl (h.wellFormed.nextOf w v (mem_of_lookup hnext))
  | none =>
    have heq : (b.model spans).next w = (b.successors .temporal w).headD w := by
      simp only [model, hnext, Option.getD_none]
    rw [heq]
    cases hsucc : b.successors .temporal w with
    | nil => exact Or.inr ⟨hs, rfl, hsucc⟩
    | cons v vs =>
      refine Or.inl (Edge.mem_successors.mp ?_)
      show v ∈ b.successors .temporal w
      rw [hsucc]
      exact List.mem_cons_self

/-- A box holds at all that its world sees: a world that sees only itself because the logic asks for
a successor has no box. -/
theorem mem_seen_of_sees (h : Saturated Q b) {spans : Spans} {r : Relation} {v w : World}
    {a : Formula} (ha : (r, w, a) ∈ b.boxes) (hv : (b.model spans).sees r w v) :
    (v, a) ∈ b.seen := by
  rcases hv with hv | ⟨hserial, rfl, hnone⟩
  · exact h.coherent.boxes r w a v ha hv
  · -- in a reflexive logic the world would see itself, in another it would be in need
    exfalso
    cases hr : b.logic.isReflexive with
    | true =>
      obtain ⟨f, hf, _⟩ := h.wellFormed.boxes r w a ha
      have hloop := h.wellFormed.reflexive hr r w (h.wellFormed.seen _ hf).1
      have hmem : w ∈ b.successors r w := Edge.mem_successors.mpr hloop
      rw [hnone] at hmem
      exact List.not_mem_nil hmem
    | false =>
      have hmem : (r, w) ∈ b.needy := mem_needy.mpr ⟨⟨a, ha⟩, hnone⟩
      rw [h.needy hserial hr] at hmem
      exact List.not_mem_nil hmem

/-! ### Truth -/

/-- The demand of a formula is met in the model if lighter formulas on the branch are true. -/
theorem met_model (h : Saturated Q b) (spans : Spans) {w : World} {f : Formula}
    (ih : ∀ v g, g.weight < f.weight → (v, g) ∈ b.seen →
      v ∈ (b.model spans).truthIn b.named g .var)
    (hf : (w, f) ∈ b.seen) : f.demand.Met (b.model spans) b.named .var w := by
  have hful := (h.fulfils w f hf).2
  have hlt : ∀ g ∈ f.demand.parts, g.weight < f.weight :=
    fun _ hg => Formula.weight_lt_of_mem_demand hg
  -- an instance weighs as much as the body, so it is true, and says so of the constant's value
  have hinst : ∀ (x : String) (a : Formula), a.weight < f.weight → ∀ c,
      (w, a.substitute x (.const c)) ∈ b.seen →
      w ∈ (b.model spans).truthIn b.named a (Function.update .var x (.const c)) := by
    intro x a ha c hc
    rw [← show (b.model spans).const c = .const c from rfl, ← Model.truthIn_substitute]
    exact ih w _ (by rw [Formula.weight_substitute]; exact ha) hc
  cases hd : f.demand with
  | nothing => trivial
  | all fs =>
    rw [hd] at hful hlt
    exact fun g hg => ih w g (hlt g hg) (hful g hg)
  | choice alternatives =>
    rw [hd] at hful hlt
    obtain ⟨fs, hfs, hall⟩ := hful
    exact ⟨fs, hfs, fun g hg => ih w g (hlt g (List.mem_flatten.mpr ⟨fs, hfs, hg⟩)) (hall g hg)⟩
  | every x a =>
    rw [hd] at hful hlt
    obtain ⟨hdom, hmem⟩ := hful
    intro d hdE
    rcases hdE with ⟨c, hc, rfl⟩ | hnil
    · exact hinst x a (hlt a (List.mem_singleton.mpr rfl)) c
        (h.coherent.universals w x a hmem c hc)
    · exact absurd hnil hdom
  | some x a =>
    rw [hd] at hful hlt
    obtain ⟨c, hc, hmem⟩ := hful
    exact ⟨.const c, const_mem_named hc, hinst x a (hlt a (List.mem_singleton.mpr rfl)) c hmem⟩
  | box r a =>
    rw [hd] at hful hlt
    exact fun v hv => ih v a (hlt a (List.mem_singleton.mpr rfl)) (h.mem_seen_of_sees hful hv)
  | diamond r a =>
    rw [hd] at hful hlt
    obtain ⟨v, hv, hmem⟩ := hful
    exact ⟨v, Or.inl hv, ih v a (hlt a (List.mem_singleton.mpr rfl)) hmem⟩
  | next a =>
    rw [hd] at hful hlt
    obtain ⟨v, hv, hmem⟩ := hful
    have heq : (b.model spans).next w = v := by simp only [model, hv, Option.getD_some]
    show (b.model spans).next w ∈ _
    rw [heq]
    exact ih v a (hlt a (List.mem_singleton.mpr rfl)) hmem

/-- **Every formula on a saturated branch is true in the model of the branch** when quantifiers
range over the constants of the branch. -/
theorem mem_truthIn_named (h : Saturated Q b) (spans : Spans) {w : World} {f : Formula}
    (hf : (w, f) ∈ b.seen) : w ∈ (b.model spans).truthIn b.named f .var := by
  induction hn : f.weight using Nat.strong_induction_on generalizing w f with
  | _ n ih =>
    cases hl : f.isLiteral with
    | true =>
      match f, hl with
      | .pred p args, _ =>
        show (w, Formula.pred p ((b.model spans).values .var args)) ∈ b.seen
        rw [values_model]
        exact hf
      | .not (.pred p args), _ =>
        show ¬(w, Formula.pred p ((b.model spans).values .var args)) ∈ b.seen
        rw [values_model]
        exact fun hpos => h.coherent.literals w p args hpos hf
    | false =>
      rw [← Demand.met_iff (h.fulfils w f hf).1 hl]
      exact h.met_model spans (fun v g hg hmem => ih g.weight (hn ▸ hg) hmem rfl) hf

end Saturated

end Branch

end Deontica
