import Deontica.Proofs.Kripke

/-!
# The range of quantifiers

Quantifiers over a part `E` of the domain can be made to range over all of it in two ways.

* Without function symbols, the domain can be collapsed to `E`: every element is taken for one of
  `E` (`truth_collapse`).
* A formula in which no quantifier has universal force stays true when the range grows
  (`truthIn_mono`).  The force of a quantifier depends on how many negations it stands under; below
  a spanning operator, which may be read in any way, every quantifier is counted.
-/

namespace Deontica

universe u v

variable {W : Type u} {D : Type v}

/-! ### What occurs in a formula -/

/-- Whether the term is a variable or a constant. -/
def Term.isSimple : Term → Bool
  | .var _ | .const _ => true
  | .app _ _ => false

namespace Formula

/-- Whether no function is applied. -/
def isFunctionFree : Formula → Bool
  | .pred _ args => args.all (·.isSimple)
  | .not a | .quant _ _ a | .deontic _ a | .tense _ a => a.isFunctionFree
  | .binary _ a b | .span _ a b => a.isFunctionFree && b.isFunctionFree

/-- Whether the operator `X` occurs. -/
def hasNext : Formula → Bool
  | .pred _ _ => false
  | .next _ => true
  | .not a | .quant _ _ a | .deontic _ a | .always a | .eventually a => a.hasNext
  | .binary _ a b | .span _ a b => a.hasNext || b.hasNext

/-- Whether a quantifier of universal force occurs in the formula when it is asserted, or denied. -/
def hasUniversal (asserted : Bool) : Formula → Bool
  | .pred _ _ => false
  | .not a | .forbidden a => a.hasUniversal (!asserted)
  | .and a b | .or a b => a.hasUniversal asserted || b.hasUniversal asserted
  | .implies a b => a.hasUniversal (!asserted) || b.hasUniversal asserted
  | .iff a b | .xor a b | .span _ a b => a.hasQuantifier || b.hasQuantifier
  | .all _ a => asserted || a.hasUniversal asserted
  | .exists _ a => !asserted || a.hasUniversal asserted
  | .obligatory a | .permitted a | .tense _ a => a.hasUniversal asserted

end Formula

namespace Model

/-! ### Larger ranges -/

theorem box_mono (M : Model W D) (r : Relation) {A B : Set W} (h : A ⊆ B) :
    M.box r A ⊆ M.box r B :=
  fun _ hw v hv => h (hw v hv)

theorem diamond_mono (M : Model W D) (r : Relation) {A B : Set W} (h : A ⊆ B) :
    M.diamond r A ⊆ M.diamond r B :=
  fun _ ⟨v, hv, hA⟩ => ⟨v, hv, h hA⟩

theorem tense_mono (M : Model W D) (op : Tense) {A B : Set W} (h : A ⊆ B) :
    M.tense op A ⊆ M.tense op B := by
  cases op
  · exact M.box_mono .temporal h
  · exact M.diamond_mono .temporal h
  · exact fun _ hw => h hw

/-- Without quantifiers the range does not matter. -/
theorem truthIn_eq_of_hasQuantifier (M : Model W D) (E E' : Set D) (f : Formula) :
    f.hasQuantifier = false → ∀ ν, M.truthIn E f ν = M.truthIn E' f ν := by
  induction f with
  | pred p args => exact fun _ _ => rfl
  | not a ih =>
    intro h ν
    simp only [truthIn, ih h]
  | binary op a b iha ihb =>
    intro h ν
    obtain ⟨ha, hb⟩ := Bool.or_eq_false_iff.mp h
    simp only [truthIn, iha ha, ihb hb]
  | quant q x a ih =>
    intro h
    cases h
  | deontic op a ih =>
    intro h ν
    simp only [truthIn, ih h]
  | tense op a ih =>
    intro h ν
    simp only [truthIn, ih h]
  | span op a b iha ihb =>
    intro h ν
    obtain ⟨ha, hb⟩ := Bool.or_eq_false_iff.mp h
    simp only [truthIn, iha ha, ihb hb]

/-- **Growing ranges.**  When quantifiers range over more, a formula without quantifiers of
universal force stays true if it was asserted, and stays false if it was denied. -/
theorem truthIn_mono (M : Model W D) {E E' : Set D} (hE : E ⊆ E') (f : Formula) :
    ∀ ν, (f.hasUniversal true = false → M.truthIn E f ν ⊆ M.truthIn E' f ν) ∧
      (f.hasUniversal false = false → M.truthIn E' f ν ⊆ M.truthIn E f ν) := by
  induction f with
  | pred p args => exact fun _ => ⟨fun _ => Set.Subset.rfl, fun _ => Set.Subset.rfl⟩
  | not a ih =>
    intro ν
    exact ⟨fun h => Set.compl_subset_compl.mpr ((ih ν).2 h),
      fun h => Set.compl_subset_compl.mpr ((ih ν).1 h)⟩
  | binary op a b iha ihb =>
    intro ν
    obtain ⟨hat, haf⟩ := iha ν
    obtain ⟨hbt, hbf⟩ := ihb ν
    cases op with
    | and =>
      constructor <;> intro h <;> obtain ⟨ha, hb⟩ := Bool.or_eq_false_iff.mp h
      · exact Set.inter_subset_inter (hat ha) (hbt hb)
      · exact Set.inter_subset_inter (haf ha) (hbf hb)
    | or =>
      constructor <;> intro h <;> obtain ⟨ha, hb⟩ := Bool.or_eq_false_iff.mp h
      · exact Set.union_subset_union (hat ha) (hbt hb)
      · exact Set.union_subset_union (haf ha) (hbf hb)
    | implies =>
      constructor <;> intro h <;> obtain ⟨ha, hb⟩ := Bool.or_eq_false_iff.mp h
      · exact Set.union_subset_union (Set.compl_subset_compl.mpr (haf ha)) (hbt hb)
      · exact Set.union_subset_union (Set.compl_subset_compl.mpr (hat ha)) (hbf hb)
    | iff | xor =>
      -- both parts are asserted and denied at once, so they have no quantifiers at all
      constructor <;> intro h <;> obtain ⟨ha, hb⟩ := Bool.or_eq_false_iff.mp h <;>
        simp only [truthIn, truthIn_eq_of_hasQuantifier M E E' a ha,
          truthIn_eq_of_hasQuantifier M E E' b hb, Set.Subset.rfl]
  | quant q x a ih =>
    intro ν
    -- a quantifier that is asserted or denied with universal force is excluded
    cases q
    · refine ⟨fun h => (by cases h), fun h w hw d hd => ?_⟩
      exact (ih (Function.update ν x d)).2 h (hw d (hE hd))
    · refine ⟨fun h w hw => ?_, fun h => (by cases h)⟩
      obtain ⟨d, hd, hwd⟩ := hw
      exact ⟨d, hE hd, (ih (Function.update ν x d)).1 h hwd⟩
  | deontic op a ih =>
    intro ν
    cases op with
    | obligatory => exact ⟨fun h => M.box_mono _ ((ih ν).1 h), fun h => M.box_mono _ ((ih ν).2 h)⟩
    | permitted =>
      exact ⟨fun h => M.diamond_mono _ ((ih ν).1 h), fun h => M.diamond_mono _ ((ih ν).2 h)⟩
    | forbidden =>
      exact ⟨fun h => M.box_mono _ (Set.compl_subset_compl.mpr ((ih ν).2 h)),
        fun h => M.box_mono _ (Set.compl_subset_compl.mpr ((ih ν).1 h))⟩
  | tense op a ih =>
    intro ν
    exact ⟨fun h => M.tense_mono op ((ih ν).1 h), fun h => M.tense_mono op ((ih ν).2 h)⟩
  | span op a b iha ihb =>
    intro ν
    constructor <;> intro h <;> obtain ⟨ha, hb⟩ := Bool.or_eq_false_iff.mp h <;>
      simp only [truthIn, truthIn_eq_of_hasQuantifier M E E' a ha,
        truthIn_eq_of_hasQuantifier M E E' b hb, Set.Subset.rfl]

/-! ### Collapsing the domain -/

/-- The model in which every element of the domain is taken for its image. -/
def collapse (M : Model W D) (ρ : D → D) : Model W D :=
  { M with pred := fun w p args => M.pred w p (args.map ρ) }

/-- Without function symbols, taking elements for their images can be done at the variables. -/
theorem values_collapse (M : Model W D) {ρ : D → D} (ν : String → D) :
    ∀ ts : List Term, ts.all (·.isSimple) = true →
      (∀ c ∈ Term.constantsArgs ts, ρ (M.const c) = M.const c) →
      ((M.collapse ρ).values ν ts).map ρ = M.values (ρ ∘ ν) ts
  | [], _, _ => rfl
  | t :: ts, hsimple, hconst => by
    rw [List.all_cons, Bool.and_eq_true] at hsimple
    have ih := values_collapse M ν ts hsimple.2
      fun c hc => hconst c (List.mem_append_right _ hc)
    show ρ ((M.collapse ρ).value ν t) :: ((M.collapse ρ).values ν ts).map ρ =
      M.value (ρ ∘ ν) t :: M.values (ρ ∘ ν) ts
    rw [ih]
    match t, hsimple.1 with
    | .var x, _ => rfl
    | .const c, _ =>
      have hc := hconst c (List.mem_append_left _ (List.mem_singleton.mpr rfl))
      show ρ (M.const c) :: _ = M.const c :: _
      rw [hc]

/-- **Collapsing the domain.**  A formula without function symbols says of the whole domain, when
every element is taken for its image, what it says of the images. -/
theorem truth_collapse (M : Model W D) (ρ : D → D) (f : Formula) :
    f.isFunctionFree = true → (∀ c ∈ f.constantOccurrences, ρ (M.const c) = M.const c) →
      ∀ ν, (M.collapse ρ).truthIn Set.univ f ν = M.truthIn (Set.range ρ) f (ρ ∘ ν) := by
  induction f with
  | pred p args =>
    intro hfree hconst ν
    show {w | M.pred w p (((M.collapse ρ).values ν args).map ρ)} = _
    rw [values_collapse M ν args hfree hconst]
    rfl
  | not a ih =>
    intro hfree hconst ν
    simp only [truthIn, ih hfree hconst]
  | binary op a b iha ihb =>
    intro hfree hconst ν
    obtain ⟨ha, hb⟩ := Bool.and_eq_true_iff.mp hfree
    simp only [truthIn, iha ha fun c hc => hconst c (List.mem_append_left _ hc),
      ihb hb fun c hc => hconst c (List.mem_append_right _ hc)]
  | quant q x a ih =>
    intro hfree hconst ν
    have hbody : ∀ d, (M.collapse ρ).truthIn Set.univ a (Function.update ν x d) =
        M.truthIn (Set.range ρ) a (Function.update (ρ ∘ ν) x (ρ d)) := by
      intro d
      rw [ih hfree hconst, Function.comp_update]
    -- the elements of the range are the images of all elements
    ext w
    cases q
    · rw [mem_truthIn_all, mem_truthIn_all]
      constructor
      · rintro h _ ⟨d, rfl⟩
        rw [← hbody]
        exact h d (Set.mem_univ d)
      · intro h d _
        rw [hbody]
        exact h (ρ d) ⟨d, rfl⟩
    · rw [mem_truthIn_exists, mem_truthIn_exists]
      constructor
      · rintro ⟨d, _, h⟩
        rw [hbody] at h
        exact ⟨ρ d, ⟨d, rfl⟩, h⟩
      · rintro ⟨_, ⟨d, rfl⟩, h⟩
        rw [← hbody] at h
        exact ⟨d, Set.mem_univ d, h⟩
  | deontic op a ih =>
    intro hfree hconst ν
    simp only [truthIn, ih hfree hconst]
    rfl
  | tense op a ih =>
    intro hfree hconst ν
    simp only [truthIn, ih hfree hconst]
    rfl
  | span op a b iha ihb =>
    intro hfree hconst ν
    obtain ⟨ha, hb⟩ := Bool.and_eq_true_iff.mp hfree
    simp only [truthIn, iha ha fun c hc => hconst c (List.mem_append_left _ hc),
      ihb hb fun c hc => hconst c (List.mem_append_right _ hc)]
    rfl

open Classical in
/-- Takes every element for itself if it is in `E`, and else for one fixed element of `E`. -/
noncomputable def retract {E : Set D} (hE : E.Nonempty) (d : D) : D :=
  if d ∈ E then d else hE.choose

theorem retract_of_mem {E : Set D} (hE : E.Nonempty) {d : D} (hd : d ∈ E) : retract hE d = d :=
  if_pos hd

theorem range_retract {E : Set D} (hE : E.Nonempty) : Set.range (retract hE) = E := by
  ext d
  constructor
  · rintro ⟨d, rfl⟩
    unfold retract
    split_ifs with hd
    · exact hd
    · exact hE.choose_spec
  · intro hd
    exact ⟨d, retract_of_mem hE hd⟩

end Model

end Deontica
