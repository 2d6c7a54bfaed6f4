import Deontica.Proofs.Kripke
import Mathlib.Data.List.Basic

/-!
# The edges of a branch

Linking two worlds adds what the logic asks for and no more.

* `closed_link`: edges that are transitive and symmetric, as far as the logic asks for it, stay so.
  No iteration is needed for this, because a transitive relation has all its shortcuts already.
* `link_le`: every relation that satisfies the conditions of the logic and holds of the old edges
  and of the new one holds of all edges.  It is used with the accessibility relation of a model and
  with "both ends are worlds of the branch".
-/

namespace Deontica

namespace SortedSet

variable {α : Type} [Ord α] [Std.LawfulEqOrd α]

theorem mem_insert (x y : α) (ys : List α) : x ∈ insert y ys ↔ x = y ∨ x ∈ ys := by
  induction ys with
  | nil => simp [insert]
  | cons z zs ih =>
    unfold insert
    split
    · exact List.mem_cons
    · rename_i h
      have hyz : y = z := Std.LawfulEqOrd.eq_of_compare h
      rw [hyz, List.mem_cons]
      tauto
    · rw [List.mem_cons, ih, List.mem_cons]
      tauto

/-- Sorting changes nothing about membership. -/
@[simp] theorem mem_ofList (x : α) (xs : List α) : x ∈ ofList xs ↔ x ∈ xs := by
  have key : ∀ (xs set : List α),
      x ∈ xs.foldl (fun set y => insert y set) set ↔ x ∈ set ∨ x ∈ xs := by
    intro xs
    induction xs with
    | nil => simp
    | cons y ys ih =>
      intro set
      rw [List.foldl_cons, ih, mem_insert, List.mem_cons]
      tauto
  rw [ofList, key]
  simp

end SortedSet

namespace Edge

variable {logic : Logic} {edges : List Edge}

@[simp] theorem mem_add {e e' : Edge} : e ∈ add e' edges ↔ e = e' ∨ e ∈ edges := by
  unfold add
  split_ifs with h
  · constructor
    · exact Or.inr
    · rintro (rfl | he)
      · exact h
      · exact he
  · exact List.mem_cons

@[simp] theorem mem_successors {r : Relation} {v w : World} :
    v ∈ successors edges r w ↔ ⟨r, w, v⟩ ∈ edges := by
  unfold successors
  rw [SortedSet.mem_ofList, List.mem_filterMap]
  constructor
  · rintro ⟨⟨r', w', v'⟩, he, h⟩
    simp only [Option.ite_none_right_eq_some, Option.some.injEq] at h
    obtain ⟨⟨rfl, rfl⟩, rfl⟩ := h
    exact he
  · intro he
    exact ⟨_, he, by simp⟩

@[simp] theorem mem_predecessors {r : Relation} {v w : World} :
    v ∈ predecessors edges r w ↔ ⟨r, v, w⟩ ∈ edges := by
  unfold predecessors
  rw [SortedSet.mem_ofList, List.mem_filterMap]
  constructor
  · rintro ⟨⟨r', v', w'⟩, he, h⟩
    simp only [Option.ite_none_right_eq_some, Option.some.injEq] at h
    obtain ⟨⟨rfl, rfl⟩, rfl⟩ := h
    exact he
  · intro he
    exact ⟨_, he, by simp⟩

/-! ### Linking -/

theorem mem_foldl_targets {e : Edge} {r : Relation} {s : World} (targets : List World) :
    ∀ edges, e ∈ targets.foldl (fun edges t => add ⟨r, s, t⟩ edges) edges ↔
      e ∈ edges ∨ ∃ t ∈ targets, e = ⟨r, s, t⟩ := by
  induction targets with
  | nil => simp
  | cons t ts ih =>
    intro edges
    rw [List.foldl_cons, ih, mem_add]
    simp only [List.mem_cons, exists_eq_or_imp]
    tauto

theorem mem_foldl_sources {e : Edge} {r : Relation} (targets sources : List World) :
    ∀ edges, e ∈ sources.foldl
        (fun edges s => targets.foldl (fun edges t => add ⟨r, s, t⟩ edges) edges) edges ↔
      e ∈ edges ∨ ∃ s ∈ sources, ∃ t ∈ targets, e = ⟨r, s, t⟩ := by
  induction sources with
  | nil => simp
  | cons s ss ih =>
    intro edges
    rw [List.foldl_cons, ih, mem_foldl_targets]
    simp only [List.mem_cons, exists_eq_or_imp]
    exact or_assoc

/-- In a transitive logic, connecting `a` to `b` adds the edges from `a` and what sees it to `b` and
what it sees. -/
theorem mem_connect {e : Edge} {r : Relation} {a b : World} (h : logic.isTransitive = true) :
    e ∈ connect logic r a b edges ↔ e ∈ edges ∨ e.relation = r ∧
      (e.source = a ∨ ⟨r, e.source, a⟩ ∈ edges) ∧ (e.target = b ∨ ⟨r, b, e.target⟩ ∈ edges) := by
  obtain ⟨r', s, t⟩ := e
  unfold connect
  rw [if_pos h, mem_foldl_sources]
  simp only [List.mem_cons, mem_predecessors, mem_successors, Edge.mk.injEq]
  constructor
  · rintro (he | ⟨s', hs, t', ht, rfl, rfl, rfl⟩)
    · exact Or.inl he
    · exact Or.inr ⟨rfl, hs, ht⟩
  · rintro (he | ⟨rfl, hs, ht⟩)
    · exact Or.inl he
    · exact Or.inr ⟨s, hs, t, ht, rfl, rfl, rfl⟩

theorem mem_connect_of_not {e : Edge} {r : Relation} {a b : World}
    (h : logic.isTransitive = false) :
    e ∈ connect logic r a b edges ↔ e = ⟨r, a, b⟩ ∨ e ∈ edges := by
  unfold connect
  rw [if_neg (by rw [h]; exact Bool.false_ne_true), mem_add]

theorem subset_connect (r : Relation) (a b : World) : edges ⊆ connect logic r a b edges := by
  intro e he
  by_cases h : logic.isTransitive = true
  · exact (mem_connect h).mpr (Or.inl he)
  · exact (mem_connect_of_not (Bool.not_eq_true _ ▸ h)).mpr (Or.inr he)

theorem mem_connect_self (r : Relation) (a b : World) :
    ⟨r, a, b⟩ ∈ connect logic r a b edges := by
  by_cases h : logic.isTransitive = true
  · exact (mem_connect h).mpr (Or.inr ⟨rfl, Or.inl rfl, Or.inl rfl⟩)
  · exact (mem_connect_of_not (Bool.not_eq_true _ ▸ h)).mpr (Or.inl rfl)

theorem subset_link (r : Relation) (a b : World) : edges ⊆ link logic r a b edges := by
  intro e he
  unfold link
  split_ifs
  · exact subset_connect _ _ _ (subset_connect _ _ _ he)
  · exact subset_connect _ _ _ he

theorem mem_link_self (r : Relation) (a b : World) : ⟨r, a, b⟩ ∈ link logic r a b edges := by
  unfold link
  split_ifs
  · exact subset_connect _ _ _ (mem_connect_self _ _ _)
  · exact mem_connect_self _ _ _

/-! ### Frame conditions -/

/-- The edges are transitive and symmetric as far as the logic asks for it. -/
structure Closed (logic : Logic) (edges : List Edge) : Prop where
  transitive : logic.isTransitive = true → ∀ {r u v w},
    ⟨r, u, v⟩ ∈ edges → ⟨r, v, w⟩ ∈ edges → ⟨r, u, w⟩ ∈ edges
  symmetric : logic.isSymmetric = true → ∀ {r v w}, ⟨r, v, w⟩ ∈ edges → ⟨r, w, v⟩ ∈ edges

/-- Connecting keeps a relation transitive. -/
theorem transitive_connect {r : Relation} {a b : World} (h : logic.isTransitive = true)
    (htrans : ∀ {r u v w}, ⟨r, u, v⟩ ∈ edges → ⟨r, v, w⟩ ∈ edges → ⟨r, u, w⟩ ∈ edges)
    {r' : Relation} {u v w : World} (huv : ⟨r', u, v⟩ ∈ connect logic r a b edges)
    (hvw : ⟨r', v, w⟩ ∈ connect logic r a b edges) : ⟨r', u, w⟩ ∈ connect logic r a b edges := by
  rw [mem_connect h] at huv hvw ⊢
  rcases huv with huv | ⟨hr, hu, hv⟩
  · rcases hvw with hvw | ⟨hr, hv, hw⟩
    · exact Or.inl (htrans huv hvw)
    · -- an old edge into a source of the new ones
      obtain rfl : r' = r := hr
      refine Or.inr ⟨rfl, Or.inr ?_, hw⟩
      rcases hv with rfl | hv
      · exact huv
      · exact htrans huv hv
  · rcases hvw with hvw | ⟨_, _, hw⟩
    · -- an old edge out of a target of the new ones
      obtain rfl : r' = r := hr
      refine Or.inr ⟨rfl, hu, Or.inr ?_⟩
      rcases hv with rfl | hv
      · exact hvw
      · exact htrans hv hvw
    · exact Or.inr ⟨hr, hu, hw⟩

/-- Connecting both ways keeps a symmetric and transitive relation symmetric. -/
theorem symmetric_link {r : Relation} {a b : World} (h : logic.isSymmetric = true)
    (hsymm : ∀ {r v w}, ⟨r, v, w⟩ ∈ edges → ⟨r, w, v⟩ ∈ edges) {r' : Relation} {v w : World}
    (hvw : ⟨r', v, w⟩ ∈ link logic r a b edges) : ⟨r', w, v⟩ ∈ link logic r a b edges := by
  have ht := Logic.isTransitive_of_isSymmetric h
  unfold link at hvw ⊢
  simp only [if_pos h, mem_connect ht] at hvw ⊢
  -- the new edges join any two worlds of the classes of `a` and `b`
  rcases hvw with (hvw | ⟨rfl, hv, hw⟩) | ⟨rfl, hv, hw⟩
  · exact Or.inl (Or.inl (hsymm hvw))
  · refine Or.inr ⟨rfl, ?_, ?_⟩
    · exact hw.imp id fun hw => Or.inl (hsymm hw)
    · exact hv.imp id fun hv => Or.inl (hsymm hv)
  · refine Or.inr ⟨rfl, ?_, ?_⟩
    · rcases hw with rfl | hw | ⟨_, _, hw⟩
      · exact Or.inr (Or.inr ⟨trivial, Or.inl rfl, Or.inl trivial⟩)
      · exact Or.inr (Or.inr ⟨trivial, Or.inr (hsymm hw), Or.inl trivial⟩)
      · exact hw.imp id fun hw => Or.inl (hsymm hw)
    · rcases hv with rfl | hv | ⟨_, hv, _⟩
      · exact Or.inr (Or.inr ⟨trivial, Or.inl trivial, Or.inl rfl⟩)
      · exact Or.inr (Or.inr ⟨trivial, Or.inl trivial, Or.inr (hsymm hv)⟩)
      · exact hv.imp id fun hv => Or.inl (hsymm hv)

/-- **Linking keeps the edges closed** under what the logic asks for. -/
theorem closed_link (r : Relation) (a b : World) (h : Closed logic edges) :
    Closed logic (link logic r a b edges) where
  transitive ht := by
    intro r' u v w huv hvw
    unfold link at huv hvw ⊢
    split_ifs at huv hvw ⊢
    · exact transitive_connect ht (transitive_connect ht (h.transitive ht)) huv hvw
    · exact transitive_connect ht (h.transitive ht) huv hvw
  symmetric hs := by
    intro r' v w hvw
    exact symmetric_link hs (h.symmetric hs) hvw

section Least

variable {R : Relation → World → World → Prop}
  (htrans : logic.isTransitive = true → ∀ r u v w, R r u v → R r v w → R r u w)

include htrans

theorem connect_le {r : Relation} {a b : World} (hR : ∀ e ∈ edges, R e.relation e.source e.target)
    (hab : R r a b) : ∀ e ∈ connect logic r a b edges, R e.relation e.source e.target := by
  intro e he
  by_cases h : logic.isTransitive = true
  · rcases (mem_connect h).mp he with he | ⟨hr, hs, ht⟩
    · exact hR e he
    · -- go from the source to `a`, over the new edge, and on to the target
      rw [hr]
      have hsb : R r e.source b := by
        rcases hs with hs | hs
        · rw [hs]
          exact hab
        · exact htrans h _ _ _ _ (hR _ hs) hab
      rcases ht with ht | ht
      · rw [ht]
        exact hsb
      · exact htrans h _ _ _ _ hsb (hR _ ht)
  · rcases (mem_connect_of_not (Bool.not_eq_true _ ▸ h)).mp he with rfl | he
    · exact hab
    · exact hR e he

/-- **Linking adds no more than it has to.** -/
theorem link_le (hsymm : logic.isSymmetric = true → ∀ r v w, R r v w → R r w v) {r : Relation}
    {a b : World} (hR : ∀ e ∈ edges, R e.relation e.source e.target) (hab : R r a b) :
    ∀ e ∈ link logic r a b edges, R e.relation e.source e.target := by
  unfold link
  split_ifs with hs
  · exact connect_le htrans (connect_le htrans hR hab) (hsymm hs _ _ _ hab)
  · exact connect_le htrans hR hab

end Least

/-! ### Reflexive edges -/

theorem mem_reflect {e : Edge} {w : World} :
    e ∈ reflect logic w edges ↔
      e ∈ edges ∨ logic.isReflexive = true ∧ e.source = w ∧ e.target = w := by
  obtain ⟨r, s, t⟩ := e
  unfold reflect
  split_ifs with h
  · simp only [mem_add, Edge.mk.injEq]
    cases r <;> simp [h] <;> tauto
  · simp [h]

theorem closed_reflect (w : World) (h : Closed logic edges) :
    Closed logic (reflect logic w edges) where
  transitive ht := by
    intro r u v x huv hvx
    simp only [mem_reflect] at huv hvx ⊢
    rcases huv with huv | ⟨_, rfl, rfl⟩
    · rcases hvx with hvx | ⟨_, rfl, rfl⟩
      · exact Or.inl (h.transitive ht huv hvx)
      · exact Or.inl huv
    · exact hvx
  symmetric hs := by
    intro r v x hvx
    rw [mem_reflect] at hvx ⊢
    exact hvx.imp (h.symmetric hs) fun ⟨hr, hv, hx⟩ => ⟨hr, hx, hv⟩

end Edge

end Deontica
