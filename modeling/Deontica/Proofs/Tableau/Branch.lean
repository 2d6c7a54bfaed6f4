import Deontica.Proofs.Tableau.Demand
import Deontica.Proofs.Tableau.Frame
import Mathlib.Logic.Relation

/-!
# How a branch grows

Every operation on a branch is made of a few changes: formulas are added, a world, an edge or a
constant is new, something is noted for later, or the branch becomes approximate.  The `_cases`
lemmas say for each operation which of them it makes, and the rest is read off from them.

* `Grows`: the branch comes from another one by such changes, each made within the limits.
* `Extends`: nothing on a branch is ever taken back, and what is new is pending; this is so for
  every branch that grows.
* `WellFormed Q`: formulas stand at worlds of the branch and have constants of its domain, what is
  kept for later comes from a formula on the branch, the edges satisfy the conditions of the logic,
  and every formula has the property `Q`, which may be any that demands and instances inherit.

Every operation keeps a branch well formed.
-/

namespace Deontica

namespace Branch

/-! ### The changes -/

/-- The branch, marked as approximate. -/
def vague (b : Branch) : Branch :=
  { b with approximate := true }

/-- The branch with one more world. -/
def withWorld (b : Branch) : Branch :=
  { b with worlds := b.worlds + 1, edges := Edge.reflect b.logic b.worlds b.edges }

/-- The branch in which `v` sees `w`. -/
def linked (b : Branch) (r : Relation) (v w : World) : Branch :=
  { b with edges := Edge.link b.logic r v w b.edges }

/-- The branch in which `v` is the next world of `w`. -/
def withNext (b : Branch) (w v : World) : Branch :=
  { b with nextOf := (w, v) :: b.nextOf }

/-- The branch with one more box. -/
def withBox (b : Branch) (r : Relation) (w : World) (a : Formula) : Branch :=
  { b with boxes := b.boxes ++ [(r, w, a)] }

/-- The branch with one more universal formula. -/
def withUniversal (b : Branch) (w : World) (x : String) (a : Formula) : Branch :=
  { b with universals := b.universals ++ [(w, x, a)] }

/-- The branch with the `n`-th fresh constant. -/
def withConstant (b : Branch) (n : Nat) : Branch :=
  { b with fresh := n, domain := b.domain ++ [freshName n] }

variable {b : Branch} {w : World} {r : Relation} {x : String} {a : Formula}

theorem mem_boxes_withBox {p : Relation × World × Formula} :
    p ∈ (b.withBox r w a).boxes ↔ p ∈ b.boxes ∨ p = (r, w, a) := by
  rw [withBox, List.mem_append, List.mem_singleton]

theorem mem_universals_withUniversal {p : World × String × Formula} :
    p ∈ (b.withUniversal w x a).universals ↔ p ∈ b.universals ∨ p = (w, x, a) := by
  rw [withUniversal, List.mem_append, List.mem_singleton]

theorem newWorld_cases (b : Branch) :
    b.newWorld = (none, b.vague) ∨ b.newWorld = (some b.worlds, b.withWorld) := by
  unfold newWorld
  split_ifs
  · exact Or.inl rfl
  · exact Or.inr rfl

theorem connect_eq (b : Branch) (r : Relation) (v w : World) :
    b.connect r v w = (b.linked r v w).propagate := rfl

theorem diamond_cases (b : Branch) (r : Relation) (w : World) (a : Formula) :
    (b.diamond r w a = b ∧ ∃ v, ⟨r, w, v⟩ ∈ b.edges ∧ (v, a) ∈ b.seen) ∨
      b.diamond r w a = b.vague ∨
      b.diamond r w a = (b.withWorld.add b.worlds a).connect r w b.worlds := by
  unfold diamond
  split_ifs with h
  · simp only [List.any_eq_true, successors, Edge.mem_successors, decide_eq_true_eq] at h
    exact Or.inl ⟨rfl, h⟩
  · rcases newWorld_cases b with hb | hb <;> rw [hb]
    · exact Or.inr (Or.inl rfl)
    · exact Or.inr (Or.inr rfl)

theorem next_cases (b : Branch) (w : World) (a : Formula) :
    (∃ v, b.nextOf.lookup w = some v ∧ b.next w a = b.add v a) ∨
      b.next w a = b.vague ∨
      b.nextOf.lookup w = none ∧ b.next w a =
        ((b.withWorld.withNext w b.worlds).connect .temporal w b.worlds).add b.worlds a := by
  unfold next
  split
  · rename_i v hv
    exact Or.inl ⟨v, hv, rfl⟩
  · rename_i hnone
    rcases newWorld_cases b with hb | hb <;> rw [hb]
    · exact Or.inr (Or.inl rfl)
    · exact Or.inr (Or.inr ⟨hnone, rfl⟩)

theorem freshConstant_cases (b : Branch) :
    b.freshConstant = (none, b.vague) ∨
      ∃ n, freshName n ∉ b.domain ∧ b.freshConstant = (some (freshName n), b.withConstant n) := by
  unfold freshConstant
  split_ifs
  · exact Or.inl rfl
  · split
    · rename_i n hn
      exact Or.inr ⟨n, by simpa using List.find?_some hn, rfl⟩
    · exact Or.inl rfl

theorem universal_cases (b : Branch) (w : World) (x : String) (a : Formula) :
    b.domain = [] ∧ b.universal w x a = (b.withUniversal w x a).vague ∨
      (∃ n, b.domain = [] ∧ b.universal w x a =
        ((b.withUniversal w x a).withConstant n).instantiate (freshName n)) ∨
      b.domain ≠ [] ∧ b.universal w x a = (b.withUniversal w x a).addAll
        (b.domain.map fun c => (w, a.substitute x (.const c))) := by
  unfold universal
  dsimp only
  split_ifs with h
  · rw [List.isEmpty_iff] at h
    rcases freshConstant_cases (b.withUniversal w x a) with hb | ⟨n, _, hb⟩ <;>
      unfold withUniversal at hb <;> rw [hb]
    · exact Or.inl ⟨h, rfl⟩
    · exact Or.inr (Or.inl ⟨n, h, rfl⟩)
  · rw [List.isEmpty_iff] at h
    exact Or.inr (Or.inr ⟨h, rfl⟩)

theorem existential_cases (b : Branch) (w : World) (x : String) (a : Formula) :
    b.existential w x a = b.vague ∨
      ∃ n, freshName n ∉ b.domain ∧ b.existential w x a =
        ((b.withConstant n).add w (a.substitute x (.const (freshName n)))).instantiate
          (freshName n) := by
  unfold existential
  rcases freshConstant_cases b with hb | ⟨n, hn, hb⟩ <;> rw [hb]
  · exact Or.inl rfl
  · exact Or.inr ⟨n, hn, rfl⟩

/-! ### Adding formulas -/

theorem add_cases (b : Branch) (w : World) (f : Formula) :
    (b.add w f = b ∧ (b.closed = true ∨ (w, f) ∈ b.seen)) ∨
      (b.add w f = { b with closed := true } ∧ (w, f.negation) ∈ b.seen) ∨
      (b.add w f = { b with seen := (w, f) :: b.seen, pending := b.pending ++ [(w, f)] } ∧
        b.closed = false ∧ (w, f.negation) ∉ b.seen) := by
  unfold add
  split_ifs with h h'
  · simp only [Bool.or_eq_true, decide_eq_true_eq] at h
    exact Or.inl ⟨rfl, h⟩
  · exact Or.inr (Or.inl ⟨rfl, h'⟩)
  · simp only [Bool.or_eq_true, decide_eq_true_eq, not_or, Bool.not_eq_true] at h
    exact Or.inr (Or.inr ⟨rfl, h.1, h'⟩)

/-- Adding formulas changes nothing but what is seen, pending and closed. -/
theorem addAll_eq (b : Branch) (fs : List Labelled) :
    b.addAll fs = { b with
      seen := (b.addAll fs).seen
      pending := (b.addAll fs).pending
      closed := (b.addAll fs).closed } := by
  induction fs generalizing b with
  | nil => rfl
  | cons p ps ih =>
    show (b.add p.1 p.2).addAll ps = _
    rw [ih]
    rcases add_cases b p.1 p.2 with ⟨h, _⟩ | ⟨h, _⟩ | ⟨h, _⟩ <;>
      simp only [addAll, List.foldl_cons, h]

section AddAll

variable (b : Branch) (fs : List Labelled)

@[simp] theorem addAll_logic : (b.addAll fs).logic = b.logic := by rw [addAll_eq]

@[simp] theorem addAll_worlds : (b.addAll fs).worlds = b.worlds := by rw [addAll_eq]

@[simp] theorem addAll_edges : (b.addAll fs).edges = b.edges := by rw [addAll_eq]

@[simp] theorem addAll_boxes : (b.addAll fs).boxes = b.boxes := by rw [addAll_eq]

@[simp] theorem addAll_universals : (b.addAll fs).universals = b.universals := by rw [addAll_eq]

@[simp] theorem addAll_domain : (b.addAll fs).domain = b.domain := by rw [addAll_eq]

@[simp] theorem addAll_nextOf : (b.addAll fs).nextOf = b.nextOf := by rw [addAll_eq]

end AddAll

theorem addAll_cons (b : Branch) (p : Labelled) (ps : List Labelled) :
    b.addAll (p :: ps) = (b.add p.1 p.2).addAll ps := rfl

theorem add_eq_addAll (b : Branch) (w : World) (f : Formula) : b.add w f = b.addAll [(w, f)] := rfl

/-- What the boxes ask for at the successors of their worlds. -/
def due (b : Branch) : List Labelled :=
  b.boxes.flatMap fun (r, w, a) => (b.successors r w).map (·, a)

theorem propagate_eq (b : Branch) : b.propagate = b.addAll b.due := rfl

theorem mem_due {b : Branch} {p : Labelled} :
    p ∈ b.due ↔ ∃ r w a v, (r, w, a) ∈ b.boxes ∧ ⟨r, w, v⟩ ∈ b.edges ∧ p = (v, a) := by
  simp only [due, List.mem_flatMap, List.mem_map, successors, Edge.mem_successors, Prod.exists]
  constructor
  · rintro ⟨r, w, a, ha, v, hv, rfl⟩
    exact ⟨r, w, a, v, ha, hv, rfl⟩
  · rintro ⟨r, w, a, v, ha, hv, rfl⟩
    exact ⟨r, w, a, ha, v, hv, rfl⟩

/-! ### Growth -/

/-- One change of a branch.  A world or a constant is made only below the limit, and a world gets
only one next world. -/
inductive Change : Branch → Branch → Prop
  | add (b : Branch) (w : World) (f : Formula) : Change b (b.add w f)
  | vague (b : Branch) : Change b b.vague
  | withWorld {b : Branch} : b.worlds < b.maxWorlds → Change b b.withWorld
  | linked (b : Branch) (r : Relation) (v w : World) : Change b (b.linked r v w)
  | withNext {b : Branch} {w : World} (v : World) : b.nextOf.lookup w = none →
      Change b (b.withNext w v)
  | withBox (b : Branch) (r : Relation) (w : World) (a : Formula) : Change b (b.withBox r w a)
  | withUniversal (b : Branch) (w : World) (x : String) (a : Formula) :
      Change b (b.withUniversal w x a)
  | withConstant {b : Branch} {n : Nat} : b.domain.length < b.maxWorlds →
      n ≤ b.fresh + (b.domain.length + 1) → Change b (b.withConstant n)

theorem nextOf_newWorld (b : Branch) : b.newWorld.2.nextOf = b.nextOf := by
  unfold newWorld
  split_ifs <;> rfl

/-- The second branch comes from the first by some changes. -/
def Grows : Branch → Branch → Prop :=
  Relation.ReflTransGen Change

namespace Grows

variable {b b' b'' : Branch}

theorem refl (b : Branch) : Grows b b := Relation.ReflTransGen.refl

theorem trans (h : Grows b b') (h' : Grows b' b'') : Grows b b'' :=
  Relation.ReflTransGen.trans h h'

theorem of_change (h : Change b b') : Grows b b' := Relation.ReflTransGen.single h

theorem addAll (b : Branch) (fs : List Labelled) : Grows b (b.addAll fs) := by
  induction fs generalizing b with
  | nil => exact refl b
  | cons p ps ih => exact (of_change (.add b p.1 p.2)).trans (ih _)

theorem connect (b : Branch) (r : Relation) (v w : World) : Grows b (b.connect r v w) :=
  (of_change (.linked b r v w)).trans (addAll _ _)

theorem box (b : Branch) (r : Relation) (w : World) (a : Formula) : Grows b (b.box r w a) :=
  (of_change (.withBox b r w a)).trans (addAll _ _)

theorem newWorld (b : Branch) : Grows b b.newWorld.2 := by
  unfold Branch.newWorld
  split_ifs with h
  · exact of_change (.vague b)
  · exact of_change (.withWorld (Nat.lt_of_not_le h))

theorem diamond (b : Branch) (r : Relation) (w : World) (a : Formula) :
    Grows b (b.diamond r w a) := by
  unfold Branch.diamond
  split_ifs
  · exact refl b
  · have hnew := newWorld b
    generalize b.newWorld = made at hnew ⊢
    obtain ⟨_ | v, b'⟩ := made
    · exact hnew
    · exact (hnew.trans (of_change (.add b' v a))).trans (connect _ r w v)

theorem next (b : Branch) (w : World) (a : Formula) : Grows b (b.next w a) := by
  unfold Branch.next
  split
  · exact of_change (.add b _ a)
  · rename_i hnone
    have hnew := newWorld b
    rw [← nextOf_newWorld b] at hnone
    generalize b.newWorld = made at hnew hnone ⊢
    obtain ⟨_ | v, b'⟩ := made
    · exact hnew
    · have hnext : Grows b (b'.withNext w v) := hnew.trans (of_change (.withNext v hnone))
      exact (hnext.trans (connect _ .temporal w v)).trans (of_change (.add _ v a))

theorem freshConstant (b : Branch) : Grows b b.freshConstant.2 := by
  unfold Branch.freshConstant
  split_ifs with h
  · exact of_change (.vague b)
  · split
    · rename_i n hn
      have hmem := List.mem_of_find?_eq_some hn
      rw [List.mem_range'_1] at hmem
      exact of_change (.withConstant (Nat.lt_of_not_le h) (by omega))
    · exact of_change (.vague b)

theorem universal (b : Branch) (w : World) (x : String) (a : Formula) :
    Grows b (b.universal w x a) := by
  have hnoted : Grows b (b.withUniversal w x a) := of_change (.withUniversal b w x a)
  unfold Branch.universal
  dsimp only
  split_ifs
  · have hfresh := freshConstant (b.withUniversal w x a)
    unfold withUniversal at hfresh hnoted
    generalize Branch.freshConstant _ = made at hfresh ⊢
    obtain ⟨_ | c, b'⟩ := made
    · exact hnoted.trans hfresh
    · exact (hnoted.trans hfresh).trans (addAll _ _)
  · exact hnoted.trans (addAll _ _)

theorem existential (b : Branch) (w : World) (x : String) (a : Formula) :
    Grows b (b.existential w x a) := by
  have hfresh := freshConstant b
  unfold Branch.existential
  generalize b.freshConstant = made at hfresh ⊢
  obtain ⟨_ | c, b'⟩ := made
  · exact hfresh
  · exact (hfresh.trans (of_change (.add _ w _))).trans (addAll _ _)

end Grows

/-! ### Extensions -/

/-- The second branch has all that the first one has, and what is new to it is pending. -/
structure Extends (b b' : Branch) : Prop where
  logic : b'.logic = b.logic
  worlds : b.worlds ≤ b'.worlds
  seen : b.seen ⊆ b'.seen
  pending : b.pending ⊆ b'.pending
  new : ∀ p ∈ b'.seen, p ∈ b.seen ∨ p ∈ b'.pending
  edges : b.edges ⊆ b'.edges
  boxes : b.boxes ⊆ b'.boxes
  universals : b.universals ⊆ b'.universals
  domain : b.domain ⊆ b'.domain
  nextOf : ∀ w v, b.nextOf.lookup w = some v → b'.nextOf.lookup w = some v
  closed : b'.closed = false → b.closed = false
  approximate : b'.approximate = false → b.approximate = false

namespace Extends

theorem refl (b : Branch) : Extends b b where
  logic := rfl
  worlds := Nat.le_refl _
  seen := List.Subset.refl _
  pending := List.Subset.refl _
  new _ hp := Or.inl hp
  edges := List.Subset.refl _
  boxes := List.Subset.refl _
  universals := List.Subset.refl _
  domain := List.Subset.refl _
  nextOf _ _ h := h
  closed h := h
  approximate h := h

theorem trans {b b' b'' : Branch} (h : Extends b b') (h' : Extends b' b'') : Extends b b'' where
  logic := h'.logic.trans h.logic
  worlds := Nat.le_trans h.worlds h'.worlds
  seen := List.Subset.trans h.seen h'.seen
  pending := List.Subset.trans h.pending h'.pending
  new p hp := by
    rcases h'.new p hp with hp | hp
    · exact (h.new p hp).imp id fun hp => h'.pending hp
    · exact Or.inr hp
  edges := List.Subset.trans h.edges h'.edges
  boxes := List.Subset.trans h.boxes h'.boxes
  universals := List.Subset.trans h.universals h'.universals
  domain := List.Subset.trans h.domain h'.domain
  nextOf w v hv := h'.nextOf w v (h.nextOf w v hv)
  closed hc := h.closed (h'.closed hc)
  approximate ha := h.approximate (h'.approximate ha)

theorem add (b : Branch) (w : World) (f : Formula) : Extends b (b.add w f) := by
  rcases add_cases b w f with ⟨h, _⟩ | ⟨h, _⟩ | ⟨h, _⟩ <;> rw [h]
  · exact refl b
  · exact { refl b with closed := fun hc => absurd hc Bool.noConfusion }
  · exact { refl b with
      seen := List.subset_cons_self _ _
      pending := List.subset_append_left _ _
      new := fun p hp => by
        rcases List.mem_cons.mp hp with rfl | hp
        · exact Or.inr (List.mem_append_right _ (List.mem_singleton.mpr rfl))
        · exact Or.inl hp }

theorem vague (b : Branch) : Extends b b.vague :=
  { refl b with approximate := fun h => absurd h Bool.noConfusion }

theorem withWorld (b : Branch) : Extends b b.withWorld :=
  { refl b with
    worlds := Nat.le_succ _
    edges := fun _ he => Edge.mem_reflect.mpr (Or.inl he) }

theorem linked (b : Branch) (r : Relation) (v w : World) : Extends b (b.linked r v w) :=
  { refl b with edges := Edge.subset_link r v w }

theorem withNext {b : Branch} {w : World} (v : World) (h : b.nextOf.lookup w = none) :
    Extends b (b.withNext w v) :=
  { refl b with
    nextOf := fun u t ht => by
      have hu : u ≠ w := by
        rintro rfl
        rw [h] at ht
        cases ht
      show List.lookup u ((w, v) :: b.nextOf) = some t
      rw [List.lookup_cons, beq_eq_false_iff_ne.mpr hu]
      exact ht }

theorem withBox (b : Branch) (r : Relation) (w : World) (a : Formula) :
    Extends b (b.withBox r w a) :=
  { refl b with boxes := List.subset_append_left _ _ }

theorem withUniversal (b : Branch) (w : World) (x : String) (a : Formula) :
    Extends b (b.withUniversal w x a) :=
  { refl b with universals := List.subset_append_left _ _ }

theorem withConstant (b : Branch) (n : Nat) : Extends b (b.withConstant n) :=
  { refl b with domain := List.subset_append_left _ _ }

theorem of_change {b b' : Branch} (h : Change b b') : Extends b b' := by
  cases h with
  | add w f => exact add b w f
  | vague => exact vague b
  | withWorld _ => exact withWorld b
  | linked r v w => exact linked b r v w
  | withNext v hnone => exact withNext v hnone
  | withBox r w a => exact withBox b r w a
  | withUniversal w x a => exact withUniversal b w x a
  | @withConstant n _ _ => exact withConstant b n

end Extends

/-- **A branch that grows is extended.** -/
theorem Grows.extends {b b' : Branch} (h : Grows b b') : Extends b b' := by
  induction h with
  | refl => exact Extends.refl _
  | tail _ hchange ih => exact ih.trans (Extends.of_change hchange)

namespace Extends

theorem addAll (b : Branch) (fs : List Labelled) : Extends b (b.addAll fs) :=
  (Grows.addAll b fs).extends

theorem connect (b : Branch) (r : Relation) (v w : World) : Extends b (b.connect r v w) :=
  (Grows.connect b r v w).extends

theorem box (b : Branch) (r : Relation) (w : World) (a : Formula) : Extends b (b.box r w a) :=
  (Grows.box b r w a).extends

end Extends

/-! ### Well-formed branches -/

theorem mem_of_lookup {w v : World} {nexts : List (World × World)} (h : nexts.lookup w = some v) :
    (w, v) ∈ nexts := by
  obtain ⟨before, after, rfl, _⟩ := List.lookup_eq_some_iff.mp h
  simp

/-- What is added is among the formulas added. -/
theorem mem_of_mem_addAll {b : Branch} {fs : List Labelled} {p : Labelled}
    (hp : p ∈ (b.addAll fs).seen) : p ∈ b.seen ∨ p ∈ fs := by
  induction fs generalizing b with
  | nil => exact Or.inl hp
  | cons q qs ih =>
    rw [addAll_cons] at hp
    rcases ih hp with hp | hp
    · rcases add_cases b q.1 q.2 with ⟨h, _⟩ | ⟨h, _⟩ | ⟨h, _⟩ <;> rw [h] at hp
      · exact Or.inl hp
      · exact Or.inl hp
      · rcases List.mem_cons.mp hp with rfl | hp
        · exact Or.inr List.mem_cons_self
        · exact Or.inl hp
    · exact Or.inr (List.mem_cons_of_mem _ hp)

theorem pending_addAll_subset {b : Branch} (hb : b.pending ⊆ b.seen) (fs : List Labelled) :
    (b.addAll fs).pending ⊆ (b.addAll fs).seen := by
  induction fs generalizing b with
  | nil => exact hb
  | cons q qs ih =>
    rw [addAll_cons]
    apply ih
    rcases add_cases b q.1 q.2 with ⟨h, _⟩ | ⟨h, _⟩ | ⟨h, _⟩ <;> rw [h]
    · exact hb
    · exact hb
    · intro p hp
      rcases List.mem_append.mp hp with hp | hp
      · exact List.mem_cons_of_mem _ (hb hp)
      · rw [List.mem_singleton.mp hp]
        exact List.mem_cons_self

/-- A property that what a formula demands, and every instance by a constant, inherit from it. -/
structure Hereditary (Q : Formula → Prop) : Prop where
  parts : ∀ {f g}, Q f → g ∈ f.demand.parts → Q g
  substitute : ∀ {f} (x c : String), Q f → Q (f.substitute x (.const c))

theorem hereditary_true : Hereditary fun _ => True :=
  ⟨fun _ _ => trivial, fun _ _ _ => trivial⟩

/-- The labelled formula may stand on the branch: its world is one of the branch, its constants are
in the domain, and it has the property. -/
def Admits (Q : Formula → Prop) (b : Branch) (p : Labelled) : Prop :=
  p.1 < b.worlds ∧ p.2.constantOccurrences ⊆ b.domain ∧ Q p.2

/-- The invariant of branches. -/
structure WellFormed (Q : Formula → Prop) (b : Branch) : Prop where
  seen : ∀ p ∈ b.seen, b.Admits Q p
  pending : b.pending ⊆ b.seen
  /-- A box comes from a formula that demands it. -/
  boxes : ∀ r w a, (r, w, a) ∈ b.boxes → ∃ f, (w, f) ∈ b.seen ∧ f.demand = .box r a
  /-- A universal formula comes from a formula that demands it. -/
  universals : ∀ w x a, (w, x, a) ∈ b.universals → ∃ f, (w, f) ∈ b.seen ∧ f.demand = .every x a
  range : ∀ e ∈ b.edges, e.source < b.worlds ∧ e.target < b.worlds
  reflexive : b.logic.isReflexive = true → ∀ r, ∀ w < b.worlds, ⟨r, w, w⟩ ∈ b.edges
  closed : Edge.Closed b.logic b.edges
  nextOf : ∀ w v, (w, v) ∈ b.nextOf → ⟨.temporal, w, v⟩ ∈ b.edges

theorem Admits.mono {Q : Formula → Prop} {b b' : Branch} {p : Labelled} (h : b.Admits Q p)
    (hb : Extends b b') : b'.Admits Q p :=
  ⟨Nat.lt_of_lt_of_le h.1 hb.worlds, List.Subset.trans h.2.1 hb.domain, h.2.2⟩

namespace WellFormed

variable {Q : Formula → Prop} {b : Branch} {w : World} {f : Formula}

theorem constants_part (h : WellFormed Q b) (hf : (w, f) ∈ b.seen) {g : Formula}
    (hg : g ∈ f.demand.parts) : g.constantOccurrences ⊆ b.domain :=
  List.Subset.trans (Formula.constantOccurrences_demand hg) (h.seen _ hf).2.1

/-- What a formula of the branch demands may stand on the branch, at any of its worlds. -/
theorem admits_part (h : WellFormed Q b) (hQ : Hereditary Q) (hf : (w, f) ∈ b.seen) {v : World}
    (hv : v < b.worlds) {g : Formula} (hg : g ∈ f.demand.parts) : b.Admits Q (v, g) :=
  ⟨hv, h.constants_part hf hg, hQ.parts (h.seen _ hf).2.2 hg⟩

theorem admits_instance (h : WellFormed Q b) (hQ : Hereditary Q) (hf : (w, f) ∈ b.seen)
    {a : Formula} (ha : a ∈ f.demand.parts) (x : String) {c : String} (hc : c ∈ b.domain) :
    b.Admits Q (w, a.substitute x (.const c)) := by
  obtain ⟨hw, hconst, hprop⟩ := h.admits_part hQ hf (h.seen _ hf).1 ha
  refine ⟨hw, fun d hd => ?_, hQ.substitute x c hprop⟩
  -- a constant of the instance is the new one or one of the formula
  rcases List.mem_cons.mp (Formula.constantOccurrences_substitute a x c hd) with rfl | hd
  · exact hc
  · exact hconst hd

theorem start (Q : Formula → Prop) (logic : Logic) (maxWorlds : Nat) (domain : List String) :
    WellFormed Q (Branch.start logic maxWorlds domain) where
  seen _ hp := absurd hp List.not_mem_nil
  pending := List.Subset.refl _
  boxes _ _ _ h := absurd h List.not_mem_nil
  universals _ _ _ h := absurd h List.not_mem_nil
  range e he := by
    rcases Edge.mem_reflect.mp he with he | ⟨_, hs, ht⟩
    · exact absurd he List.not_mem_nil
    · rw [hs, ht]
      exact ⟨Nat.one_pos, Nat.one_pos⟩
  reflexive hr r v hv := by
    obtain rfl : v = 0 := Nat.lt_one_iff.mp hv
    exact Edge.mem_reflect.mpr (Or.inr ⟨hr, rfl, rfl⟩)
  closed := by
    apply Edge.closed_reflect
    exact ⟨fun _ {_ _ _ _} h => absurd h List.not_mem_nil,
      fun _ {_ _ _} h => absurd h List.not_mem_nil⟩
  nextOf _ _ h := absurd h List.not_mem_nil

theorem addAll (h : WellFormed Q b) {fs : List Labelled} (hfs : ∀ p ∈ fs, b.Admits Q p) :
    WellFormed Q (b.addAll fs) := by
  have hext := Extends.addAll b fs
  constructor
  · intro p hp
    rcases mem_of_mem_addAll hp with hp | hp
    · exact (h.seen p hp).mono hext
    · exact (hfs p hp).mono hext
  · exact pending_addAll_subset h.pending fs
  · intro r w a ha
    rw [addAll_boxes] at ha
    obtain ⟨f, hf, hd⟩ := h.boxes r w a ha
    exact ⟨f, hext.seen hf, hd⟩
  · intro w x a ha
    rw [addAll_universals] at ha
    obtain ⟨f, hf, hd⟩ := h.universals w x a ha
    exact ⟨f, hext.seen hf, hd⟩
  · rw [addAll_edges, addAll_worlds]
    exact h.range
  · rw [addAll_logic, addAll_edges, addAll_worlds]
    exact h.reflexive
  · rw [addAll_logic, addAll_edges]
    exact h.closed
  · rw [addAll_nextOf, addAll_edges]
    exact h.nextOf

theorem add (h : WellFormed Q b) (hf : b.Admits Q (w, f)) : WellFormed Q (b.add w f) := by
  rw [add_eq_addAll]
  apply h.addAll
  intro p hp
  rw [List.mem_singleton.mp hp]
  exact hf

theorem vague (h : WellFormed Q b) : WellFormed Q b.vague :=
  ⟨h.seen, h.pending, h.boxes, h.universals, h.range, h.reflexive, h.closed, h.nextOf⟩

theorem withWorld (h : WellFormed Q b) : WellFormed Q b.withWorld where
  seen p hp := (h.seen p hp).mono (Extends.withWorld b)
  pending := h.pending
  boxes := h.boxes
  universals := h.universals
  range e he := by
    rcases Edge.mem_reflect.mp he with he | ⟨_, hs, ht⟩
    · exact ⟨Nat.lt_succ_of_lt (h.range e he).1, Nat.lt_succ_of_lt (h.range e he).2⟩
    · rw [hs, ht]
      exact ⟨Nat.lt_succ_self _, Nat.lt_succ_self _⟩
  reflexive hr r v hv := by
    apply Edge.mem_reflect.mpr
    rcases Nat.lt_succ_iff_lt_or_eq.mp hv with hv | rfl
    · exact Or.inl (h.reflexive hr r v hv)
    · exact Or.inr ⟨hr, rfl, rfl⟩
  closed := Edge.closed_reflect _ h.closed
  nextOf u v huv := Edge.mem_reflect.mpr (Or.inl (h.nextOf u v huv))

theorem linked (h : WellFormed Q b) (r : Relation) {v w : World} (hv : v < b.worlds)
    (hw : w < b.worlds) : WellFormed Q (b.linked r v w) where
  seen := h.seen
  pending := h.pending
  boxes := h.boxes
  universals := h.universals
  range := Edge.link_le (R := fun _ s t => s < b.worlds ∧ t < b.worlds)
    (fun _ _ _ _ _ huv hvw => ⟨huv.1, hvw.2⟩) (fun _ _ _ _ hvw => ⟨hvw.2, hvw.1⟩) h.range ⟨hv, hw⟩
  reflexive hr r' u hu := Edge.subset_link r v w (h.reflexive hr r' u hu)
  closed := Edge.closed_link r v w h.closed
  nextOf u t hut := Edge.subset_link r v w (h.nextOf u t hut)

theorem withNext (h : WellFormed Q b) {v : World} (hv : ⟨.temporal, w, v⟩ ∈ b.edges) :
    WellFormed Q (b.withNext w v) :=
  { h with
    nextOf := fun u t hut => by
      rcases List.mem_cons.mp hut with hut | hut
      · obtain ⟨rfl, rfl⟩ := Prod.mk.inj hut
        exact hv
      · exact h.nextOf u t hut }

theorem withBox (h : WellFormed Q b) {r : Relation} {a : Formula} (hf : (w, f) ∈ b.seen)
    (hd : f.demand = .box r a) : WellFormed Q (b.withBox r w a) :=
  { h with
    boxes := fun r' w' a' ha => by
      rcases mem_boxes_withBox.mp ha with ha | heq
      · exact h.boxes r' w' a' ha
      · cases heq
        exact ⟨f, hf, hd⟩ }

theorem withUniversal (h : WellFormed Q b) {x : String} {a : Formula} (hf : (w, f) ∈ b.seen)
    (hd : f.demand = .every x a) : WellFormed Q (b.withUniversal w x a) :=
  { h with
    universals := fun w' x' a' ha => by
      rcases mem_universals_withUniversal.mp ha with ha | heq
      · exact h.universals w' x' a' ha
      · cases heq
        exact ⟨f, hf, hd⟩ }

theorem withConstant (h : WellFormed Q b) (n : Nat) : WellFormed Q (b.withConstant n) :=
  { h with seen := fun p hp => (h.seen p hp).mono (Extends.withConstant b n) }

/-! The operations. -/

theorem propagate (h : WellFormed Q b) (hQ : Hereditary Q) : WellFormed Q b.propagate := by
  rw [propagate_eq]
  apply h.addAll
  intro p hp
  obtain ⟨r, w, a, v, ha, he, rfl⟩ := mem_due.mp hp
  obtain ⟨f, hf, hd⟩ := h.boxes r w a ha
  exact h.admits_part hQ hf (h.range _ he).2 (Formula.mem_parts_of_demand hd rfl)

theorem connect (h : WellFormed Q b) (hQ : Hereditary Q) (r : Relation) {v w : World}
    (hv : v < b.worlds) (hw : w < b.worlds) : WellFormed Q (b.connect r v w) :=
  (h.linked r hv hw).propagate hQ

theorem box (h : WellFormed Q b) (hQ : Hereditary Q) {r : Relation} {a : Formula}
    (hf : (w, f) ∈ b.seen) (hd : f.demand = .box r a) : WellFormed Q (b.box r w a) := by
  apply (h.withBox hf hd).addAll
  intro p hp
  obtain ⟨v, hv, rfl⟩ := List.mem_map.mp hp
  rw [successors, Edge.mem_successors] at hv
  exact h.admits_part hQ hf (h.range _ hv).2 (Formula.mem_parts_of_demand hd rfl)

theorem diamond (h : WellFormed Q b) (hQ : Hereditary Q) {r : Relation} {a : Formula}
    (hf : (w, f) ∈ b.seen) (hd : f.demand = .diamond r a) : WellFormed Q (b.diamond r w a) := by
  have hw : w < b.worlds := (h.seen _ hf).1
  rcases diamond_cases b r w a with ⟨hb, _⟩ | hb | hb <;> rw [hb]
  · exact h
  · exact h.vague
  · -- the formula is put at the new world before that world is linked
    have hadd : WellFormed Q (b.withWorld.add b.worlds a) := by
      apply h.withWorld.add
      exact h.withWorld.admits_part hQ hf (Nat.lt_succ_self _)
        (Formula.mem_parts_of_demand hd rfl)
    apply hadd.connect hQ <;> rw [add_eq_addAll, addAll_worlds]
    · exact Nat.lt_succ_of_lt hw
    · exact Nat.lt_succ_self _

theorem next (h : WellFormed Q b) (hQ : Hereditary Q) {a : Formula} (hf : (w, f) ∈ b.seen)
    (hd : f.demand = .next a) : WellFormed Q (b.next w a) := by
  have hw : w < b.worlds := (h.seen _ hf).1
  have ha : a ∈ f.demand.parts := Formula.mem_parts_of_demand hd rfl
  rcases next_cases b w a with ⟨v, hv, hb⟩ | hb | ⟨_, hb⟩ <;> rw [hb]
  · have he := h.nextOf w v (mem_of_lookup hv)
    exact h.add (h.admits_part hQ hf (h.range _ he).2 ha)
  · exact h.vague
  · have hlink : WellFormed Q (b.withWorld.linked .temporal w b.worlds) :=
      h.withWorld.linked .temporal (Nat.lt_succ_of_lt hw) (Nat.lt_succ_self _)
    -- noting the next world and linking to it can be done in either order
    have hnext : WellFormed Q ((b.withWorld.withNext w b.worlds).connect .temporal w b.worlds) :=
      (hlink.withNext (Edge.mem_link_self _ _ _)).propagate hQ
    have hf' := (Extends.connect (b.withWorld.withNext w b.worlds) .temporal w b.worlds).seen hf
    apply hnext.add
    apply hnext.admits_part hQ hf' _ ha
    rw [connect_eq, propagate_eq, addAll_worlds]
    exact Nat.lt_succ_self _

theorem instantiate (h : WellFormed Q b) (hQ : Hereditary Q) {c : String} (hc : c ∈ b.domain) :
    WellFormed Q (b.instantiate c) := by
  apply h.addAll
  intro p hp
  obtain ⟨⟨w, x, a⟩, ha, rfl⟩ := List.mem_map.mp hp
  obtain ⟨f, hf, hd⟩ := h.universals w x a ha
  exact h.admits_instance hQ hf (Formula.mem_parts_of_demand hd rfl) x hc

theorem universal (h : WellFormed Q b) (hQ : Hereditary Q) {x : String} {a : Formula}
    (hf : (w, f) ∈ b.seen) (hd : f.demand = .every x a) : WellFormed Q (b.universal w x a) := by
  have hu := h.withUniversal hf hd
  rcases universal_cases b w x a with ⟨_, hb⟩ | ⟨n, _, hb⟩ | ⟨_, hb⟩ <;> rw [hb]
  · exact hu.vague
  · exact (hu.withConstant n).instantiate hQ
      (List.mem_append_right _ (List.mem_singleton.mpr rfl))
  · apply hu.addAll
    intro p hp
    obtain ⟨c, hc, rfl⟩ := List.mem_map.mp hp
    exact hu.admits_instance hQ hf (Formula.mem_parts_of_demand hd rfl) x hc

theorem existential (h : WellFormed Q b) (hQ : Hereditary Q) {x : String} {a : Formula}
    (hf : (w, f) ∈ b.seen) (hd : f.demand = .some x a) :
    WellFormed Q (b.existential w x a) := by
  rcases existential_cases b w x a with hb | ⟨n, _, hb⟩ <;> rw [hb]
  · exact h.vague
  · have hc : freshName n ∈ (b.withConstant n).domain :=
      List.mem_append_right _ (List.mem_singleton.mpr rfl)
    have hadd := (h.withConstant n).add ((h.withConstant n).admits_instance hQ hf
      (Formula.mem_parts_of_demand hd rfl) x hc)
    apply hadd.instantiate hQ
    rw [add_eq_addAll, addAll_domain]
    exact hc

end WellFormed

end Branch

end Deontica
