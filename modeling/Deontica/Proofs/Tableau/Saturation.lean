import Deontica.Proofs.Tableau.Run

/-!
# Open tableaux

As long as a branch is not closed, every box holds at all the successors of its world and every
universal formula for all constants, whenever they were added (`Coherent`).  A branch that is
neither closed nor approximate is live: on it the demand of every formula that is not pending any
more is fulfilled.  A run that ends with an open branch ends with a live one on which nothing is
pending: it is saturated (`exists_saturated_of_refute`).
-/

namespace Deontica

namespace Branch

/-- The branch is neither closed nor approximate. -/
structure Live (b : Branch) : Prop where
  closed : b.closed = false
  approximate : b.approximate = false

theorem Extends.live {b b' : Branch} (h : Extends b b') (hb' : Live b') : Live b :=
  ⟨h.closed hb'.closed, h.approximate hb'.approximate⟩

theorem not_live_vague (b : Branch) : ¬Live b.vague := fun h => by
  cases h.approximate

/-- The demand at a world is fulfilled by what is on the branch. -/
def Fulfils (b : Branch) (w : World) : Demand → Prop
  | .nothing => True
  | .all fs => ∀ f ∈ fs, (w, f) ∈ b.seen
  | .choice alternatives => ∃ fs ∈ alternatives, ∀ f ∈ fs, (w, f) ∈ b.seen
  | .every x a => b.domain ≠ [] ∧ (w, x, a) ∈ b.universals
  | .some x a => ∃ c ∈ b.domain, (w, a.substitute x (.const c)) ∈ b.seen
  | .box r a => (r, w, a) ∈ b.boxes
  | .diamond r a => ∃ v, ⟨r, w, v⟩ ∈ b.edges ∧ (v, a) ∈ b.seen
  | .next a => ∃ v, b.nextOf.lookup w = some v ∧ (v, a) ∈ b.seen

/-- Fulfilled demands stay so. -/
theorem Fulfils.mono {b b' : Branch} {w : World} {d : Demand} (h : b.Fulfils w d)
    (hb : Extends b b') : b'.Fulfils w d := by
  cases d with
  | nothing => trivial
  | all fs => exact fun f hf => hb.seen (h f hf)
  | choice alternatives =>
    obtain ⟨fs, hfs, hall⟩ := h
    exact ⟨fs, hfs, fun f hf => hb.seen (hall f hf)⟩
  | every x a =>
    refine ⟨fun hnil => h.1 (List.subset_nil.mp ?_), hb.universals h.2⟩
    exact hnil ▸ hb.domain
  | some x a =>
    obtain ⟨c, hc, ha⟩ := h
    exact ⟨c, hb.domain hc, hb.seen ha⟩
  | box r a => exact hb.boxes h
  | diamond r a =>
    obtain ⟨v, hv, ha⟩ := h
    exact ⟨v, hb.edges hv, hb.seen ha⟩
  | next a =>
    obtain ⟨v, hv, ha⟩ := h
    exact ⟨v, hb.nextOf w v hv, hb.seen ha⟩

/-- Boxes have been applied to all edges and universal formulas to the constants `cs`, and no
predicate stands beside its negation. -/
structure Coherent (cs : List String) (b : Branch) : Prop where
  boxes : ∀ r w a v, (r, w, a) ∈ b.boxes → ⟨r, w, v⟩ ∈ b.edges → (v, a) ∈ b.seen
  universals : ∀ w x a, (w, x, a) ∈ b.universals → ∀ c ∈ cs,
    (w, a.substitute x (.const c)) ∈ b.seen
  literals : ∀ w p args, (w, .pred p args) ∈ b.seen → (w, .not (.pred p args)) ∉ b.seen

/-- What is added to a branch that stays open is on it. -/
theorem mem_seen_addAll {b : Branch} {fs : List Labelled} (h : (b.addAll fs).closed = false) :
    ∀ p ∈ fs, p ∈ (b.addAll fs).seen := by
  induction fs generalizing b with
  | nil => exact fun _ hp => absurd hp List.not_mem_nil
  | cons q qs ih =>
    rw [addAll_cons] at h ⊢
    have hext := Extends.addAll (b.add q.1 q.2) qs
    rw [List.forall_mem_cons]
    refine ⟨hext.seen ?_, ih h⟩
    have hopen := hext.closed h
    rcases add_cases b q.1 q.2 with ⟨hb, hc | hq⟩ | ⟨hb, _⟩ | ⟨hb, _⟩ <;> rw [hb] at hopen ⊢
    · rw [hc] at hopen
      cases hopen
    · exact hq
    · cases hopen
    · exact List.mem_cons_self

theorem mem_seen_add {b : Branch} {w : World} {f : Formula} (h : (b.add w f).closed = false) :
    (w, f) ∈ (b.add w f).seen := by
  rw [add_eq_addAll] at h ⊢
  exact mem_seen_addAll h _ (List.mem_singleton.mpr rfl)

/-- No predicate is added where its negation is, nor the other way round. -/
theorem literals_addAll {b : Branch} (fs : List Labelled)
    (h : ∀ w p args, (w, .pred p args) ∈ b.seen → (w, .not (.pred p args)) ∉ b.seen) :
    ∀ w p args, (w, .pred p args) ∈ (b.addAll fs).seen →
      (w, .not (.pred p args)) ∉ (b.addAll fs).seen := by
  induction fs generalizing b with
  | nil => exact h
  | cons q qs ih =>
    obtain ⟨v, f⟩ := q
    rw [addAll_cons]
    apply ih
    rcases add_cases b v f with ⟨hb, _⟩ | ⟨hb, _⟩ | ⟨hb, _, hneg⟩ <;> rw [hb]
    · exact h
    · exact h
    · intro w p args hpos hnot
      -- one of the two is new, and its opposite was not there when it was added
      rcases List.mem_cons.mp hpos with heq | hpos'
      · obtain ⟨rfl, rfl⟩ := Prod.mk.inj heq
        rcases List.mem_cons.mp hnot with heq | hnot'
        · cases heq
        · exact hneg hnot'
      · rcases List.mem_cons.mp hnot with heq | hnot'
        · obtain ⟨rfl, rfl⟩ := Prod.mk.inj heq
          exact hneg hpos'
        · exact h w p args hpos' hnot'

/-! Modal operators add no constants. -/

theorem connect_domain (b : Branch) (r : Relation) (v w : World) :
    (b.connect r v w).domain = b.domain := by
  rw [connect_eq, propagate_eq, addAll_domain]
  rfl

theorem diamond_domain (b : Branch) (r : Relation) (w : World) (a : Formula) :
    (b.diamond r w a).domain = b.domain := by
  rcases diamond_cases b r w a with ⟨hb, _⟩ | hb | hb <;> rw [hb]
  · rfl
  · rw [connect_domain, add_eq_addAll, addAll_domain]
    rfl

theorem next_domain (b : Branch) (w : World) (a : Formula) : (b.next w a).domain = b.domain := by
  rcases next_cases b w a with ⟨v, _, hb⟩ | hb | ⟨_, hb⟩ <;> rw [hb]
  · rw [add_eq_addAll, addAll_domain]
  · rfl
  · rw [add_eq_addAll, addAll_domain, connect_domain]
    rfl

theorem grow_domain (made : Bool) (b : Branch) (r : Relation) (w : World) :
    (b.grow made r w).2.domain = b.domain := by
  rcases grow_cases made b r w with hb | hb <;> rw [hb]
  · rfl
  · exact connect_domain _ r w b.worlds

namespace Coherent

variable {Q : Formula → Prop} {b : Branch} {cs cs' : List String} {r : Relation} {v w : World}
  {x c : String} {a : Formula}

theorem start (logic : Logic) (maxWorlds : Nat) (domain : List String) :
    Coherent cs (Branch.start logic maxWorlds domain) where
  boxes _ _ _ _ h := absurd h List.not_mem_nil
  universals _ _ _ h := absurd h List.not_mem_nil
  literals _ _ _ h := absurd h List.not_mem_nil

theorem subset (h : Coherent cs b) (hcs : cs' ⊆ cs) : Coherent cs' b :=
  { h with universals := fun w x a ha c hc => h.universals w x a ha c (hcs hc) }

theorem addAll (h : Coherent cs b) (fs : List Labelled) : Coherent cs (b.addAll fs) where
  boxes r w a v ha hv := by
    rw [addAll_boxes] at ha
    rw [addAll_edges] at hv
    exact (Extends.addAll b fs).seen (h.boxes r w a v ha hv)
  universals w x a ha c hc := by
    rw [addAll_universals] at ha
    exact (Extends.addAll b fs).seen (h.universals w x a ha c hc)
  literals := literals_addAll fs h.literals

theorem add (h : Coherent cs b) (w : World) (f : Formula) : Coherent cs (b.add w f) :=
  h.addAll [(w, f)]

theorem taking (h : Coherent cs b) (rest : List Labelled) : Coherent cs (b.taking rest) :=
  ⟨h.boxes, h.universals, h.literals⟩

/-- No box is kept at a world that is new. -/
theorem withWorld (h : Coherent cs b) (hwf : WellFormed Q b) : Coherent cs b.withWorld :=
  { h with
    boxes := fun r w a v ha hv => by
      rcases Edge.mem_reflect.mp hv with hv | ⟨_, hw, _⟩
      · exact h.boxes r w a v ha hv
      · obtain ⟨f, hf, _⟩ := hwf.boxes r w a ha
        exact absurd hw (Nat.ne_of_lt (hwf.seen _ hf).1) }

theorem vague (h : Coherent cs b) : Coherent cs b.vague :=
  ⟨h.boxes, h.universals, h.literals⟩

theorem noting (h : Coherent b.domain b) (f : Formula) :
    Coherent (b.noting f).domain (b.noting f) := by
  rcases noting_cases b f with ⟨hb, _⟩ | hb <;> rw [hb]
  · exact h
  · exact h.vague

theorem withNext (h : Coherent cs b) (w v : World) : Coherent cs (b.withNext w v) :=
  ⟨h.boxes, h.universals, h.literals⟩

theorem withConstant (h : Coherent cs b) (n : Nat) : Coherent cs (b.withConstant n) :=
  ⟨h.boxes, h.universals, h.literals⟩

/-- Whatever edges there were before, all boxes are looked at again. -/
theorem connect (h : Coherent cs b) (hopen : (b.connect r v w).closed = false) :
    Coherent cs (b.connect r v w) := by
  have hext := Extends.connect b r v w
  rw [connect_eq, propagate_eq] at hopen hext ⊢
  constructor
  · intro r' u a t ha ht
    rw [addAll_boxes] at ha
    rw [addAll_edges] at ht
    exact mem_seen_addAll hopen _ (mem_due.mpr ⟨r', u, a, t, ha, ht, rfl⟩)
  · intro u x a ha c hc
    rw [addAll_universals] at ha
    exact hext.seen (h.universals u x a ha c hc)
  · exact literals_addAll _ h.literals

theorem box (h : Coherent cs b) (hopen : (b.box r w a).closed = false) :
    Coherent cs (b.box r w a) := by
  have hext := Extends.box b r w a
  unfold Branch.box at hopen hext ⊢
  constructor
  · intro r' u a' t ha ht
    rw [addAll_boxes] at ha
    rw [addAll_edges] at ht
    rcases mem_boxes_withBox.mp ha with ha | heq
    · exact hext.seen (h.boxes r' u a' t ha ht)
    · cases heq
      apply mem_seen_addAll hopen
      exact List.mem_map.mpr ⟨t, Edge.mem_successors.mpr ht, rfl⟩
  · intro u x a' ha c hc
    rw [addAll_universals] at ha
    exact hext.seen (h.universals u x a' ha c hc)
  · exact literals_addAll _ h.literals

theorem diamond (h : Coherent cs b) (hwf : WellFormed Q b)
    (hopen : (b.diamond r w a).closed = false) : Coherent cs (b.diamond r w a) := by
  rcases diamond_cases b r w a with ⟨hb, _⟩ | hb | hb <;> rw [hb] at hopen ⊢
  · exact h
  · exact h.vague
  · exact ((h.withWorld hwf).add _ _).connect hopen

theorem next (h : Coherent cs b) (hwf : WellFormed Q b) (hopen : (b.next w a).closed = false) :
    Coherent cs (b.next w a) := by
  rcases next_cases b w a with ⟨v, _, hb⟩ | hb | ⟨_, hb⟩ <;> rw [hb] at hopen ⊢
  · exact h.add v a
  · exact h.vague
  · have hconnect := (Extends.add _ _ _).closed hopen
    exact (((h.withWorld hwf).withNext _ _).connect hconnect).add _ _

theorem grow (h : Coherent cs b) (hwf : WellFormed Q b) {made : Bool}
    (hopen : (b.grow made r w).2.closed = false) : Coherent cs (b.grow made r w).2 := by
  rcases grow_cases made b r w with hb | hb <;> rw [hb] at hopen ⊢
  · exact h.vague
  · exact (h.withWorld hwf).connect hopen

theorem instantiate (h : Coherent cs b) (hopen : (b.instantiate c).closed = false) :
    Coherent (c :: cs) (b.instantiate c) := by
  have hall : Coherent cs (b.instantiate c) := h.addAll _
  refine { hall with universals := fun w x a ha c' hc' => ?_ }
  rcases List.mem_cons.mp hc' with rfl | hc'
  · rw [Branch.instantiate, addAll_universals] at ha
    exact mem_seen_addAll hopen _ (List.mem_map.mpr ⟨(w, x, a), ha, rfl⟩)
  · exact hall.universals w x a ha c' hc'

theorem withUniversal (h : Coherent cs b) : Coherent [] (b.withUniversal w x a) :=
  ⟨h.boxes, fun _ _ _ _ _ hc => absurd hc List.not_mem_nil, h.literals⟩

theorem universal (h : Coherent b.domain b) (hopen : (b.universal w x a).closed = false) :
    Coherent (b.universal w x a).domain (b.universal w x a) := by
  rcases universal_cases b w x a with ⟨hdom, hb⟩ | ⟨n, hdom, hb⟩ | ⟨_, hb⟩ <;> rw [hb] at hopen ⊢
  · -- there are no constants, so that nothing has to be put in
    rw [show (b.withUniversal w x a).vague.domain = [] from hdom]
    exact h.withUniversal.vague
  · -- there were no constants, so that only the new one has to be put in
    apply ((h.withUniversal.withConstant n).instantiate hopen).subset
    intro c hc
    rw [Branch.instantiate, addAll_domain] at hc
    rcases List.mem_append.mp hc with hc | hc
    · rw [show (b.withUniversal w x a).domain = [] from hdom] at hc
      exact absurd hc List.not_mem_nil
    · exact hc
  · have hext := Extends.addAll (b.withUniversal w x a)
      (b.domain.map fun c => (w, a.substitute x (.const c)))
    constructor
    · intro r u a' t ha ht
      rw [addAll_boxes] at ha
      rw [addAll_edges] at ht
      exact hext.seen (h.boxes r u a' t ha ht)
    · intro u x' a' ha c hc
      rw [addAll_universals] at ha
      rw [addAll_domain] at hc
      rcases mem_universals_withUniversal.mp ha with ha | heq
      · exact hext.seen (h.universals u x' a' ha c hc)
      · cases heq
        exact mem_seen_addAll hopen _ (List.mem_map.mpr ⟨c, hc, rfl⟩)
    · exact literals_addAll _ h.literals

theorem existential (h : Coherent b.domain b) (hopen : (b.existential w x a).closed = false) :
    Coherent (b.existential w x a).domain (b.existential w x a) := by
  rcases existential_cases b w x a with hb | ⟨n, _, hb⟩ <;> rw [hb] at hopen ⊢
  · exact h.vague
  · apply (((h.withConstant n).add _ _).instantiate hopen).subset
    intro c hc
    rw [Branch.instantiate, addAll_domain, add_eq_addAll, addAll_domain] at hc
    rcases List.mem_append.mp hc with hc | hc
    · exact List.mem_cons_of_mem _ hc
    · exact List.mem_cons.mpr (Or.inl (List.mem_singleton.mp hc))

/-- Meeting a demand keeps a branch coherent, unless it closes it. -/
theorem meet (h : Coherent b.domain b) (hwf : WellFormed Q b) (w : World) (d : Demand) :
    ∀ b' ∈ (b.meet w d).results, b'.closed = false → Coherent b'.domain b' := by
  intro b' hb' hopen
  cases d with
  | choice alternatives =>
    obtain ⟨fs, _, rfl⟩ := List.mem_map.mp hb'
    rw [addAll_domain]
    exact h.addAll _
  | nothing =>
    rw [List.mem_singleton.mp hb']
    exact h
  | all fs =>
    rw [List.mem_singleton.mp hb', addAll_domain]
    exact h.addAll _
  | every x a =>
    rw [List.mem_singleton.mp hb'] at hopen ⊢
    exact h.universal hopen
  | some x a =>
    rw [List.mem_singleton.mp hb'] at hopen ⊢
    exact h.existential hopen
  | box r a =>
    rw [List.mem_singleton.mp hb'] at hopen ⊢
    rw [show (b.box r w a).domain = b.domain from addAll_domain _ _]
    exact h.box hopen
  | diamond r a =>
    rw [List.mem_singleton.mp hb'] at hopen ⊢
    exact diamond_domain b r w a ▸ h.diamond hwf hopen
  | next a =>
    rw [List.mem_singleton.mp hb'] at hopen ⊢
    exact next_domain b w a ▸ h.next hwf hopen

/-- Each successor keeps the branch coherent, unless it closes it. -/
theorem serialize (h : b.closed = false → Coherent b.domain b) (hwf : WellFormed Q b)
    (hQ : Hereditary Q) (hopen : b.serialize.2.closed = false) :
    Coherent b.serialize.2.domain b.serialize.2 := by
  refine (serialize_induct
    (I := fun b' => WellFormed Q b' ∧ (b'.closed = false → Coherent b'.domain b')) ⟨hwf, h⟩
    fun made b' r w _ hb hw ⟨hwf', hcoh⟩ => ⟨?_, fun hopen' => ?_⟩).2 hopen
  · exact hwf'.grow hQ made r (Nat.lt_of_lt_of_le (hwf.lt_of_mem_needy hw) hb.worlds)
  · rw [grow_domain]
    exact (hcoh ((Extends.grow made b' r w).closed hopen')).grow hwf' hopen'

end Coherent

/-! ### Demands are fulfilled -/

section Fulfilment

variable {b : Branch} {r : Relation} {w : World} {x : String} {a : Formula}

theorem fulfils_all {fs : List Formula} (hopen : (b.addAll (fs.map (w, ·))).closed = false) :
    ∀ f ∈ fs, (w, f) ∈ (b.addAll (fs.map (w, ·))).seen :=
  fun f hf => mem_seen_addAll hopen _ (List.mem_map.mpr ⟨f, hf, rfl⟩)

theorem fulfils_every (hlive : Live (b.universal w x a)) :
    (b.universal w x a).Fulfils w (.every x a) := by
  have hmem : (w, x, a) ∈ (b.withUniversal w x a).universals :=
    List.mem_append_right _ (List.mem_singleton.mpr rfl)
  rcases universal_cases b w x a with ⟨_, hb⟩ | ⟨n, _, hb⟩ | ⟨hdom, hb⟩ <;> rw [hb] at hlive ⊢
  · exact absurd hlive (not_live_vague _)
  · rw [Fulfils, Branch.instantiate, addAll_domain, addAll_universals]
    exact ⟨List.append_ne_nil_of_right_ne_nil _ (List.cons_ne_nil _ _), hmem⟩
  · rw [Fulfils, addAll_domain, addAll_universals]
    exact ⟨hdom, hmem⟩

theorem fulfils_some (hlive : Live (b.existential w x a)) :
    (b.existential w x a).Fulfils w (.some x a) := by
  rcases existential_cases b w x a with hb | ⟨n, _, hb⟩ <;> rw [hb] at hlive ⊢
  · exact absurd hlive (not_live_vague b)
  · have hext : Extends ((b.withConstant n).add w (a.substitute x (.const (freshName n))))
        (Branch.instantiate _ (freshName n)) := Extends.addAll _ _
    refine ⟨freshName n, ?_, hext.seen (mem_seen_add (hext.closed hlive.closed))⟩
    rw [Branch.instantiate, addAll_domain, add_eq_addAll, addAll_domain]
    exact List.mem_append_right _ (List.mem_singleton.mpr rfl)

theorem fulfils_box : (b.box r w a).Fulfils w (.box r a) := by
  show (r, w, a) ∈ (Branch.addAll _ _).boxes
  rw [addAll_boxes]
  exact List.mem_append_right _ (List.mem_singleton.mpr rfl)

theorem fulfils_diamond (hlive : Live (b.diamond r w a)) :
    (b.diamond r w a).Fulfils w (.diamond r a) := by
  rcases diamond_cases b r w a with ⟨hb, hold⟩ | hb | hb <;> rw [hb] at hlive ⊢
  · exact hold
  · exact absurd hlive (not_live_vague b)
  · have hext := Extends.connect (b.withWorld.add b.worlds a) r w b.worlds
    refine ⟨b.worlds, ?_, hext.seen (mem_seen_add (hext.closed hlive.closed))⟩
    rw [connect_eq, propagate_eq, addAll_edges]
    exact Edge.mem_link_self r w b.worlds

theorem fulfils_next (hlive : Live (b.next w a)) : (b.next w a).Fulfils w (.next a) := by
  rcases next_cases b w a with ⟨v, hv, hb⟩ | hb | ⟨_, hb⟩ <;> rw [hb] at hlive ⊢
  · refine ⟨v, ?_, mem_seen_add hlive.closed⟩
    rw [add_eq_addAll, addAll_nextOf]
    exact hv
  · exact absurd hlive (not_live_vague b)
  · refine ⟨b.worlds, ?_, mem_seen_add hlive.closed⟩
    rw [add_eq_addAll, addAll_nextOf, connect_eq, propagate_eq, addAll_nextOf]
    exact List.lookup_cons_self

end Fulfilment

/-- **A demand that has been met is fulfilled.** -/
theorem fulfils_meet (b : Branch) (w : World) (d : Demand) :
    ∀ b' ∈ (b.meet w d).results, Live b' → b'.Fulfils w d := by
  intro b' hb' hlive
  cases d with
  | choice alternatives =>
    simp only [Branch.meet, Step.results, List.map_map, List.mem_map] at hb'
    obtain ⟨fs, hfs, rfl⟩ := hb'
    exact ⟨fs, hfs, fulfils_all hlive.closed⟩
  | nothing => exact trivial
  | all fs =>
    rw [List.mem_singleton.mp hb'] at hlive ⊢
    exact fulfils_all hlive.closed
  | every x a =>
    rw [List.mem_singleton.mp hb'] at hlive ⊢
    exact fulfils_every hlive
  | some x a =>
    rw [List.mem_singleton.mp hb'] at hlive ⊢
    exact fulfils_some hlive
  | box r a =>
    rw [List.mem_singleton.mp hb']
    exact fulfils_box
  | diamond r a =>
    rw [List.mem_singleton.mp hb'] at hlive ⊢
    exact fulfils_diamond hlive
  | next a =>
    rw [List.mem_singleton.mp hb'] at hlive ⊢
    exact fulfils_next hlive

/-! ### Runs -/

/-- The demands of all formulas but the pending ones are fulfilled. -/
def Discharged (b : Branch) : Prop :=
  ∀ w f, (w, f) ∈ b.seen → (w, f) ∉ b.pending → f.isSpanning = false ∧ b.Fulfils w f.demand

/-- Extending a branch leaves no demand behind, as what is new is pending. -/
theorem Discharged.mono {b b' : Branch} (h : Discharged b) (hb : Extends b b') : Discharged b' := by
  intro w f hf hnot
  rcases hb.new _ hf with hf | hf
  · obtain ⟨hs, hful⟩ := h w f hf fun hp => hnot (hb.pending hp)
    exact ⟨hs, hful.mono hb⟩
  · exact absurd hf hnot

/-- The invariant of branches that can stay open.  `fs` is what the first branch had. -/
structure Steady (Q : Formula → Prop) (logic : Logic) (fs : List Labelled) (b : Branch) :
    Prop where
  wellFormed : WellFormed Q b
  logic : b.logic = logic
  seen : fs ⊆ b.seen
  coherent : b.closed = false → Coherent b.domain b
  discharged : Live b → Discharged b

namespace Steady

variable {Q : Formula → Prop} {logic : Logic} {fs : List Labelled} {b : Branch}

theorem serialize (h : Steady Q logic fs b) (hQ : Hereditary Q) :
    Steady Q logic fs b.serialize.2 := by
  have hext := Extends.serialize b
  exact ⟨h.wellFormed.serialize hQ, hext.logic.trans h.logic,
    List.Subset.trans h.seen hext.seen, Coherent.serialize h.coherent h.wellFormed hQ,
    fun hlive => (h.discharged (hext.live hlive)).mono hext⟩

theorem step (h : Steady Q logic fs b) (hQ : Hereditary Q) :
    ∀ b' ∈ b.step.results, Steady Q logic fs b' := by
  intro b' hb'
  have hwf' := h.wellFormed.step hQ b' hb'
  rcases step_cases b with ⟨w, f, rest, hpick, hstep⟩ | ⟨_, ⟨_, hstep⟩ | ⟨_, hstep⟩⟩ <;>
    rw [hstep] at hb'
  · obtain ⟨_, hrest, hothers⟩ := pick_some hpick
    have hnote := Extends.noting (b.taking rest) f
    have hmeet := Extends.meet _ _ _ b' hb'
    have hext := hnote.trans hmeet
    have hlive : Live b' → Live b := fun hlive =>
      ⟨(hext.live hlive).closed, (hext.live hlive).approximate⟩
    -- a live branch has not expanded a spanning formula
    have hspan : Live b' → (b.taking rest).noting f = b.taking rest ∧ f.isSpanning = false := by
      intro hl
      rcases noting_cases (b.taking rest) f with hb | hb
      · exact hb
      · exact absurd (hmeet.live hl) (hb ▸ not_live_vague _)
    refine ⟨hwf', hext.logic.trans h.logic, List.Subset.trans h.seen hext.seen, fun hopen => ?_,
      fun hl u f' hf' hnot => ?_⟩
    · have hcoh : Coherent (b.taking rest).domain (b.taking rest) :=
        (h.coherent (hext.closed hopen)).taking rest
      exact (hcoh.noting f).meet ((h.wellFormed.taking hrest).noting f) w f.demand b' hb' hopen
    -- a formula that is not pending was pending before and is the one expanded, or was not
    rcases hext.new _ hf' with hold | hpend
    · by_cases hpending : (u, f') ∈ b.pending
      · rcases hothers _ hpending with heq | hleft
        · obtain ⟨rfl, rfl⟩ := Prod.mk.inj heq
          exact ⟨(hspan hl).2, fulfils_meet _ u f'.demand b' hb' hl⟩
        · exact absurd (hext.pending hleft) hnot
      · obtain ⟨hs, hful⟩ := h.discharged (hlive hl) u f' hold hpending
        exact ⟨hs, Fulfils.mono (b := b.taking rest) hful hext⟩
    · exact absurd hpend hnot
  · rw [List.mem_singleton.mp hb']
    exact h.serialize hQ
  · exact absurd hb' List.not_mem_nil

end Steady

/-- A branch on which nothing is left to do and that is a model in the making: it is well formed and
coherent, all demands are fulfilled, and no box lacks a successor that the logic asks for. -/
structure Saturated (Q : Formula → Prop) (b : Branch) : Prop where
  wellFormed : WellFormed Q b
  coherent : Coherent b.domain b
  fulfils : ∀ w f, (w, f) ∈ b.seen → f.isSpanning = false ∧ b.Fulfils w f.demand
  needy : b.logic.isSerial = true → b.logic.isReflexive = false → b.needy = []

end Branch

namespace Tableau

open Branch

/-- **A run that ends with an open branch ends with a saturated one**, on which the premises and the
negation of the goal stand at the first world. -/
theorem exists_saturated_of_refute {Q : Formula → Prop} (hQ : Hereditary Q) {t : Tableau}
    {premises : List Formula} {goal : Formula} (hf : ∀ f ∈ premises ++ [goal.negation], Q f)
    {isOver : Nat → Bool} {steps looks n : Nat}
    (h : t.refute premises goal isOver steps looks = .open n) :
    ∃ b, Saturated Q b ∧ b.logic = t.logic ∧
      ∀ f ∈ premises ++ [goal.negation], (0, f) ∈ b.seen := by
  have hroot : (t.root premises goal).closed = false → Steady Q t.logic
      ((premises ++ [goal.negation]).map (0, ·)) (t.root premises goal) := by
    intro hopen
    have hwf := t.wellFormed_root hf
    rw [root_eq] at hopen hwf ⊢
    refine ⟨hwf, addAll_logic _ _, fun p hp => mem_seen_addAll hopen p hp, fun _ => ?_, fun _ => ?_⟩
    · rw [addAll_domain]
      exact (Coherent.start _ _ _).addAll _
    · have hstart : Discharged (start t.logic t.maxWorlds
          (SortedSet.ofList ((premises ++ [goal]).flatMap (·.constantOccurrences)))) :=
        fun _ _ hmem => absurd hmem List.not_mem_nil
      exact hstart.mono (Extends.addAll _ _)
  -- a closed branch may lack a premise, so the invariant is of open branches only
  obtain ⟨b, hb, hopen, hcomplete, happrox⟩ := work_open
    (I := fun b => b.closed = false → Steady Q t.logic
      ((premises ++ [goal.negation]).map (0, ·)) b)
    (fun b hb hopen b' hb' _ => (hb hopen).step hQ b' hb') _ _ _ _
    (fun b hb => List.mem_singleton.mp hb ▸ hroot) h
  have hsteady := hb hopen
  obtain ⟨_, hpending, hneedy⟩ := step_complete hcomplete happrox
  have hlive : Live b := ⟨hopen, happrox⟩
  refine ⟨b, ⟨hsteady.wellFormed, hsteady.coherent hopen, fun w f hwf => ?_, hneedy⟩,
    hsteady.logic, fun f hf => hsteady.seen (List.mem_map.mpr ⟨f, hf, rfl⟩)⟩
  apply hsteady.discharged hlive w f hwf
  rw [hpending]
  exact List.not_mem_nil

end Tableau

end Deontica
