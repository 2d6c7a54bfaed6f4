import Deontica.Proofs.NextFree
import Deontica.Proofs.Tableau.Run

/-!
# Closed tableaux

A branch is realized in a model if its worlds can be placed in the model and its constants named
there so that all that is on the branch is true.  No closed branch is realized, and if a branch is,
then so is one of those that a step leads to (`Realizes.meet`, `Realizable.serialize`): a world that
is new is placed where a true `◊` or `X` says, and a new constant names what a true `∃` says.  So if
all branches close, then the goal is true wherever the premises are (`mem_truthIn_of_refute`).

Quantifiers may range over any part of the domain that has the values of all constants in it, and
the next world has to be seen only if `X` occurs.
-/

namespace Deontica

universe u v

variable {W : Type u} {D : Type v}

theorem Model.Bounded.naming {M : Model W D} (h : M.Bounded) (κ : String → D) :
    (M.naming κ).Bounded :=
  ⟨h.until_ge, h.until_le, h.since_ge, h.since_le⟩

namespace Branch

/-- All that is on the branch is true in the model, with quantifiers ranging over `E`, when `g`
places the worlds and `κ` names the constants. -/
structure Realizes (M : Model W D) (E : Set D) (ν : String → D) (g : World → W) (κ : String → D)
    (b : Branch) : Prop where
  logic : M.Meets b.logic
  closed : b.closed = false
  named : ∀ c, κ c ∈ E
  seen : ∀ w f, (w, f) ∈ b.seen → g w ∈ (M.naming κ).truthIn E f ν
  boxes : ∀ r w a, (r, w, a) ∈ b.boxes → g w ∈ M.box r ((M.naming κ).truthIn E a ν)
  universals : ∀ w x a, (w, x, a) ∈ b.universals →
    ∀ d ∈ E, g w ∈ (M.naming κ).truthIn E a (Function.update ν x d)
  edges : ∀ e ∈ b.edges, M.sees e.relation (g e.source) (g e.target)
  nextOf : ∀ w v, (w, v) ∈ b.nextOf → g v = M.next (g w)

namespace Realizes

variable {M : Model W D} {E : Set D} {ν : String → D} {g g' : World → W} {κ κ' : String → D}
  {b : Branch} {Q : Formula → Prop} {r : Relation} {v w : World} {f a : Formula} {x : String}

/-! ### The changes -/

/-- Only the places of worlds and the names of constants that the branch has matter. -/
theorem congr (h : Realizes M E ν g κ b) (hwf : WellFormed Q b) (hg : ∀ w < b.worlds, g' w = g w)
    (hκ : ∀ c ∈ b.domain, κ' c = κ c) (hE : ∀ c, κ' c ∈ E) : Realizes M E ν g' κ' b := by
  have htruth : ∀ {f : Formula}, f.constantOccurrences ⊆ b.domain → ∀ μ : String → D,
      (M.naming κ').truthIn E f μ = (M.naming κ).truthIn E f μ := fun hf μ =>
    M.truthIn_naming_congr _ κ' κ _ (fun c hc => hκ c (hf hc)) μ
  constructor
  · exact h.logic
  · exact h.closed
  · exact hE
  · intro w f hf
    obtain ⟨hw, hconst, _⟩ := hwf.seen _ hf
    rw [hg w hw, htruth hconst]
    exact h.seen w f hf
  · intro r w a ha
    obtain ⟨f, hf, hd⟩ := hwf.boxes r w a ha
    have hconst := hwf.constants_part hf (Formula.mem_parts_of_demand hd rfl)
    rw [hg w (hwf.seen _ hf).1, htruth hconst]
    exact h.boxes r w a ha
  · intro w x a ha d hd
    obtain ⟨f, hf, hdemand⟩ := hwf.universals w x a ha
    have hconst := hwf.constants_part hf (Formula.mem_parts_of_demand hdemand rfl)
    rw [hg w (hwf.seen _ hf).1, htruth hconst]
    exact h.universals w x a ha d hd
  · intro e he
    obtain ⟨hs, ht⟩ := hwf.range e he
    rw [hg _ hs, hg _ ht]
    exact h.edges e he
  · intro w v hwv
    obtain ⟨hw, hv⟩ := hwf.range _ (hwf.nextOf w v hwv)
    rw [hg w hw, hg v hv]
    exact h.nextOf w v hwv

theorem add (h : Realizes M E ν g κ b) (hf : g w ∈ (M.naming κ).truthIn E f ν) :
    Realizes M E ν g κ (b.add w f) := by
  rcases add_cases b w f with ⟨hb, _⟩ | ⟨_, hneg⟩ | ⟨hb, _⟩
  · rw [hb]
    exact h
  · -- the branch would close, but a formula and its opposite are not both true
    exact absurd hf (((M.naming κ).mem_truthIn_negation _ ν _).mp (h.seen w _ hneg))
  · rw [hb]
    refine { h with seen := fun u f' hf' => ?_ }
    rcases List.mem_cons.mp hf' with heq | hf'
    · obtain ⟨rfl, rfl⟩ := Prod.mk.inj heq
      exact hf
    · exact h.seen u f' hf'

theorem addAll (h : Realizes M E ν g κ b) {fs : List Labelled}
    (hfs : ∀ p ∈ fs, g p.1 ∈ (M.naming κ).truthIn E p.2 ν) : Realizes M E ν g κ (b.addAll fs) := by
  induction fs generalizing b with
  | nil => exact h
  | cons p ps ih =>
    rw [List.forall_mem_cons] at hfs
    exact ih (h.add hfs.1) hfs.2

theorem vague (h : Realizes M E ν g κ b) : Realizes M E ν g κ b.vague :=
  ⟨h.logic, h.closed, h.named, h.seen, h.boxes, h.universals, h.edges, h.nextOf⟩

theorem taking (h : Realizes M E ν g κ b) (rest : List Labelled) :
    Realizes M E ν g κ (b.taking rest) :=
  ⟨h.logic, h.closed, h.named, h.seen, h.boxes, h.universals, h.edges, h.nextOf⟩

theorem noting (h : Realizes M E ν g κ b) (f : Formula) : Realizes M E ν g κ (b.noting f) := by
  rcases noting_cases b f with ⟨hb, _⟩ | hb <;> rw [hb]
  · exact h
  · exact h.vague

theorem withWorld (h : Realizes M E ν g κ b) : Realizes M E ν g κ b.withWorld := by
  refine { h with edges := fun e he => ?_ }
  rcases Edge.mem_reflect.mp he with he | ⟨hr, hs, ht⟩
  · exact h.edges e he
  · rw [hs, ht]
    exact h.logic.reflexive hr _ _

theorem linked (h : Realizes M E ν g κ b) (hvw : M.sees r (g v) (g w)) :
    Realizes M E ν g κ (b.linked r v w) :=
  { h with
    edges := Edge.link_le (R := fun r s t => M.sees r (g s) (g t))
      (fun ht r _ _ _ => h.logic.transitive ht r _ _ _) (fun hs r _ _ => h.logic.symmetric hs r _ _)
      h.edges hvw }

theorem connect (h : Realizes M E ν g κ b) (hvw : M.sees r (g v) (g w)) :
    Realizes M E ν g κ (b.connect r v w) := by
  have hlink := h.linked hvw
  rw [connect_eq, propagate_eq]
  apply hlink.addAll
  intro p hp
  obtain ⟨r', u, a, t, ha, he, rfl⟩ := mem_due.mp hp
  exact hlink.boxes r' u a ha _ (hlink.edges _ he)

theorem withNext (h : Realizes M E ν g κ b) (hv : g v = M.next (g w)) :
    Realizes M E ν g κ (b.withNext w v) := by
  refine { h with nextOf := fun u t hut => ?_ }
  rcases List.mem_cons.mp hut with heq | hut
  · obtain ⟨rfl, rfl⟩ := Prod.mk.inj heq
    exact hv
  · exact h.nextOf u t hut

theorem withUniversal (h : Realizes M E ν g κ b)
    (ha : ∀ d ∈ E, g w ∈ (M.naming κ).truthIn E a (Function.update ν x d)) :
    Realizes M E ν g κ (b.withUniversal w x a) := by
  refine { h with universals := fun w' x' a' ha' => ?_ }
  rcases mem_universals_withUniversal.mp ha' with ha' | heq
  · exact h.universals w' x' a' ha'
  · cases heq
    exact ha

theorem withConstant (h : Realizes M E ν g κ b) (n : Nat) : Realizes M E ν g κ (b.withConstant n) :=
  ⟨h.logic, h.closed, h.named, h.seen, h.boxes, h.universals, h.edges, h.nextOf⟩

theorem mem_instance {c : String} {μ : String → D}
    (ha : g w ∈ (M.naming κ).truthIn E a (Function.update μ x (κ c))) :
    g w ∈ (M.naming κ).truthIn E (a.substitute x (.const c)) μ := by
  rw [Model.truthIn_substitute]
  exact ha

theorem instantiate (h : Realizes M E ν g κ b) (c : String) :
    Realizes M E ν g κ (b.instantiate c) := by
  apply h.addAll
  intro p hp
  obtain ⟨⟨w, x, a⟩, ha, rfl⟩ := List.mem_map.mp hp
  exact mem_instance (h.universals w x a ha _ (h.named c))

/-! ### The operations -/

theorem box (h : Realizes M E ν g κ b) (ha : g w ∈ M.box r ((M.naming κ).truthIn E a ν)) :
    Realizes M E ν g κ (b.box r w a) := by
  have hbox : Realizes M E ν g κ (b.withBox r w a) := by
    refine { h with boxes := fun r' w' a' ha' => ?_ }
    rcases mem_boxes_withBox.mp ha' with ha' | heq
    · exact h.boxes r' w' a' ha'
    · cases heq
      exact ha
  apply hbox.addAll
  intro p hp
  obtain ⟨v, hv, rfl⟩ := List.mem_map.mp hp
  rw [successors, Edge.mem_successors] at hv
  exact ha _ (h.edges _ hv)

/-- A new world can be placed anywhere. -/
theorem withWorld_update (h : Realizes M E ν g κ b) (hwf : WellFormed Q b) (u : W) :
    Realizes M E ν (Function.update g b.worlds u) κ b.withWorld :=
  (h.congr hwf (fun _ hw => Function.update_of_ne (Nat.ne_of_lt hw) _ _) (fun _ _ => rfl)
    h.named).withWorld

theorem diamond (h : Realizes M E ν g κ b) (hwf : WellFormed Q b) (hw : w < b.worlds)
    (ha : g w ∈ M.diamond r ((M.naming κ).truthIn E a ν)) :
    ∃ g', Realizes M E ν g' κ (b.diamond r w a) := by
  rcases diamond_cases b r w a with ⟨hb, _⟩ | hb | hb <;> rw [hb]
  · exact ⟨g, h⟩
  · exact ⟨g, h.vague⟩
  · obtain ⟨u, hu, hua⟩ := ha
    refine ⟨Function.update g b.worlds u, ((h.withWorld_update hwf u).add ?_).connect ?_⟩
    · rw [Function.update_self]
      exact hua
    · rw [Function.update_self, Function.update_of_ne (Nat.ne_of_lt hw)]
      exact hu

theorem next (h : Realizes M E ν g κ b) (hwf : WellFormed Q b) (hN : M.SeesNext)
    (hw : w < b.worlds) (ha : M.next (g w) ∈ (M.naming κ).truthIn E a ν) :
    ∃ g', Realizes M E ν g' κ (b.next w a) := by
  rcases next_cases b w a with ⟨v, hv, hb⟩ | hb | ⟨_, hb⟩ <;> rw [hb]
  · refine ⟨g, h.add ?_⟩
    rw [h.nextOf w v (mem_of_lookup hv)]
    exact ha
  · exact ⟨g, h.vague⟩
  · have hnew : Function.update g b.worlds (M.next (g w)) b.worlds = M.next (g w) :=
      Function.update_self _ _ _
    have hold : Function.update g b.worlds (M.next (g w)) w = g w :=
      Function.update_of_ne (Nat.ne_of_lt hw) _ _
    refine ⟨_, (((h.withWorld_update hwf (M.next (g w))).withNext ?_).connect ?_).add ?_⟩
    · rw [hnew, hold]
    · rw [hnew, hold]
      exact hN (g w)
    · rw [hnew]
      exact ha

theorem universal (h : Realizes M E ν g κ b)
    (ha : ∀ d ∈ E, g w ∈ (M.naming κ).truthIn E a (Function.update ν x d)) :
    Realizes M E ν g κ (b.universal w x a) := by
  have hu := h.withUniversal ha
  rcases universal_cases b w x a with ⟨_, hb⟩ | ⟨n, _, hb⟩ | ⟨_, hb⟩ <;> rw [hb]
  · exact hu.vague
  · exact (hu.withConstant n).instantiate _
  · apply hu.addAll
    intro p hp
    obtain ⟨c, _, rfl⟩ := List.mem_map.mp hp
    exact mem_instance (ha _ (h.named c))

theorem existential (h : Realizes M E ν g κ b) (hwf : WellFormed Q b)
    (hconst : a.constantOccurrences ⊆ b.domain)
    (ha : ∃ d ∈ E, g w ∈ (M.naming κ).truthIn E a (Function.update ν x d)) :
    ∃ κ', Realizes M E ν g κ' (b.existential w x a) := by
  rcases existential_cases b w x a with hb | ⟨n, hn, hb⟩ <;> rw [hb]
  · exact ⟨κ, h.vague⟩
  · obtain ⟨d, hdE, hd⟩ := ha
    -- the fresh constant names the witness, and no formula on the branch notices
    have hkeep : ∀ c ∈ b.domain, Function.update κ (freshName n) d c = κ c := by
      intro c hc
      apply Function.update_of_ne
      rintro rfl
      exact hn hc
    have hnamed : ∀ c, Function.update κ (freshName n) d c ∈ E := by
      intro c
      by_cases hc : c = freshName n
      · rw [hc, Function.update_self]
        exact hdE
      · rw [Function.update_of_ne hc]
        exact h.named c
    refine ⟨Function.update κ (freshName n) d,
      (((h.congr hwf (fun _ _ => rfl) hkeep hnamed).withConstant n).add
        (mem_instance ?_)).instantiate _⟩
    rw [Function.update_self,
      M.truthIn_naming_congr _ _ κ a fun c hc => hkeep c (hconst hc)]
    exact hd

/-- **One of the branches that meeting the demand of a formula leads to is realized**, if the next
world is seen or `X` is excluded. -/
theorem meet (h : Realizes M E ν g κ b) (hwf : WellFormed Q b)
    (hN : M.SeesNext ∨ ∀ f, Q f → NextFree f) (hB : M.Bounded) (hf : (w, f) ∈ b.seen) :
    ∃ b' ∈ (b.meet w f.demand).results, ∃ g' κ', Realizes M E ν g' κ' b' := by
  have hmet := Demand.met_of_mem (hB.naming κ) (h.seen w f hf)
  have hw : w < b.worlds := (hwf.seen _ hf).1
  cases hd : f.demand with
  | nothing => exact ⟨_, List.mem_singleton.mpr rfl, g, κ, h⟩
  | all fs =>
    rw [hd] at hmet
    refine ⟨_, List.mem_singleton.mpr rfl, g, κ, h.addAll fun p hp => ?_⟩
    obtain ⟨f', hf', rfl⟩ := List.mem_map.mp hp
    exact hmet f' hf'
  | choice alternatives =>
    rw [hd] at hmet
    obtain ⟨fs, hfs, htrue⟩ := hmet
    refine ⟨b.addAll (fs.map (w, ·)), ?_, g, κ, h.addAll fun p hp => ?_⟩
    · exact List.mem_map.mpr ⟨_, List.mem_map.mpr ⟨fs, hfs, rfl⟩, rfl⟩
    · obtain ⟨f', hf', rfl⟩ := List.mem_map.mp hp
      exact htrue f' hf'
  | every x a =>
    rw [hd] at hmet
    exact ⟨_, List.mem_singleton.mpr rfl, g, κ, h.universal hmet⟩
  | some x a =>
    rw [hd] at hmet
    have hconst := hwf.constants_part hf (Formula.mem_parts_of_demand hd rfl)
    obtain ⟨κ', h'⟩ := h.existential hwf hconst hmet
    exact ⟨_, List.mem_singleton.mpr rfl, g, κ', h'⟩
  | box r a =>
    rw [hd] at hmet
    exact ⟨_, List.mem_singleton.mpr rfl, g, κ, h.box hmet⟩
  | diamond r a =>
    rw [hd] at hmet
    obtain ⟨g', h'⟩ := h.diamond hwf hw hmet
    exact ⟨_, List.mem_singleton.mpr rfl, g', κ, h'⟩
  | next a =>
    rw [hd] at hmet
    rcases hN with hN | hfree
    · obtain ⟨g', h'⟩ := h.next hwf hN hw hmet
      exact ⟨_, List.mem_singleton.mpr rfl, g', κ, h'⟩
    · have hnext := Formula.hasNext_of_demand_eq_next hd
      exact absurd (hnext.symm.trans (hfree f (hwf.seen _ hf).2.2)) Bool.noConfusion

end Realizes

/-! ### Steps and runs -/

/-- The branch is well formed and realized in the model. -/
def Realizable (Q : Formula → Prop) (M : Model W D) (E : Set D) (ν : String → D) (b : Branch) :
    Prop :=
  WellFormed Q b ∧ ∃ g κ, Realizes M E ν g κ b

namespace Realizable

variable {Q : Formula → Prop} {M : Model W D} {E : Set D} {ν : String → D} {b : Branch}

theorem closed (h : Realizable Q M E ν b) : b.closed = false := by
  obtain ⟨_, g, κ, hr⟩ := h
  exact hr.closed

/-- A world that needs a successor has one in the model. -/
theorem serialize (h : Realizable Q M E ν b) (hQ : Hereditary Q) :
    Realizable Q M E ν b.serialize.2 := by
  refine serialize_induct h fun made b' r w hserial hext hw ⟨hwf, g, κ, hr⟩ => ?_
  have hlt : w < b'.worlds := Nat.lt_of_lt_of_le (h.1.lt_of_mem_needy hw) hext.worlds
  refine ⟨hwf.grow hQ made r hlt, ?_⟩
  rcases grow_cases made b' r w with hb | hb <;> rw [hb]
  · exact ⟨g, κ, hr.vague⟩
  · obtain ⟨u, hu⟩ := hr.logic.serial (hext.logic ▸ hserial) r (g w)
    refine ⟨Function.update g b'.worlds u, κ, (hr.withWorld_update hwf u).connect ?_⟩
    rw [Function.update_self, Function.update_of_ne (Nat.ne_of_lt hlt)]
    exact hu

theorem step (h : Realizable Q M E ν b) (hQ : Hereditary Q)
    (hN : M.SeesNext ∨ ∀ f, Q f → NextFree f) (hB : M.Bounded) :
    (∃ b' ∈ b.step.results, Realizable Q M E ν b') ∨ ∃ b', b.step = .complete b' := by
  have hkeep := h.1.step hQ
  rcases step_cases b with ⟨w, f, rest, hpick, hstep⟩ | ⟨_, ⟨_, hstep⟩ | ⟨_, hstep⟩⟩
  · obtain ⟨hf, hrest, _⟩ := pick_some hpick
    obtain ⟨hwf, g, κ, hr⟩ := h
    rw [hstep] at hkeep ⊢
    obtain ⟨b', hb', hr'⟩ := ((hr.taking rest).noting f).meet ((hwf.taking hrest).noting f) hN hB
      ((Extends.noting (b.taking rest) f).seen (hwf.pending hf))
    exact Or.inl ⟨b', hb', hkeep b' hb', hr'⟩
  · rw [hstep]
    exact Or.inl ⟨_, List.mem_singleton.mpr rfl, h.serialize hQ⟩
  · exact Or.inr ⟨_, hstep⟩

end Realizable

end Branch

namespace Tableau

open Branch

section Refute

variable {t : Tableau} {premises : List Formula} {goal : Formula} {isOver : Nat → Bool}
  {steps looks branches worlds : Nat} {M : Model W D} {w : W} {ν : String → D}

/-- If all branches close, the root is not realized, so the goal is true where the premises are. -/
theorem mem_truthIn_of_closed {Q : Formula → Prop} (hQ : Hereditary Q)
    (hprob : ∀ f ∈ premises ++ [goal.negation], Q f)
    (h : t.refute premises goal isOver steps looks = .closed branches worlds)
    (hM : M.Meets t.logic) (hN : M.SeesNext ∨ ∀ f, Q f → NextFree f) (hB : M.Bounded) {E : Set D}
    (hE : ∀ c, M.const c ∈ E) (hprem : ∀ f ∈ premises, w ∈ M.truthIn E f ν) :
    w ∈ M.truthIn E goal ν := by
  by_contra hgoal
  -- the root is realized by placing its world at `w`, and that cannot be if all branches close
  have hclosed := (work_closed (S := Realizable Q M E ν) (fun b hb => hb.closed)
    (fun b hb => hb.step hQ hN hB) _ _ _ _ h).2 (t.root premises goal) (List.mem_singleton.mpr rfl)
  refine hclosed ⟨t.wellFormed_root hprob, fun _ => w, M.const, ?_⟩
  have hstart : ∀ domain, Realizes M E ν (fun _ => w) M.const
      (start t.logic t.maxWorlds domain) := by
    refine fun domain => ⟨hM, rfl, hE, fun _ _ h => absurd h List.not_mem_nil,
      fun _ _ _ h => absurd h List.not_mem_nil, fun _ _ _ h => absurd h List.not_mem_nil,
      fun e he => ?_, fun _ _ h => absurd h List.not_mem_nil⟩
    rcases Edge.mem_reflect.mp he with he | ⟨hr, _, _⟩
    · exact absurd he List.not_mem_nil
    · exact hM.reflexive hr _ _
  rw [root_eq]
  apply (hstart _).addAll
  intro p hp
  obtain ⟨f, hf, rfl⟩ := List.mem_map.mp hp
  rcases List.mem_append.mp hf with hf | hf
  · exact hprem f hf
  · rw [List.mem_singleton.mp hf]
    exact (M.mem_truthIn_negation _ ν w).mpr hgoal

/-- **A goal whose negation is refuted is true wherever the premises are**, with quantifiers over
any range in which all constants have their values.  The next world has to be seen unless `X` does
not occur. -/
theorem mem_truthIn_of_refute
    (h : t.refute premises goal isOver steps looks = .closed branches worlds)
    (hM : M.Meets t.logic) (hN : M.SeesNext ∨ ∀ f ∈ goal :: premises, NextFree f) (hB : M.Bounded)
    {E : Set D} (hE : ∀ c, M.const c ∈ E) (hprem : ∀ f ∈ premises, w ∈ M.truthIn E f ν) :
    w ∈ M.truthIn E goal ν := by
  rcases hN with hN | hfree
  · exact mem_truthIn_of_closed hereditary_true (fun _ _ => trivial) h hM (Or.inl hN) hB hE hprem
  · refine mem_truthIn_of_closed hereditary_nextFree (fun f hf => ?_) h hM (Or.inr fun _ hf => hf)
      hB hE hprem
    rcases List.mem_append.mp hf with hf | hf
    · exact hfree f (List.mem_cons_of_mem _ hf)
    · rw [List.mem_singleton.mp hf]
      exact (Formula.hasNext_negation goal).trans (hfree goal List.mem_cons_self)

/-- A goal whose negation is refuted is true wherever the premises are. -/
theorem mem_truth_of_refute
    (h : t.refute premises goal isOver steps looks = .closed branches worlds)
    (hM : M.Meets t.logic) (hN : M.SeesNext) (hB : M.Bounded)
    (hprem : ∀ f ∈ premises, w ∈ M.truth f ν) : w ∈ M.truth goal ν :=
  mem_truthIn_of_refute h hM (Or.inl hN) hB (fun _ => Set.mem_univ _) hprem

end Refute

/-! ### Refutation -/

/-- At the world `w` of a model of the logic the premises are true and the goal is false.  Where `X`
occurs, the next world is one that is seen. -/
structure Countered (M : Model W D) (logic : Logic) (premises : List Formula) (goal : Formula)
    (w : W) (ν : String → D) : Prop where
  meets : M.Meets logic
  seesNext : (∃ f ∈ goal :: premises, f.hasNext = true) → M.SeesNext
  bounded : M.Bounded
  premises : ∀ f ∈ premises, w ∈ M.truth f ν
  goal : w ∉ M.truth goal ν

/-- **If all branches close, no model has a world at which the premises are true and the goal is
false**, for every logic, whatever the limits are and whenever time is up. -/
theorem not_countered_of_closed (logic : Logic) (maxWorlds maxBranches : Nat)
    (premises : List Formula) (goal : Formula) (isOver : Nat → Bool) (steps looks : Nat)
    (branches worlds : Nat)
    (h : refute ⟨logic, maxWorlds, maxBranches⟩ premises goal isOver steps looks =
      .closed branches worlds) :
    ∀ (W : Type u) (D : Type v) (M : Model W D) (w : W) (ν : String → D),
      ¬Countered M logic premises goal w ν := by
  intro W D M w ν hcounter
  have hnext : M.SeesNext ∨ ∀ f ∈ goal :: premises, NextFree f := by
    by_cases hX : ∃ f ∈ goal :: premises, f.hasNext = true
    · exact Or.inl (hcounter.seesNext hX)
    · exact Or.inr fun f hf => Bool.eq_false_iff.mpr fun hf' => hX ⟨f, hf, hf'⟩
  exact hcounter.goal (mem_truthIn_of_refute h hcounter.meets hnext hcounter.bounded
    (fun _ => Set.mem_univ _) hcounter.premises)

/-- In `D` it is permitted that all are what each is obliged to be, and what is so next is so
eventually.  One world is there by seriality, another is the next one, and a fresh constant is put
into the obligation. -/
theorem not_countered_of_closed_each_all :
    let premises := [.all "x" (Formula.pred "R" [.var "x"]).obligatory, (Formula.atom "Q").next]
    let goal := .and (Formula.all "x" (.pred "R" [.var "x"])).permitted
      (Formula.atom "Q").eventually
    refute ⟨.D, 3, 2⟩ premises goal (fun _ => false) 20 0 = .closed 2 3 ∧
      ∀ (W D : Type) (M : Model W D) (w : W) (ν : String → D),
        ¬Countered M .D premises goal w ν := by
  intro premises goal
  have hclosed : refute ⟨.D, 3, 2⟩ premises goal (fun _ => false) 20 0 = .closed 2 3 := by
    decide +kernel
  exact ⟨hclosed, not_countered_of_closed .D 3 2 premises goal _ 20 0 2 3 hclosed⟩

end Tableau

end Deontica
