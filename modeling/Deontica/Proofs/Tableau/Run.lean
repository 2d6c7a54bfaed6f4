import Deontica.Proofs.Tableau.Branch
import Deontica.Tableau

/-!
# Steps and runs of the tableau

A step takes a pending formula and meets its demand, or gives successors to the worlds that need
one, or finds nothing to do (`step_cases`).  A run works off a stack of branches, and what it
concludes depends on the single steps only:

* `work_open`: a run that ends with an open branch comes to a branch that has nothing left to do,
  and that branch has every property that holds of the stack and that steps keep.
* `work_closed`: a run that ends with all branches closed has no branch with a property that no
  closed branch has and that always passes to a branch that a step leads to.
-/

namespace Deontica

namespace Branch

/-! ### Picking a pending formula -/

theorem urgency_le (f : Formula) : urgency f ≤ 2 := by
  unfold urgency
  split <;> omega

/-- What is taken and what is left make up what there was. -/
theorem takeUrgency_perm {n : Nat} {p : Labelled} :
    ∀ {pending rest : List Labelled}, takeUrgency n pending = some (p, rest) →
      pending.Perm (p :: rest)
  | [], _, h => by cases h
  | q :: qs, rest, h => by
    unfold takeUrgency at h
    split_ifs at h
    · obtain ⟨rfl, rfl⟩ := Prod.mk.inj (Option.some.inj h)
      exact List.Perm.refl _
    · obtain ⟨⟨p', rest'⟩, hq, heq⟩ := Option.map_eq_some_iff.mp h
      obtain ⟨rfl, rfl⟩ := Prod.mk.inj heq
      exact ((takeUrgency_perm hq).cons q).trans (List.Perm.swap p' q rest')

theorem takeUrgency_none {n : Nat} :
    ∀ {pending : List Labelled}, takeUrgency n pending = none → ∀ q ∈ pending, urgency q.2 ≠ n
  | [], _, q, hq => absurd hq List.not_mem_nil
  | p :: ps, h, q, hq => by
    unfold takeUrgency at h
    split_ifs at h with hp
    rcases List.mem_cons.mp hq with rfl | hq
    · exact hp
    · exact takeUrgency_none (Option.map_eq_none_iff.mp h) q hq

theorem exists_takeUrgency {pending : List Labelled} {q : Labelled × List Labelled}
    (h : pick pending = some q) : ∃ n, takeUrgency n pending = some q := by
  unfold pick at h
  cases h0 : takeUrgency 0 pending with
  | some q =>
    rw [h0] at h
    exact ⟨0, h0.trans h⟩
  | none =>
    cases h1 : takeUrgency 1 pending with
    | some q =>
      rw [h0, h1] at h
      exact ⟨1, h1.trans h⟩
    | none =>
      rw [h0, h1] at h
      exact ⟨2, h⟩

theorem pick_perm {pending rest : List Labelled} {p : Labelled}
    (h : pick pending = some (p, rest)) : pending.Perm (p :: rest) := by
  obtain ⟨n, hn⟩ := exists_takeUrgency h
  exact takeUrgency_perm hn

theorem pick_some {pending rest : List Labelled} {p : Labelled}
    (h : pick pending = some (p, rest)) :
    p ∈ pending ∧ rest ⊆ pending ∧ ∀ q ∈ pending, q = p ∨ q ∈ rest := by
  have hperm := pick_perm h
  refine ⟨hperm.mem_iff.mpr List.mem_cons_self, fun q hq => ?_, fun q hq => ?_⟩
  · exact hperm.mem_iff.mpr (List.mem_cons_of_mem _ hq)
  · exact List.mem_cons.mp (hperm.mem_iff.mp hq)

/-- Every formula has one of the three urgencies, so only an empty list has nothing to pick. -/
theorem pick_none {pending : List Labelled} (h : pick pending = none) : pending = [] := by
  obtain ⟨h0, h1, h2⟩ : takeUrgency 0 pending = none ∧ takeUrgency 1 pending = none ∧
      takeUrgency 2 pending = none := by
    simpa [pick, Option.orElse_eq_orElse] using h
  rw [List.eq_nil_iff_forall_not_mem]
  intro q hq
  have := urgency_le q.2
  have := takeUrgency_none h0 q hq
  have := takeUrgency_none h1 q hq
  have := takeUrgency_none h2 q hq
  omega

/-! ### One step -/

/-- The branches that a step leads to. -/
def Step.results : Step → List Branch
  | .progress b => [b]
  | .split b alternatives => alternatives.map b.addAll
  | .complete _ => []

/-- The branch without a pending formula that is about to be expanded. -/
def taking (b : Branch) (rest : List Labelled) : Branch :=
  { b with pending := rest }

/-- What a step does: it expands a pending formula, or it makes sure of successors. -/
theorem step_cases (b : Branch) :
    (∃ w f rest, pick b.pending = some ((w, f), rest) ∧
        b.step = ((b.taking rest).noting f).meet w f.demand) ∨
      b.pending = [] ∧ (b.serialize.1 = true ∧ b.step = .progress b.serialize.2 ∨
        b.serialize.1 = false ∧ b.step = .complete b.serialize.2) := by
  unfold step
  cases hp : pick b.pending with
  | some p =>
    obtain ⟨⟨w, f⟩, rest⟩ := p
    exact Or.inl ⟨w, f, rest, rfl, expand_eq _ w f⟩
  | none =>
    refine Or.inr ⟨pick_none hp, ?_⟩
    obtain ⟨made, b'⟩ := b.serialize
    cases made
    · exact Or.inr ⟨rfl, rfl⟩
    · exact Or.inl ⟨rfl, rfl⟩

theorem noting_cases (b : Branch) (f : Formula) :
    b.noting f = b ∧ f.isSpanning = false ∨ b.noting f = b.vague := by
  unfold noting
  split_ifs with h
  · exact Or.inr rfl
  · exact Or.inl ⟨rfl, Bool.not_eq_true _ ▸ h⟩

theorem Grows.noting (b : Branch) (f : Formula) : Grows b (b.noting f) := by
  rcases noting_cases b f with ⟨h, _⟩ | h <;> rw [h]
  · exact refl b
  · exact of_change (.vague b)

theorem Extends.noting (b : Branch) (f : Formula) : Extends b (b.noting f) :=
  (Grows.noting b f).extends

/-- Meeting a demand is to make some changes, whichever alternative is taken. -/
theorem Grows.meet (b : Branch) (w : World) (d : Demand) :
    ∀ b' ∈ (b.meet w d).results, Grows b b' := by
  intro b' hb'
  cases d with
  | choice alternatives =>
    obtain ⟨alternative, _, rfl⟩ := List.mem_map.mp hb'
    exact addAll b _
  | nothing => exact List.mem_singleton.mp hb' ▸ refl b
  | all fs => exact List.mem_singleton.mp hb' ▸ addAll b _
  | every x a => exact List.mem_singleton.mp hb' ▸ universal b w x a
  | some x a => exact List.mem_singleton.mp hb' ▸ existential b w x a
  | box r a => exact List.mem_singleton.mp hb' ▸ box b r w a
  | diamond r a => exact List.mem_singleton.mp hb' ▸ diamond b r w a
  | next a => exact List.mem_singleton.mp hb' ▸ next b w a

/-- Meeting a demand extends the branch, whichever alternative is taken. -/
theorem Extends.meet (b : Branch) (w : World) (d : Demand) :
    ∀ b' ∈ (b.meet w d).results, Extends b b' :=
  fun b' hb' => (Grows.meet b w d b' hb').extends

namespace WellFormed

variable {Q : Formula → Prop} {b : Branch} {w : World} {f : Formula}

theorem taking (h : WellFormed Q b) {rest : List Labelled} (hrest : rest ⊆ b.pending) :
    WellFormed Q (b.taking rest) :=
  { h with pending := List.Subset.trans hrest h.pending }

theorem noting (h : WellFormed Q b) (f : Formula) : WellFormed Q (b.noting f) := by
  rcases noting_cases b f with ⟨hb, _⟩ | hb <;> rw [hb]
  · exact h
  · exact h.vague

/-- Meeting the demand of a formula on the branch keeps the branch well formed. -/
theorem meet (h : WellFormed Q b) (hQ : Hereditary Q) (hf : (w, f) ∈ b.seen) :
    ∀ b' ∈ (b.meet w f.demand).results, WellFormed Q b' := by
  intro b' hb'
  have hw : w < b.worlds := (h.seen _ hf).1
  have hpart : ∀ g ∈ f.demand.parts, b.Admits Q (w, g) := fun _ hg => h.admits_part hQ hf hw hg
  cases hd : f.demand with
  | choice alternatives =>
    rw [hd] at hb' hpart
    simp only [Branch.meet, Step.results, List.map_map, List.mem_map] at hb'
    obtain ⟨alternative, halt, rfl⟩ := hb'
    apply h.addAll
    intro p hp
    obtain ⟨g, hg, rfl⟩ := List.mem_map.mp hp
    exact hpart g (List.mem_flatten.mpr ⟨alternative, halt, hg⟩)
  | nothing =>
    rw [hd] at hb'
    rw [List.mem_singleton.mp hb']
    exact h
  | all fs =>
    rw [hd] at hb' hpart
    rw [List.mem_singleton.mp hb']
    apply h.addAll
    intro p hp
    obtain ⟨g, hg, rfl⟩ := List.mem_map.mp hp
    exact hpart g hg
  | every x a =>
    rw [hd] at hb'
    rw [List.mem_singleton.mp hb']
    exact h.universal hQ hf hd
  | some x a =>
    rw [hd] at hb'
    rw [List.mem_singleton.mp hb']
    exact h.existential hQ hf hd
  | box r a =>
    rw [hd] at hb'
    rw [List.mem_singleton.mp hb']
    exact h.box hQ hf hd
  | diamond r a =>
    rw [hd] at hb'
    rw [List.mem_singleton.mp hb']
    exact h.diamond hQ hf hd
  | next a =>
    rw [hd] at hb'
    rw [List.mem_singleton.mp hb']
    exact h.next hQ hf hd

end WellFormed

/-! ### Successors for the worlds that need one -/

theorem mem_needy {b : Branch} {r : Relation} {w : World} :
    (r, w) ∈ b.needy ↔ (∃ a, (r, w, a) ∈ b.boxes) ∧ b.successors r w = [] := by
  simp only [needy, List.mem_append, List.mem_map, SortedSet.mem_ofList, List.mem_filterMap,
    Prod.exists, Option.ite_none_right_eq_some, Option.some.injEq, Prod.mk.injEq,
    List.isEmpty_iff]
  constructor
  · rintro (⟨_, ⟨_, _, ⟨_, _, a, ha, hb, rfl, rfl⟩, rfl, rfl⟩, rfl, rfl⟩ |
      ⟨_, ⟨_, _, ⟨_, _, a, ha, hb, rfl, rfl⟩, rfl, rfl⟩, rfl, rfl⟩)
    · exact ⟨⟨a, ha⟩, hb⟩
    · exact ⟨⟨a, ha⟩, hb⟩
  · rintro ⟨⟨a, ha⟩, hb⟩
    -- the worlds are listed for one relation after the other
    cases r with
    | temporal =>
      exact Or.inl ⟨w, ⟨_, w, ⟨_, w, a, ha, hb, rfl, rfl⟩, rfl, rfl⟩, rfl, rfl⟩
    | deontic =>
      exact Or.inr ⟨w, ⟨_, w, ⟨_, w, a, ha, hb, rfl, rfl⟩, rfl, rfl⟩, rfl, rfl⟩

/-- One turn of the loop that gives worlds a successor. -/
def grow (made : Bool) (b : Branch) (r : Relation) (w : World) : Bool × Branch :=
  match b.newWorld with
  | (some v, b) => (true, b.connect r w v)
  | (none, b) => (made, b)

theorem grow_cases (made : Bool) (b : Branch) (r : Relation) (w : World) :
    b.grow made r w = (made, b.vague) ∨
      b.grow made r w = (true, b.withWorld.connect r w b.worlds) := by
  unfold grow
  rcases newWorld_cases b with h | h <;> rw [h]
  · exact Or.inl rfl
  · exact Or.inr rfl

theorem Grows.grow (made : Bool) (b : Branch) (r : Relation) (w : World) :
    Grows b (b.grow made r w).2 := by
  have hnew := newWorld b
  unfold Branch.grow
  generalize b.newWorld = new at hnew ⊢
  obtain ⟨_ | v, b'⟩ := new
  · exact hnew
  · exact hnew.trans (connect b' r w v)

theorem Extends.grow (made : Bool) (b : Branch) (r : Relation) (w : World) :
    Extends b (b.grow made r w).2 :=
  (Grows.grow made b r w).extends

/-- The loop that gives every world of a list a successor. -/
def growAll (made : Bool) (b : Branch) (ws : List (Relation × World)) : Bool × Branch :=
  ws.foldl (fun s p => s.2.grow s.1 p.1 p.2) (made, b)

theorem serialize_eq (b : Branch) :
    b.serialize = if !b.logic.isSerial || b.logic.isReflexive then (false, b)
      else b.growAll false b.needy := rfl

/-- What every turn keeps, the loop keeps. -/
theorem growAll_induct {I : Branch → Prop} {ws : List (Relation × World)}
    (hturn : ∀ made b r w, (r, w) ∈ ws → I b → I (b.grow made r w).2) (made : Bool) (b : Branch)
    (h : I b) : I (b.growAll made ws).2 := by
  induction ws generalizing made b with
  | nil => exact h
  | cons p ps ih =>
    exact ih (fun made b r w hw => hturn made b r w (List.mem_cons_of_mem _ hw)) _ _
      (hturn made b p.1 p.2 List.mem_cons_self h)

theorem Grows.growAll (made : Bool) (b : Branch) (ws : List (Relation × World)) :
    Grows b (b.growAll made ws).2 :=
  growAll_induct (I := Grows b) (fun made b' r w _ hb' => hb'.trans (grow made b' r w)) made b
    (refl b)

theorem growAll_fst (b : Branch) (ws : List (Relation × World)) : (b.growAll true ws).1 = true := by
  induction ws generalizing b with
  | nil => rfl
  | cons p ps ih =>
    show (growAll (b.grow true p.1 p.2).1 (b.grow true p.1 p.2).2 ps).1 = true
    have hfst : (b.grow true p.1 p.2).1 = true := by
      rcases grow_cases true b p.1 p.2 with h | h <;> rw [h]
    rw [hfst]
    exact ih _

/-- A loop that makes no successor had nothing to do, unless it ran into the limit of worlds. -/
theorem eq_nil_of_growAll {made : Bool} {b : Branch} {ws : List (Relation × World)}
    (hmade : (b.growAll made ws).1 = false) (happrox : (b.growAll made ws).2.approximate = false) :
    ws = [] := by
  cases ws with
  | nil => rfl
  | cons p ps =>
    exfalso
    have hcons : b.growAll made (p :: ps) =
        growAll (b.grow made p.1 p.2).1 (b.grow made p.1 p.2).2 ps := rfl
    rw [hcons] at hmade happrox
    rcases grow_cases made b p.1 p.2 with h | h <;> rw [h] at hmade happrox
    · -- the first world got no successor, and the mark of that is still there at the end
      have hext : Extends b.vague (growAll made b.vague ps).2 :=
        (Grows.growAll made b.vague ps).extends
      exact absurd (hext.approximate happrox) Bool.noConfusion
    · rw [growAll_fst] at hmade
      cases hmade

/-- What every turn keeps, giving successors keeps. -/
theorem serialize_induct {I : Branch → Prop} {b : Branch} (h : I b)
    (hturn : ∀ made b' r w, b.logic.isSerial = true → Extends b b' → (r, w) ∈ b.needy → I b' →
      I (b'.grow made r w).2) : I b.serialize.2 := by
  rw [serialize_eq]
  split_ifs with hlogic
  · exact h
  have hserial : b.logic.isSerial = true := by
    simp only [Bool.or_eq_true, Bool.not_eq_true', not_or] at hlogic
    exact Bool.not_eq_false _ ▸ hlogic.1
  refine (growAll_induct (I := fun b' => Extends b b' ∧ I b') ?_ false b ⟨.refl b, h⟩).2
  rintro made b' r w hw ⟨hext, hb'⟩
  exact ⟨hext.trans (.grow made b' r w), hturn made b' r w hserial hext hw hb'⟩

theorem Grows.serialize (b : Branch) : Grows b b.serialize.2 :=
  serialize_induct (refl b) fun made b' r w _ _ _ hb' => hb'.trans (grow made b' r w)

theorem Extends.serialize (b : Branch) : Extends b b.serialize.2 :=
  (Grows.serialize b).extends

/-- **A complete branch.**  Nothing is pending, and where the logic asks for successors without
providing them by itself, every box has one to hold at. -/
theorem step_complete {b b' : Branch} (h : b.step = .complete b') (ha : b'.approximate = false) :
    b' = b ∧ b.pending = [] ∧
      (b.logic.isSerial = true → b.logic.isReflexive = false → b.needy = []) := by
  rcases step_cases b with ⟨w, f, rest, _, hstep⟩ | ⟨hp, ⟨_, hstep⟩ | ⟨hmade, hstep⟩⟩ <;>
    rw [hstep] at h
  · cases hd : f.demand <;> rw [hd] at h <;> cases h
  · cases h
  · cases h
    rw [serialize_eq] at hmade ha ⊢
    split_ifs at hmade ha ⊢ with hlogic
    · refine ⟨rfl, hp, fun hs hr => ?_⟩
      rw [hs, hr] at hlogic
      cases hlogic
    · have hnil := eq_nil_of_growAll hmade ha
      refine ⟨?_, hp, fun _ _ => hnil⟩
      rw [hnil]
      rfl

namespace WellFormed

variable {Q : Formula → Prop} {b : Branch}

theorem lt_of_mem_needy (h : WellFormed Q b) {r : Relation} {w : World} (hw : (r, w) ∈ b.needy) :
    w < b.worlds := by
  obtain ⟨⟨a, ha⟩, _⟩ := mem_needy.mp hw
  obtain ⟨f, hf, _⟩ := h.boxes r w a ha
  exact (h.seen _ hf).1

theorem grow (h : WellFormed Q b) (hQ : Hereditary Q) (made : Bool) (r : Relation) {w : World}
    (hw : w < b.worlds) : WellFormed Q (b.grow made r w).2 := by
  rcases grow_cases made b r w with hb | hb <;> rw [hb]
  · exact h.vague
  · exact h.withWorld.connect hQ r (Nat.lt_succ_of_lt hw) (Nat.lt_succ_self _)

theorem serialize (h : WellFormed Q b) (hQ : Hereditary Q) : WellFormed Q b.serialize.2 := by
  apply serialize_induct h
  -- the worlds in need of a successor are worlds of `b`, and still are when their turn comes
  intro made b' r w _ hext hw h'
  exact h'.grow hQ made r (Nat.lt_of_lt_of_le (h.lt_of_mem_needy hw) hext.worlds)

/-- **Every step keeps a branch well formed.** -/
theorem step (h : WellFormed Q b) (hQ : Hereditary Q) :
    ∀ b' ∈ b.step.results, WellFormed Q b' := by
  intro b' hb'
  rcases step_cases b with ⟨w, f, rest, hpick, hstep⟩ | ⟨_, ⟨_, hstep⟩ | ⟨_, hstep⟩⟩ <;>
    rw [hstep] at hb'
  · obtain ⟨hf, hrest, _⟩ := pick_some hpick
    have hseen : (w, f) ∈ ((b.taking rest).noting f).seen :=
      (Extends.noting (b.taking rest) f).seen (h.pending hf)
    exact ((h.taking hrest).noting f).meet hQ hseen b' hb'
  · rw [List.mem_singleton.mp hb']
    exact h.serialize hQ
  · exact absurd hb' List.not_mem_nil

end WellFormed

end Branch

namespace Tableau

open Branch

/-! ### The branch to start with -/

theorem root_eq (t : Tableau) (premises : List Formula) (goal : Formula) :
    t.root premises goal = (start t.logic t.maxWorlds
      (SortedSet.ofList ((premises ++ [goal]).flatMap (·.constantOccurrences)))).addAll
        ((premises ++ [goal.negation]).map (0, ·)) := by
  rw [addAll, List.foldl_map, List.foldl_append]
  rfl

/-- Denying the goal adds no constant. -/
theorem constants_subset {premises : List Formula} {goal : Formula} {domain : List String}
    (h : ∀ f ∈ premises ++ [goal], f.constantOccurrences ⊆ domain) :
    ∀ f ∈ premises ++ [goal.negation], f.constantOccurrences ⊆ domain := by
  rw [List.forall_mem_append, List.forall_mem_singleton] at h ⊢
  rw [Formula.constantOccurrences_negation]
  exact h

theorem constants_subset_ofList (fs : List Formula) :
    ∀ f ∈ fs, f.constantOccurrences ⊆ SortedSet.ofList (fs.flatMap (·.constantOccurrences)) := by
  intro f hf c hc
  rw [SortedSet.mem_ofList]
  exact List.mem_flatMap.mpr ⟨f, hf, hc⟩

/-- The branch to start with is well formed, and all its formulas stand at the first world. -/
theorem wellFormed_root {Q : Formula → Prop} (t : Tableau) {premises : List Formula}
    {goal : Formula} (h : ∀ f ∈ premises ++ [goal.negation], Q f) :
    WellFormed Q (t.root premises goal) := by
  rw [root_eq]
  apply (WellFormed.start Q _ _ _).addAll
  intro p hp
  obtain ⟨f, hf, rfl⟩ := List.mem_map.mp hp
  exact ⟨Nat.one_pos, constants_subset (constants_subset_ofList _) f hf, h f hf⟩

/-! ### Runs -/

/-- Settling takes closed branches off the stack until an open one is on top. -/
theorem settle_spec (stack : List Branch) (tally : Tally) :
    ∃ done, stack = done ++ (settle stack tally).1 ∧ (∀ b ∈ done, b.closed = true) ∧
      (∀ b rest, (settle stack tally).1 = b :: rest → b.closed = false) ∧
      (settle stack tally).2.undecided = tally.undecided := by
  induction stack generalizing tally with
  | nil => exact ⟨[], rfl, fun _ h => absurd h List.not_mem_nil, fun _ _ h => (nomatch h), rfl⟩
  | cons b stack ih =>
    unfold settle
    split_ifs with hb
    · obtain ⟨done, hstack, hdone, hopen, htally⟩ :=
        ih { tally with closed := tally.closed + 1, worlds := max tally.worlds b.worlds }
      exact ⟨b :: done, congrArg (b :: ·) hstack, List.forall_mem_cons.mpr ⟨hb, hdone⟩, hopen,
        htally⟩
    · refine ⟨[], rfl, fun _ h => absurd h List.not_mem_nil, fun _ _ h => ?_, rfl⟩
      rw [← (List.cons.inj h).1]
      exact Bool.not_eq_true _ ▸ hb

/-- What a run does first, once the closed branches are taken off the stack: it stops, for lack of
time or of a step for a branch that is open or because there is none, it gives the top branch up and
notes that, or it goes on with the branches that a step leads to. -/
theorem work_cases (t : Tableau) (isOver : Nat → Bool) (steps looks : Nat) (stack : List Branch)
    (tally : Tally) :
    (∃ part, t.work isOver steps looks stack tally = .exhausted part ∧
      (isOver looks = true ∨ steps = 0 ∧ stack ≠ [])) ∨
    ((∀ b ∈ stack, b.closed = true) ∧ t.work isOver steps looks stack tally =
      if tally.undecided then .incomplete
      else .closed (settle stack tally).2.closed (settle stack tally).2.worlds) ∨
    ∃ done b rest tally' steps', stack = done ++ b :: rest ∧ (∀ b ∈ done, b.closed = true) ∧
      b.closed = false ∧ tally'.undecided = tally.undecided ∧ steps = steps' + 1 ∧
      ((∃ b', b.step = .complete b' ∧ b'.approximate = false ∧
          t.work isOver steps looks stack tally = .open b'.worlds) ∨
        t.work isOver steps looks stack tally =
          t.work isOver steps' (looks + 1) rest { tally' with undecided := true } ∨
        (∀ b', b.step ≠ .complete b') ∧ t.work isOver steps looks stack tally =
          t.work isOver steps' (looks + 1) (b.step.results ++ rest) tally') := by
  obtain ⟨done, hstack, hdone, hopen, htally⟩ := settle_spec stack tally
  rw [work.eq_def]
  generalize settle stack tally = settled at *
  obtain ⟨left, tally'⟩ := settled
  cases left with
  | nil =>
    rw [List.append_nil] at hstack
    refine Or.inr (Or.inl ⟨hstack ▸ hdone, ?_⟩)
    rw [← htally]
  | cons b rest =>
    cases isOver looks with
    | true => exact Or.inl ⟨.time, by simp, Or.inl rfl⟩
    | false =>
      cases steps with
      | zero => exact Or.inl ⟨.steps, by simp, Or.inr ⟨rfl, by simp [hstack]⟩⟩
      | succ steps =>
        refine Or.inr (Or.inr ⟨done, b, rest, tally', steps, hstack, hdone, hopen b rest rfl,
          htally, rfl, ?_⟩)
        cases hstep : b.step with
        | progress b' =>
          exact Or.inr (Or.inr ⟨fun _ h => (by cases h), by simp [hstep, Step.results]⟩)
        | split b' alternatives =>
          by_cases hmany : rest.length + alternatives.length > t.maxBranches
          · exact Or.inr (Or.inl (by simp [hstep, hmany]))
          · exact Or.inr (Or.inr ⟨fun _ h => (by cases h),
              by simp [hstep, hmany, Step.results]⟩)
        | complete b' =>
          cases happrox : b'.approximate with
          | true => exact Or.inr (Or.inl (by simp [hstep, happrox]))
          | false => exact Or.inl ⟨b', rfl, happrox, by simp [hstep, happrox]⟩

/-- **Open runs.**  The branch that a run ends with has what the stack has and steps keep. -/
theorem work_open {t : Tableau} {isOver : Nat → Bool} {I : Branch → Prop}
    (hstep : ∀ b, I b → b.closed = false → ∀ b' ∈ b.step.results, I b') {n : Nat} :
    ∀ (steps looks : Nat) (stack : List Branch) (tally : Tally), (∀ b ∈ stack, I b) →
      t.work isOver steps looks stack tally = .open n →
      ∃ b, I b ∧ b.closed = false ∧ b.step = .complete b ∧ b.approximate = false := by
  intro steps
  -- every turn that does not end the run uses up a step
  induction steps using Nat.strong_induction_on with
  | _ steps ih =>
    intro looks stack tally hstack h
    rcases work_cases t isOver steps looks stack tally with
      ⟨part, hw, _⟩ | ⟨_, hw⟩ | ⟨done, b, rest, tally', steps', rfl, _, hb, _, rfl, hw⟩
    · rw [hw] at h
      cases h
    · rw [hw] at h
      split_ifs at h
    · have hlt := Nat.lt_succ_self steps'
      have hI : I b := hstack b (List.mem_append_right _ List.mem_cons_self)
      have hrest : ∀ b' ∈ rest, I b' := fun b' hb' =>
        hstack b' (List.mem_append_right _ (List.mem_cons_of_mem _ hb'))
      rcases hw with ⟨b', hcomplete, happrox, _⟩ | hw | ⟨_, hw⟩
      · obtain ⟨rfl, _⟩ := step_complete hcomplete happrox
        exact ⟨b', hI, hb, hcomplete, happrox⟩
      · exact ih _ hlt _ rest _ hrest (hw ▸ h)
      · refine ih _ hlt _ _ _ (fun b' hb' => ?_) (hw ▸ h)
        rcases List.mem_append.mp hb' with hb' | hb'
        · exact hstep b hI hb b' hb'
        · exact hrest b' hb'

/-- **Closed runs.**  A property that no closed branch has, and that always passes to a branch that
a step leads to, holds of no branch on the stack of a run that ends with all branches closed. -/
theorem work_closed {t : Tableau} {isOver : Nat → Bool} {S : Branch → Prop}
    (hopen : ∀ b, S b → b.closed = false)
    (hstep : ∀ b, S b → (∃ b' ∈ b.step.results, S b') ∨ ∃ b', b.step = .complete b')
    {branches worlds : Nat} :
    ∀ (steps looks : Nat) (stack : List Branch) (tally : Tally),
      t.work isOver steps looks stack tally = .closed branches worlds →
      tally.undecided = false ∧ ∀ b ∈ stack, ¬S b := by
  have hclosed : ∀ bs : List Branch, (∀ b ∈ bs, b.closed = true) → ∀ b ∈ bs, ¬S b := by
    intro bs hbs b hb hS
    exact absurd ((hbs b hb).symm.trans (hopen b hS)) Bool.noConfusion
  intro steps
  induction steps using Nat.strong_induction_on with
  | _ steps ih =>
    intro looks stack tally h
    rcases work_cases t isOver steps looks stack tally with
      ⟨part, hw, _⟩ | ⟨hall, hw⟩ | ⟨done, b, rest, tally', steps', rfl, hdone, _, hu, rfl, hw⟩
    · rw [hw] at h
      cases h
    · rw [hw] at h
      split_ifs at h with hu
      exact ⟨Bool.not_eq_true _ ▸ hu, hclosed stack hall⟩
    · have hlt := Nat.lt_succ_self steps'
      rcases hw with ⟨b', _, _, hw⟩ | hw | ⟨hcomplete, hw⟩
      · rw [hw] at h
        cases h
      · -- a branch that was given up leaves its mark, and then the run does not end as closed
        exact absurd (ih _ hlt _ rest _ (hw ▸ h)).1 Bool.noConfusion
      · obtain ⟨htally, hresults⟩ := ih _ hlt _ _ _ (hw ▸ h)
        refine ⟨hu ▸ htally, fun c hc => ?_⟩
        rcases List.mem_append.mp hc with hc | hc
        · exact hclosed done hdone c hc
        rcases List.mem_cons.mp hc with rfl | hc
        · intro hS
          rcases hstep c hS with ⟨b', hb', hS'⟩ | ⟨b', hb'⟩
          · exact hresults b' (List.mem_append_left _ hb') hS'
          · exact hcomplete b' hb'
        · exact hresults c (List.mem_append_right _ hc)

end Tableau

end Deontica
