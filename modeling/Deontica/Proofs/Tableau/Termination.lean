import Deontica.Proofs.Formula.Vocabulary
import Deontica.Proofs.Tableau.Run

/-!
# The tableau terminates

A branch grows by a few kinds of changes (`Branch.Change`), and each is limited: a formula is added
once, a world or a constant is made only below the limit, and a formula that is added has the names
of the problem and weighs no more than the problem does.  So there are only so many formulas that
can come to stand on a branch (`exists_length_seen_le`).

What is left to do on a branch is what can still be added, what is pending, and the worlds that can
still be made (`rank`).  Every step makes that less, and leads to two branches at most, so the steps
of all branches together are limited too (`work_ne_exhausted`).
-/

namespace Deontica

namespace Formula

theorem depth_le_weight (f : Formula) : f.depth ≤ f.weight := by
  induction f with
  | pred p args => exact Nat.le_refl _
  | not a ih => exact Nat.succ_le_succ ih
  | quant q x a ih => exact Nat.succ_le_succ ih
  | tense op a ih => exact Nat.succ_le_succ ih
  | deontic op a ih => cases op <;> simp only [depth, weight] <;> omega
  | binary op a b iha ihb => simp only [depth, weight]; omega
  | span op a b iha ihb => simp only [depth, weight]; omega

/-- The formula has names in `S` and arguments of at most `k` nodes, and weighs at most `n`. -/
def Within (S : Set String) (k n : Nat) (f : Formula) : Prop :=
  f.Over S Set.univ k ∧ f.weight ≤ n

theorem length_of_denial {f : Formula} {alternatives : List (List Formula)}
    (h : f.denial = .choice alternatives) : alternatives.length = 2 := by
  match f, h with
  | .binary op l r, h => cases op <;> cases h <;> rfl
  | .quant q x a, h => cases q <;> cases h
  | .deontic op a, h => cases op <;> cases h
  | .tense op a, h => cases op <;> cases h

/-- Where there is a choice, it is between two alternatives. -/
theorem length_of_demand {f : Formula} {alternatives : List (List Formula)}
    (h : f.demand = .choice alternatives) : alternatives.length = 2 := by
  match f, h with
  | .not a, h => exact length_of_denial h
  | .binary op l r, h => cases op <;> cases h <;> rfl
  | .quant q x a, h => cases q <;> cases h
  | .deontic op a, h => cases op <;> cases h
  | .tense op a, h => cases op <;> cases h
  | .span op l r, h => cases op <;> cases h <;> rfl

end Formula

namespace Branch

/-! ### Steps -/

theorem length_pick {pending rest : List Labelled} {p : Labelled}
    (h : pick pending = some (p, rest)) : rest.length + 1 = pending.length :=
  (pick_perm h).length_eq.symm

/-- Adding a formula leaves as much more pending as it adds. -/
theorem Change.balance {b b' : Branch} (h : Change b b') :
    b.worlds ≤ b'.worlds ∧
      b'.pending.length + b.seen.length = b.pending.length + b'.seen.length := by
  cases h with
  | add w f =>
    unfold Branch.add
    split_ifs
    · exact ⟨Nat.le_refl _, rfl⟩
    · exact ⟨Nat.le_refl _, rfl⟩
    · refine ⟨Nat.le_refl _, ?_⟩
      simp only [List.length_append, List.length_cons, List.length_nil]
      omega
  | withWorld _ => exact ⟨Nat.le_succ _, rfl⟩
  | _ => exact ⟨Nat.le_refl _, rfl⟩

theorem Grows.balance {b b' : Branch} (h : Grows b b') :
    b.worlds ≤ b'.worlds ∧
      b'.pending.length + b.seen.length = b.pending.length + b'.seen.length := by
  induction h with
  | refl => exact ⟨Nat.le_refl _, rfl⟩
  | tail _ hchange ih =>
    have := hchange.balance
    omega

/-- Giving successors to worlds makes a world, if it makes anything. -/
theorem worlds_lt_growAll {b : Branch} {ws : List (Relation × World)} {made : Bool}
    (h : (b.growAll made ws).1 = true) : made = true ∨ b.worlds < (b.growAll made ws).2.worlds := by
  induction ws generalizing b made with
  | nil => exact Or.inl h
  | cons p ps ih =>
    have hcons : b.growAll made (p :: ps) =
        growAll (b.grow made p.1 p.2).1 (b.grow made p.1 p.2).2 ps := rfl
    rw [hcons] at h ⊢
    have hgrows := Grows.growAll (b.grow made p.1 p.2).1 (b.grow made p.1 p.2).2 ps
    have hrest := ih h
    rcases grow_cases made b p.1 p.2 with hb | hb <;> rw [hb] at hgrows hrest ⊢
    · exact hrest
    · -- the first of the worlds has got a new one
      have hworlds := hgrows.balance.1
      rw [connect_eq, propagate_eq, addAll_worlds] at hworlds
      exact Or.inr hworlds

/-- **What a step does**: it takes something from what is pending, or it makes a world. -/
theorem step_grows {b b' : Branch} (h : b' ∈ b.step.results) :
    (∃ rest, rest.length + 1 = b.pending.length ∧ Grows (b.taking rest) b') ∨
      Grows b b' ∧ b.worlds < b'.worlds := by
  rcases step_cases b with ⟨w, f, rest, hpick, hstep⟩ | ⟨_, ⟨hmade, hstep⟩ | ⟨_, hstep⟩⟩ <;>
    rw [hstep] at h
  · exact Or.inl ⟨rest, length_pick hpick, (Grows.noting _ f).trans (Grows.meet _ w _ b' h)⟩
  · rw [List.mem_singleton.mp h]
    refine Or.inr ⟨Grows.serialize b, ?_⟩
    rw [serialize_eq] at hmade ⊢
    split_ifs at hmade ⊢
    exact (worlds_lt_growAll hmade).resolve_left Bool.noConfusion
  · exact absurd h List.not_mem_nil

/-- A step leads to two branches at most. -/
theorem length_results_le (b : Branch) : b.step.results.length ≤ 2 := by
  rcases step_cases b with ⟨w, f, rest, _, hstep⟩ | ⟨_, ⟨_, hstep⟩ | ⟨_, hstep⟩⟩ <;> rw [hstep]
  · cases hd : f.demand with
    | choice alternatives =>
      show ((alternatives.map _).map _).length ≤ 2
      rw [List.length_map, List.length_map, Formula.length_of_demand hd]
    | _ => exact Nat.le_succ 1
  · exact Nat.le_succ 1
  · exact Nat.zero_le 2

/-! ### How large a branch can get -/

/-- The worlds and the constants of the branch keep to the limit `m`, given the constants `D` of the
problem, and no formula is on the branch twice. -/
structure Confined (m : Nat) (D : Set String) (b : Branch) : Prop where
  maxWorlds : b.maxWorlds = m
  worlds : b.worlds ≤ max 1 m
  nodup : b.seen.Nodup
  /-- Each constant takes the numbering of fresh ones at most `m` further. -/
  fresh : b.fresh ≤ b.domain.length * m
  domain : ∀ c ∈ b.domain, c ∈ D ∨ ∃ i ≤ m * m, c = freshName i

namespace Confined

variable {m : Nat} {D : Set String} {b b' : Branch}

theorem start (logic : Logic) (m : Nat) {domain : List String} (h : ∀ c ∈ domain, c ∈ D) :
    Confined m D (Branch.start logic m domain) where
  maxWorlds := rfl
  worlds := le_max_left _ _
  nodup := List.nodup_nil
  fresh := Nat.zero_le _
  domain c hc := Or.inl (h c hc)

theorem change (h : Confined m D b) (hchange : Change b b') : Confined m D b' := by
  cases hchange with
  | add w f =>
    unfold Branch.add
    split_ifs with hseen
    · exact h
    · exact ⟨h.maxWorlds, h.worlds, h.nodup, h.fresh, h.domain⟩
    · refine ⟨h.maxWorlds, h.worlds, List.nodup_cons.mpr ⟨fun hmem => ?_, h.nodup⟩, h.fresh,
        h.domain⟩
      exact hseen (by simp [hmem])
  | withWorld hroom =>
    refine ⟨h.maxWorlds, ?_, h.nodup, h.fresh, h.domain⟩
    have := h.maxWorlds
    show b.worlds + 1 ≤ max 1 m
    omega
  | @withConstant n hroom hn =>
    rw [h.maxWorlds] at hroom
    -- the number of constants goes up by one, and the numbering by one more than that number
    have hfresh : n ≤ (b.domain.length + 1) * m := by
      have := h.fresh
      rw [Nat.succ_mul]
      omega
    refine ⟨h.maxWorlds, h.worlds, h.nodup, ?_, ?_⟩
    · show n ≤ (b.domain ++ [freshName n]).length * m
      rw [List.length_append]
      exact hfresh
    · intro c hc
      rcases List.mem_append.mp hc with hc | hc
      · exact h.domain c hc
      · exact Or.inr ⟨n, hfresh.trans (Nat.mul_le_mul_right m hroom), List.mem_singleton.mp hc⟩
  | _ => exact ⟨h.maxWorlds, h.worlds, h.nodup, h.fresh, h.domain⟩

theorem grows (h : Confined m D b) (hgrows : Grows b b') : Confined m D b' := by
  induction hgrows with
  | refl => exact h
  | tail _ hchange ih => exact ih.change hchange

theorem step (h : Confined m D b) : ∀ b' ∈ b.step.results, Confined m D b' := by
  intro b' hb'
  rcases step_grows hb' with ⟨rest, _, hgrows⟩ | ⟨hgrows, _⟩
  · have htaking : Confined m D (b.taking rest) :=
      ⟨h.maxWorlds, h.worlds, h.nodup, h.fresh, h.domain⟩
    exact htaking.grows hgrows
  · exact h.grows hgrows

end Confined

theorem hereditary_within (S : Set String) (k n : Nat) : Hereditary (Formula.Within S k n) where
  parts h hg := ⟨h.1.demand hg, (Formula.weight_lt_of_mem_demand hg).le.trans h.2⟩
  substitute {f} x _ h := ⟨h.1.substitute x trivial, (f.weight_substitute x _).le.trans h.2⟩

/-- **Only so many formulas can come to stand on a branch.** -/
theorem exists_length_seen_le {S D : Set String} (hS : S.Finite) (hD : D.Finite) (k n m : Nat) :
    ∃ size, ∀ b, WellFormed (Formula.Within S k n) b → Confined m D b → b.seen.length ≤ size := by
  -- the constants are those of the problem and the fresh ones that there can be
  have hC : (D ∪ freshName '' {i | i ≤ m * m}).Finite := hD.union ((Set.finite_le_nat _).image _)
  have hV := (Set.finite_lt_nat (max 1 m)).prod (Formula.finite_over hS hC k n)
  obtain ⟨size, hsize⟩ := exists_length_le hV
  refine ⟨size, fun b hwell hconf => hsize b.seen hconf.nodup fun p hp => ?_⟩
  obtain ⟨hworld, hconst, hover, hweight⟩ := hwell.seen p hp
  refine ⟨Nat.lt_of_lt_of_le hworld hconf.worlds, ⟨hover.names, fun c hc => ?_, hover.width⟩,
    p.2.depth_le_weight.trans hweight⟩
  rcases hconf.domain c (hconst hc) with hc | ⟨i, hi, rfl⟩
  · exact Or.inl hc
  · exact Or.inr ⟨i, hi, rfl⟩

/-- What is left to do on a branch that can get `size` formulas and `m` worlds. -/
def rank (size m : Nat) (b : Branch) : Nat :=
  (size - b.seen.length) + b.pending.length + (max 1 m - b.worlds)

/-- **A step leaves less to do.** -/
theorem rank_lt {size m : Nat} {b b' : Branch} (h : b' ∈ b.step.results)
    (hb : b.seen.length ≤ size) (hb' : b'.seen.length ≤ size) (hworlds : b'.worlds ≤ max 1 m) :
    b'.rank size m < b.rank size m := by
  unfold rank
  rcases step_grows h with ⟨rest, hrest, hgrows⟩ | ⟨hgrows, hlt⟩
  · obtain ⟨hle, hbalance⟩ := hgrows.balance
    have hle : b.worlds ≤ b'.worlds := hle
    have hbalance : b'.pending.length + b.seen.length = rest.length + b'.seen.length := hbalance
    omega
  · obtain ⟨_, hbalance⟩ := hgrows.balance
    omega

end Branch

namespace Tableau

open Branch

/-! ### How long a run can get -/

/-- The steps that a branch can take with `n` left to do, where each may lead to two branches. -/
def effort : Nat → Nat
  | 0 => 1
  | n + 1 => 2 * effort n + 1

theorem lt_effort (n : Nat) : n < effort n := by
  induction n with
  | zero => exact Nat.one_pos
  | succ n ih =>
    show n + 1 < 2 * effort n + 1
    omega

theorem effort_mono {m n : Nat} (h : m ≤ n) : effort m ≤ effort n := by
  induction h with
  | refl => exact Nat.le_refl _
  | @step n _ ih =>
    show effort m ≤ 2 * effort n + 1
    omega

/-- The steps that a stack of branches can take. -/
def toil (rank : Branch → Nat) : List Branch → Nat
  | [] => 0
  | b :: stack => effort (rank b) + toil rank stack

theorem toil_pos (rank : Branch → Nat) {stack : List Branch} (h : stack ≠ []) :
    0 < toil rank stack := by
  cases stack with
  | nil => exact absurd rfl h
  | cons b stack =>
    have := lt_effort (rank b)
    simp only [toil]
    omega

theorem toil_append (rank : Branch → Nat) (stack stack' : List Branch) :
    toil rank (stack ++ stack') = toil rank stack + toil rank stack' := by
  induction stack with
  | nil => simp [toil]
  | cons b stack ih => simp [toil, ih, Nat.add_assoc]

theorem toil_le {rank : Branch → Nat} {n : Nat} {stack : List Branch}
    (h : ∀ b ∈ stack, rank b ≤ n) : toil rank stack ≤ stack.length * effort n := by
  induction stack with
  | nil => exact Nat.zero_le _
  | cons b stack ih =>
    obtain ⟨hb, hstack⟩ := List.forall_mem_cons.mp h
    have := effort_mono hb
    have := ih hstack
    simp only [toil, List.length_cons, Nat.succ_mul]
    omega

section Run

variable {I : Branch → Prop} {rank : Branch → Nat}
  (hstep : ∀ b, I b → ∀ b' ∈ b.step.results, I b' ∧ rank b' < rank b)

include hstep

/-- A step takes more from what a branch can do than it gives to the branches it leads to. -/
theorem toil_results_lt {b : Branch} (hb : I b) : toil rank b.step.results < effort (rank b) := by
  cases hrank : rank b with
  | zero =>
    have hnil : b.step.results = [] := by
      rw [List.eq_nil_iff_forall_not_mem]
      intro b' hb'
      have := (hstep b hb b' hb').2
      omega
    rw [hnil]
    exact Nat.one_pos
  | succ n =>
    have hle : toil rank b.step.results ≤ b.step.results.length * effort n := by
      apply toil_le
      intro b' hb'
      have := (hstep b hb b' hb').2
      omega
    have htwo := Nat.mul_le_mul_right (effort n) (length_results_le b)
    show _ < 2 * effort n + 1
    omega

/-- **Enough steps are never used up.** -/
theorem work_ne_exhausted (t : Tableau) {isOver : Nat → Bool} (hover : ∀ i, isOver i = false)
    (part : Exhaustion) :
    ∀ (steps looks : Nat) (stack : List Branch) (tally : Tally), (∀ b ∈ stack, I b) →
      toil rank stack ≤ steps → t.work isOver steps looks stack tally ≠ .exhausted part := by
  intro steps
  induction steps using Nat.strong_induction_on with
  | _ steps ih =>
    intro looks stack tally hstack htoil
    rcases work_cases t isOver steps looks stack tally with
      ⟨part', _, hwhy⟩ | ⟨_, hw⟩ | ⟨done, b, rest, tally', steps', rfl, _, _, _, rfl, hw⟩
    · rcases hwhy with htime | ⟨rfl, hne⟩
      · rw [hover] at htime
        cases htime
      · have := toil_pos rank hne
        omega
    · rw [hw]
      split_ifs <;> exact Verdict.noConfusion
    · have hI : I b := hstack b (List.mem_append_right _ List.mem_cons_self)
      have hrest : ∀ b' ∈ rest, I b' := fun b' hb' =>
        hstack b' (List.mem_append_right _ (List.mem_cons_of_mem _ hb'))
      have hlt := Nat.lt_succ_self steps'
      have hless := toil_results_lt hstep hI
      rw [toil_append] at htoil
      simp only [toil] at htoil
      rcases hw with ⟨b', _, _, hw⟩ | hw | ⟨_, hw⟩ <;> rw [hw]
      · exact Verdict.noConfusion
      · exact ih _ hlt _ rest _ hrest (by omega)
      · apply ih _ hlt
        · intro b' hb'
          rcases List.mem_append.mp hb' with hb' | hb'
          · exact (hstep b hI b' hb').1
          · exact hrest b' hb'
        · rw [toil_append]
          omega

/-- No path from a branch takes more steps than there is to do on the branch. -/
theorem length_le_rank {b : Branch} {path : List Branch} (hb : I b)
    (hpath : (b :: path).IsChain fun b b' => b' ∈ b.step.results) : path.length ≤ rank b := by
  induction path generalizing b with
  | nil => exact Nat.zero_le _
  | cons b' path ih =>
    obtain ⟨hnext, hpath⟩ := List.isChain_cons_cons.mp hpath
    obtain ⟨hb', hlt⟩ := hstep b hb b' hnext
    have := ih hb' hpath
    simp only [List.length_cons]
    omega

end Run

/-- The branch to start with is confined, and no more is left to do on it than on an empty one. -/
theorem confined_root (t : Tableau) {D : Set String} {premises : List Formula} {goal : Formula}
    (h : ∀ f ∈ premises ++ [goal.negation], ∀ c ∈ f.constantOccurrences, c ∈ D) :
    Confined t.maxWorlds D (t.root premises goal) ∧ ∀ size,
      (t.root premises goal).seen.length ≤ size →
      (t.root premises goal).rank size t.maxWorlds ≤ size + max 1 t.maxWorlds := by
  rw [root_eq]
  have hgrows := Grows.addAll (start t.logic t.maxWorlds
    (SortedSet.ofList ((premises ++ [goal]).flatMap (·.constantOccurrences))))
    ((premises ++ [goal.negation]).map (0, ·))
  generalize Branch.addAll _ _ = root at hgrows ⊢
  constructor
  · refine (Confined.start t.logic t.maxWorlds fun c hc => ?_).grows hgrows
    rw [SortedSet.mem_ofList, List.mem_flatMap] at hc
    obtain ⟨f, hf, hc⟩ := hc
    rcases List.mem_append.mp hf with hf | hf
    · exact h f (List.mem_append_left _ hf) c hc
    · rw [List.mem_singleton.mp hf, ← Formula.constantOccurrences_negation] at hc
      exact h _ (List.mem_append_right _ List.mem_cons_self) c hc
  · intro size hsize
    have hbalance : root.pending.length + 0 = 0 + root.seen.length := hgrows.balance.2
    unfold Branch.rank
    omega

/-- **The tableau terminates.**  For all problems over one vocabulary, within one weight and one
limit of worlds, there is a number of steps that is never used up and that no path exceeds. -/
theorem exists_bound {S D : Set String} (hS : S.Finite) (hD : D.Finite) (k n m : Nat) :
    ∃ bound, ∀ (t : Tableau) (premises : List Formula) (goal : Formula), t.maxWorlds = m →
      (∀ f ∈ premises ++ [goal.negation], f.Over S D k ∧ f.weight ≤ n) →
      (∀ (isOver : Nat → Bool) (steps looks : Nat) (part : Exhaustion),
        (∀ i, isOver i = false) → bound ≤ steps →
        t.refute premises goal isOver steps looks ≠ .exhausted part) ∧
      ∀ path : List Branch,
        (t.root premises goal :: path).IsChain (fun b b' => b' ∈ b.step.results) →
        path.length ≤ bound := by
  obtain ⟨size, hsize⟩ := exists_length_seen_le hS hD k n m
  refine ⟨effort (size + max 1 m), ?_⟩
  rintro t premises goal rfl hproblem
  obtain ⟨hconf, hrank⟩ := t.confined_root (D := D) fun f hf => (hproblem f hf).1.constants
  have hwell : WellFormed (Formula.Within S k n) (t.root premises goal) := by
    apply t.wellFormed_root
    intro f hf
    obtain ⟨hover, hweight⟩ := hproblem f hf
    exact ⟨⟨hover.names, fun _ _ => trivial, hover.width⟩, hweight⟩
  have hrank := hrank size (hsize _ hwell hconf)
  have hstep : ∀ b, WellFormed (Formula.Within S k n) b ∧ Confined t.maxWorlds D b →
      ∀ b' ∈ b.step.results,
        (WellFormed (Formula.Within S k n) b' ∧ Confined t.maxWorlds D b') ∧
          b'.rank size t.maxWorlds < b.rank size t.maxWorlds := by
    rintro b ⟨hb, hc⟩ b' hb'
    have hwell' := hb.step (hereditary_within S k n) b' hb'
    have hconf' := hc.step b' hb'
    exact ⟨⟨hwell', hconf'⟩,
      rank_lt hb' (hsize b hb hc) (hsize b' hwell' hconf') hconf'.worlds⟩
  constructor
  · intro isOver steps looks part hover hle
    refine work_ne_exhausted hstep t hover part steps looks _ _ ?_ ?_
    · rw [List.forall_mem_singleton]
      exact ⟨hwell, hconf⟩
    · exact (effort_mono hrank).trans hle
  · intro path hpath
    have hlen := length_le_rank hstep ⟨hwell, hconf⟩ hpath
    have := lt_effort (size + max 1 t.maxWorlds)
    omega

end Tableau

end Deontica
