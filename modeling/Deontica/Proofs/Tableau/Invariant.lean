import Deontica.Proofs.Tableau.Saturation
import Deontica.Proofs.Tableau.Termination

/-!
# The invariant of open branches

Edges, boxes, universal formulas and constants come to a branch at different times and in any order,
and each of them has to be applied to those that are there already.  `Invariant` says that this has
been done, whatever is still pending: it holds of every branch that is reached by adding the
formulas of the problem, expanding pending formulas in any order, going on with an alternative, and
giving successors, unless the branch is closed (`invariant_of_reached`).

A run expands the pending formulas in an order of its own.  It is a machine that takes one `turn`
after another until it has a verdict (`verdict_eq`), and all branches on its stack are reached
(`Visits.reached`).
-/

namespace Deontica

namespace Tableau

open Branch

/-! ### Branches that are reached -/

/-- A branch that is reached from the empty one with the given constants. -/
inductive Reached (t : Tableau) (premises : List Formula) (goal : Formula)
    (domain : List String) : Branch → Prop
  | start : Reached t premises goal domain (Branch.start t.logic t.maxWorlds domain)
  /-- A premise or the negation of the goal is added at the first world. -/
  | add {b : Branch} {f : Formula} : Reached t premises goal domain b →
      f ∈ premises ++ [goal.negation] → Reached t premises goal domain (b.add 0 f)
  /-- Any of the pending formulas is expanded. -/
  | expand {b b' : Branch} {w : World} {f : Formula} {rest : List Labelled} :
      Reached t premises goal domain b → b.pending.Perm ((w, f) :: rest) →
      expand { b with pending := rest } w f = .progress b' → Reached t premises goal domain b'
  /-- Some of an alternative has been added, up to all of it. -/
  | split {b b' : Branch} {w : World} {f : Formula} {rest alternative fs : List Labelled}
      {alternatives : List (List Labelled)} :
      Reached t premises goal domain b → b.pending.Perm ((w, f) :: rest) →
      expand { b with pending := rest } w f = .split b' alternatives →
      alternative ∈ alternatives → fs <+: alternative →
      Reached t premises goal domain (b'.addAll fs)
  /-- Worlds that need a successor get one. -/
  | serialize {b : Branch} : Reached t premises goal domain b →
      Reached t premises goal domain b.serialize.2

/-- What holds of a branch that is not closed. -/
structure Invariant (t : Tableau) (b : Branch) : Prop where
  reflexive : t.logic.isReflexive = true → ∀ r, ∀ w < b.worlds, ⟨r, w, w⟩ ∈ b.edges
  symmetric : t.logic.isSymmetric = true → ∀ r v w, ⟨r, v, w⟩ ∈ b.edges → ⟨r, w, v⟩ ∈ b.edges
  transitive : t.logic.isTransitive = true → ∀ r u v w,
    ⟨r, u, v⟩ ∈ b.edges → ⟨r, v, w⟩ ∈ b.edges → ⟨r, u, w⟩ ∈ b.edges
  /-- Every box has been applied to every successor. -/
  boxes : ∀ r w a v, (r, w, a) ∈ b.boxes → ⟨r, w, v⟩ ∈ b.edges → (v, a) ∈ b.seen
  /-- Every universal formula has been applied to every constant. -/
  universals : ∀ w x a, (w, x, a) ∈ b.universals → ∀ c ∈ b.domain,
    (w, a.substitute x (.const c)) ∈ b.seen
  constants : ∀ w f, (w, f) ∈ b.seen → f.constantOccurrences ⊆ b.domain
  /-- A constant that is made next is new. -/
  fresh : ∀ c, b.freshConstant.1 = some c →
    c ∉ b.domain ∧ ∀ w f, (w, f) ∈ b.seen → c ∉ f.constantOccurrences
  literals : ∀ w p args, (w, .pred p args) ∈ b.seen → (w, .not (.pred p args)) ∉ b.seen
  pending : b.pending ⊆ b.seen
  seen : ∀ w f, (w, f) ∈ b.seen → w < b.worlds
  edges : ∀ r v w, ⟨r, v, w⟩ ∈ b.edges → v < b.worlds ∧ w < b.worlds
  nextOf : ∀ w v, (w, v) ∈ b.nextOf → w < b.worlds ∧ v < b.worlds
  worlds : b.worlds ≤ max 1 t.maxWorlds

/-- What holds of all branches that are reached, the closed ones too. -/
structure Kept (t : Tableau) (domain : List String) (b : Branch) : Prop where
  wellFormed : WellFormed (fun _ => True) b
  logic : b.logic = t.logic
  confined : Confined t.maxWorlds {c | c ∈ domain} b
  worlds : 0 < b.worlds
  domain : domain ⊆ b.domain
  coherent : b.closed = false → Coherent b.domain b

namespace Kept

variable {t : Tableau} {domain : List String} {b b' : Branch} {w : World} {f : Formula}

theorem start (t : Tableau) (domain : List String) :
    t.Kept domain (Branch.start t.logic t.maxWorlds domain) where
  wellFormed := .start _ _ _ _
  logic := rfl
  confined := .start _ _ fun _ hc => hc
  worlds := Nat.one_pos
  domain := List.Subset.refl _
  coherent _ := .start _ _ _

/-- A branch that grows has to be looked at again for its form and coherence only. -/
theorem grows (h : t.Kept domain b) (hgrows : Grows b b') (hwf : WellFormed (fun _ => True) b')
    (hcoh : Coherent b.domain b → b'.closed = false → Coherent b'.domain b') :
    t.Kept domain b' where
  wellFormed := hwf
  logic := hgrows.extends.logic.trans h.logic
  confined := h.confined.grows hgrows
  worlds := Nat.lt_of_lt_of_le h.worlds hgrows.extends.worlds
  domain := List.Subset.trans h.domain hgrows.extends.domain
  coherent hopen := hcoh (h.coherent (hgrows.extends.closed hopen)) hopen

theorem addAll (h : t.Kept domain b) {fs : List Labelled}
    (hfs : ∀ p ∈ fs, b.Admits (fun _ => True) p) : t.Kept domain (b.addAll fs) := by
  refine h.grows (.addAll b fs) (h.wellFormed.addAll hfs) fun hcoh _ => ?_
  rw [addAll_domain]
  exact hcoh.addAll fs

theorem taking (h : t.Kept domain b) {rest : List Labelled} (hrest : rest ⊆ b.pending) :
    t.Kept domain (b.taking rest) where
  wellFormed := h.wellFormed.taking hrest
  logic := h.logic
  confined := ⟨h.confined.maxWorlds, h.confined.worlds, h.confined.nodup, h.confined.fresh,
    h.confined.domain⟩
  worlds := h.worlds
  domain := h.domain
  coherent hopen := (h.coherent hopen).taking rest

theorem noting (h : t.Kept domain b) (f : Formula) : t.Kept domain (b.noting f) :=
  h.grows (.noting b f) (h.wellFormed.noting f) fun hcoh _ => hcoh.noting f

theorem meet (h : t.Kept domain b) (hf : (w, f) ∈ b.seen) :
    ∀ b' ∈ (b.meet w f.demand).results, t.Kept domain b' := fun b' hb' =>
  h.grows (.meet b w _ b' hb') (h.wellFormed.meet hereditary_true hf b' hb') fun hcoh hopen =>
    hcoh.meet h.wellFormed w f.demand b' hb' hopen

theorem serialize (h : t.Kept domain b) : t.Kept domain b.serialize.2 :=
  h.grows (.serialize b) (h.wellFormed.serialize hereditary_true) fun hcoh hopen =>
    .serialize (fun _ => hcoh) h.wellFormed hereditary_true hopen

/-- A choice leaves the branch as it is, and each of its formulas may stand on it. -/
theorem split (h : t.Kept domain b) (hf : (w, f) ∈ b.seen) {alternatives : List (List Labelled)}
    (hsplit : b.meet w f.demand = .split b' alternatives) {alternative fs : List Labelled}
    (halternative : alternative ∈ alternatives) (hfs : fs <+: alternative) :
    t.Kept domain (b'.addAll fs) := by
  cases hd : f.demand with
  | choice choices =>
    rw [hd] at hsplit
    obtain ⟨rfl, rfl⟩ := Step.split.inj hsplit
    obtain ⟨choice, hchoice, rfl⟩ := List.mem_map.mp halternative
    apply h.addAll
    intro p hp
    obtain ⟨g, hg, rfl⟩ := List.mem_map.mp (hfs.subset hp)
    apply h.wellFormed.admits_part hereditary_true hf (h.wellFormed.seen _ hf).1
    rw [hd]
    exact List.mem_flatten.mpr ⟨choice, hchoice, hg⟩
  | _ =>
    rw [hd] at hsplit
    cases hsplit

/-- The pending formula that is to be expanded is on the branch without it. -/
theorem picked (h : t.Kept domain b) {rest : List Labelled}
    (hperm : b.pending.Perm ((w, f) :: rest)) :
    t.Kept domain ((b.taking rest).noting f) ∧ (w, f) ∈ ((b.taking rest).noting f).seen := by
  have hrest : rest ⊆ b.pending := fun p hp => hperm.mem_iff.mpr (List.mem_cons_of_mem _ hp)
  refine ⟨(h.taking hrest).noting f, (Extends.noting _ f).seen ?_⟩
  exact h.wellFormed.pending (hperm.mem_iff.mpr List.mem_cons_self)

theorem invariant (h : t.Kept domain b) (hopen : b.closed = false) : t.Invariant b := by
  have hwf := h.wellFormed
  have hcoh := h.coherent hopen
  have hconstants : ∀ w f, (w, f) ∈ b.seen → f.constantOccurrences ⊆ b.domain :=
    fun w f hf => (hwf.seen _ hf).2.1
  constructor
  case reflexive => exact h.logic ▸ hwf.reflexive
  case symmetric => exact fun hlogic r v w => hwf.closed.symmetric (h.logic ▸ hlogic)
  case transitive => exact fun hlogic r u v w => hwf.closed.transitive (h.logic ▸ hlogic)
  case boxes => exact hcoh.boxes
  case universals => exact hcoh.universals
  case constants => exact hconstants
  case fresh =>
    -- all constants of the branch are in its domain, and a fresh one is not
    intro c hc
    have hnew : c ∉ b.domain := by
      rcases freshConstant_cases b with hb | ⟨n, hn, hb⟩ <;> rw [hb] at hc
      · cases hc
      · obtain rfl := Option.some.inj hc
        exact hn
    exact ⟨hnew, fun w f hf hmem => hnew (hconstants w f hf hmem)⟩
  case literals => exact hcoh.literals
  case pending => exact hwf.pending
  case seen => exact fun w f hf => (hwf.seen _ hf).1
  case edges => exact fun r v w he => hwf.range _ he
  case nextOf => exact fun w v hv => hwf.range _ (hwf.nextOf w v hv)
  case worlds => exact h.confined.worlds

end Kept

/-- **Every way to go on keeps a branch**, if it is given the constants of the problem. -/
theorem Reached.kept {t : Tableau} {premises : List Formula} {goal : Formula}
    {domain : List String} (hdomain : ∀ f ∈ premises ++ [goal], f.constantOccurrences ⊆ domain)
    {b : Branch} (h : t.Reached premises goal domain b) : t.Kept domain b := by
  induction h with
  | start => exact .start t domain
  | @add b f _ hf ih =>
    rw [add_eq_addAll]
    apply ih.addAll
    intro p hp
    rw [List.mem_singleton.mp hp]
    exact ⟨ih.worlds, List.Subset.trans (constants_subset hdomain f hf) ih.domain, trivial⟩
  | expand _ hperm hexpand ih =>
    rw [expand_eq] at hexpand
    obtain ⟨hpicked, hf⟩ := ih.picked hperm
    exact hpicked.meet hf _ (hexpand ▸ List.mem_singleton.mpr rfl)
  | split _ hperm hexpand halternative hfs ih =>
    rw [expand_eq] at hexpand
    obtain ⟨hpicked, hf⟩ := ih.picked hperm
    exact hpicked.split hf hexpand halternative hfs
  | serialize _ ih => exact ih.serialize

/-! ### Runs -/

/-- Where a run stands: the steps left, the looks at the watch so far, the branches that wait and
what is known of those that are done. -/
structure State where
  steps : Nat
  looks : Nat
  stack : List Branch
  tally : Tally

/-- What is done between two looks at the watch: there is a verdict, or the run goes on. -/
def turn (t : Tableau) (isOver : Nat → Bool) (s : State) : Verdict ⊕ State :=
  match settle s.stack s.tally with
  | ([], tally) => .inl (if tally.undecided then .incomplete else .closed tally.closed tally.worlds)
  | (b :: rest, tally) =>
    if isOver s.looks then .inl (.exhausted .time)
    else
      match s.steps with
      | 0 => .inl (.exhausted .steps)
      | steps + 1 =>
        match b.step with
        | .progress b => .inr ⟨steps, s.looks + 1, b :: rest, tally⟩
        | .split b alternatives =>
          if rest.length + alternatives.length > t.maxBranches then
            .inr ⟨steps, s.looks + 1, rest, { tally with undecided := true }⟩
          else .inr ⟨steps, s.looks + 1, alternatives.map b.addAll ++ rest, tally⟩
        | .complete b =>
          if b.approximate then .inr ⟨steps, s.looks + 1, rest, { tally with undecided := true }⟩
          else .inl (.open b.worlds)

/-- The verdict of a run from where it stands. -/
def verdict (t : Tableau) (isOver : Nat → Bool) (s : State) : Verdict :=
  t.work isOver s.steps s.looks s.stack s.tally

/-- **A run takes one turn after another until there is a verdict.** -/
theorem verdict_eq (t : Tableau) (isOver : Nat → Bool) (s : State) :
    t.verdict isOver s = (t.turn isOver s).elim id (t.verdict isOver) := by
  rw [verdict, work.eq_def, turn]
  generalize settle s.stack s.tally = settled
  obtain ⟨_ | ⟨b, rest⟩, tally⟩ := settled
  · rfl
  · cases isOver s.looks with
    | true => rfl
    | false =>
      cases s.steps with
      | zero => rfl
      | succ steps =>
        cases hstep : b.step with
        | progress b' => simp [hstep, verdict]
        | split b' alternatives =>
          by_cases hmany : rest.length + alternatives.length > t.maxBranches <;>
            simp [hstep, hmany, verdict]
        | complete b' => cases happrox : b'.approximate <;> simp [hstep, happrox, verdict]

/-- A state that a run comes to. -/
inductive Visits (t : Tableau) (premises : List Formula) (goal : Formula) (isOver : Nat → Bool)
    (steps looks : Nat) : State → Prop
  | start : Visits t premises goal isOver steps looks
      ⟨steps, looks, [t.root premises goal], ⟨0, 1, false⟩⟩
  | turn {s s' : State} : Visits t premises goal isOver steps looks s →
      t.turn isOver s = .inr s' → Visits t premises goal isOver steps looks s'

/-- The branches that wait after a turn waited before, or a step on one of those leads to them. -/
theorem mem_stack_of_turn {t : Tableau} {isOver : Nat → Bool} {s s' : State}
    (h : t.turn isOver s = .inr s') :
    ∀ b' ∈ s'.stack, b' ∈ s.stack ∨ ∃ b ∈ s.stack, b' ∈ b.step.results := by
  obtain ⟨done, hstack, -⟩ := settle_spec s.stack s.tally
  unfold turn at h
  generalize settle s.stack s.tally = settled at h hstack
  obtain ⟨_ | ⟨b, rest⟩, tally⟩ := settled
  · cases h
  -- the top branch and those below were on the stack before it was settled
  have hrest : ∀ b' ∈ rest, b' ∈ s.stack := fun b' hb' => by
    rw [hstack]
    exact List.mem_append_right _ (List.mem_cons_of_mem _ hb')
  have htop : b ∈ s.stack := by
    rw [hstack]
    exact List.mem_append_right _ List.mem_cons_self
  dsimp only at h
  split_ifs at h
  split at h
  · cases h
  · split at h
    · rename_i b' hstep
      cases h
      intro b'' hb''
      rcases List.mem_cons.mp hb'' with rfl | hb''
      · exact Or.inr ⟨b, htop, hstep ▸ List.mem_singleton.mpr rfl⟩
      · exact Or.inl (hrest _ hb'')
    · rename_i b' alternatives hstep
      split_ifs at h <;> cases h
      · exact fun b'' hb'' => Or.inl (hrest _ hb'')
      · intro b'' hb''
        rcases List.mem_append.mp hb'' with hb'' | hb''
        · exact Or.inr ⟨b, htop, hstep ▸ hb''⟩
        · exact Or.inl (hrest _ hb'')
    · split_ifs at h
      cases h
      exact fun b'' hb'' => Or.inl (hrest _ hb'')

section Visited

variable {t : Tableau} {premises : List Formula} {goal : Formula} {domain : List String}
  {b b' : Branch}

theorem Reached.addAll (h : t.Reached premises goal domain b) {fs : List Formula}
    (hfs : ∀ f ∈ fs, f ∈ premises ++ [goal.negation]) :
    t.Reached premises goal domain (b.addAll (fs.map (0, ·))) := by
  induction fs generalizing b with
  | nil => exact h
  | cons f fs ih =>
    rw [List.forall_mem_cons] at hfs
    exact ih (h.add hfs.1) hfs.2

theorem Reached.step (h : t.Reached premises goal domain b) (hb' : b' ∈ b.step.results) :
    t.Reached premises goal domain b' := by
  unfold Branch.step at hb'
  split at hb'
  · rename_i w f rest hpick
    have hperm := pick_perm hpick
    cases hexpand : Branch.expand { b with pending := rest } w f with
    | progress b'' =>
      rw [hexpand] at hb'
      rw [List.mem_singleton.mp hb']
      exact h.expand hperm hexpand
    | split b'' alternatives =>
      rw [hexpand] at hb'
      obtain ⟨alternative, halternative, rfl⟩ := List.mem_map.mp hb'
      exact h.split hperm hexpand halternative (List.prefix_refl _)
    | complete b'' =>
      rw [hexpand] at hb'
      exact absurd hb' List.not_mem_nil
  · -- nothing is pending, and the step goes on if a successor was made
    have hserialize := h.serialize
    generalize b.serialize = made at hb' hserialize
    obtain ⟨_ | _, b''⟩ := made
    · exact absurd hb' List.not_mem_nil
    · rw [List.mem_singleton.mp hb']
      exact hserialize

variable {isOver : Nat → Bool} {steps looks : Nat} {s : State}

/-- From every state that it comes to, a run goes on to its verdict. -/
theorem Visits.verdict_eq (h : t.Visits premises goal isOver steps looks s) :
    t.verdict isOver s = t.refute premises goal isOver steps looks := by
  induction h with
  | start => rfl
  | @turn s s' _ hturn ih => rw [← ih, Tableau.verdict_eq t isOver s, hturn, Sum.elim_inr]

/-- All branches that wait in a run are reached from the constants of the problem. -/
theorem Visits.reached (h : t.Visits premises goal isOver steps looks s) : ∀ b ∈ s.stack,
    t.Reached premises goal
      (SortedSet.ofList ((premises ++ [goal]).flatMap (·.constantOccurrences))) b := by
  induction h with
  | start =>
    intro b hb
    rw [List.mem_singleton.mp hb, root_eq]
    exact Reached.start.addAll fun _ hf => hf
  | turn _ hturn ih =>
    intro b' hb'
    rcases mem_stack_of_turn hturn b' hb' with hb' | ⟨b, hb, hb'⟩
    · exact ih b' hb'
    · exact (ih b hb).step hb'

end Visited

/-- **The invariant of open branches.**  A branch that is reached, in whatever order its formulas
are expanded, is closed or has the invariant, if the constants at the start are all that the problem
has; and so it is with all branches on the stack of a run, at any time on its way to its verdict. -/
theorem invariant_of_reached (t : Tableau) (premises : List Formula) (goal : Formula) :
    (∀ domain, (∀ f ∈ premises ++ [goal], f.constantOccurrences ⊆ domain) →
      ∀ b, t.Reached premises goal domain b → b.closed = true ∨ t.Invariant b) ∧
    ∀ isOver steps looks s, t.Visits premises goal isOver steps looks s →
      t.verdict isOver s = t.refute premises goal isOver steps looks ∧
      ∀ b ∈ s.stack, t.Reached premises goal
          (SortedSet.ofList ((premises ++ [goal]).flatMap (·.constantOccurrences))) b ∧
        (b.closed = true ∨ t.Invariant b) := by
  have hreached : ∀ domain, (∀ f ∈ premises ++ [goal], f.constantOccurrences ⊆ domain) →
      ∀ b, t.Reached premises goal domain b → b.closed = true ∨ t.Invariant b := by
    intro domain hdomain b hb
    cases hclosed : b.closed with
    | true => exact Or.inl rfl
    | false => exact Or.inr ((hb.kept hdomain).invariant hclosed)
  refine ⟨hreached, fun isOver steps looks s hs => ⟨hs.verdict_eq, fun b hb => ?_⟩⟩
  have hb' := hs.reached b hb
  exact ⟨hb', hreached _ (constants_subset_ofList _) b hb'⟩

/-- A box that was there before its world had a successor is applied when there is one. -/
theorem invariant_of_reached_successor :
    ∃ b, (⟨.K, 4, 4⟩ : Tableau).Reached [.always (.pred "P" []), .eventually (.pred "Q" [])]
        (.pred "R" []) [] b ∧
      b.closed = false ∧ (.temporal, 0, .pred "P" []) ∈ b.boxes ∧ ⟨.temporal, 0, 1⟩ ∈ b.edges ∧
      (1, .pred "P" []) ∈ b.seen := by
  let p : Formula := .pred "P" []
  let q : Formula := .pred "Q" []
  let b₀ := ((Branch.start .K 4 []).add 0 p.always).add 0 q.eventually
  let b₁ := Branch.box { b₀ with pending := [(0, q.eventually)] } .temporal 0 p
  let b₂ := Branch.diamond { b₁ with pending := [] } .temporal 0 q
  have hadded : (⟨.K, 4, 4⟩ : Tableau).Reached [p.always, q.eventually] (.pred "R" []) [] b₀ :=
    (Reached.start.add (by simp)).add (by simp)
  have hpending₀ : b₀.pending.Perm [(0, p.always), (0, q.eventually)] := .refl _
  have hpending₁ : b₁.pending.Perm [(0, q.eventually)] := .refl _
  have hb₂ := (hadded.expand hpending₀ rfl).expand hpending₁ rfl
  have hopen : b₂.closed = false := by decide +kernel
  have hedge : ⟨.temporal, 0, 1⟩ ∈ b₂.edges := by decide +kernel
  have hbox : (.temporal, 0, p) ∈ b₂.boxes := by decide +kernel
  rcases (invariant_of_reached _ _ _).1 [] (by decide +kernel) b₂ hb₂ with hclosed | h
  · rw [hopen] at hclosed
    cases hclosed
  · exact ⟨b₂, hb₂, hopen, hbox, hedge, h.boxes _ _ _ _ hbox hedge⟩

end Tableau

end Deontica
