import Deontica.Proofs.Engine
import Deontica.Proofs.Session

/-!
# How the knowledge of a session grows

Whatever is asked of a session, its knowledge base changes only by theorems that are added
(`base_after_of_addTheorem`), so what an added theorem cannot spoil holds for good: the axioms stay,
no theorem is there twice or is an axiom, and none is taken away.  The theorems are the goals that
were proved and are not axioms, in the order in which they were first proved (`theorems_after`).

A goal that is among the facts is proved without a step and before anybody looks at the watch
(`prove_of_mem`), unless a formula of the problem is too deep.  A goal proved once is among the
facts ever after, and no fact that came later can be too deep, since it was proved too.
-/

namespace Deontica

namespace Engine

variable {config : EngineConfig} {goal : Formula} {axioms : List Formula} {budget : Budget}
  {watch : Watch}

/-- A problem with a formula that is too deep is not proved. -/
theorem depth_le_of_proved (h : (prove config goal axioms budget watch).status = .proved) :
    ∀ f ∈ goal :: axioms, f.depth ≤ config.maxFormulaDepth := by
  rw [← find?_eq_none_iff]
  cases hdeep : (goal :: axioms).find? (config.maxFormulaDepth < ·.depth) with
  | none => rfl
  | some f =>
    unfold prove at h
    rw [hdeep] at h
    cases h

/-- **A goal that is among the axioms is proved without a step**, whatever the budget is and
whatever the watch says. -/
theorem prove_of_mem (hgoal : goal ∈ axioms)
    (hdeep : ∀ f ∈ axioms, f.depth ≤ config.maxFormulaDepth) :
    (prove config goal axioms budget watch).status = .proved ∧
      (prove config goal axioms budget watch).steps = [] := by
  have hnone : (goal :: axioms).find? (config.maxFormulaDepth < ·.depth) = none :=
    find?_eq_none_iff.mpr (List.forall_mem_cons.mpr ⟨hdeep goal hgoal, hdeep⟩)
  have hfound : (Search.start goal axioms).goal ∈ (Search.start goal axioms).facts := by
    rw [Search.start_goal]
    exact Search.mem_start.mpr hgoal
  unfold prove
  rw [hnone]
  dsimp only
  rw [forward, if_pos hfound]
  exact ⟨rfl, Search.start_steps goal axioms⟩

end Engine

theorem Result.isProved_iff {result : Result} :
    result.isProved = true ↔ result.status = .proved := by
  simp [isProved]

namespace KnowledgeBase

/-- An added theorem comes last, unless it is known already. -/
theorem theorems_addTheorem (kb : KnowledgeBase) (f : Formula) :
    (kb.addTheorem f).theorems = if f ∈ kb.facts then kb.theorems else kb.theorems ++ [f] := by
  unfold addTheorem facts
  simp only [List.mem_append, Bool.or_eq_true, decide_eq_true_eq, or_comm]
  split_ifs <;> rfl

theorem axioms_addTheorem (kb : KnowledgeBase) (f : Formula) :
    (kb.addTheorem f).axioms = kb.axioms := by
  unfold addTheorem
  split_ifs <;> rfl

theorem facts_addTheorem (kb : KnowledgeBase) (f : Formula) :
    (kb.addTheorem f).facts = if f ∈ kb.facts then kb.facts else kb.facts ++ [f] := by
  rw [facts, theorems_addTheorem, axioms_addTheorem]
  split_ifs
  · rfl
  · rw [facts, List.append_assoc]

/-- No theorem is there twice or is an axiom. -/
structure Tidy (kb : KnowledgeBase) : Prop where
  nodup : kb.theorems.Nodup
  disjoint : ∀ f ∈ kb.theorems, f ∉ kb.axioms

theorem tidy_ofAxioms (axioms : List Formula) : (ofAxioms axioms).Tidy :=
  ⟨List.Pairwise.nil, fun _ h => absurd h List.not_mem_nil⟩

theorem Tidy.addTheorem {kb : KnowledgeBase} (h : kb.Tidy) (f : Formula) :
    (kb.addTheorem f).Tidy := by
  have htheorems := kb.theorems_addTheorem f
  by_cases hf : f ∈ kb.facts
  · rw [if_pos hf] at htheorems
    exact ⟨htheorems ▸ h.nodup, by rw [htheorems, axioms_addTheorem]; exact h.disjoint⟩
  · rw [if_neg hf] at htheorems
    simp only [facts, List.mem_append, not_or] at hf
    refine ⟨htheorems ▸ ?_, fun g hg => ?_⟩
    · refine List.nodup_append.mpr ⟨h.nodup, List.pairwise_singleton _ _, fun a ha b hb hab => ?_⟩
      rw [List.mem_singleton.mp hb] at hab
      exact hf.2 (hab ▸ ha)
    · rw [axioms_addTheorem]
      rw [htheorems, List.mem_append, List.mem_singleton] at hg
      rcases hg with hg | rfl
      · exact h.disjoint g hg
      · exact hf.1

end KnowledgeBase

namespace Session

variable {s : Session}

/-! ### What never changes -/

theorem after_append (s : Session) (before later : List Call) :
    s.after (before ++ later) = (s.after before).after later := by
  induction before generalizing s with
  | nil => rfl
  | cons c before ih => exact ih _

/-- What holds of the knowledge base and is not spoilt by an added theorem holds after any calls. -/
theorem base_after_of_addTheorem {P : KnowledgeBase → Prop}
    (hadd : ∀ kb f, P kb → P (kb.addTheorem f)) (h : P s.base) (calls : List Call) :
    P (s.after calls).base := by
  induction calls generalizing s with
  | nil => exact h
  | cons c calls ih =>
    cases c with
    | prove goal axioms budget watch => exact ih h
    | proveGoal goal watch =>
      refine ih ?_
      show P (if _ then { s with base := s.base.addTheorem goal } else s).base
      split_ifs
      · exact hadd _ _ h
      · exact h

/-- No theorem is taken away, and new ones come last. -/
theorem theorems_isPrefix_after (s : Session) (calls : List Call) :
    s.base.theorems <+: (s.after calls).base.theorems := by
  refine base_after_of_addTheorem (P := fun kb => s.base.theorems <+: kb.theorems)
    (fun kb f h => ?_) (List.prefix_refl _) calls
  rw [KnowledgeBase.theorems_addTheorem]
  split_ifs
  · exact h
  · exact h.trans (List.prefix_append _ _)

theorem axioms_after (s : Session) (calls : List Call) :
    (s.after calls).base.axioms = s.base.axioms :=
  base_after_of_addTheorem (P := fun kb => kb.axioms = s.base.axioms)
    (fun kb f h => (kb.axioms_addTheorem f).trans h) rfl calls

/-- Nothing known is forgotten. -/
theorem facts_subset_after (s : Session) (calls : List Call) :
    s.base.facts ⊆ (s.after calls).base.facts := by
  refine base_after_of_addTheorem (P := fun kb => s.base.facts ⊆ kb.facts) (fun kb f h => ?_)
    (List.Subset.refl _) calls
  exact fun g hg => KnowledgeBase.mem_facts_addTheorem.mpr (Or.inl (h hg))

/-! ### Which goals become theorems -/

/-- Some call of the sequence proves the goal from the knowledge base. -/
def HasProved (s : Session) (calls : List Call) (goal : Formula) : Prop :=
  ∃ before watch later, calls = before ++ .proveGoal goal watch :: later ∧
    ((s.after before).proveGoal goal watch).1.status = .proved

/-- The first call proves the goal, or a later one does. -/
theorem hasProved_cons {c : Call} {calls : List Call} {goal : Formula} :
    s.HasProved (c :: calls) goal ↔
      (∃ watch, c = .proveGoal goal watch ∧ (s.proveGoal goal watch).1.status = .proved) ∨
        (s.perform c).2.HasProved calls goal := by
  constructor
  · rintro ⟨before, watch, later, heq, hproved⟩
    cases before with
    | nil =>
      obtain ⟨rfl, rfl⟩ := List.cons.inj heq
      exact Or.inl ⟨watch, rfl, hproved⟩
    | cons c' before =>
      obtain ⟨rfl, rfl⟩ := List.cons.inj heq
      exact Or.inr ⟨before, watch, later, rfl, hproved⟩
  · rintro (⟨watch, rfl, hproved⟩ | ⟨before, watch, later, rfl, hproved⟩)
    · exact ⟨[], watch, calls, rfl, hproved⟩
    · exact ⟨c :: before, watch, later, rfl, hproved⟩

/-- The goals listed with their proofs are those that some call proves. -/
theorem mem_proofs_iff {calls : List Call} {goal : Formula} :
    goal ∈ (s.proofs calls).map (·.1) ↔ s.HasProved calls goal := by
  induction calls generalizing s with
  | nil => simp [proofs, HasProved]
  | cons c calls ih =>
    rw [hasProved_cons, ← ih]
    cases c with
    | prove goal' axioms budget watch => simp [proofs, perform]
    | proveGoal goal' watch =>
      simp only [proofs, perform, Call.proveGoal.injEq, ← Result.isProved_iff]
      split_ifs with h
      · simp only [List.map_cons, List.mem_cons]
        refine or_congr_left ⟨?_, ?_⟩
        · rintro rfl
          exact ⟨watch, ⟨rfl, rfl⟩, h⟩
        · rintro ⟨_, ⟨rfl, _⟩, _⟩
          rfl
      · refine (or_iff_right ?_).symm
        rintro ⟨_, ⟨rfl, rfl⟩, h'⟩
        exact h h'

/-- **The theorems are the goals proved**, without those that were known, each where it was proved
first. -/
theorem theorems_after (s : Session) (calls : List Call) :
    (s.after calls).base.theorems = s.base.theorems ++
      (((s.proofs calls).map (·.1)).filter (· ∉ s.base.facts)).eraseDups := by
  induction calls generalizing s with
  | nil => exact (List.append_nil _).symm
  | cons c calls ih =>
    cases c with
    | prove goal axioms budget watch => exact ih s
    | proveGoal goal watch =>
      show ((s.proveGoal goal watch).2.after calls).base.theorems = _
      rw [ih]
      simp only [proofs]
      have hsession : (s.proveGoal goal watch).2 =
          if (s.proveGoal goal watch).1.isProved then { s with base := s.base.addTheorem goal }
          else s := rfl
      rw [hsession]
      split_ifs with hproved
      · -- a goal that was known changes nothing, another one is the next theorem
        dsimp only
        rw [KnowledgeBase.theorems_addTheorem, KnowledgeBase.facts_addTheorem, List.map_cons]
        by_cases hknown : goal ∈ s.base.facts
        · rw [if_pos hknown, if_pos hknown, List.filter_cons_of_neg (by simpa using hknown)]
        · rw [if_neg hknown, if_neg hknown, List.filter_cons_of_pos (by simpa using hknown),
            List.eraseDups_cons, List.filter_filter, List.append_assoc, List.singleton_append]
          congr 3
          refine List.filter_congr fun f _ => Bool.eq_iff_iff.mpr ?_
          simp [and_comm]
      · rfl

/-- **A goal that was proved is proved without a step ever after**, whatever is asked in between. -/
theorem proveGoal_of_proved {goal : Formula} {watch : Watch}
    (h : (s.proveGoal goal watch).1.status = .proved) (later : List Call) (watch' : Watch) :
    (((s.proveGoal goal watch).2.after later).proveGoal goal watch').1.status = .proved ∧
      (((s.proveGoal goal watch).2.after later).proveGoal goal watch').1.steps = [] := by
  have hdeep : ∀ f ∈ goal :: s.base.facts, f.depth ≤ s.config.maxFormulaDepth :=
    Engine.depth_le_of_proved h
  have hknown : goal ∈ (s.proveGoal goal watch).2.base.facts :=
    mem_facts_proveGoal.mpr (Or.inr ⟨Result.isProved_iff.mpr h, rfl⟩)
  have hconfig := s.config_proveGoal goal watch
  refine Engine.prove_of_mem (facts_subset_after _ later hknown) ?_
  rw [config_after, hconfig]
  -- facts that join later have been proved themselves
  refine forall_facts_after (P := fun f => f.depth ≤ s.config.maxFormulaDepth) (fun f hf => ?_)
    fun s' goal' watch' hconfig' _ hproved' _ => ?_
  · rcases mem_facts_proveGoal.mp hf with hf | ⟨_, rfl⟩
    · exact hdeep f (List.mem_cons_of_mem _ hf)
    · exact hdeep f List.mem_cons_self
  · rw [← hconfig, ← hconfig']
    exact Engine.depth_le_of_proved (Result.isProved_iff.mp hproved') goal' List.mem_cons_self

/-! ### The whole history -/

/-- **What a session knows after any calls.**  Calls with axioms of their own change nothing.  The
axioms stay as they are.  The theorems are the goals proved that are not axioms, each once, in the
order in which they were first proved, and more come only at the end.  A goal proved once is proved
again at any time, without a step and whatever the watch says. -/
theorem knowledge_after (config : EngineConfig) (axioms : List Formula) (calls : List Call) :
    let start := ofAxioms config axioms
    let s := start.after calls
    (∀ (goal : Formula) (own : List Formula) (budget : Budget) (watch : Watch),
        (s.perform (.prove goal own budget watch)).2 = s) ∧
      s.base.axioms = axioms ∧
      s.base.theorems.Nodup ∧ (∀ f ∈ s.base.theorems, f ∉ axioms) ∧
      (∀ f, f ∈ s.base.theorems ↔ f ∉ axioms ∧ start.HasProved calls f) ∧
      s.base.theorems = (((start.proofs calls).map (·.1)).filter (· ∉ axioms)).eraseDups ∧
      (∀ later : List Call, s.base.theorems <+: (s.after later).base.theorems) ∧
      ∀ goal, start.HasProved calls goal → ∀ watch : Watch,
        (s.proveGoal goal watch).1.status = .proved ∧ (s.proveGoal goal watch).1.steps = [] := by
  intro start s
  have hfacts : start.base.facts = axioms := List.append_nil axioms
  have haxioms : s.base.axioms = axioms := axioms_after start calls
  have htheorems : s.base.theorems =
      (((start.proofs calls).map (·.1)).filter (· ∉ axioms)).eraseDups := by
    rw [← hfacts]
    exact theorems_after start calls
  have htidy : s.base.Tidy := base_after_of_addTheorem (P := KnowledgeBase.Tidy)
    (fun _ f h => h.addTheorem f) (KnowledgeBase.tidy_ofAxioms axioms) calls
  refine ⟨fun _ _ _ _ => rfl, haxioms, htidy.nodup, haxioms ▸ htidy.disjoint, fun f => ?_,
    htheorems, theorems_isPrefix_after s, ?_⟩
  · rw [htheorems, List.mem_eraseDups, List.mem_filter, mem_proofs_iff, decide_eq_true_eq, and_comm]
  · rintro goal ⟨before, watch, later, rfl, hproved⟩ watch'
    have hs : s = ((start.after before).proveGoal goal watch).2.after later := after_append ..
    rw [hs]
    exact proveGoal_of_proved hproved later watch'

/-- `P` is proved from `□P`, then asked for again after the session has been called off. -/
theorem knowledge_after_calledOff :
    let P := Formula.atom "P"
    let Q := Formula.atom "Q"
    let calls : List Call := [.proveGoal P .still, .prove Q [P, P.implies Q] ⟨10, 10⟩ .still,
      .proveGoal (P.or Q) .still, .proveGoal P .still, .proveGoal P.always .still]
    let start := ofAxioms {} [P.always]
    let s := start.after calls
    start.HasProved calls P ∧ s.base.theorems = [P, P.or Q] ∧
      (s.proveGoal P .calledOff).1.status = .proved ∧ (s.proveGoal P .calledOff).1.steps = [] ∧
      (s.proveGoal Q .calledOff).1.status = .timeout := by
  intro P Q calls start s
  have hP : start.HasProved calls P := ⟨[], .still, _, rfl, by decide +kernel⟩
  obtain ⟨hproved, hsteps⟩ :=
    (knowledge_after {} [P.always] calls).2.2.2.2.2.2.2 P hP .calledOff
  exact ⟨hP, by decide +kernel, hproved, hsteps, by decide +kernel⟩

end Session

end Deontica
