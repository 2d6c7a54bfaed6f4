import Deontica.Session
import Mathlib.Tactic.SplitIfs

/-!
# The history of a session

A session is asked one thing after another (`Call`).  Only goals that were proved from the knowledge
base change what the next call sees, and they are kept with their results (`proofs`).  So what the
axioms have and every such proof passes on, the whole knowledge base has (`forall_facts_after`).
-/

namespace Deontica

namespace KnowledgeBase

theorem mem_facts_addTheorem {kb : KnowledgeBase} {f g : Formula} :
    f ∈ (kb.addTheorem g).facts ↔ f ∈ kb.facts ∨ f = g := by
  unfold addTheorem facts
  split_ifs with h
  · rw [Bool.or_eq_true, decide_eq_true_eq, decide_eq_true_eq] at h
    constructor
    · exact Or.inl
    · rintro (hf | rfl)
      · exact hf
      · exact List.mem_append.mpr h.symm
  · rw [← List.append_assoc, List.mem_append, List.mem_singleton]

end KnowledgeBase

/-- Something asked of a session. -/
inductive Call where
  /-- To prove a goal from axioms of its own. -/
  | prove (goal : Formula) (axioms : List Formula) (budget : Budget) (watch : Watch)
  /-- To prove a goal from the knowledge base. -/
  | proveGoal (goal : Formula) (watch : Watch)

namespace Session

/-- The session that has been told axioms and nothing else. -/
def ofAxioms (config : EngineConfig) (axioms : List Formula) : Session :=
  ⟨config, .ofAxioms axioms⟩

def perform (s : Session) : Call → Result × Session
  | .prove goal axioms budget watch => (s.prove goal axioms budget watch, s)
  | .proveGoal goal watch => s.proveGoal goal watch

/-- The session after some calls. -/
def after (s : Session) : List Call → Session
  | [] => s
  | c :: calls => (s.perform c).2.after calls

/-- The goals that the calls prove from the knowledge base, with the results. -/
def proofs (s : Session) : List Call → List (Formula × Result)
  | [] => []
  | .prove _ _ _ _ :: calls => s.proofs calls
  | .proveGoal goal watch :: calls =>
    let (result, s') := s.proveGoal goal watch
    if result.isProved then (goal, result) :: s'.proofs calls else s'.proofs calls

theorem config_proveGoal (s : Session) (goal : Formula) (watch : Watch) :
    (s.proveGoal goal watch).2.config = s.config := by
  unfold proveGoal
  dsimp only
  split_ifs <;> rfl

/-- A goal joins the knowledge base if it was proved. -/
theorem mem_facts_proveGoal {s : Session} {goal f : Formula} {watch : Watch} :
    f ∈ (s.proveGoal goal watch).2.base.facts ↔
      f ∈ s.base.facts ∨ (s.proveGoal goal watch).1.isProved = true ∧ f = goal := by
  unfold proveGoal
  dsimp only
  split_ifs with h
  · rw [KnowledgeBase.mem_facts_addTheorem]
    simp only [h, true_and]
  · simp only [h, Bool.false_eq_true, false_and, or_false]

theorem config_after (s : Session) (calls : List Call) : (s.after calls).config = s.config := by
  induction calls generalizing s with
  | nil => rfl
  | cons c calls ih =>
    cases c with
    | prove goal axioms budget watch => exact ih s
    | proveGoal goal watch => exact (ih _).trans (s.config_proveGoal goal watch)

/-- **What a session knows.**  If the first facts have a property and every goal proved from facts
that have it has it too, then all facts have it after any calls. -/
theorem forall_facts_after {P : Formula → Prop} {s : Session} {calls : List Call}
    (h₀ : ∀ f ∈ s.base.facts, P f)
    (hproof : ∀ (s' : Session) (goal : Formula) (watch : Watch), s'.config = s.config →
      (∀ f ∈ s'.base.facts, P f) → (s'.proveGoal goal watch).1.isProved = true →
      (goal, (s'.proveGoal goal watch).1) ∈ s.proofs calls → P goal) :
    ∀ f ∈ (s.after calls).base.facts, P f := by
  induction calls generalizing s with
  | nil => exact h₀
  | cons c calls ih =>
    cases c with
    | prove goal axioms budget watch => exact ih h₀ hproof
    | proveGoal goal watch =>
      -- the proofs to come are among those of all calls, with one more if this call is a success
      have hlater : ∀ p ∈ (s.proveGoal goal watch).2.proofs calls,
          p ∈ s.proofs (.proveGoal goal watch :: calls) := by
        intro p hp
        unfold proofs
        dsimp only
        split_ifs
        · exact List.mem_cons_of_mem _ hp
        · exact hp
      refine ih (fun f hf => ?_) fun s' goal' watch' hconfig hfacts hproved hmem =>
        hproof s' goal' watch' (hconfig.trans (s.config_proveGoal goal watch)) hfacts hproved
          (hlater _ hmem)
      rcases mem_facts_proveGoal.mp hf with hf | ⟨hproved, rfl⟩
      · exact h₀ f hf
      · refine hproof s f watch rfl h₀ hproved ?_
        unfold proofs
        dsimp only
        rw [if_pos hproved]
        exact List.mem_cons_self

end Session

end Deontica
