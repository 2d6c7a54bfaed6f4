import Deontica.Race
import Mathlib.Data.List.Basic
import Mathlib.Data.List.Nodup
import Mathlib.Data.List.Perm.Basic

/-!
# What a race reports

Whatever happens in a race, and in whatever order, its outcome is read off the results that were
given before the deadline (`Race.completions`).  A race for the first decision is won by the first
decisive one of them (`winner_judge`), and then the results before it are reported
(`results_judge_of_winner`).  A race without a winner reports them all, and after them the
candidates that gave none (`judge_of_no_winner`): so if candidates are told apart by their names, it
reports each of them exactly once (`append_silents_perm`).
-/

namespace Deontica

namespace Race

/-- The candidate that comes to an end. -/
def Event.candidate? : Event → Option Nat
  | .completed i _ | .crashed i => some i
  | .deadline => none

def Event.isDeadline : Event → Bool
  | .deadline => true
  | _ => false

/-- The results given before the deadline with the numbers of the candidates, in the order of
completion. -/
def completions : List Event → List (Nat × Result)
  | [] => []
  | .completed i r :: events => (i, r) :: completions events
  | .crashed _ :: events => completions events
  | .deadline :: _ => []

/-- What can happen in a race between candidates of these names: a candidate comes to an end at most
once, and the result that it gives is attributed to it. -/
structure Possible (names : List String) (events : List Event) : Prop where
  once : (events.filterMap Event.candidate?).Nodup
  attributed : ∀ i r, .completed i r ∈ events → names[i]? = some r.prover

/-- The results given before the deadline, in the order of completion. -/
def given (events : List Event) : List Result :=
  (completions events).map (·.2)

@[simp] theorem given_nil : given [] = [] :=
  rfl

@[simp] theorem given_completed (i : Nat) (r : Result) (events : List Event) :
    given (.completed i r :: events) = r :: given events :=
  rfl

@[simp] theorem given_crashed (i : Nat) (events : List Event) :
    given (.crashed i :: events) = given events :=
  rfl

@[simp] theorem given_deadline (events : List Event) : given (.deadline :: events) = [] :=
  rfl

theorem provers_given (events : List Event) :
    (given events).map (·.prover) = (completions events).map (·.2.prover) :=
  List.map_map

theorem completed_of_mem_completions {events : List Event} {p : Nat × Result}
    (h : p ∈ completions events) : .completed p.1 p.2 ∈ events := by
  induction events with
  | nil => cases h
  | cons e events ih =>
    cases e with
    | completed i r =>
      rcases List.mem_cons.mp h with rfl | h
      · exact List.mem_cons_self
      · exact List.mem_cons_of_mem _ (ih h)
    | crashed i => exact List.mem_cons_of_mem _ (ih h)
    | deadline => cases h

theorem sublist_candidates (events : List Event) :
    ((completions events).map (·.1)).Sublist (events.filterMap Event.candidate?) := by
  induction events with
  | nil => exact .slnil
  | cons e events ih =>
    cases e with
    | completed i r => exact ih.cons_cons i
    | crashed i => exact ih.cons i
    | deadline => exact List.nil_sublist _

/-! ### Following a race -/

/-- A race between all runs to its end. -/
theorem follow_all (events : List Event) (o : Outcome) :
    follow .all events o =
      { o with
        results := o.results ++ given events
        reported := o.reported ++ (completions events).map (·.1)
        deadlineHit := o.deadlineHit || events.any Event.isDeadline } := by
  induction events generalizing o with
  | nil => simp [follow, completions]
  | cons e events ih =>
    cases e with
    | completed i r => simp [follow, completions, ih, Event.isDeadline]
    | crashed i => simp [follow, completions, ih, Event.isDeadline]
    | deadline => simp [follow, completions, Event.isDeadline]

/-- A race for the first decision in which nobody decides runs to its end too. -/
theorem follow_firstDecisive_of_none {events : List Event} (o : Outcome)
    (h : ∀ r ∈ given events, r.status.isDecisive = false) :
    follow .firstDecisive events o = follow .all events o := by
  induction events generalizing o with
  | nil => rfl
  | cons e events ih =>
    cases e with
    | completed i r =>
      rw [given_completed, List.forall_mem_cons] at h
      simp [follow, h.1, ih _ h.2]
    | crashed i => exact ih o h
    | deadline => rfl

/-- **The first decisive result ends the race**, and only what came before it is reported. -/
theorem follow_firstDecisive_of_some {events : List Event} (o : Outcome) {winner : Result}
    (h : (given events).find? (·.status.isDecisive) = some winner) :
    (follow .firstDecisive events o).winner = some winner ∧
      (follow .firstDecisive events o).results =
        o.results ++ (given events).takeWhile (!·.status.isDecisive) := by
  induction events generalizing o with
  | nil => cases h
  | cons e events ih =>
    cases e with
    | completed i r =>
      cases hr : r.status.isDecisive with
      | true =>
        obtain rfl : r = winner := by simpa [hr] using h
        simp [follow, hr]
      | false =>
        have hrest : (given events).find? (·.status.isDecisive) = some winner := by
          simpa [hr] using h
        obtain ⟨hwinner, hresults⟩ :=
          ih { o with results := o.results ++ [r], reported := o.reported ++ [i] } hrest
        simp [follow, hr, hwinner, hresults]
    | crashed i => exact ih o h
    | deadline => cases h

/-! ### The outcome -/

variable {names : List String} {events : List Event}

/-- **The winner is the first decisive result.** -/
theorem winner_judge (names : List String) (events : List Event) :
    (judge .firstDecisive names events).winner =
      (given events).find? (·.status.isDecisive) := by
  unfold judge
  cases hfind : (given events).find? (·.status.isDecisive) with
  | some winner => simp [(follow_firstDecisive_of_some {} hfind).1]
  | none =>
    have hnone : ∀ r ∈ given events, r.status.isDecisive = false := by
      simpa using List.find?_eq_none.mp hfind
    simp [follow_firstDecisive_of_none {} hnone, follow_all]

/-- **After a win, the results before it are reported**, none of which decided. -/
theorem results_judge_of_winner {winner : Result}
    (h : (judge .firstDecisive names events).winner = some winner) :
    (judge .firstDecisive names events).results =
      (given events).takeWhile (!·.status.isDecisive) := by
  rw [winner_judge] at h
  obtain ⟨hwinner, hresults⟩ := follow_firstDecisive_of_some {} h
  unfold judge
  simp [hwinner, hresults]

/-- In a race between all, nobody wins. -/
theorem winner_judge_all (names : List String) (events : List Event) :
    (judge .all names events).winner = none := by
  simp [judge, follow_all]

/-- The candidates that gave no result before the deadline, with their numbers. -/
def silentOnes (names : List String) (events : List Event) : List (String × Nat) :=
  names.zipIdx.filter fun p => p.2 ∉ (completions events).map (·.1)

/-- The names of the candidates that gave no result before the deadline. -/
def silents (names : List String) (events : List Event) : List String :=
  (silentOnes names events).map (·.1)

theorem missing_eq (names : List String) (o : Outcome) :
    missing names o =
      (names.zipIdx.filter fun p => p.2 ∉ o.reported).map fun p => silent o.deadlineHit p.1 := by
  unfold missing
  rw [← List.filterMap_eq_filter, List.map_filterMap]
  refine List.filterMap_congr fun p _ => ?_
  by_cases hp : p.2 ∈ o.reported <;> simp [hp, Option.guard]

/-- **A race without a winner reports all results**, in the order of completion, and then the
candidates that gave none, in their own order. -/
theorem judge_of_no_winner {mode : Mode} (h : (judge mode names events).winner = none) :
    (judge mode names events).results =
        given events ++ (silents names events).map (silent (events.any Event.isDeadline)) ∧
      (judge mode names events).deadlineHit = events.any Event.isDeadline := by
  have hfollow : follow mode events {} = follow .all events {} := by
    cases mode with
    | all => rfl
    | firstDecisive =>
      rw [winner_judge] at h
      refine follow_firstDecisive_of_none {} ?_
      simpa using List.find?_eq_none.mp h
  unfold judge
  rw [hfollow, follow_all]
  simp [missing_eq, silents, silentOnes]

theorem prover_silent (deadlineHit : Bool) (name : String) :
    (silent deadlineHit name).prover = name := by
  cases deadlineHit <;> rfl

theorem provers_of_no_winner {mode : Mode} (h : (judge mode names events).winner = none) :
    (judge mode names events).results.map (·.prover) =
      (given events).map (·.prover) ++ silents names events := by
  rw [(judge_of_no_winner h).1, List.map_append, List.map_map]
  congr 1
  exact List.map_id'' (prover_silent _) _

/-! ### Exactly once -/

/-- A name is that of one candidate only. -/
theorem index_eq (hnames : names.Nodup) {i j : Nat} {name : String} (hi : names[i]? = some name)
    (hj : names[j]? = some name) : i = j := by
  have hlt : i < names.length := (List.getElem?_eq_some_iff.mp hi).1
  exact (List.getElem?_inj hlt hnames).mp (hi.trans hj.symm)

namespace Possible

theorem getElem?_of_mem (h : Possible names events) {p : Nat × Result}
    (hp : p ∈ completions events) : names[p.1]? = some p.2.prover :=
  h.attributed p.1 p.2 (completed_of_mem_completions hp)

/-- Nobody gives two results. -/
theorem nodup_provers (h : Possible names events) (hnames : names.Nodup) :
    ((given events).map (·.prover)).Nodup := by
  have hindices : ((completions events).map (·.1)).Nodup :=
    h.once.sublist (sublist_candidates events)
  rw [provers_given]
  refine (hindices.of_map _).map_on fun p hp q hq heq => ?_
  -- two results of one name are those of one candidate
  have hp' := h.getElem?_of_mem hp
  have hq' := h.getElem?_of_mem hq
  have hsame : p.2.prover = q.2.prover := heq
  rw [← hsame] at hq'
  exact List.inj_on_of_nodup_map hindices hp hq (index_eq hnames hp' hq')

/-- A candidate is silent if no result is attributed to it. -/
theorem silents_eq (h : Possible names events) (hnames : names.Nodup) :
    silents names events = names.filter (· ∉ (given events).map (·.prover)) := by
  have hiff : ∀ p ∈ names.zipIdx, (p.2 ∈ (completions events).map (·.1) ↔
      p.1 ∈ (given events).map (·.prover)) := by
    intro p hp
    have hname : names[p.2]? = some p.1 := List.mem_zipIdx_iff_getElem?.mp hp
    constructor
    · intro hmem
      obtain ⟨q, hq, heq⟩ := List.mem_map.mp hmem
      have hprover := h.getElem?_of_mem hq
      rw [heq, hname] at hprover
      rw [provers_given, Option.some.inj hprover]
      exact List.mem_map.mpr ⟨q, hq, rfl⟩
    · intro hmem
      rw [provers_given] at hmem
      obtain ⟨q, hq, heq⟩ := List.mem_map.mp hmem
      have hprover := h.getElem?_of_mem hq
      have hsame : q.2.prover = p.1 := heq
      rw [hsame] at hprover
      exact List.mem_map.mpr ⟨q, hq, index_eq hnames hprover hname⟩
  have hfilter : silentOnes names events =
      names.zipIdx.filter ((fun name => decide (name ∉ (given events).map (·.prover))) ∘ (·.1)) :=
    List.filter_congr fun p hp => decide_eq_decide.mpr (not_congr (hiff p hp))
  rw [silents, hfilter, ← List.filter_map, List.zipIdx_map_fst]

end Possible

/-- Results and silent candidates together are the candidates, each of them once. -/
theorem append_silents_perm (h : Possible names events) (hnames : names.Nodup) :
    ((given events).map (·.prover) ++ silents names events).Perm names := by
  rw [h.silents_eq hnames]
  have hdone := h.nodup_provers hnames
  have hnodup : ((given events).map (·.prover) ++
      names.filter (· ∉ (given events).map (·.prover))).Nodup := by
    refine hdone.append (hnames.filter _) fun name hname hmem => ?_
    exact (of_decide_eq_true (List.mem_filter.mp hmem).2) hname
  refine (List.perm_ext_iff_of_nodup hnodup hnames).mpr fun name => ?_
  rw [List.mem_append, List.mem_filter]
  constructor
  · rintro (hmem | ⟨hmem, _⟩)
    · rw [provers_given] at hmem
      obtain ⟨q, hq, rfl⟩ := List.mem_map.mp hmem
      exact List.mem_of_getElem? (h.getElem?_of_mem hq)
    · exact hmem
  · intro hname
    by_cases hmem : name ∈ (given events).map (·.prover)
    · exact Or.inl hmem
    · exact Or.inr ⟨hname, decide_eq_true hmem⟩

end Race

end Deontica
