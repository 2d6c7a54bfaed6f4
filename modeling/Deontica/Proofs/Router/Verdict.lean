import Deontica.Proofs.Prover
import Deontica.Proofs.Router

/-!
# Verdicts

A result has a verdict if it settles the question.  If provers that have a verdict on a problem have
the same, then it does not matter in which order their verdicts come: the first one
(`List.findSome?`) is the one that any of them has (`findSome?_eq_some_iff`).

So all strategies agree.  Trying candidates one after the other ends with the first verdict of the
list of candidates (`verdict_proveSequential`), a race with the first verdict in the order of events
(`verdict_decision`), and a cross-check reports it too (`status_survey`).
-/

namespace Deontica

/-! ### Verdicts of results and provers -/

/-- The status, if it settles the question. -/
def Status.verdict (s : Status) : Option Status :=
  if s.isDecisive then some s else none

/-- The verdict of a result, if it has one. -/
def Result.verdict (r : Result) : Option Status :=
  r.status.verdict

/-- The verdict that a call of a prover comes to. -/
def Run.verdict : Run → Option Status
  | .answered result => result.verdict
  | .failed _ | .crashed => none

/-- The verdict of a registered prover that is called with so much time. -/
def Seat.verdict (seat : Seat) (goal : Formula) (axioms : List Formula) (timeout : Nat) :
    Option Status :=
  if seat.prover.available then (seat.prover.run goal axioms timeout).verdict else none

/-- Any two of the provers that have a verdict have the same. -/
def Unanimous (seats : List Seat) (goal : Formula) (axioms : List Formula) (timeout : Nat) : Prop :=
  ∀ s ∈ seats, ∀ t ∈ seats, ∀ v w, s.verdict goal axioms timeout = some v →
    t.verdict goal axioms timeout = some w → v = w

theorem Status.verdict_of_isDecisive {s : Status} (h : s.isDecisive = true) : s.verdict = some s :=
  if_pos h

theorem Status.verdict_eq_none {s : Status} (h : s.isDecisive = false) : s.verdict = none :=
  if_neg (Bool.eq_false_iff.mp h)

theorem Status.eq_of_verdict {s v : Status} (h : s.verdict = some v) : s = v := by
  unfold Status.verdict at h
  split_ifs at h
  exact Option.some.inj h

/-- The caller is told the verdict that the call comes to. -/
theorem Run.verdict_attemptOf (name : String) (run : Run) :
    (Desk.attemptOf name (.cameBack run)).toResult.verdict = run.verdict := by
  cases run <;> rfl

theorem Run.verdict_told (name : String) (run : Run) :
    ((Work.running run).told name).bind Result.verdict = run.verdict := by
  cases run <;> rfl

theorem Run.verdict_of_kept {name : String} {run : Run} {result : Result}
    (h : (Ending.cameBack run).kept name = some result) : result.verdict = run.verdict := by
  rw [← verdict_attemptOf name run, Ending.attemptOf_of_kept h]
  rfl

/-! ### The first verdict -/

/-- If all verdicts are the same, the first one is any of them. -/
theorem findSome?_eq_some_iff {α : Type} {f : α → Option Status} {l : List α}
    (hagree : ∀ a ∈ l, ∀ b ∈ l, ∀ v w, f a = some v → f b = some w → v = w) {v : Status} :
    l.findSome? f = some v ↔ ∃ a ∈ l, f a = some v := by
  constructor
  · intro h
    exact List.exists_of_findSome?_eq_some h
  · rintro ⟨a, ha, hv⟩
    cases hfirst : l.findSome? f with
    | none =>
      rw [List.findSome?_eq_none_iff.mp hfirst a ha] at hv
      cases hv
    | some w =>
      obtain ⟨b, hb, hw⟩ := List.exists_of_findSome?_eq_some hfirst
      rw [hagree a ha b hb v w hv hw]

/-- If all verdicts are the same, the first one does not depend on the order, nor on what it is the
verdict of. -/
theorem findSome?_eq_findSome? {α β : Type} {f : α → Option Status} {g : β → Option Status}
    {l : List α} {m : List β}
    (hagree : ∀ a ∈ l, ∀ b ∈ l, ∀ v w, f a = some v → f b = some w → v = w)
    (hiff : ∀ v, (∃ a ∈ l, f a = some v) ↔ ∃ b ∈ m, g b = some v) :
    m.findSome? g = l.findSome? f := by
  have hagree' : ∀ a ∈ m, ∀ b ∈ m, ∀ v w, g a = some v → g b = some w → v = w := by
    intro a ha b hb v w hv hw
    obtain ⟨a', ha', hv'⟩ := (hiff v).mpr ⟨a, ha, hv⟩
    obtain ⟨b', hb', hw'⟩ := (hiff w).mpr ⟨b, hb, hw⟩
    exact hagree a' ha' b' hb' v w hv' hw'
  refine Option.ext fun v => ?_
  rw [findSome?_eq_some_iff hagree, findSome?_eq_some_iff hagree', hiff]

/-- The first verdict of results is the status of the first that settles the question. -/
theorem findSome?_verdict (results : List Result) :
    results.findSome? Result.verdict =
      (results.find? (·.status.isDecisive)).map (·.status) := by
  induction results with
  | nil => rfl
  | cons r results ih =>
    cases h : r.status.isDecisive with
    | true =>
      have hverdict : r.verdict = some r.status := Status.verdict_of_isDecisive h
      simp [h, hverdict]
    | false =>
      have hverdict : r.verdict = none := Status.verdict_eq_none h
      simp [h, hverdict, ih]

/-- **Results that agree are reconciled to the first verdict.** -/
theorem Reconciliation.status_ofResults {results : List Result}
    (hagree : ∀ r ∈ results, ∀ s ∈ results, ∀ v w,
      r.verdict = some v → s.verdict = some w → v = w) :
    (ofResults results).status = results.findSome? Result.verdict := by
  rw [findSome?_verdict, ← List.head?_filter]
  unfold ofResults
  dsimp only
  cases hfirst : (results.filter (·.status.isDecisive)).head? with
  | none => rfl
  | some first =>
    -- nobody disagrees with the first
    have hmem := List.mem_of_head? hfirst
    have hsame : ∀ r ∈ results.filter (·.status.isDecisive), r.status = first.status := by
      intro r hr
      have hr' := List.mem_filter.mp hr
      have hfirst' := List.mem_filter.mp hmem
      exact hagree r hr'.1 first hfirst'.1 _ _ (Status.verdict_of_isDecisive hr'.2)
        (Status.verdict_of_isDecisive hfirst'.2)
    have hnone : (results.filter (·.status.isDecisive)).filter (·.status != first.status) = [] := by
      refine List.filter_eq_nil_iff.mpr fun r hr => ?_
      simp [hsame r hr]
    simp only [hnone, List.map_nil, List.isEmpty_nil, Bool.not_true, Bool.false_eq_true, if_false,
      Option.map_some]
    split_ifs <;> rfl

/-! ### One after the other -/

/-- The milliseconds that calls of all these provers take. -/
def totalTime : List Seat → Nat
  | [] => 0
  | seat :: seats => seat.prover.pace.time + totalTime seats

theorem totalTime_perm {seats seats' : List Seat} (h : seats.Perm seats') :
    totalTime seats = totalTime seats' := by
  induction h with
  | nil => rfl
  | cons seat _ ih => rw [totalTime, totalTime, ih]
  | swap s t seats =>
    simp only [totalTime]
    omega
  | trans _ _ ih₁ ih₂ => exact ih₁.trans ih₂

theorem time_le_totalTime {seat : Seat} {seats : List Seat} (h : seat ∈ seats) :
    seat.prover.pace.time ≤ totalTime seats := by
  induction seats with
  | nil => cases h
  | cons s seats ih =>
    rw [totalTime]
    rcases List.mem_cons.mp h with rfl | h
    · exact Nat.le_add_right _ _
    · exact Nat.le_trans (ih h) (Nat.le_add_left _ _)

/-- A call that takes fewer milliseconds is over before. -/
theorem Pace.isBefore_of_time_lt {p : Pace} {t : Nat} (h : p.time < t) : p.isBefore t = true := by
  cases p with
  | millis n =>
    have hn : n < t := h
    exact decide_eq_true (show 2 * n < 2 * t by omega)
  | computing =>
    have ht : 0 < t := h
    exact decide_eq_true (show 1 < 2 * t by omega)

theorem Pace.isWithin_of_isBefore {p : Pace} {t : Nat} (h : p.isBefore t = true) :
    p.isWithin t = true :=
  decide_eq_true (Nat.le_of_lt (of_decide_eq_true h))

/-- The prover has the same verdict in any time up to the given one within which its calls are
over. -/
def Seat.IsFirm (seat : Seat) (goal : Formula) (axioms : List Formula) (timeout : Nat) : Prop :=
  ∀ t ≤ timeout, seat.prover.pace.isWithin t = true →
    (seat.prover.run goal axioms t).verdict = (seat.prover.run goal axioms timeout).verdict

theorem Seat.isFirm_of_isSteady {seat : Seat} {goal : Formula} {axioms : List Formula}
    (h : seat.prover.IsSteady goal axioms) (timeout : Nat) : seat.IsFirm goal axioms timeout :=
  fun t hle hpace => congrArg Run.verdict (h t timeout hpace (Pace.isWithin_mono hpace hle))

/-- **The native prover is firm.** -/
theorem Seat.isFirm_native (id : Nat) (config : EngineConfig) (goal : Formula)
    (axioms : List Formula) (timeout : Nat) :
    (Seat.mk id (Native.prover config)).IsFirm goal axioms timeout :=
  isFirm_of_isSteady (Native.isSteady_prover config goal axioms) timeout

theorem Seat.verdict_of_available {seat : Seat} {goal : Formula} {axioms : List Formula}
    {timeout t : Nat} (hfirm : seat.IsFirm goal axioms timeout)
    (havailable : seat.prover.available = true) (hle : t ≤ timeout)
    (hpace : seat.prover.pace.isWithin t = true) :
    (seat.prover.run goal axioms t).verdict = seat.verdict goal axioms timeout := by
  rw [hfirm t hle hpace, Seat.verdict, if_pos havailable]

theorem Seat.verdict_of_unavailable {seat : Seat} (hunavailable : seat.prover.available = false)
    (goal : Formula) (axioms : List Formula) (timeout : Nat) :
    seat.verdict goal axioms timeout = none := by
  rw [Seat.verdict, hunavailable]
  rfl

namespace Desk

variable {κ : Type} [DecidableEq κ] {d : Desk κ} {seats : List Seat} {keyOf : Seat → κ}
  {goal : Formula} {axioms : List Formula} {timeout t : Nat} {seat : Seat}

/-- What the cache has for a prover has the verdict of the prover. -/
abbrev Concurs (d : Desk κ) (seats : List Seat) (keyOf : Seat → κ) (goal : Formula)
    (axioms : List Formula) (timeout : Nat) : Prop :=
  d.Trusts seats keyOf fun seat result => result.verdict = seat.verdict goal axioms timeout

/-- **A call that has enough time comes to the verdict of the prover.** -/
theorem verdict_call (h : d.Concurs seats keyOf goal axioms timeout) (hseat : seat ∈ seats)
    (hfirm : seat.IsFirm goal axioms timeout) (hle : t ≤ timeout)
    (hpace : seat.prover.pace.isWithin t = true) (now : Nat) :
    (d.call seat goal axioms (keyOf seat) t now).attempt.toResult.verdict =
        seat.verdict goal axioms timeout ∧
      (d.call seat goal axioms (keyOf seat) t now).took ≤ seat.prover.pace.time ∧
      (d.call seat goal axioms (keyOf seat) t now).desk.Concurs seats keyOf goal axioms
        timeout := by
  have hending := Prover.ending_of_isWithin hpace goal axioms
  have hrun : seat.prover.available = true →
      (seat.prover.run goal axioms t).verdict = seat.verdict goal axioms timeout :=
    fun havailable => Seat.verdict_of_available hfirm havailable hle hpace
  have hnext : (d.call seat goal axioms (keyOf seat) t now).desk.Concurs seats keyOf goal axioms
      timeout := by
    refine h.call hseat fun havailable result hkept => ?_
    rw [hending] at hkept
    exact (Run.verdict_of_kept hkept).trans (hrun havailable)
  rcases d.call_cases seat goal axioms (keyOf seat) t now with
    ⟨hunavailable, hcall⟩ | ⟨havailable, ⟨result, cache, hget, hcall⟩ | ⟨cache, hget, hcall⟩⟩
  · rw [hcall] at hnext ⊢
    refine ⟨?_, Nat.zero_le _, hnext⟩
    rw [Seat.verdict_of_unavailable hunavailable]
    rfl
  · obtain ⟨kept, hkept, rfl⟩ := h.found hseat hget
    rw [hcall] at hnext ⊢
    exact ⟨hkept, Nat.zero_le _, hnext⟩
  · rw [hcall] at hnext ⊢
    refine ⟨?_, Nat.le_of_eq (if_pos hpace), hnext⟩
    rw [hending]
    exact (Run.verdict_attemptOf _ _).trans (hrun havailable)

/-- So does a candidate that enters a race. -/
theorem verdict_enter (h : d.Concurs seats keyOf goal axioms timeout) (hseat : seat ∈ seats)
    (now : Nat) :
    ((d.enter seat goal axioms (keyOf seat) timeout now).1.told seat.name).bind Result.verdict =
        seat.verdict goal axioms timeout ∧
      (d.enter seat goal axioms (keyOf seat) timeout now).2.Concurs seats keyOf goal axioms
        timeout := by
  have hrun : seat.prover.available = true →
      (seat.prover.run goal axioms timeout).verdict = seat.verdict goal axioms timeout :=
    fun havailable => (if_pos havailable).symm
  constructor
  · rcases d.told_enter seat goal axioms (keyOf seat) timeout now with
      ⟨hunavailable, htold⟩ | ⟨havailable, ⟨result, cache, hget, htold⟩ | htold⟩
    · rw [htold, Seat.verdict_of_unavailable hunavailable]
      rfl
    · obtain ⟨kept, hkept, rfl⟩ := h.found hseat hget
      rw [htold, ← hkept]
      rfl
    · rw [htold, ← hrun havailable]
      exact Run.verdict_told _ _
  · refine h.enter hseat fun havailable result hkept => ?_
    exact (Run.verdict_of_kept hkept).trans (hrun havailable)

end Desk

namespace Router

variable {κ : Type} [DecidableEq κ] {r : Router κ} {goal : Formula} {axioms : List Formula}
  {timeout deadline now : Nat}

/-- **Trying candidates one after the other ends with the first verdict**, if there is time for all
of them. -/
theorem verdict_proveSequential {seats : List Seat} (candidates : List Seat)
    (hcandidates : ∀ seat ∈ candidates, seat ∈ seats)
    (h : r.desk.Concurs seats (r.seatKey goal axioms) goal axioms timeout)
    (hfirm : ∀ seat ∈ seats, seat.IsFirm goal axioms timeout) {last : Result}
    (hlast : last.verdict = none) (hdeadline : deadline ≤ now + timeout)
    (htime : now + totalTime candidates < deadline) :
    (proveSequential goal axioms deadline candidates last now r).1.verdict =
      candidates.findSome? (·.verdict goal axioms timeout) := by
  induction candidates generalizing last now r with
  | nil => exact hlast
  | cons seat candidates ih =>
    rw [List.forall_mem_cons] at hcandidates
    rw [totalTime] at htime
    have hnow : now < deadline := by omega
    have hpace : seat.prover.pace.isWithin (deadline - now) = true :=
      Pace.isWithin_of_isBefore (Pace.isBefore_of_time_lt (by omega))
    obtain ⟨hverdict, htook, hnext⟩ :=
      Desk.verdict_call h hcandidates.1 (hfirm seat hcandidates.1) (by omega) hpace now
    have hattempt : (r.call seat goal axioms (deadline - now) now).1.toResult.verdict =
        seat.verdict goal axioms timeout := hverdict
    cases hcall : (r.call seat goal axioms (deadline - now) now).1.isDecisive with
    | true =>
      have hsome : seat.verdict goal axioms timeout =
          some (r.call seat goal axioms (deadline - now) now).1.toResult.status := by
        rw [← hattempt]
        exact Status.verdict_of_isDecisive ((Attempt.isDecisive_eq _).symm.trans hcall)
      rw [proveSequential_of_isDecisive hnow hcall, hattempt, List.findSome?_cons, hsome]
    | false =>
      have hnone : (r.call seat goal axioms (deadline - now) now).1.toResult.verdict = none :=
        Status.verdict_eq_none ((Attempt.isDecisive_eq _).symm.trans hcall)
      -- the candidate has taken its own time at most, so there is enough for the others
      have htime' : now + (r.call seat goal axioms (deadline - now) now).2.1 +
          totalTime candidates < deadline := by
        have hle : (r.call seat goal axioms (deadline - now) now).2.1 ≤ seat.prover.pace.time :=
          htook
        omega
      rw [proveSequential_of_undecided hnow hcall, List.findSome?_cons, ← hattempt, hnone]
      exact ih (r := (r.call seat goal axioms (deadline - now) now).2.2) hcandidates.2 hnext hnone
        (by omega) htime'

end Router

/-! ### Races -/

namespace Race

variable {verdicts : List (Option Status)} {events : List Event}

/-- The verdict with which a candidate comes to an end. -/
def Event.verdict : Event → Option Status
  | .completed _ result => result.verdict
  | .crashed _ | .deadline => none

/-- All candidates come to an end, in some order, each with its verdict. -/
def Concludes (verdicts : List (Option Status)) (events : List Event) : Prop :=
  (events.map fun event => (event.candidate?, event.verdict)).Perm
    (verdicts.zipIdx.map fun p => (some p.2, p.1))

namespace Concludes

theorem verdicts_perm (h : Concludes verdicts events) :
    (events.map Event.verdict).Perm verdicts := by
  have hperm := h.map Prod.snd
  rw [List.map_map, List.map_map] at hperm
  have hzip : verdicts.zipIdx.map (Prod.snd ∘ fun p => (some p.2, p.1)) = verdicts :=
    List.zipIdx_map_fst 0 verdicts
  rwa [hzip] at hperm

/-- Nobody meets the deadline. -/
theorem deadline_notMem (h : Concludes verdicts events) : .deadline ∉ events := by
  intro hmem
  have hpair := h.mem_iff.mp (List.mem_map_of_mem hmem)
  obtain ⟨p, _, heq⟩ := List.mem_map.mp hpair
  cases congrArg Prod.fst heq

/-- The verdicts of the events are those of the candidates. -/
theorem exists_iff (h : Concludes verdicts events) {v : Status} :
    (∃ event ∈ events, event.verdict = some v) ↔ some v ∈ verdicts := by
  rw [← h.verdicts_perm.mem_iff, List.mem_map]

end Concludes

/-- Without a deadline, the verdicts of the results are those of the events. -/
theorem findSome?_given (h : .deadline ∉ events) :
    (given events).findSome? Result.verdict = events.findSome? Event.verdict := by
  induction events with
  | nil => rfl
  | cons event events ih =>
    rw [List.mem_cons, not_or] at h
    cases event with
    | completed i r => rw [given_completed, List.findSome?_cons, List.findSome?_cons, ih h.2]; rfl
    | crashed i => exact ih h.2
    | deadline => exact absurd rfl h.1

theorem exists_event_of_mem_given {result : Result} (h : result ∈ given events) :
    ∃ event ∈ events, event.verdict = result.verdict := by
  obtain ⟨p, hp, rfl⟩ := List.mem_map.mp h
  exact ⟨_, completed_of_mem_completions hp, rfl⟩

theorem verdict_silent (deadlineHit : Bool) (name : String) :
    (silent deadlineHit name).verdict = none := by
  cases deadlineHit <;> rfl

theorem verdict_aggregate (o : Outcome) (candidates : Nat) :
    (aggregate o candidates).verdict = none := by
  show Status.verdict (if o.deadlineHit || o.results.any (·.status == .timeout) then .timeout
    else .unknown) = none
  split_ifs <;> rfl

end Race

namespace Router

open Race

variable {κ : Type} {r : Router κ} {goal : Formula} {axioms : List Formula} {timeout now : Nat}
  {events : List Race.Event}

/-- The result of a race for the first decision. -/
def decision (r : Router κ) (goal : Formula) (axioms : List Formula) (events : List Race.Event) :
    Result :=
  (r.outcome goal axioms events).winner.getD (r.undecided goal axioms events)

/-- **A race ends with the first verdict of the results given.** -/
theorem verdict_decision (r : Router κ) (goal : Formula) (axioms : List Formula)
    (events : List Race.Event) :
    (r.decision goal axioms events).verdict = (given events).findSome? Result.verdict := by
  rw [decision, outcome, winner_judge, findSome?_verdict]
  cases hfind : (given events).find? (·.status.isDecisive) with
  | none => exact verdict_aggregate _ _
  | some winner =>
    have hdecisive : winner.status.isDecisive = true := by simpa using List.find?_some hfind
    exact Status.verdict_of_isDecisive hdecisive

/-- **So does a cross-check** if the results agree. -/
theorem status_survey (r : Router κ) (goal : Formula) (axioms : List Formula)
    (hagree : ∀ s ∈ given events, ∀ t ∈ given events, ∀ v w,
      s.verdict = some v → t.verdict = some w → v = w) :
    (r.survey goal axioms events).status = (given events).findSome? Result.verdict := by
  have hresults := (judge_of_no_winner
    (winner_judge_all ((r.entrants goal axioms).map (·.name)) events)).1
  rw [survey, hresults]
  have hsilent : ∀ result ∈ (silents ((r.entrants goal axioms).map (·.name)) events).map
      (silent (events.any Race.Event.isDeadline)), result.verdict = none := by
    intro result hresult
    obtain ⟨name, _, rfl⟩ := List.mem_map.mp hresult
    exact verdict_silent _ _
  have hgiven : ∀ result v, result ∈ given events ++
      (silents ((r.entrants goal axioms).map (·.name)) events).map
        (silent (events.any Race.Event.isDeadline)) → result.verdict = some v →
      result ∈ given events := by
    intro result v hresult hv
    rcases List.mem_append.mp hresult with hresult | hresult
    · exact hresult
    · rw [hsilent result hresult] at hv
      cases hv
  rw [Reconciliation.status_ofResults fun s hs t ht v w hv hw =>
    hagree s (hgiven s v hs hv) t (hgiven t w ht hw) v w hv hw]
  rw [List.findSome?_append, List.findSome?_eq_none_iff.mpr hsilent, Option.or_none]

theorem verdict_event (runner : Runner κ) :
    (runner.event.candidate?, runner.event.verdict) =
      (some runner.index, runner.told.bind Result.verdict) := by
  rw [Runner.event_eq]
  cases runner.told <;> rfl

variable [DecidableEq κ]

/-- A runner is a registered prover, and comes to its verdict. -/
theorem verdict_of_mem_runners
    (h : r.desk.Concurs r.registry.seats (r.seatKey goal axioms) goal axioms timeout)
    (now : Nat) (runner : Runner κ) (hrunner : runner ∈ r.desk.runners (r.entrants goal axioms) goal
      axioms (r.seatKey goal axioms) timeout now) :
    runner.seat ∈ r.registry.seats ∧
      runner.told.bind Result.verdict = runner.seat.verdict goal axioms timeout := by
  constructor
  · exact Registry.mem_of_mem_ranked
      (List.mem_of_getElem? (Desk.getElem?_of_mem_runners hrunner))
  · let concurs : Desk κ → Prop := fun d =>
      d.Concurs r.registry.seats (r.seatKey goal axioms) goal axioms timeout
    refine Desk.forall_runners (I := concurs) (P := fun seat work =>
      (work.told seat.name).bind Result.verdict = seat.verdict goal axioms timeout) ?_ h runner
      hrunner
    intro seat hseat d hd
    exact Desk.verdict_enter hd (Registry.mem_of_mem_ranked hseat) now

/-- **In a race that the router runs, all candidates come to an end** with their verdicts, if each
of them has enough time. -/
theorem concludes_raceEvents
    (h : r.desk.Concurs r.registry.seats (r.seatKey goal axioms) goal axioms timeout)
    (htime : ∀ seat ∈ r.registry.seats, seat.prover.pace.time < timeout) (htimeout : 0 < timeout)
    (now : Nat) :
    Concludes ((r.entrants goal axioms).map (·.verdict goal axioms timeout))
      (r.raceEvents goal axioms timeout now) := by
  have hseats := r.desk.seats_runners (r.entrants goal axioms) goal axioms (r.seatKey goal axioms)
    htimeout now
  have hruns := verdict_of_mem_runners h now
  rw [raceEvents, Desk.raceEvents]
  generalize r.desk.runners (r.entrants goal axioms) goal axioms (r.seatKey goal axioms) timeout
    now = runners at hseats hruns ⊢
  have hinTime : ∀ runner ∈ runners, runner.pace.isBefore timeout = true := fun runner hrunner =>
    Runner.isBefore_pace (Pace.isBefore_of_time_lt (htime _ (hruns runner hrunner).1))
  have hlength : runners.length = (r.entrants goal axioms).length := by
    simpa using congrArg List.length hseats
  rw [Runner.events_of_inTime hinTime hlength, Concludes, List.map_map]
  have hends : runners.map (fun runner => (runner.event.candidate?, runner.event.verdict)) =
      (r.entrants goal axioms).zipIdx.map fun p =>
        (some p.2, p.1.verdict goal axioms timeout) := by
    rw [← hseats, List.map_map]
    refine List.map_congr_left fun runner hrunner => ?_
    rw [verdict_event, (hruns runner hrunner).2]
    rfl
  have hperm := (Runner.inTime_perm_self hinTime).map fun runner =>
    (runner.event.candidate?, runner.event.verdict)
  rw [hends] at hperm
  rw [List.zipIdx_map, List.map_map]
  exact hperm

theorem verdict_prove_parallel (h : r.entrants goal axioms ≠ []) (timeout now : Nat) :
    ∃ result, (r.prove goal axioms .parallel timeout now).1 = .ok result ∧
      result.verdict =
        (r.decision goal axioms (r.raceEvents goal axioms timeout now)).verdict := by
  obtain ⟨took, hprove⟩ := prove_parallel_fst h timeout now
  refine ⟨_, hprove, ?_⟩
  rw [decision]
  cases (r.outcome goal axioms (r.raceEvents goal axioms timeout now)).winner <;> rfl

/-! ### All strategies agree -/

omit [DecidableEq κ] in
/-- In whatever order a race comes to its end, it ends with the verdict of any prover that has
one. -/
theorem verdict_of_concludes (hdistinct : r.registry.Distinct)
    (hagree : Unanimous r.registry.seats goal axioms timeout)
    (h : Concludes ((r.entrants goal axioms).map (·.verdict goal axioms timeout)) events) :
    (r.decision goal axioms events).verdict =
        r.registry.seats.findSome? (·.verdict goal axioms timeout) ∧
      (r.survey goal axioms events).status =
        r.registry.seats.findSome? (·.verdict goal axioms timeout) := by
  have hiff : ∀ v, (∃ seat ∈ r.registry.seats, seat.verdict goal axioms timeout = some v) ↔
      ∃ event ∈ events, event.verdict = some v := by
    intro v
    rw [h.exists_iff, List.mem_map]
    exact exists_congr fun seat =>
      and_congr_left' (entrants_perm hdistinct goal axioms).mem_iff.symm
  have hfirst : (given events).findSome? Result.verdict =
      r.registry.seats.findSome? (·.verdict goal axioms timeout) :=
    (findSome?_given h.deadline_notMem).trans (findSome?_eq_findSome? hagree hiff)
  constructor
  · rw [verdict_decision, hfirst]
  · rw [status_survey r goal axioms, hfirst]
    intro s hs t ht v w hv hw
    obtain ⟨e, he, hes⟩ := exists_event_of_mem_given hs
    obtain ⟨f, hf, hft⟩ := exists_event_of_mem_given ht
    obtain ⟨s', hs', hv'⟩ := (hiff v).mpr ⟨e, he, hes.trans hv⟩
    obtain ⟨t', ht', hw'⟩ := (hiff w).mpr ⟨f, hf, hft.trans hw⟩
    exact hagree s' hs' t' ht' v w hv' hw'

/-- So does a strategy that tries candidates one after the other. -/
theorem verdict_prove_of_takesTurns (hdistinct : r.registry.Distinct)
    (hagree : Unanimous r.registry.seats goal axioms timeout)
    (h : r.desk.Concurs r.registry.seats (r.seatKey goal axioms) goal axioms timeout)
    (hfirm : ∀ seat ∈ r.registry.seats, seat.IsFirm goal axioms timeout)
    (htime : totalTime r.registry.seats < timeout) {strategy : Strategy}
    (hturns : strategy.takesTurns = true) (hne : r.lineup strategy goal axioms ≠ []) (now : Nat) :
    ∃ result, (r.prove goal axioms strategy timeout now).1 = .ok result ∧
      result.verdict = r.registry.seats.findSome? (·.verdict goal axioms timeout) := by
  have hperm := lineup_perm hdistinct strategy goal axioms
  have htime' : now + totalTime (r.lineup strategy goal axioms) < now + timeout := by
    rw [totalTime_perm hperm]
    omega
  have hverdict := verdict_proveSequential (r.lineup strategy goal axioms)
    (fun seat hseat => hperm.mem_iff.mp hseat) h hfirm (show untried.verdict = none from rfl)
    (Nat.le_refl _) htime'
  rw [prove_of_takesTurns hturns hne]
  refine ⟨_, rfl, hverdict.trans (findSome?_eq_findSome? hagree fun v => ?_)⟩
  exact exists_congr fun seat => and_congr_left' hperm.mem_iff.symm

/-- **All strategies agree if the provers do.**  Each prover is to have one verdict in all times
within its pace (`Seat.IsFirm`), and the verdicts of any two are to be the same.  Then there is a
verdict, which is that of any registered prover that has one, such that `prove` with any strategy
that does not keep to one prover gives a result with this verdict, whatever the order in which a
race comes to its end, and `crossCheck` reports it. -/
theorem strategies_agree (r : Router κ) (provers : List Prover)
    (hregistry : r.registry = .ofProvers provers) (hprovers : provers ≠ []) (goal : Formula)
    (axioms : List Formula) (timeout now : Nat)
    (hcache : r.desk.cache.config.enabled = false ∨
      r.desk.cache.entries = [] ∧ r.KeysApart goal axioms)
    (hfirm : ∀ seat ∈ r.registry.seats, seat.IsFirm goal axioms timeout)
    (hagree : Unanimous r.registry.seats goal axioms timeout)
    (htime : totalTime r.registry.seats < timeout) :
    ∃ verdict : Option Status,
      (∀ v, verdict = some v ↔
        ∃ seat ∈ r.registry.seats, seat.verdict goal axioms timeout = some v) ∧
      (∀ strategy, strategy ≠ .auto → ∃ result,
        (r.prove goal axioms strategy timeout now).1 = .ok result ∧ result.verdict = verdict) ∧
      (∃ report, (r.crossCheck goal axioms timeout now).1 = .ok report ∧
        report.status = verdict) ∧
      (∀ events, Concludes ((r.entrants goal axioms).map (·.verdict goal axioms timeout)) events →
        (r.decision goal axioms events).verdict = verdict ∧
          (r.survey goal axioms events).status = verdict) ∧
      Concludes ((r.entrants goal axioms).map (·.verdict goal axioms timeout))
        (r.raceEvents goal axioms timeout now) := by
  have hdistinct : r.registry.Distinct := hregistry ▸ Registry.distinct_ofProvers provers
  have hseats : r.registry.seats ≠ [] := hregistry ▸ Registry.seats_ofProvers_ne_nil hprovers
  have hentrants := entrants_perm hdistinct goal axioms
  have hconcurs : r.desk.Concurs r.registry.seats (r.seatKey goal axioms) goal axioms timeout := by
    rcases hcache with hoff | ⟨hempty, hkeys⟩
    · constructor <;> intro hon <;> rw [hoff] at hon <;> cases hon
    · refine ⟨fun _ s hs t ht => hkeys.eq hdistinct hs ht, ?_⟩
      intro _ p hp
      rw [hempty] at hp
      cases hp
  have hrace : Concludes ((r.entrants goal axioms).map (·.verdict goal axioms timeout))
      (r.raceEvents goal axioms timeout now) := by
    refine concludes_raceEvents hconcurs (fun seat hseat => ?_) (Nat.zero_lt_of_lt htime) now
    exact Nat.lt_of_le_of_lt (time_le_totalTime hseat) htime
  have hne : ∀ strategy, r.lineup strategy goal axioms ≠ [] := fun strategy hnil => by
    have hperm := lineup_perm hdistinct strategy goal axioms
    rw [hnil, List.nil_perm] at hperm
    exact hseats hperm
  have hall := fun events
    (h : Concludes ((r.entrants goal axioms).map (·.verdict goal axioms timeout)) events) =>
    verdict_of_concludes hdistinct hagree h
  refine ⟨r.registry.seats.findSome? (·.verdict goal axioms timeout),
    fun v => findSome?_eq_some_iff hagree, fun strategy hstrategy => ?_, ?_, hall, hrace⟩
  · cases hturns : strategy.takesTurns with
    | true =>
      exact verdict_prove_of_takesTurns hdistinct hagree hconcurs hfirm htime hturns (hne strategy)
        now
    | false =>
      obtain rfl : strategy = .parallel := by
        cases strategy with
        | auto => exact absurd rfl hstrategy
        | parallel => rfl
        | sequential | fastest | mostCapable => cases hturns
      obtain ⟨result, hresult, hverdict⟩ := verdict_prove_parallel (hne .parallel) timeout now
      exact ⟨result, hresult, hverdict.trans (hall _ hrace).1⟩
  · exact ⟨_, crossCheck_fst (hne .parallel) timeout now, (hall _ hrace).2⟩

/-- One prover fails, one does not decide, one finds a proof in six milliseconds, and the native
prover finds one by a search for which it needs some time: so do all strategies. -/
theorem strategies_agree_proved :
    let provers : List Prover :=
      [⟨"broken", true, {}, [], .millis 0, fun _ _ _ => .failed ["no memory"]⟩,
        ⟨"shy", true, {}, [], .millis 2, fun _ _ _ => .answered (.plain .unknown "shy")⟩,
        ⟨"slow", true, {}, [], .millis 6, fun _ _ _ => .answered (.plain .proved "slow")⟩,
        Native.prover {}]
    let r : Router String :=
      { registry := .ofProvers provers, analyzer := {}, config := {}, keyOf := (·.prover)
        desk := { cache := { config := {} } } }
    let goal : Formula := .atom "P"
    let axioms : List Formula := [goal.always]
    ((Native.prover {}).run goal axioms 0).verdict = none ∧
      ((Native.prover {}).run goal axioms 1).verdict = some .proved ∧
      r.KeysApart goal axioms ∧ Unanimous r.registry.seats goal axioms 20 ∧
      ∃ one all report, (r.prove goal axioms .sequential 20 0).1 = .ok one ∧
        (r.prove goal axioms .parallel 20 0).1 = .ok all ∧
        (r.crossCheck goal axioms 20 0).1 = .ok report ∧ one.status = .proved ∧
        all.status = .proved ∧ report.status = some .proved := by
  intro provers r goal axioms
  have hkeys : r.KeysApart goal axioms := fun s _ t _ heq => heq
  have hverdicts : ∀ seat ∈ r.registry.seats, seat.verdict goal axioms 20 = none ∨
      seat.verdict goal axioms 20 = some .proved := by decide +kernel
  have hagree : Unanimous r.registry.seats goal axioms 20 := by
    intro s hs t ht v w hv hw
    rcases hverdicts s hs with h | h <;> rcases hverdicts t ht with h' | h' <;> simp_all
  have hfirm : ∀ seat ∈ r.registry.seats, seat.IsFirm goal axioms 20 :=
    List.forall_mem_cons.mpr ⟨fun _ _ _ => rfl, List.forall_mem_cons.mpr ⟨fun _ _ _ => rfl,
      List.forall_mem_cons.mpr ⟨fun _ _ _ => rfl, List.forall_mem_singleton.mpr
        (Seat.isFirm_native 3 {} goal axioms 20)⟩⟩⟩
  obtain ⟨verdict, hverdict, hprove, hcheck, _⟩ := strategies_agree r provers rfl
    (List.cons_ne_nil _ _) goal axioms 20 0 (Or.inr ⟨rfl, hkeys⟩) hfirm hagree (by decide)
  obtain ⟨one, hone, hone'⟩ := hprove .sequential (by decide)
  obtain ⟨all, hall, hall'⟩ := hprove .parallel (by decide)
  obtain ⟨report, hreport, hreport'⟩ := hcheck
  have hproved : verdict = some .proved := (hverdict _).mpr (by decide +kernel)
  rw [hproved] at hone' hall' hreport'
  exact ⟨by decide +kernel, by decide +kernel, hkeys, hagree, one, all, report, hone, hall, hreport,
    Status.eq_of_verdict hone', Status.eq_of_verdict hall', hreport'⟩

end Router

end Deontica
