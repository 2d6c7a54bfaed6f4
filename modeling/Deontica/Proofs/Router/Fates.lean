import Deontica.Proofs.Router.Reports

/-!
# What became of those who say nothing

A candidate of a race that gives no result has broken off, or is still running when the deadline
comes (`Race.fate`).  A race that nobody wins reports on all of them, but it only remembers whether
the deadline came.  So it reports each by its own fate exactly if the deadline did not come or
nobody had broken off before (`Race.Over.results_eq_dueReports_iff`); otherwise those who broke off
are reported as too late like the others.

The races of a router are over when they are judged (`Desk.over_raceEvents`): without the deadline,
everybody has come to an end.
-/

namespace Deontica

namespace Race

/-- The candidates that broke off before the deadline. -/
def crashes : List Event → List Nat
  | [] => []
  | .completed _ _ :: events => crashes events
  | .crashed i :: events => i :: crashes events
  | .deadline :: _ => []

/-- The report that a candidate is due that was still running when the deadline came. -/
def lateReport (name : String) : Result :=
  .noted .timeout name "deadline passed before the prover answered"

/-- The report that a candidate is due that gave no result: it failed if it had broken off, and was
too late if not. -/
def fate (events : List Event) (candidate : String × Nat) : Result :=
  if candidate.2 ∈ crashes events then .failure candidate.1 "prover task failed"
  else lateReport candidate.1

/-- The reports that are due after a race without a winner: the results in the order of completion,
and then, in their own order, the candidates that gave none, each by what became of it. -/
def dueReports (names : List String) (events : List Event) : List Result :=
  given events ++ (silentOnes names events).map (fate events)

/-- Nobody had broken off when the deadline came, if it came. -/
def NoCrashBeforeDeadline (names : List String) (events : List Event) : Prop :=
  .deadline ∈ events → ∀ i < names.length, i ∉ crashes events

/-- The race is over: nobody came to an end twice, and everybody came to an end unless the deadline
came. -/
structure Over (names : List String) (events : List Event) : Prop where
  once : (events.filterMap Event.candidate?).Nodup
  ended : .deadline ∉ events → ∀ i < names.length, i ∈ events.filterMap Event.candidate?

variable {names : List String} {events : List Event} {mode : Mode}

/-! ### Coming to an end -/

theorem crashes_subset (events : List Event) :
    crashes events ⊆ events.filterMap Event.candidate? := by
  induction events with
  | nil => exact List.Subset.refl _
  | cons e events ih =>
    cases e with
    | completed i r => exact List.subset_cons_of_subset i ih
    | crashed i => exact List.cons_subset_cons i ih
    | deadline => exact List.nil_subset _

/-- Without the deadline, whoever came to an end broke off or gave a result. -/
theorem mem_crashes_or_completions (hdeadline : .deadline ∉ events) {i : Nat}
    (hi : i ∈ events.filterMap Event.candidate?) :
    i ∈ crashes events ∨ i ∈ (completions events).map (·.1) := by
  induction events with
  | nil => cases hi
  | cons e events ih =>
    rw [List.mem_cons, not_or] at hdeadline
    cases e with
    | completed j r =>
      rcases List.mem_cons.mp hi with rfl | hi
      · exact Or.inr List.mem_cons_self
      · exact (ih hdeadline.2 hi).imp_right (List.mem_cons_of_mem _)
    | crashed j =>
      rcases List.mem_cons.mp hi with rfl | hi
      · exact Or.inl List.mem_cons_self
      · exact (ih hdeadline.2 hi).imp_left (List.mem_cons_of_mem _)
    | deadline => exact absurd rfl hdeadline.1

/-- Nobody breaks off and gives a result. -/
theorem notMem_completions_of_mem_crashes (honce : (events.filterMap Event.candidate?).Nodup)
    {i : Nat} (hi : i ∈ crashes events) : i ∉ (completions events).map (·.1) := by
  induction events with
  | nil => cases hi
  | cons e events ih =>
    cases e with
    | completed j r =>
      obtain ⟨hj, honce⟩ := List.nodup_cons.mp honce
      intro hmem
      rcases List.mem_cons.mp hmem with rfl | hmem
      · exact hj (crashes_subset events hi)
      · exact ih honce hi hmem
    | crashed j =>
      obtain ⟨hj, honce⟩ := List.nodup_cons.mp honce
      rcases List.mem_cons.mp hi with rfl | hi
      · exact fun hmem => hj ((sublist_candidates events).subset hmem)
      · exact ih honce hi
    | deadline => cases hi

theorem mem_silentOnes {p : String × Nat} :
    p ∈ silentOnes names events ↔
      names[p.2]? = some p.1 ∧ p.2 ∉ (completions events).map (·.1) := by
  rw [silentOnes, List.mem_filter, List.mem_zipIdx_iff_getElem?, decide_eq_true_iff]

theorem Over.mem_silentOnes_of_mem_crashes (h : Over names events) {i : Nat}
    (hlt : i < names.length) (hi : i ∈ crashes events) :
    (names[i], i) ∈ silentOnes names events :=
  mem_silentOnes.mpr ⟨List.getElem?_eq_getElem hlt, notMem_completions_of_mem_crashes h.once hi⟩

/-- Without the deadline, whoever gave no result broke off. -/
theorem Over.mem_crashes_of_mem_silentOnes (h : Over names events)
    (hdeadline : .deadline ∉ events) {p : String × Nat} (hp : p ∈ silentOnes names events) :
    p.2 ∈ crashes events := by
  obtain ⟨hname, hsilent⟩ := mem_silentOnes.mp hp
  have hlt : p.2 < names.length := (List.getElem?_eq_some_iff.mp hname).1
  exact (mem_crashes_or_completions hdeadline (h.ended hdeadline p.2 hlt)).resolve_right hsilent

/-! ### The reports -/

/-- What a race without a winner reports: those who gave no result are all too late if the deadline
came, and have all failed if not. -/
theorem results_of_no_winner (h : (judge mode names events).winner = none) :
    (judge mode names events).results = given events ++ (silentOnes names events).map fun p =>
      if .deadline ∈ events then lateReport p.1 else .failure p.1 "prover task failed" := by
  have hsilent : ∀ name, silent (events.any Event.isDeadline) name =
      if .deadline ∈ events then lateReport name else .failure name "prover task failed" :=
    fun name => if_congr any_isDeadline_iff rfl rfl
  rw [(judge_of_no_winner h).1, silents, List.map_map]
  exact congrArg _ (List.map_congr_left fun p _ => hsilent p.1)

theorem failure_ne_lateReport (name : String) :
    Result.failure name "prover task failed" ≠ lateReport name := by
  intro heq
  cases congrArg Result.status heq

/-- If the deadline came, all who gave no result are reported as too late. -/
theorem results_of_deadline (h : (judge mode names events).winner = none)
    (hdeadline : .deadline ∈ events) :
    (judge mode names events).results =
      given events ++ (silentOnes names events).map fun p => lateReport p.1 := by
  rw [results_of_no_winner h]
  exact congrArg _ (List.map_congr_left fun p _ => if_pos hdeadline)

/-- **A race reports everybody by its own fate exactly if nobody had broken off when the deadline
came.** -/
theorem Over.results_eq_dueReports_iff (h : Over names events)
    (hwinner : (judge mode names events).winner = none) :
    (judge mode names events).results = dueReports names events ↔
      NoCrashBeforeDeadline names events := by
  rw [dueReports, NoCrashBeforeDeadline]
  by_cases hdeadline : .deadline ∈ events
  · rw [results_of_deadline hwinner hdeadline, List.append_cancel_left_eq, List.map_inj_left,
      forall_prop_of_true hdeadline]
    constructor
    · intro hfates i hlt hi
      have hfate := hfates _ (h.mem_silentOnes_of_mem_crashes hlt hi)
      rw [fate, if_pos hi] at hfate
      exact failure_ne_lateReport _ hfate.symm
    · intro hnone p hp
      have hlt : p.2 < names.length := (List.getElem?_eq_some_iff.mp (mem_silentOnes.mp hp).1).1
      rw [fate, if_neg (hnone p.2 hlt)]
  · rw [results_of_no_winner hwinner, List.append_cancel_left_eq, List.map_inj_left]
    refine iff_of_true (fun p hp => ?_) fun hmem => absurd hmem hdeadline
    rw [fate, if_neg hdeadline, if_pos (h.mem_crashes_of_mem_silentOnes hdeadline hp)]

end Race

/-! ### The races of a router -/

namespace Desk

variable {κ : Type} [DecidableEq κ] {goal : Formula} {axioms : List Formula} {keyOf : Seat → κ}
  {timeout now : Nat}

/-- If the deadline does not come, all candidates are in time. -/
theorem inTime_perm_of_deadline_notMem {d : Desk κ} {seats : List Seat}
    (h : .deadline ∉ d.raceEvents seats goal axioms keyOf timeout now) :
    ((Runner.inTime timeout (d.runners seats goal axioms keyOf timeout now)).map (·.index)).Perm
      (List.range seats.length) := by
  have hnodup : ((Runner.inTime timeout
      (d.runners seats goal axioms keyOf timeout now)).map (·.index)).Nodup := by
    rw [← Runner.candidates_events timeout seats.length]
    exact d.nodup_raceEvents seats
  have hsubset : ((Runner.inTime timeout
      (d.runners seats goal axioms keyOf timeout now)).map (·.index)) ⊆
        List.range seats.length := by
    intro i hi
    obtain ⟨r, hr, rfl⟩ := List.mem_map.mp hi
    have hseat := getElem?_of_mem_runners (Runner.mem_inTime.mp hr).1
    exact List.mem_range.mpr (List.getElem?_eq_some_iff.mp hseat).1
  refine (List.subperm_of_subset hnodup hsubset).perm_of_length_le ?_
  rw [List.length_range, List.length_map]
  by_contra hlt
  rw [raceEvents, Runner.events_eq, Runner.rest, if_pos (Nat.not_le.mp hlt)] at h
  exact h (List.mem_append_right _ (List.mem_singleton_self _))

/-- **A race that is run is over when it is judged.** -/
theorem over_raceEvents (d : Desk κ) (seats : List Seat) (goal : Formula) (axioms : List Formula)
    (keyOf : Seat → κ) (timeout now : Nat) :
    Race.Over (seats.map (·.name)) (d.raceEvents seats goal axioms keyOf timeout now) where
  once := d.nodup_raceEvents seats
  ended hdeadline i hi := by
    rw [List.length_map] at hi
    rw [raceEvents, Runner.candidates_events]
    exact (inTime_perm_of_deadline_notMem hdeadline).mem_iff.mpr (List.mem_range.mpr hi)

end Desk

namespace Router

open Race

variable {κ : Type} [DecidableEq κ]

/-- The reports that are due after a race between the registered provers, if nobody wins it. -/
def dueReports (r : Router κ) (goal : Formula) (axioms : List Formula) (timeout now : Nat) :
    List Result :=
  Race.dueReports ((r.entrants goal axioms).map (·.name)) (r.raceEvents goal axioms timeout now)

/-- No registered prover had broken off when the deadline of the race came, if it came. -/
def NoCrashBeforeDeadline (r : Router κ) (goal : Formula) (axioms : List Formula)
    (timeout now : Nat) : Prop :=
  Race.NoCrashBeforeDeadline ((r.entrants goal axioms).map (·.name))
    (r.raceEvents goal axioms timeout now)

/-- **The reports of a race without a winner are those that are due exactly if nobody had crashed
before the deadline.**

* For all `events` of a race that is `Over` and has no winner, the results of `judge` are
  `Race.dueReports` if and only if `Race.NoCrashBeforeDeadline` holds.  If `.deadline` is among the
  events, the results are those in `given`, and a `lateReport` of each of `silentOnes`.
* For the router these are the `results` of `crossCheck`, and the `parts` of `prove` with
  `Strategy.parallel` if its race has no winner, with the `dueReports` of its `raceEvents`, for
  every `timeout` with a deadline on the clock. -/
theorem reports_due_iff (r : Router κ) (goal : Formula) (axioms : List Formula) :
    (∀ mode names events, Over names events → (judge mode names events).winner = none →
      ((judge mode names events).results = Race.dueReports names events ↔
          Race.NoCrashBeforeDeadline names events) ∧
        (.deadline ∈ events → (judge mode names events).results =
          given events ++ (silentOnes names events).map fun p => lateReport p.1)) ∧
      (r.entrants goal axioms ≠ [] → ∀ timeout now,
        (∃ survey, (r.crossCheck goal axioms timeout now).1 = .ok survey ∧
          (survey.results = r.dueReports goal axioms timeout now ↔
            r.NoCrashBeforeDeadline goal axioms timeout now)) ∧
        ∃ result, (r.prove goal axioms .parallel timeout now).1 = .ok result ∧
          ((r.outcome goal axioms (r.raceEvents goal axioms timeout now)).winner = none →
            (result.parts = r.dueReports goal axioms timeout now ↔
              r.NoCrashBeforeDeadline goal axioms timeout now))) := by
  refine ⟨fun mode names events hover hwinner =>
    ⟨hover.results_eq_dueReports_iff hwinner, results_of_deadline hwinner⟩, ?_⟩
  intro hentrants timeout now
  have hover : Over ((r.entrants goal axioms).map (·.name))
      (r.raceEvents goal axioms timeout now) :=
    r.desk.over_raceEvents (r.entrants goal axioms) goal axioms _ timeout now
  constructor
  · refine ⟨_, crossCheck_fst hentrants timeout now, ?_⟩
    rw [survey, Reconciliation.results_ofResults]
    exact hover.results_eq_dueReports_iff (winner_judge_all _ _)
  · obtain ⟨took, hprove⟩ := prove_parallel_fst hentrants timeout now
    refine ⟨_, hprove, fun hwinner => ?_⟩
    rw [hwinner, Option.getD_none]
    exact hover.results_eq_dueReports_iff hwinner

/-- One prover breaks off and the other does not decide, and both are there before the deadline. -/
theorem reports_due_iff_in_time :
    let provers : List Prover :=
      [⟨"broken", true, {}, [], .millis 2, fun _ _ _ => .crashed⟩,
        ⟨"slow", true, {}, [], .millis 5, fun _ _ _ => .answered (.plain .unknown "slow")⟩]
    let r : Router String :=
      { registry := .ofProvers provers, analyzer := {}, config := {}, keyOf := (·.prover)
        desk := { cache := { config := {} } } }
    let goal : Formula := .atom "Q"
    r.entrants goal [] ≠ [] ∧ r.NoCrashBeforeDeadline goal [] 10 0 ∧
      (∃ survey, (r.crossCheck goal [] 10 0).1 = .ok survey ∧
        survey.results = r.dueReports goal [] 10 0) ∧
      (r.dueReports goal [] 10 0).map (fun report => (report.prover, report.status)) =
        [("slow", .unknown), ("broken", .error)] := by
  intro provers r goal
  have hentrants : r.entrants goal [] ≠ [] := by
    intro hnil
    have hperm := entrants_perm (r := r) (Registry.distinct_ofProvers provers) goal []
    rw [hnil] at hperm
    exact Registry.seats_ofProvers_ne_nil (List.cons_ne_nil _ _) (List.nil_perm.mp hperm)
  have hpaces : (r.desk.runners (r.entrants goal []) goal [] (r.seatKey goal []) 10 0).Pairwise
      fun s t => s.pace.halves < t.pace.halves := by decide +kernel
  have hcrash : r.NoCrashBeforeDeadline goal [] 10 0 := by
    intro hdeadline
    have hnone : (r.raceEvents goal [] 10 0).any Event.isDeadline = false := by
      rw [raceEvents, Desk.raceEvents, Runner.events, Runner.inTime_of_perm (.refl _) hpaces]
      decide +kernel
    rw [any_isDeadline_iff.mpr hdeadline] at hnone
    cases hnone
  have hreports : (r.dueReports goal [] 10 0).map (fun report => (report.prover, report.status)) =
      [("slow", .unknown), ("broken", .error)] := by
    rw [dueReports, raceEvents, Desk.raceEvents, Runner.events,
      Runner.inTime_of_perm (.refl _) hpaces]
    decide +kernel
  obtain ⟨survey, hsurvey, hiff⟩ := ((reports_due_iff r goal []).2 hentrants 10 0).1
  exact ⟨hentrants, hcrash, ⟨survey, hsurvey, hiff.mpr hcrash⟩, hreports⟩

/-- A prover that broke off at once is reported as too late, because another one did not come
before the deadline. -/
theorem crash_reported_late :
    let broken : Prover := ⟨"broken", true, {}, [], .millis 0, fun _ _ _ => .crashed⟩
    let slow : Prover :=
      ⟨"slow", true, {}, [], .millis 50, fun _ _ _ => .answered (.plain .proved "slow")⟩
    ∃ r survey, Router.create {} {} {} = .ok r ∧
      (((r.register broken).register slow).crossCheck (.atom "Q") [.atom "P"] 20 0).1 =
        .ok survey ∧
      survey.results.map (fun report => (report.prover, report.status)) =
        [("broken", .timeout), ("slow", .timeout)] ∧
      (((r.register broken).register slow).dueReports (.atom "Q") [.atom "P"] 20 0).map
          (fun report => (report.prover, report.status)) =
        [("broken", .error), ("slow", .timeout)] := by
  exact ⟨_, _, rfl, rfl, by decide +kernel, by decide +kernel⟩

end Router

end Deontica
