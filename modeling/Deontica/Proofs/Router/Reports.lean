import Deontica.Proofs.Router

/-!
# Every candidate is reported once

However the candidates of a race come to an end, and in whatever order, the race reports on each of
them once if it has no winner, and up to the winner if it has one (`Race.ReportsOnce`).  For a
router this means that a cross-check compares one result of each registered prover, and that the
result of a race without a winner has one part for each (`Router.Accounts`).

A prover that is not available answers at once that it failed.  It is reported so, unless the
deadline comes before its answer: with no time allowed nobody begins, and then it is reported as too
late like all others.
-/

namespace Deontica

namespace Race

/-- What a race reports of the events: the first decisive result wins, and then those before it are
all that is reported; otherwise every candidate is reported once, first those that gave a result in
the order of completion, then the others in their own order. -/
structure ReportsOnce (names : List String) (events : List Event) : Prop where
  winner : (judge .firstDecisive names events).winner =
    (given events).find? (·.status.isDecisive)
  earlier : ∀ w, (judge .firstDecisive names events).winner = some w →
    (judge .firstDecisive names events).results =
      (given events).takeWhile (!·.status.isDecisive)
  all : (judge .all names events).winner = none
  results : ∀ mode, (judge mode names events).winner = none → ∃ others,
    (judge mode names events).results = given events ++ others ∧
      others.map (·.prover) = names.filter (· ∉ (given events).map (·.prover))
  once : ∀ mode, (judge mode names events).winner = none →
    ((judge mode names events).results.map (·.prover)).Perm names

theorem Possible.reportsOnce {names : List String} {events : List Event}
    (h : Possible names events) (hnames : names.Nodup) : ReportsOnce names events where
  winner := winner_judge names events
  earlier _ := results_judge_of_winner
  all := winner_judge_all names events
  results mode hwinner := by
    refine ⟨_, (judge_of_no_winner hwinner).1, ?_⟩
    rw [List.map_map, ← h.silents_eq hnames]
    exact List.map_id'' (prover_silent _) _
  once mode hwinner := by
    rw [provers_of_no_winner hwinner]
    exact append_silents_perm h hnames

/-- What can happen in a race between registered provers: one that is not available gives no other
result than that. -/
structure Between (seats : List Seat) (events : List Event) : Prop where
  possible : Possible (seats.map (·.name)) events
  refused : ∀ i result seat, .completed i result ∈ events → seats[i]? = some seat →
    seat.prover.available = false → result = (Attempt.unavailable seat.name).toResult

theorem any_isDeadline_iff {events : List Event} :
    events.any Event.isDeadline = true ↔ .deadline ∈ events := by
  rw [List.any_eq_true]
  constructor
  · rintro ⟨event, hmem, hdeadline⟩
    cases event with
    | deadline => exact hmem
    | completed i r => cases hdeadline
    | crashed i => cases hdeadline
  · exact fun hmem => ⟨_, hmem, rfl⟩

instance decidableDeadlineMem (events : List Event) : Decidable (.deadline ∈ events) :=
  decidable_of_iff _ any_isDeadline_iff

theorem status_silent (deadlineHit : Bool) (name : String) :
    (silent deadlineHit name).status = if deadlineHit then .timeout else .error := by
  cases deadlineHit <;> rfl

/-- **A prover that is not available is reported as failed**, unless the deadline came before it
could say so. -/
theorem Between.status_of_unavailable {seats : List Seat} {events : List Event}
    (h : Between seats events) (hnames : (seats.map (·.name)).Nodup) {mode : Mode}
    (hwinner : (judge mode (seats.map (·.name)) events).winner = none) {seat : Seat}
    (hseat : seat ∈ seats) (hunavailable : seat.prover.available = false) {part : Result}
    (hpart : part ∈ (judge mode (seats.map (·.name)) events).results)
    (hprover : part.prover = seat.name) :
    part.status =
      if .deadline ∈ events ∧ seat.name ∉ (given events).map (·.prover) then .timeout
      else .error := by
  rw [(judge_of_no_winner hwinner).1, List.mem_append] at hpart
  rcases hpart with hpart | hpart
  · obtain ⟨p, hp, rfl⟩ := List.mem_map.mp hpart
    have hgiven : seat.name ∈ (given events).map (·.prover) := by
      rw [← hprover]
      exact List.mem_map_of_mem hpart
    -- the candidate that gave the result has the name of the seat, so it is the seat
    have hname := h.possible.getElem?_of_mem hp
    rw [List.getElem?_map, Option.map_eq_some_iff] at hname
    obtain ⟨s, hs, hsame⟩ := hname
    obtain rfl : s = seat := List.inj_on_of_nodup_map hnames (List.mem_of_getElem? hs) hseat
      (hsame.trans hprover)
    rw [h.refused p.1 p.2 s (completed_of_mem_completions hp) hs hunavailable,
      if_neg fun hlate => hlate.2 hgiven]
    rfl
  · obtain ⟨name, hname, rfl⟩ := List.mem_map.mp hpart
    rw [prover_silent] at hprover
    rw [h.possible.silents_eq hnames, List.mem_filter, hprover] at hname
    have hsilent := of_decide_eq_true hname.2
    rw [status_silent]
    refine if_congr ?_ rfl rfl
    rw [any_isDeadline_iff]
    exact (and_iff_left hsilent).symm

/-- The result of a race without a winner is a timeout if the deadline came or one of its parts is a
timeout. -/
theorem status_aggregate (o : Outcome) (candidates : Nat) :
    (aggregate o candidates).status =
      if o.deadlineHit = true ∨ ∃ part ∈ o.results, part.status = .timeout then .timeout
      else .unknown := by
  show (if o.deadlineHit || o.results.any (·.status == .timeout) then Status.timeout
    else .unknown) = _
  refine if_congr ?_ rfl rfl
  simp [List.any_eq_true]

end Race

theorem Reconciliation.results_ofResults (results : List Result) :
    (ofResults results).results = results := by
  unfold ofResults
  dsimp only
  split
  · rfl
  · split_ifs <;> rfl

namespace Router

open Race

variable {κ : Type} {r : Router κ} {goal : Formula} {axioms : List Formula}

/-- What a router makes of the events of a race between the registered provers: a cross-check
compares one result of each, and if nobody wins a race for the first decision, its result has one
part for each. -/
structure Accounts (r : Router κ) (goal : Formula) (axioms : List Formula)
    (events : List Race.Event) : Prop where
  compared : ((r.survey goal axioms events).results.map (·.prover)).Perm r.registry.names
  parts : (r.outcome goal axioms events).winner = none →
    ((r.undecided goal axioms events).parts.map (·.prover)).Perm r.registry.names
  status : (r.outcome goal axioms events).winner = none →
    (r.undecided goal axioms events).status =
      if .deadline ∈ events ∨
          ∃ part ∈ (r.undecided goal axioms events).parts, part.status = .timeout
      then .timeout else .unknown
  unavailable : (r.outcome goal axioms events).winner = none →
    ∀ seat ∈ r.registry.seats, seat.prover.available = false →
      ∀ part ∈ (r.undecided goal axioms events).parts, part.prover = seat.name →
        part.status =
          if .deadline ∈ events ∧ seat.name ∉ (given events).map (·.prover) then .timeout
          else .error

theorem accounts_of_between (h : r.registry.Distinct) {events : List Race.Event}
    (hevents : Between (r.entrants goal axioms) events) : r.Accounts goal axioms events := by
  have hnames := nodup_names_entrants h goal axioms
  have honce := hevents.possible.reportsOnce hnames
  refine ⟨?_, fun hwinner => ?_, fun hwinner => ?_, ?_⟩
  · rw [survey, Reconciliation.results_ofResults]
    exact (honce.once .all honce.all).trans (names_entrants_perm h goal axioms)
  · exact (honce.once .firstDecisive hwinner).trans (names_entrants_perm h goal axioms)
  · have hdeadline : (r.outcome goal axioms events).deadlineHit = true ↔ .deadline ∈ events := by
      rw [outcome, (judge_of_no_winner hwinner).2]
      exact any_isDeadline_iff
    exact (status_aggregate _ _).trans (if_congr (or_congr_left hdeadline) rfl rfl)
  · intro hwinner seat hseat hunavailable part hpart hprover
    exact hevents.status_of_unavailable hnames hwinner
      ((entrants_perm h goal axioms).mem_iff.mpr hseat) hunavailable hpart hprover

/-! ### The race that a router runs -/

variable [DecidableEq κ] {timeout : Nat}

/-- What the cache has for a registered prover is attributed to it. -/
def Attributes (r : Router κ) (goal : Formula) (axioms : List Formula) : Prop :=
  r.desk.Trusts r.registry.seats (r.seatKey goal axioms) fun seat result =>
    result.prover = seat.name

/-- A seat at work gives no result but its own, and if its prover is not available, that is its
result, and it is there at once. -/
structure WorkOf (seat : Seat) (work : Work) : Prop where
  own : ∀ result, work.told seat.name = some result → result.prover = seat.name
  refused : seat.prover.available = false →
    work = .ready (Attempt.unavailable seat.name).toResult

theorem enter_of_attributed {seats : List Seat} {keyOf : Seat → κ} {d : Desk κ}
    (h : d.Trusts seats keyOf fun seat result => result.prover = seat.name) {seat : Seat}
    (hseat : seat ∈ seats) (goal : Formula) (axioms : List Formula) (timeout now : Nat) :
    WorkOf seat (d.enter seat goal axioms (keyOf seat) timeout now).1 ∧
      (d.enter seat goal axioms (keyOf seat) timeout now).2.Trusts seats keyOf fun seat result =>
        result.prover = seat.name := by
  refine ⟨⟨fun result htold => ?_, fun hunavailable => ?_⟩, h.enter hseat fun _ result hkept => ?_⟩
  · rcases d.told_enter seat goal axioms (keyOf seat) timeout now with
      ⟨_, h'⟩ | ⟨_, ⟨found, cache, hget, h'⟩ | h'⟩
    · cases h'.symm.trans htold
      rfl
    · cases h'.symm.trans htold
      obtain ⟨kept, hkept, rfl⟩ := h.found hseat hget
      exact hkept
    · rw [Work.eq_of_told_running (h'.symm.trans htold)]
      exact Desk.prover_attemptOf _ _
  · rw [Desk.enter_of_unavailable hunavailable]
  · have hprover := Desk.prover_attemptOf seat.name
      (.cameBack (seat.prover.run goal axioms timeout))
    rw [Ending.attemptOf_of_kept hkept] at hprover
    exact hprover

theorem workOf_of_mem_runners (h : r.Attributes goal axioms) {now : Nat} {runner : Runner κ}
    (hrunner : runner ∈ r.desk.runners (r.entrants goal axioms) goal axioms
      (r.seatKey goal axioms) timeout now) : WorkOf runner.seat runner.work := by
  let attributed := Desk.Trusts r.registry.seats (r.seatKey goal axioms)
    fun seat result => result.prover = seat.name
  refine Desk.forall_runners (I := attributed) (P := WorkOf) (fun seat hseat d hd => ?_) h runner
    hrunner
  exact enter_of_attributed hd (Registry.mem_of_mem_ranked hseat) goal axioms timeout now

/-- **What a router runs is a race between the registered provers**, if its cache attributes what it
has to those who gave it. -/
theorem between_raceEvents (h : r.Attributes goal axioms) (timeout now : Nat) :
    Between (r.entrants goal axioms) (r.raceEvents goal axioms timeout now) := by
  refine ⟨Desk.possible_raceEvents fun runner hrunner =>
    (workOf_of_mem_runners h hrunner).own, ?_⟩
  intro i result seat hcompleted hseat hunavailable
  obtain ⟨runner, hrunner, rfl, htold⟩ := Runner.exists_of_completed hcompleted
  rw [Desk.getElem?_of_mem_runners hrunner] at hseat
  cases hseat
  rw [Runner.told, (workOf_of_mem_runners h hrunner).refused hunavailable] at htold
  exact (Option.some.inj htold).symm

/-- If there is time at all, a prover that is not available says so before the deadline. -/
theorem given_of_unavailable (h : r.Attributes goal axioms) (htimeout : 0 < timeout) (now : Nat)
    {seat : Seat} (hseat : seat ∈ r.entrants goal axioms)
    (hunavailable : seat.prover.available = false) :
    seat.name ∈ (given (r.raceEvents goal axioms timeout now)).map (·.prover) := by
  obtain ⟨runner, hrunner, rfl⟩ :=
    r.desk.exists_runner goal axioms (r.seatKey goal axioms) htimeout now hseat
  have hwork := (workOf_of_mem_runners h hrunner).refused hunavailable
  have hpace : runner.pace.isBefore timeout = true := by
    rw [Runner.pace, hwork]
    exact decide_eq_true (Nat.mul_pos Nat.two_pos htimeout)
  have htold : runner.told = some (Attempt.unavailable runner.seat.name).toResult := by
    rw [Runner.told, hwork]
    rfl
  rw [raceEvents, Desk.raceEvents, Runner.given_events]
  exact List.mem_map.mpr ⟨_, List.mem_filterMap.mpr
    ⟨runner, Runner.mem_inTime.mpr ⟨hrunner, hpace⟩, htold⟩, rfl⟩

/-! ### Exactly once -/

/-- **A race reports every candidate exactly once.**

* For all `names` without repetition and all `events` that are `Possible` in a race between them,
  the winner and the results that `judge` gives are those of `ReportsOnce`: without a winner, the
  provers of the results are a permutation of `names`.
* For all `events` that can happen `Between` the `entrants` of the router, the results of `survey`
  and the parts of `undecided` are one for each registered prover (`Accounts`), and the part of a
  prover that is not available has the status `error`, or `timeout` if the deadline came before its
  result.
* If the cache `Attributes` its entries, the `raceEvents` of the router are such events, for every
  `timeout` with a deadline on the clock; `crossCheck` returns their `survey`, and `prove` with
  `Strategy.parallel` returns the winner of their `outcome`, or else `undecided`.  With a positive
  `timeout` the status of a prover that is not available is then `error`. -/
theorem races_report_once (r : Router κ) (provers : List Prover)
    (hregistry : r.registry = .ofProvers provers) (goal : Formula) (axioms : List Formula) :
    (∀ names events, names.Nodup → Possible names events → ReportsOnce names events) ∧
      (∀ events, Between (r.entrants goal axioms) events → r.Accounts goal axioms events) ∧
      (provers ≠ [] → r.Attributes goal axioms → ∀ timeout now,
        Between (r.entrants goal axioms) (r.raceEvents goal axioms timeout now) ∧
          (r.crossCheck goal axioms timeout now).1 =
            .ok (r.survey goal axioms (r.raceEvents goal axioms timeout now)) ∧
          (∃ took, (r.prove goal axioms .parallel timeout now).1 =
            .ok ((r.outcome goal axioms (r.raceEvents goal axioms timeout now)).winner.getD
              { r.undecided goal axioms (r.raceEvents goal axioms timeout now) with
                elapsed := took })) ∧
          (0 < timeout →
            (r.outcome goal axioms (r.raceEvents goal axioms timeout now)).winner = none →
            ∀ seat ∈ r.registry.seats, seat.prover.available = false →
              ∀ part ∈ (r.undecided goal axioms (r.raceEvents goal axioms timeout now)).parts,
                part.prover = seat.name → part.status = .error)) := by
  have hdistinct : r.registry.Distinct := hregistry ▸ Registry.distinct_ofProvers provers
  have haccounts : ∀ events, Between (r.entrants goal axioms) events →
      r.Accounts goal axioms events := fun events => accounts_of_between hdistinct
  refine ⟨fun names events hnames hevents => hevents.reportsOnce hnames, haccounts, ?_⟩
  intro hprovers hattributes timeout now
  have hentrants : r.entrants goal axioms ≠ [] := by
    intro hnil
    have hperm := entrants_perm hdistinct goal axioms
    rw [hnil, List.nil_perm, hregistry] at hperm
    exact Registry.seats_ofProvers_ne_nil hprovers hperm
  have hbetween := between_raceEvents hattributes timeout now
  refine ⟨hbetween, crossCheck_fst hentrants timeout now, prove_parallel_fst hentrants timeout now,
    ?_⟩
  intro htimeout hwinner seat hseat hunavailable part hpart hprover
  have hgiven := given_of_unavailable hattributes htimeout now
    ((entrants_perm hdistinct goal axioms).mem_iff.mpr hseat) hunavailable
  rw [(haccounts _ hbetween).unavailable hwinner seat hseat hunavailable part hpart hprover,
    if_neg fun hlate => hlate.2 hgiven]

/-- A race that nobody wins: one prover takes a while and does not decide, one breaks off before it,
and one is not available. -/
theorem races_report_once_mixed :
    let provers : List Prover :=
      [⟨"slow", true, {}, [], .millis 5, fun _ _ _ => .answered (.plain .unknown "slow")⟩,
        ⟨"broken", true, {}, [], .millis 2, fun _ _ _ => .crashed⟩,
        ⟨"absent", false, {}, [], .millis 0, fun _ _ _ => .crashed⟩]
    let r : Router String :=
      { registry := .ofProvers provers, analyzer := {}, config := {}, keyOf := (·.prover)
        desk := { cache := { config := {} } } }
    let goal : Formula := .atom "P"
    r.Attributes goal [] ∧
      (r.outcome goal [] (r.raceEvents goal [] 10 0)).winner = none ∧
      ((r.undecided goal [] (r.raceEvents goal [] 10 0)).parts.map (·.prover)).Perm
        ["slow", "broken", "absent"] ∧
      ∀ part ∈ (r.undecided goal [] (r.raceEvents goal [] 10 0)).parts,
        part.prover = "absent" → part.status = .error := by
  intro provers r goal
  have hattributes : r.Attributes goal [] := by
    refine ⟨fun _ s hs t ht hkey => ?_, fun _ p hp => absurd hp List.not_mem_nil⟩
    exact (Registry.distinct_ofProvers provers).eq_of_name_eq hs ht hkey
  have hwinner : (r.outcome goal [] (r.raceEvents goal [] 10 0)).winner = none := by
    rw [raceEvents, Desk.raceEvents, Runner.events,
      Runner.inTime_of_perm (List.reverse_perm _).symm (by decide +kernel)]
    decide +kernel
  obtain ⟨_, haccounts, hraces⟩ := races_report_once r provers rfl goal []
  obtain ⟨hbetween, _, _, herror⟩ := hraces (List.cons_ne_nil _ _) hattributes 10 0
  refine ⟨hattributes, hwinner, (haccounts _ hbetween).parts hwinner, ?_⟩
  exact herror (by decide) hwinner _ (List.mem_of_getLast? rfl) rfl

/-- With no time allowed, a prover that is not available is not reported as failed but as too
late. -/
theorem unavailable_reported_late :
    let absent : Prover :=
      ⟨"absent", false, {}, [], .millis 0, fun _ _ _ => .answered (.plain .proved "absent")⟩
    ∃ r result, Router.create {} {} {} = .ok r ∧
      ((r.register absent).prove (.atom "Q") [.atom "P"] .parallel 0 0).1 = .ok result ∧
      result.parts.map (fun part => (part.prover, part.status)) = [("absent", .timeout)] := by
  exact ⟨_, _, rfl, rfl, by decide +kernel⟩

end Router

end Deontica
