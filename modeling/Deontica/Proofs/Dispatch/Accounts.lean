import Deontica.Proofs.Race.Runner

/-!
# Calls that are not accounted for

A prover is called at the beginning of a call, and the call is accounted for at its end.  So at any
time there may be calls of a prover that its account does not have (`Desk.Owes`).  A whole call that
does not crash leaves their number as it is (`Desk.Owes.call`).  A race adds those of its runners
that are on their way when it is over (`Desk.Owes.race`): nobody accounts for them any more.
-/

namespace Deontica

namespace ProverStats

/-- The calls that settled the question, or those that did not. -/
def share (s : ProverStats) (success : Bool) : Nat :=
  if success then s.successes else s.failures

theorem share_record (s : ProverStats) (success b : Bool) :
    (s.record success).share b = s.share b + if success = b then 1 else 0 := by
  cases success <;> cases b <;> rfl

/-- Every attempt settled the question or did not. -/
def Adds (s : ProverStats) : Prop :=
  s.attempts = s.successes + s.failures

theorem Adds.record {s : ProverStats} (h : s.Adds) (success : Bool) : (s.record success).Adds := by
  unfold Adds at h ⊢
  cases success <;> simp only [ProverStats.record, h] <;> simp <;> omega

/-- The counts are numbers of 32 bits. -/
def Fits (s : ProverStats) : Prop :=
  s.attempts < UInt32.size ∧ s.successes < UInt32.size ∧ s.failures < UInt32.size

theorem Adds.fits {s : ProverStats} (h : s.Adds) (hattempts : s.attempts < UInt32.size) :
    s.Fits := by
  unfold Adds at h
  exact ⟨hattempts, by omega, by omega⟩

end ProverStats

theorem Ending.isCrash_cameBack {run : Run} (h : run ≠ .crashed) :
    (Ending.cameBack run).isCrash = false := by
  cases run with
  | answered result => rfl
  | failed causes => rfl
  | crashed => exact absurd rfl h

theorem Prover.isCrash_ending {p : Prover} {goal : Formula} {axioms : List Formula} {timeout : Nat}
    (h : p.run goal axioms timeout ≠ .crashed) :
    (p.ending goal axioms timeout).isCrash = false := by
  unfold Prover.ending
  split_ifs
  · exact Ending.isCrash_cameBack h
  · rfl

/-- The prover was called, and its call has not come to an end. -/
def Work.isRunning : Work → Bool
  | .running _ => true
  | _ => false

namespace Runner

variable {κ : Type}

/-- The runner is on its way for the seat. -/
def isRunningFor (seat : Seat) (r : Runner κ) : Bool :=
  decide (r.seat.id = seat.id) && r.work.isRunning

end Runner

namespace Desk

/-! ### Accounts -/

theorem lookup_cons_eq_ite (n m : String) (s : ProverStats) (stats : List (String × ProverStats)) :
    ((m, s) :: stats).lookup n = if n = m then some s else stats.lookup n := by
  rw [List.lookup_cons]
  split_ifs with h
  · rw [beq_iff_eq.mpr h]
  · rw [beq_eq_false_iff_ne.mpr h]

theorem lookup_recordIn (name : String) (success : Bool) (stats : List (String × ProverStats))
    (n : String) :
    (recordIn name success stats).lookup n =
      if n = name then some (((stats.lookup name).getD {}).record success)
      else stats.lookup n := by
  induction stats with
  | nil => exact lookup_cons_eq_ite n name _ []
  | cons entry rest ih =>
    obtain ⟨m, s⟩ := entry
    unfold recordIn
    by_cases hm : m = name
    · subst hm
      rw [if_pos rfl, lookup_cons_eq_ite, lookup_cons_eq_ite, lookup_cons_eq_ite, if_pos rfl]
      split_ifs <;> rfl
    · rw [if_neg hm, lookup_cons_eq_ite, lookup_cons_eq_ite, lookup_cons_eq_ite, ih,
        if_neg (Ne.symm hm)]
      -- the two names are different, so it does not matter which is asked for first
      by_cases hn : n = m
      · rw [if_pos hn, if_neg (hn ▸ hm), if_pos hn]
      · rw [if_neg hn, if_neg hn]

variable {κ : Type} {d d' : Desk κ}

/-- **Accounting for a call** changes the account of the prover and no other. -/
theorem statsOf_of_recordIn {name : String} {success : Bool}
    (h : d'.stats = recordIn name success d.stats) (n : String) :
    d'.statsOf n = if n = name then (d.statsOf n).record success else d.statsOf n := by
  unfold statsOf
  rw [h, lookup_recordIn]
  split_ifs with hn
  · rw [hn]
    rfl
  · rfl

/-! ### Calls that the account does not have -/

/-- The account of the prover lacks so many of its calls. -/
def Owes (d : Desk κ) (seat : Seat) (n : Nat) : Prop :=
  d.callsOf seat.id = (d.statsOf seat.name).attempts + n

namespace Owes

variable {seat s : Seat} {n : Nat}

theorem of_eq (h : d.Owes seat n) (hcalls : d'.calls = d.calls) (hstats : d'.stats = d.stats) :
    d'.Owes seat n := by
  unfold Owes callsOf statsOf at h ⊢
  rw [hcalls, hstats]
  exact h

/-- A prover that has been called is not yet accounted for. -/
theorem called (h : d.Owes seat n) (s : Seat) (cache : Cache κ) :
    (d.called s cache).Owes seat (n + if s.id = seat.id then 1 else 0) := by
  have hcalls : (d.called s cache).callsOf seat.id =
      d.callsOf seat.id + if s.id = seat.id then 1 else 0 := by
    show (d.calls ++ [s.id]).count seat.id = _
    rw [List.count_append, List.count_singleton]
    simp only [beq_iff_eq, callsOf]
  show (d.called s cache).callsOf seat.id = (d.statsOf seat.name).attempts + _
  rw [hcalls, show d.callsOf seat.id = _ from h]
  omega

variable [DecidableEq κ]

/-- The end of a call accounts for it, unless it is a crash. -/
theorem finish {ending : Ending} (hcrash : ending.isCrash = false)
    (h : d.Owes seat (n + if s.name = seat.name then 1 else 0)) (key : κ) (now : Nat) :
    (d.finish s key ending now).2.Owes seat n := by
  have hstats := stats_finish d s key ending now
  rw [hcrash] at hstats
  have hattempts : ((d.finish s key ending now).2.statsOf seat.name).attempts =
      (d.statsOf seat.name).attempts + if s.name = seat.name then 1 else 0 := by
    rw [statsOf_of_recordIn hstats, apply_ite ProverStats.attempts]
    by_cases hname : seat.name = s.name
    · rw [if_pos hname, if_pos hname.symm]
      rfl
    · rw [if_neg hname, if_neg (Ne.symm hname)]
      rfl
  have hcalls : (d.finish s key ending now).2.callsOf seat.id = d.callsOf seat.id :=
    congrArg (List.count seat.id) (calls_finish d s key ending now)
  unfold Owes at h ⊢
  rw [hcalls, hattempts, h]
  omega

/-- **A whole call is accounted for.** -/
theorem call (h : d.Owes seat n) (hsame : s.id = seat.id ↔ s.name = seat.name) {goal : Formula}
    {axioms : List Formula} {timeout : Nat}
    (hcrash : s.prover.run goal axioms timeout ≠ .crashed) (key : κ) (now : Nat) :
    (d.call s goal axioms key timeout now).desk.Owes seat n := by
  rcases d.call_cases s goal axioms key timeout now with
    ⟨_, hcall⟩ | ⟨_, ⟨result, cache, _, hcall⟩ | ⟨cache, _, hcall⟩⟩
  · rw [hcall]
    exact h
  · rw [hcall]
    exact h.of_eq rfl rfl
  · rw [hcall]
    refine Owes.finish ?_ ?_ key _
    · exact Prover.isCrash_ending hcrash
    · have hcalled := h.called s cache
      simpa only [hsame] using hcalled

/-- A candidate that enters a race is accounted for, unless it is on its way. -/
theorem enter (h : d.Owes seat n) (hsame : s.id = seat.id ↔ s.name = seat.name) {goal : Formula}
    {axioms : List Formula} {timeout : Nat}
    (hcrash : s.prover.run goal axioms timeout ≠ .crashed) (key : κ) (now : Nat) :
    (d.enter s goal axioms key timeout now).2.Owes seat
      (n + if s.id = seat.id ∧ (d.enter s goal axioms key timeout now).1.isRunning = true then 1
        else 0) := by
  rcases d.enter_cases s goal axioms key timeout now with
    ⟨_, henter⟩ | ⟨_, ⟨result, cache, _, henter⟩ | ⟨cache, _, henter⟩⟩
  · rw [henter, if_neg (by simp [Work.isRunning])]
    exact h
  · rw [henter, if_neg (by simp [Work.isRunning])]
    exact h.of_eq rfl rfl
  · have hcalled := h.called s cache
    rw [henter]
    split_ifs with hpace hrunning hrunning
    · -- a call that takes no time has come to an end
      exfalso
      revert hrunning
      cases s.prover.run goal axioms timeout <;> simp [Work.ofRun, Work.isRunning]
    · refine Owes.finish (Ending.isCrash_cameBack hcrash) ?_ key now
      simpa only [hsame, Nat.add_zero] using hcalled
    · rwa [if_pos hrunning.1] at hcalled
    · rwa [if_neg fun hid => hrunning ⟨hid, rfl⟩] at hcalled

end Owes

variable [DecidableEq κ] {seat : Seat} {goal : Formula} {axioms : List Formula} {timeout now : Nat}

/-- **Those who have entered a race** and are on their way are not accounted for. -/
theorem Owes.line {keyOf : Seat → κ} {seats : List Seat} {n : Nat}
    (hsame : ∀ s ∈ seats, s.id = seat.id ↔ s.name = seat.name)
    (hcrash : ∀ s ∈ seats, s.prover.run goal axioms timeout ≠ .crashed) (index : Nat)
    (h : d.Owes seat n) :
    (d.line goal axioms keyOf timeout now index seats).2.Owes seat
      (n + (d.line goal axioms keyOf timeout now index seats).1.countP
        (Runner.isRunningFor seat)) := by
  induction seats generalizing index d n with
  | nil => exact h
  | cons s seats ih =>
    rw [List.forall_mem_cons] at hsame hcrash
    have henter := h.enter hsame.1 hcrash.1 (keyOf s) now
    have hline := ih hsame.2 hcrash.2 (index + 1) henter
    have hcount : ∀ work runners, List.countP (Runner.isRunningFor seat)
        (⟨index, s, keyOf s, work⟩ :: runners) =
          (if s.id = seat.id ∧ work.isRunning = true then 1 else 0) +
            runners.countP (Runner.isRunningFor seat) := by
      intro work runners
      rw [List.countP_cons, Nat.add_comm]
      simp [Runner.isRunningFor]
    rw [runners_line_cons, hcount, ← Nat.add_assoc]
    exact hline

/-- **Those who come to an end** are accounted for. -/
theorem Owes.settle {runners : List (Runner κ)} {n : Nat}
    (hrunners : ∀ r ∈ runners, (r.seat.id = seat.id ↔ r.seat.name = seat.name) ∧
      r.work ≠ .running .crashed)
    (h : d.Owes seat (n + runners.countP (Runner.isRunningFor seat))) :
    (runners.foldl (Runner.settle now) d).Owes seat n := by
  induction runners generalizing d with
  | nil => exact h
  | cons r runners ih =>
    rw [List.forall_mem_cons] at hrunners
    rw [List.foldl_cons]
    refine ih hrunners.2 ?_
    rw [List.countP_cons] at h
    cases hwork : r.work with
    | ready _ | broken =>
      have hsettle : Runner.settle now d r = d := by rw [Runner.settle, hwork]
      have hnot : Runner.isRunningFor seat r = false := by
        simp [Runner.isRunningFor, hwork, Work.isRunning]
      rw [hnot] at h
      rw [hsettle]
      exact h
    | running run =>
      have hsettle : Runner.settle now d r =
          (d.finish r.seat r.key (.cameBack run) (now + r.pace.time)).2 := by
        rw [Runner.settle, hwork]
      have hrunning : Runner.isRunningFor seat r = decide (r.seat.name = seat.name) := by
        simp [Runner.isRunningFor, hwork, Work.isRunning, hrunners.1.1]
      have hcrash : run ≠ .crashed := fun heq => hrunners.1.2 (heq ▸ hwork)
      rw [hrunning] at h
      rw [hsettle]
      refine Owes.finish (Ending.isCrash_cameBack hcrash) ?_ _ _
      simpa only [decide_eq_true_eq, Nat.add_assoc] using h

/-! ### Races -/

/-- What runs for a candidate is its prover. -/
theorem run_of_enter {s : Seat} {key : κ} {run : Run}
    (h : (d.enter s goal axioms key timeout now).1 = .running run) :
    run = s.prover.run goal axioms timeout := by
  rcases d.enter_cases s goal axioms key timeout now with
    ⟨_, henter⟩ | ⟨_, ⟨result, cache, _, henter⟩ | ⟨cache, _, henter⟩⟩
  · rw [henter] at h
    cases h
  · rw [henter] at h
    cases h
  · rw [henter] at h
    split_ifs at h
    · cases hrun : s.prover.run goal axioms timeout <;> rw [hrun] at h <;> cases h
    · cases h
      rfl

theorem desk_race (d : Desk κ) (mode : Race.Mode) (seats : List Seat) (goal : Formula)
    (axioms : List Formula) (keyOf : Seat → κ) (timeout now : Nat) :
    (d.race mode seats goal axioms keyOf timeout now).desk =
      (Runner.done mode timeout (d.runners seats goal axioms keyOf timeout now)).foldl
        (Runner.settle now)
        (d.line goal axioms keyOf timeout now 0 (if timeout = 0 then [] else seats)).2 :=
  rfl

/-- How many calls of the prover a race breaks off: those that are on their way, but for those that
come to an end before the race is over. -/
def brokenOff (d : Desk κ) (mode : Race.Mode) (seats : List Seat) (goal : Formula)
    (axioms : List Formula) (keyOf : Seat → κ) (timeout now : Nat) (seat : Seat) : Nat :=
  let runners := d.runners seats goal axioms keyOf timeout now
  runners.countP (Runner.isRunningFor seat) -
    (Runner.done mode timeout runners).countP (Runner.isRunningFor seat)

theorem brokenOff_nil (d : Desk κ) (mode : Race.Mode) (goal : Formula) (axioms : List Formula)
    (keyOf : Seat → κ) (timeout now : Nat) (seat : Seat) :
    d.brokenOff mode [] goal axioms keyOf timeout now seat = 0 := by
  have hrunners : d.runners [] goal axioms keyOf timeout now = [] := by
    rw [runners, ite_self]
    rfl
  rw [brokenOff, hrunners]
  exact Nat.zero_sub _

/-- **A race leaves unaccounted for what it breaks off.** -/
theorem Owes.race {keyOf : Seat → κ} {seats : List Seat} {n : Nat} (h : d.Owes seat n)
    (hsame : ∀ s ∈ seats, s.id = seat.id ↔ s.name = seat.name)
    (hcrash : ∀ s ∈ seats, s.prover.run goal axioms timeout ≠ .crashed) (mode : Race.Mode)
    (now : Nat) :
    (d.race mode seats goal axioms keyOf timeout now).desk.Owes seat
      (n + d.brokenOff mode seats goal axioms keyOf timeout now seat) := by
  have hentered : ∀ s ∈ (if timeout = 0 then [] else seats), s ∈ seats := by
    intro s hs
    split_ifs at hs
    · cases hs
    · exact hs
  have hline : Owes _ seat (n + (d.runners seats goal axioms keyOf timeout now).countP
      (Runner.isRunningFor seat)) :=
    h.line (fun s hs => hsame s (hentered s hs)) (fun s hs => hcrash s (hentered s hs)) 0
  have hrunners : ∀ r ∈ d.runners seats goal axioms keyOf timeout now,
      (r.seat.id = seat.id ↔ r.seat.name = seat.name) ∧ r.work ≠ .running .crashed := by
    refine forall_runners (I := fun _ => True) (P := fun s work =>
      (s.id = seat.id ↔ s.name = seat.name) ∧ work ≠ .running .crashed) ?_ trivial
    intro s hs d _
    exact ⟨⟨hsame s hs, fun hcrashed => hcrash s hs (run_of_enter hcrashed).symm⟩, trivial⟩
  have hdone := Runner.done_subperm mode timeout (d.runners seats goal axioms keyOf timeout now)
  have hcount := hdone.countP_le (Runner.isRunningFor seat)
  rw [desk_race]
  refine Owes.settle (fun r hr => hrunners r (hdone.subset hr)) ?_
  rw [brokenOff, Nat.add_assoc, Nat.sub_add_cancel hcount]
  exact hline

end Desk

end Deontica
