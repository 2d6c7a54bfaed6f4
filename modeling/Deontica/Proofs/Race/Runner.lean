import Deontica.Proofs.Dispatch
import Deontica.Proofs.Race

/-!
# What happens in a race that is run

The events of a race are those of its runners, and a runner either gives a result or breaks off
(`Runner.told`).  The runners are the candidates with their numbers (`Desk.seats_line`), so no
candidate comes to an end twice, and if what the cache has for a candidate is attributed to it, so
is every result: what happens in the race is possible (`Desk.possible_raceEvents`).
-/

namespace Deontica

/-- The result that a prover's work comes to, unless it breaks off. -/
def Work.told (name : String) : Work → Option Result
  | .ready result => some result
  | .broken => none
  | .running .crashed => none
  | .running run => some (Desk.attemptOf name (.cameBack run)).toResult

theorem Work.told_ofRun (name : String) (run : Run) :
    (Work.ofRun name run).told name = (Work.running run).told name := by
  cases run <;> rfl

theorem Work.eq_of_told_running {name : String} {run : Run} {result : Result}
    (h : (Work.running run).told name = some result) :
    result = (Desk.attemptOf name (.cameBack run)).toResult := by
  cases run with
  | answered answer => exact (Option.some.inj h).symm
  | failed causes => exact (Option.some.inj h).symm
  | crashed => cases h

namespace Runner

variable {κ : Type}

/-- The result that a runner gives, unless it breaks off. -/
def told (r : Runner κ) : Option Result :=
  r.work.told r.seat.name

theorem event_eq (r : Runner κ) :
    r.event = r.told.elim (.crashed r.index) (.completed r.index) := by
  obtain ⟨index, seat, key, work⟩ := r
  cases work with
  | ready result => rfl
  | broken => rfl
  | running run => cases run <;> rfl

theorem candidate?_event (r : Runner κ) : r.event.candidate? = some r.index := by
  rw [event_eq]
  cases r.told <;> rfl

theorem pace_cases (r : Runner κ) : r.pace = .millis 0 ∨ r.pace = r.seat.prover.pace := by
  unfold pace
  split
  · exact Or.inl rfl
  · exact Or.inl rfl
  · exact Or.inr rfl

/-- A runner is in time if its prover is. -/
theorem isBefore_pace {r : Runner κ} {timeout : Nat}
    (h : r.seat.prover.pace.isBefore timeout = true) : r.pace.isBefore timeout = true := by
  rcases r.pace_cases with hpace | hpace
  · have hlt : r.seat.prover.pace.halves < 2 * timeout := of_decide_eq_true h
    rw [hpace]
    exact decide_eq_true (Nat.lt_of_le_of_lt (Nat.zero_le _) hlt)
  · rw [hpace]
    exact h

theorem inTime_perm (timeout : Nat) (runners : List (Runner κ)) :
    (inTime timeout runners).Perm (runners.filter (·.pace.isBefore timeout)) :=
  List.mergeSort_perm _ _

/-- Runners no two of which take the same time come to an end in the order of their times. -/
theorem inTime_of_perm {runners ordered : List (Runner κ)} (hperm : runners.Perm ordered)
    (hpaces : ordered.Pairwise fun r s => r.pace.halves < s.pace.halves) (timeout : Nat) :
    inTime timeout runners = ordered.filter (·.pace.isBefore timeout) := by
  have hinTime := (inTime_perm timeout runners).trans (hperm.filter (·.pace.isBefore timeout))
  have hsorted : (inTime timeout runners).Pairwise fun r s => r.pace.halves ≤ s.pace.halves := by
    refine (List.pairwise_mergeSort ?_ ?_ _).imp of_decide_eq_true
    · intro r s t hrs hst
      exact decide_eq_true (Nat.le_trans (of_decide_eq_true hrs) (of_decide_eq_true hst))
    · intro r s
      rw [Bool.or_eq_true, decide_eq_true_iff, decide_eq_true_iff]
      exact Nat.le_total _ _
  have hnodup : (ordered.map (·.pace.halves)).Nodup :=
    (List.pairwise_map.mpr hpaces).imp Nat.ne_of_lt
  refine hinTime.eq_of_pairwise (fun r s hr hs hrs hsr => ?_) hsorted
    ((hpaces.filter _).imp Nat.le_of_lt)
  exact List.inj_on_of_nodup_map hnodup (List.mem_of_mem_filter (hinTime.mem_iff.mp hr))
    (List.mem_of_mem_filter hs) (Nat.le_antisymm hrs hsr)

theorem mem_inTime {timeout : Nat} {runners : List (Runner κ)} {r : Runner κ} :
    r ∈ inTime timeout runners ↔ r ∈ runners ∧ r.pace.isBefore timeout = true :=
  (inTime_perm timeout runners).mem_iff.trans List.mem_filter

theorem inTime_perm_self {timeout : Nat} {runners : List (Runner κ)}
    (h : ∀ r ∈ runners, r.pace.isBefore timeout = true) :
    (inTime timeout runners).Perm runners := by
  have hperm := inTime_perm timeout runners
  rwa [List.filter_eq_self.mpr h] at hperm

/-- Those who have ended their calls are some of the runners. -/
theorem done_subperm (mode : Race.Mode) (timeout : Nat) (runners : List (Runner κ)) :
    (done mode timeout runners).Subperm runners := by
  have hinTime : (inTime timeout runners).Subperm runners :=
    (inTime_perm timeout runners).subperm.trans List.filter_sublist.subperm
  unfold done
  dsimp only
  split
  · exact List.filter_sublist.subperm.trans hinTime
  · exact hinTime

/-! ### The events -/

/-- The deadline, if there is still somebody to wait for. -/
def rest (timeout candidates : Nat) (runners : List (Runner κ)) : List Race.Event :=
  if (inTime timeout runners).length < candidates then [.deadline] else []

theorem events_eq (timeout candidates : Nat) (runners : List (Runner κ)) :
    events timeout candidates runners =
      (inTime timeout runners).map event ++ rest timeout candidates runners :=
  rfl

/-- If all candidates are in time, nobody meets the deadline. -/
theorem events_of_inTime {timeout candidates : Nat} {runners : List (Runner κ)}
    (h : ∀ r ∈ runners, r.pace.isBefore timeout = true) (hlength : runners.length = candidates) :
    events timeout candidates runners = (inTime timeout runners).map event := by
  have hall : ¬(inTime timeout runners).length < candidates := by
    rw [(inTime_perm_self h).length_eq, hlength]
    exact Nat.lt_irrefl _
  rw [events_eq, rest, if_neg hall, List.append_nil]

theorem completions_append (runners : List (Runner κ)) (events : List Race.Event) :
    Race.completions (runners.map event ++ events) =
      (runners.filterMap fun r => r.told.map (r.index, ·)) ++ Race.completions events := by
  induction runners with
  | nil => rfl
  | cons r runners ih =>
    rw [List.map_cons, List.cons_append, event_eq]
    cases htold : r.told with
    | none => simp [Race.completions, htold, ih]
    | some result => simp [Race.completions, htold, ih]

/-- **The results of a race are those of the runners in time**, in the order in which they end. -/
theorem completions_events (timeout candidates : Nat) (runners : List (Runner κ)) :
    Race.completions (events timeout candidates runners) =
      (inTime timeout runners).filterMap fun r => r.told.map (r.index, ·) := by
  have hrest : Race.completions (rest timeout candidates runners) = [] := by
    unfold rest
    split_ifs <;> rfl
  rw [events_eq, completions_append, hrest, List.append_nil]

theorem given_events (timeout candidates : Nat) (runners : List (Runner κ)) :
    Race.given (events timeout candidates runners) =
      (inTime timeout runners).filterMap told := by
  rw [Race.given, completions_events, List.map_filterMap]
  refine List.filterMap_congr fun r _ => ?_
  cases r.told <;> rfl

theorem candidates_events (timeout candidates : Nat) (runners : List (Runner κ)) :
    (events timeout candidates runners).filterMap Race.Event.candidate? =
      (inTime timeout runners).map (·.index) := by
  have hrest : (rest timeout candidates runners).filterMap Race.Event.candidate? = [] := by
    unfold rest
    split_ifs <;> rfl
  rw [events_eq, List.filterMap_append, hrest, List.append_nil, List.filterMap_map]
  exact (List.filterMap_congr fun r _ => candidate?_event r).trans
    (congrFun List.filterMap_eq_map' _)

theorem exists_of_completed {timeout candidates : Nat} {runners : List (Runner κ)} {i : Nat}
    {result : Result} (h : .completed i result ∈ events timeout candidates runners) :
    ∃ r ∈ runners, r.index = i ∧ r.told = some result := by
  rcases List.mem_append.mp h with h | h
  · obtain ⟨r, hr, hevent⟩ := List.mem_map.mp h
    refine ⟨r, (mem_inTime.mp hr).1, ?_⟩
    rw [event_eq] at hevent
    cases htold : r.told with
    | none =>
      rw [htold] at hevent
      cases hevent
    | some told =>
      rw [htold] at hevent
      cases hevent
      exact ⟨rfl, rfl⟩
  · split_ifs at h
    · cases List.mem_singleton.mp h
    · cases h

end Runner

namespace Desk

variable {κ : Type} [DecidableEq κ] {goal : Formula} {axioms : List Formula} {keyOf : Seat → κ}
  {timeout now : Nat}

/-! ### The runners -/

theorem runners_line_cons (d : Desk κ) (goal : Formula) (axioms : List Formula) (keyOf : Seat → κ)
    (timeout now index : Nat) (seat : Seat) (seats : List Seat) :
    (d.line goal axioms keyOf timeout now index (seat :: seats)).1 =
      ⟨index, seat, keyOf seat, (d.enter seat goal axioms (keyOf seat) timeout now).1⟩ ::
        ((d.enter seat goal axioms (keyOf seat) timeout now).2.line goal axioms keyOf timeout now
          (index + 1) seats).1 :=
  rfl

/-- **The runners are the candidates with their numbers.** -/
theorem seats_line (d : Desk κ) (goal : Formula) (axioms : List Formula) (keyOf : Seat → κ)
    (timeout now index : Nat) (seats : List Seat) :
    ((d.line goal axioms keyOf timeout now index seats).1.map fun r => (r.seat, r.index)) =
      seats.zipIdx index := by
  induction seats generalizing index d with
  | nil => rfl
  | cons seat seats ih =>
    rw [runners_line_cons, List.map_cons, ih, List.zipIdx_cons]

/-- **What holds of every candidate that enters holds of every runner**, if it depends on something
that candidates leave as it is when they enter. -/
theorem forall_line {I : Desk κ → Prop} {P : Seat → Work → Prop} {seats : List Seat}
    (hstep : ∀ seat ∈ seats, ∀ d, I d →
      P seat (d.enter seat goal axioms (keyOf seat) timeout now).1 ∧
        I (d.enter seat goal axioms (keyOf seat) timeout now).2)
    (index : Nat) (d : Desk κ) (hd : I d) :
    ∀ r ∈ (d.line goal axioms keyOf timeout now index seats).1, P r.seat r.work := by
  induction seats generalizing index d with
  | nil => exact fun r hr => absurd hr List.not_mem_nil
  | cons seat seats ih =>
    rw [List.forall_mem_cons] at hstep
    obtain ⟨hwork, hd'⟩ := hstep.1 d hd
    rw [runners_line_cons, List.forall_mem_cons]
    exact ⟨hwork, ih hstep.2 (index + 1) _ hd'⟩

/-- **The result of a candidate that enters**: it is that of a prover that is not available, or what
the cache has, or what the prover tells. -/
theorem told_enter (d : Desk κ) (seat : Seat) (goal : Formula) (axioms : List Formula) (key : κ)
    (timeout now : Nat) :
    seat.prover.available = false ∧
        (d.enter seat goal axioms key timeout now).1.told seat.name =
          some (Attempt.unavailable seat.name).toResult ∨
      seat.prover.available = true ∧
        ((∃ result cache, d.cache.get key now = (some result, cache) ∧
            (d.enter seat goal axioms key timeout now).1.told seat.name =
              some { result with elapsed := ⟨0, 0⟩ }) ∨
          (d.enter seat goal axioms key timeout now).1.told seat.name =
            (Work.running (seat.prover.run goal axioms timeout)).told seat.name) := by
  rcases d.enter_cases seat goal axioms key timeout now with
    ⟨havailable, henter⟩ | ⟨havailable, ⟨result, cache, hget, henter⟩ | ⟨cache, hget, henter⟩⟩
  · rw [henter]
    exact Or.inl ⟨havailable, rfl⟩
  · rw [henter]
    exact Or.inr ⟨havailable, Or.inl ⟨result, cache, hget, rfl⟩⟩
  · refine Or.inr ⟨havailable, Or.inr ?_⟩
    rw [henter]
    split_ifs
    · exact Work.told_ofRun _ _
    · rfl

/-- The runners of a race; with no time allowed, nobody begins. -/
def runners (d : Desk κ) (seats : List Seat) (goal : Formula) (axioms : List Formula)
    (keyOf : Seat → κ) (timeout now : Nat) : List (Runner κ) :=
  (d.line goal axioms keyOf timeout now 0 (if timeout = 0 then [] else seats)).1

/-- What happens in a race that is run. -/
def raceEvents (d : Desk κ) (seats : List Seat) (goal : Formula) (axioms : List Formula)
    (keyOf : Seat → κ) (timeout now : Nat) : List Race.Event :=
  Runner.events timeout seats.length (d.runners seats goal axioms keyOf timeout now)

/-- What holds of every candidate that enters holds of every runner of a race. -/
theorem forall_runners {I : Desk κ → Prop} {P : Seat → Work → Prop} {seats : List Seat}
    (hstep : ∀ seat ∈ seats, ∀ d, I d →
      P seat (d.enter seat goal axioms (keyOf seat) timeout now).1 ∧
        I (d.enter seat goal axioms (keyOf seat) timeout now).2)
    {d : Desk κ} (hd : I d) :
    ∀ r ∈ d.runners seats goal axioms keyOf timeout now, P r.seat r.work := by
  refine forall_line (fun seat hseat => hstep seat ?_) 0 d hd
  split_ifs at hseat
  · cases hseat
  · exact hseat

/-- If there is time at all, every candidate runs. -/
theorem seats_runners (d : Desk κ) (seats : List Seat) (goal : Formula) (axioms : List Formula)
    (keyOf : Seat → κ) (htimeout : 0 < timeout) (now : Nat) :
    ((d.runners seats goal axioms keyOf timeout now).map fun r => (r.seat, r.index)) =
      seats.zipIdx := by
  rw [runners, if_neg (Nat.pos_iff_ne_zero.mp htimeout), seats_line]

theorem exists_runner (d : Desk κ) (goal : Formula) (axioms : List Formula) (keyOf : Seat → κ)
    (htimeout : 0 < timeout) (now : Nat) {seats : List Seat} {seat : Seat} (hseat : seat ∈ seats) :
    ∃ r ∈ d.runners seats goal axioms keyOf timeout now, r.seat = seat := by
  obtain ⟨i, hi⟩ := List.mem_iff_getElem?.mp hseat
  have hmem : (seat, i) ∈ seats.zipIdx 0 := List.mem_zipIdx_iff_getElem?.mpr hi
  rw [← d.seats_runners seats goal axioms keyOf htimeout now] at hmem
  obtain ⟨r, hr, heq⟩ := List.mem_map.mp hmem
  exact ⟨r, hr, congrArg Prod.fst heq⟩

theorem nodup_runners (d : Desk κ) (seats : List Seat) :
    ((d.runners seats goal axioms keyOf timeout now).map (·.index)).Nodup := by
  have hindex : (d.runners seats goal axioms keyOf timeout now).map (·.index) =
      List.range' 0 (if timeout = 0 then [] else seats).length := by
    rw [← List.zipIdx_map_snd 0, ← d.seats_line goal axioms keyOf timeout now, List.map_map]
    rfl
  rw [hindex]
  exact List.nodup_range'

/-- A runner has the number of its seat among the candidates. -/
theorem getElem?_of_mem_runners {d : Desk κ} {seats : List Seat} {r : Runner κ}
    (hr : r ∈ d.runners seats goal axioms keyOf timeout now) : seats[r.index]? = some r.seat := by
  have hmem : (r.seat, r.index) ∈ (if timeout = 0 then [] else seats).zipIdx 0 := by
    rw [← d.seats_line goal axioms keyOf timeout now]
    exact List.mem_map.mpr ⟨r, hr, rfl⟩
  split_ifs at hmem
  · cases hmem
  · exact List.mem_zipIdx_iff_getElem?.mp hmem

/-- Nobody comes to an end twice. -/
theorem nodup_raceEvents (d : Desk κ) (seats : List Seat) :
    ((d.raceEvents seats goal axioms keyOf timeout now).filterMap Race.Event.candidate?).Nodup := by
  rw [raceEvents, Runner.candidates_events]
  refine ((Runner.inTime_perm _ _).map _).nodup_iff.mpr ?_
  exact (d.nodup_runners seats).sublist (List.filter_sublist.map _)

/-- **What happens in a race is possible** if results are attributed to those who give them. -/
theorem possible_raceEvents {d : Desk κ} {seats : List Seat}
    (h : ∀ r ∈ d.runners seats goal axioms keyOf timeout now, ∀ result, r.told = some result →
      result.prover = r.seat.name) :
    Race.Possible (seats.map (·.name)) (d.raceEvents seats goal axioms keyOf timeout now) where
  once := d.nodup_raceEvents seats
  attributed i result hmem := by
    obtain ⟨r, hr, rfl, htold⟩ := Runner.exists_of_completed hmem
    rw [List.getElem?_map, getElem?_of_mem_runners hr, Option.map_some, h r hr result htold]

end Desk

end Deontica
