import Deontica.Proofs.Office.Accounts
import Deontica.Proofs.Office.Router
import Deontica.Proofs.Router

/-!
# The accounts of a router

Whatever a router is asked to do, it does by dispatches (`Router.exists_run_after`), so the account
of every registered prover has the calls that were not cut short, and no others
(`Office.Run.accounts`).  A router cuts calls short in its races: those of the candidates that are
still on their way when the race is over.  Unless provers crash, these are all that the accounts do
not have (`Router.owes_foldl_after`).
-/

namespace Deontica

namespace Router

open Office

variable {κ : Type} [DecidableEq κ] {r : Router κ} {seat : Seat} {n : Nat}

theorem reaches_foldl_after (calls : List Call) (r : Router κ) :
    r.Reaches (calls.foldl after r) := by
  induction calls generalizing r with
  | nil => exact .refl r
  | cons call calls ih => exact (r.reaches_after call).trans (ih (r.after call))

/-- **Whatever a router is asked, it does by dispatches**, all of which are over when it answers. -/
theorem exists_run_after (r : Router κ) (calls : List Call) :
    ∃ events o, Office.Run r.keyOf r.office events o ∧ (∀ seat, .registered seat ∉ events) ∧
      o.tasks = [] ∧ o.desk = (calls.foldl after r).desk := by
  have hreaches := reaches_foldl_after calls r
  obtain ⟨m, events, hrun⟩ := hreaches.leads 0
  refine ⟨events, _, hrun, ?_, rfl, rfl⟩
  exact hrun.registered_notMem (congrArg Registry.next hreaches.registry)

/-! ### What races break off -/

/-- How many calls of the prover are broken off when a goal is proved. -/
def brokenOffProving (r : Router κ) (seat : Seat) (goal : Formula) (axioms : List Formula)
    (strategy : Strategy) (timeout now : Nat) : Nat :=
  if strategy = .parallel then
    r.desk.brokenOff .firstDecisive (r.entrants goal axioms) goal axioms (r.seatKey goal axioms)
      timeout now seat
  else 0

/-- How many calls of the prover are broken off by what the router is asked. -/
def brokenOff (r : Router κ) (seat : Seat) : Call → Nat
  | .prove goal axioms strategy timeout now =>
    r.brokenOffProving seat goal axioms strategy timeout now
  | .proveDefault goal axioms now =>
    r.brokenOffProving seat goal axioms r.config.defaultStrategy r.config.defaultTimeout now
  | .proveText goal axioms strategy timeout now =>
    (r.problem? goal axioms).elim 0 fun p => r.brokenOffProving seat p.1 p.2 strategy timeout now
  | .crossCheck goal axioms timeout now =>
    r.desk.brokenOff .all (r.entrants goal axioms) goal axioms (r.seatKey goal axioms) timeout now
      seat

/-- How many calls of the prover are broken off in all. -/
def brokenOffAll (r : Router κ) (seat : Seat) : List Call → Nat
  | [] => 0
  | call :: calls => r.brokenOff seat call + (r.after call).brokenOffAll seat calls

/-- No registered prover crashes. -/
def NeverCrashes (r : Router κ) : Prop :=
  ∀ seat ∈ r.registry.seats, ∀ goal axioms timeout, seat.prover.run goal axioms timeout ≠ .crashed

theorem owes_call {s : Seat} (h : r.desk.Owes seat n)
    (hsame : s.id = seat.id ↔ s.name = seat.name) {goal : Formula} {axioms : List Formula}
    {timeout : Nat} (hcrash : s.prover.run goal axioms timeout ≠ .crashed) (now : Nat) :
    (r.call s goal axioms timeout now).2.2.desk.Owes seat n :=
  h.call hsame hcrash _ now

theorem owes_proveSequential {goal : Formula} {axioms : List Formula} {deadline : Nat}
    (seats : List Seat) (last : Result) (now : Nat) (r : Router κ)
    (hsame : ∀ s ∈ seats, s.id = seat.id ↔ s.name = seat.name)
    (hcrash : ∀ s ∈ seats, ∀ timeout, s.prover.run goal axioms timeout ≠ .crashed)
    (h : r.desk.Owes seat n) :
    (proveSequential goal axioms deadline seats last now r).2.desk.Owes seat n := by
  induction seats generalizing last now r with
  | nil => exact h
  | cons s seats ih =>
    rw [List.forall_mem_cons] at hsame hcrash
    unfold proveSequential
    split_ifs
    · exact h
    · have hcall := owes_call h hsame.1 (hcrash.1 (deadline - now)) now
      dsimp only
      split_ifs
      · exact hcall
      · exact ih _ _ _ hsame.2 hcrash.2 hcall

section Proving

variable {goal : Formula} {axioms : List Formula}

theorem owes_race (hdistinct : r.registry.Distinct) (hcrash : r.NeverCrashes)
    (hseat : seat ∈ r.registry.seats) (h : r.desk.Owes seat n) (mode : Race.Mode)
    (timeout now : Nat) :
    (r.race mode (r.entrants goal axioms) goal axioms timeout now).2.2.desk.Owes seat
      (n + r.desk.brokenOff mode (r.entrants goal axioms) goal axioms (r.seatKey goal axioms)
        timeout now seat) := by
  have hmem : ∀ s ∈ r.entrants goal axioms, s ∈ r.registry.seats := fun _ =>
    Registry.mem_of_mem_ranked
  exact h.race (fun s hs => hdistinct.id_eq_iff (hmem s hs) hseat)
    (fun s hs => hcrash s (hmem s hs) goal axioms timeout) mode now

theorem owes_prove (hdistinct : r.registry.Distinct) (hcrash : r.NeverCrashes)
    (hseat : seat ∈ r.registry.seats) (h : r.desk.Owes seat n) (strategy : Strategy)
    (timeout now : Nat) :
    (r.prove goal axioms strategy timeout now).2.desk.Owes seat
      (n + r.brokenOffProving seat goal axioms strategy timeout now) := by
  have hmem : ∀ s ∈ r.lineup strategy goal axioms, s ∈ r.registry.seats := fun _ =>
    Registry.mem_of_mem_ordered
  have hsame : ∀ s ∈ r.lineup strategy goal axioms, s.id = seat.id ↔ s.name = seat.name :=
    fun s hs => hdistinct.id_eq_iff (hmem s hs) hseat
  by_cases hne : r.lineup strategy goal axioms = []
  · have hnone : r.brokenOffProving seat goal axioms strategy timeout now = 0 := by
      unfold brokenOffProving
      split_ifs with hparallel
      · subst hparallel
        rw [show r.entrants goal axioms = [] from hne]
        exact Desk.brokenOff_nil ..
      · rfl
    rw [prove_of_lineup_eq_nil hne, hnone]
    exact h
  cases strategy with
  | auto =>
    obtain ⟨s, hs, hauto⟩ := exists_prove_auto hne
    rw [hauto r.desk timeout now, proveAuto_snd]
    exact owes_call h (hsame s hs) (hcrash s (hmem s hs) goal axioms timeout) now
  | sequential | fastest | mostCapable =>
    rw [prove_of_takesTurns rfl hne]
    exact owes_proveSequential _ _ now r hsame (fun s hs => hcrash s (hmem s hs) goal axioms) h
  | parallel =>
    rw [prove_parallel_snd hne]
    exact owes_race hdistinct hcrash hseat h .firstDecisive timeout now

theorem owes_after (hdistinct : r.registry.Distinct) (hcrash : r.NeverCrashes)
    (hseat : seat ∈ r.registry.seats) (h : r.desk.Owes seat n) (call : Call) :
    (r.after call).desk.Owes seat (n + r.brokenOff seat call) := by
  cases call with
  | prove goal axioms strategy timeout now =>
    exact owes_prove hdistinct hcrash hseat h strategy timeout now
  | proveDefault goal axioms now => exact owes_prove hdistinct hcrash hseat h _ _ now
  | proveText goal axioms strategy timeout now =>
    show Desk.Owes (r.proveText goal axioms strategy timeout now).2.desk seat
      (n + (r.problem? goal axioms).elim 0 _)
    rw [proveText_snd]
    cases r.problem? goal axioms with
    | none => exact h
    | some p => exact owes_prove hdistinct hcrash hseat h strategy timeout now
  | crossCheck goal axioms timeout now =>
    show Desk.Owes (r.crossCheck goal axioms timeout now).2.desk seat
      (n + r.desk.brokenOff .all (r.entrants goal axioms) goal axioms _ timeout now seat)
    by_cases hne : r.entrants goal axioms = []
    · rw [crossCheck_of_entrants_eq_nil hne, hne, Desk.brokenOff_nil]
      exact h
    · rw [crossCheck_snd hne]
      exact owes_race hdistinct hcrash hseat h .all timeout now

/-- **What the accounts do not have was broken off in a race.** -/
theorem owes_foldl_after (calls : List Call) (hdistinct : r.registry.Distinct)
    (hcrash : r.NeverCrashes) (hseat : seat ∈ r.registry.seats) (h : r.desk.Owes seat n) :
    (calls.foldl after r).desk.Owes seat (n + r.brokenOffAll seat calls) := by
  induction calls generalizing r n with
  | nil => exact h
  | cons call calls ih =>
    have hafter := owes_after hdistinct hcrash hseat h call
    have hregistry := (r.reaches_after call).registry
    rw [← hregistry] at hdistinct hseat
    have hcrash' : (r.after call).NeverCrashes := by
      unfold NeverCrashes
      rw [hregistry]
      exact hcrash
    rw [brokenOffAll, ← Nat.add_assoc]
    exact ih hdistinct hcrash' hseat hafter

end Proving

/-- **The accounts have the calls that were not cut short.**  Let nothing be in `stats` and `calls`
of the desk at first.

* For every run of the office that registers nobody and ends without tasks, `callsOf` and `statsOf`
  a registered prover are as in `Office.Accounts`: `attempts` is the number of dispatches that
  reached the prover and were neither aborted nor ended by a crash, `successes` the number of those
  that settled the question, `attempts = successes + failures`, and `attempts = callsOf` if and only
  if none was cut short.  For fewer than 2³² calls all three fit into 32 bits.
* Every list of `Call`s is worked off (`after`) by such a run, with any timeouts that have a
  deadline on the clock.
* If no prover crashes (`NeverCrashes`), `callsOf` exceeds `attempts` by `brokenOffAll`, the number
  of calls that were on their way at the end of a race. -/
theorem accounts_lack_cutShort (r : Router κ) (provers : List Prover)
    (hregistry : r.registry = .ofProvers provers) (hstats : r.desk.stats = [])
    (hcalls : r.desk.calls = []) :
    (∀ events o, Office.Run r.keyOf r.office events o → (∀ seat, .registered seat ∉ events) →
        o.tasks = [] → ∀ seat ∈ r.registry.seats, Office.Accounts events seat o.desk) ∧
      (∀ calls : List Call, ∃ events o, Office.Run r.keyOf r.office events o ∧
        (∀ seat, .registered seat ∉ events) ∧ o.tasks = [] ∧
        o.desk = (calls.foldl after r).desk) ∧
      (r.NeverCrashes → ∀ (calls : List Call), ∀ seat ∈ r.registry.seats,
        (calls.foldl after r).desk.callsOf seat.id =
          ((calls.foldl after r).desk.statsOf seat.name).attempts + r.brokenOffAll seat calls) := by
  have hdistinct : r.registry.Distinct := hregistry ▸ Registry.distinct_ofProvers provers
  have hidle : r.office.IsIdle := ⟨rfl, hstats, hcalls⟩
  refine ⟨fun events o hrun hfixed hrest seat hseat =>
    hrun.accounts hidle hdistinct hfixed hrest hseat, r.exists_run_after, ?_⟩
  intro hcrash calls seat hseat
  have hnone : r.desk.Owes seat 0 := by
    simp [Desk.Owes, Desk.callsOf, Desk.statsOf, hstats, hcalls]
  have howes := owes_foldl_after calls hdistinct hcrash hseat hnone
  rwa [Nat.zero_add] at howes

/-- Two provers are compared within 20 milliseconds, and one of them takes longer: its call is the
one that the accounts do not have. -/
theorem accounts_lack_cutShort_late :
    let slow : Prover :=
      ⟨"slow", true, {}, [], .millis 50, fun _ _ _ => .answered (.plain .proved "slow")⟩
    let fast : Prover :=
      ⟨"fast", true, {}, [], .millis 5, fun _ _ _ => .answered (.plain .proved "fast")⟩
    let r : Router String :=
      { registry := .ofProvers [slow, fast], analyzer := {}, config := {}, keyOf := (·.prover)
        desk := { cache := { config := {} } } }
    let r' := (r.crossCheck (.atom "P") [] 20 0).2
    r.NeverCrashes ∧
      (∃ events, Office.Accounts events ⟨0, slow⟩ r'.desk) ∧
      r'.desk.callsOf 0 = (r'.desk.statsOf "slow").attempts + 1 ∧
      r'.desk.callsOf 1 = (r'.desk.statsOf "fast").attempts := by
  intro slow fast r r'
  have hcrash : r.NeverCrashes :=
    List.forall_mem_cons.mpr ⟨fun _ _ _ => Run.noConfusion,
      List.forall_mem_singleton.mpr fun _ _ _ => Run.noConfusion⟩
  have hslow : r.brokenOffAll ⟨0, slow⟩ [.crossCheck (.atom "P") [] 20 0] = 1 := by
    decide +kernel
  have hfast : r.brokenOffAll ⟨1, fast⟩ [.crossCheck (.atom "P") [] 20 0] = 0 := by
    decide +kernel
  obtain ⟨haccounts, hruns, hlack⟩ := accounts_lack_cutShort r [slow, fast] rfl rfl rfl
  have hafter : [Call.crossCheck (.atom "P") [] 20 0].foldl after r = r' := rfl
  -- from here on, it does not matter what became of the router
  clear_value r'
  have hmem₀ : ⟨0, slow⟩ ∈ r.registry.seats := List.mem_cons_self
  have hmem₁ : ⟨1, fast⟩ ∈ r.registry.seats := List.mem_cons_of_mem _ List.mem_cons_self
  obtain ⟨events, o, hrun, hfixed, hrest, hdesk⟩ := hruns [.crossCheck (.atom "P") [] 20 0]
  have haccount := haccounts events o hrun hfixed hrest _ hmem₀
  have hcalls₀ := hlack hcrash [.crossCheck (.atom "P") [] 20 0] _ hmem₀
  have hcalls₁ := hlack hcrash [.crossCheck (.atom "P") [] 20 0] _ hmem₁
  rw [hdesk, hafter] at haccount
  rw [hafter, hslow] at hcalls₀
  rw [hafter, hfast] at hcalls₁
  exact ⟨hcrash, ⟨events, haccount⟩, hcalls₀, hcalls₁⟩

/-- The loser of a race is called, and its account does not have the call. -/
theorem loser_unaccounted :
    let slow : Prover :=
      ⟨"slow", true, {}, [], .millis 50, fun _ _ _ => .answered (.plain .proved "slow")⟩
    let fast : Prover :=
      ⟨"fast", true, {}, [], .millis 5, fun _ _ _ => .answered (.plain .proved "fast")⟩
    let r : Router String :=
      { registry := .ofProvers [slow, fast], analyzer := {}, config := {}, keyOf := (·.prover)
        desk := { cache := { config := {} } } }
    let r' := (r.prove (.atom "P") [] .parallel 100 0).2
    r'.desk.callsOf 0 = (r'.desk.statsOf "slow").attempts + 1 := by
  intro slow fast r r'
  have hcrash : r.NeverCrashes :=
    List.forall_mem_cons.mpr ⟨fun _ _ _ => Run.noConfusion,
      List.forall_mem_singleton.mpr fun _ _ _ => Run.noConfusion⟩
  have hbroken : r.brokenOffProving ⟨0, slow⟩ (.atom "P") [] .parallel 100 0 = 1 := by
    rw [brokenOffProving, if_pos rfl, Desk.brokenOff]
    unfold Runner.done
    rw [Runner.inTime_of_perm (List.reverse_perm _).symm (by decide +kernel)]
    decide +kernel
  have hnone : r.desk.Owes ⟨0, slow⟩ 0 := rfl
  have hmem : ⟨0, slow⟩ ∈ r.registry.seats := List.mem_cons_self
  have howes : r'.desk.Owes ⟨0, slow⟩ _ :=
    owes_prove (Registry.distinct_ofProvers [slow, fast]) hcrash hmem hnone .parallel 100 0
  rw [hbroken] at howes
  exact howes

end Router

end Deontica
