import Deontica.Proofs.Race.Runner
import Deontica.Proofs.Registry
import Deontica.Router

/-!
# What the router does with its candidates

A strategy either tries the registered provers one after the other, or runs a race between them.
What comes of a race is said in terms of its events (`crossCheck_fst`, `prove_parallel_fst`); trying
them one after the other goes on with the next as long as nobody decides
(`proveSequential_of_undecided`).  The router itself stays the same but for its desk.
-/

namespace Deontica

/-- Whether a strategy tries candidates one after the other. -/
def Strategy.takesTurns : Strategy → Bool
  | .sequential | .fastest | .mostCapable => true
  | .auto | .parallel => false

namespace Router

open Race

variable {κ : Type} {r : Router κ} {goal : Formula} {axioms : List Formula}

/-- All registered provers, in the order in which they enter a race for the problem. -/
def entrants (r : Router κ) (goal : Formula) (axioms : List Formula) : List Seat :=
  r.registry.ranked (r.recommended goal axioms)

/-- What the events of a race come to in a race for the first decision between the registered
provers. -/
def outcome (r : Router κ) (goal : Formula) (axioms : List Formula) (events : List Race.Event) :
    Outcome :=
  judge .firstDecisive ((r.entrants goal axioms).map (·.name)) events

/-- What the events of a race come to if all registered provers run to the end. -/
def survey (r : Router κ) (goal : Formula) (axioms : List Formula) (events : List Race.Event) :
    Reconciliation :=
  .ofResults (judge .all ((r.entrants goal axioms).map (·.name)) events).results

/-- The result of a race for the first decision without a winner. -/
def undecided (r : Router κ) (goal : Formula) (axioms : List Formula) (events : List Race.Event) :
    Result :=
  aggregate (r.outcome goal axioms events) (r.entrants goal axioms).length

theorem entrants_perm (h : r.registry.Distinct) (goal : Formula) (axioms : List Formula) :
    (r.entrants goal axioms).Perm r.registry.seats :=
  Registry.ranked_perm h _

theorem names_entrants_perm (h : r.registry.Distinct) (goal : Formula) (axioms : List Formula) :
    ((r.entrants goal axioms).map (·.name)).Perm r.registry.names :=
  (entrants_perm h goal axioms).map _

theorem nodup_names_entrants (h : r.registry.Distinct) (goal : Formula) (axioms : List Formula) :
    ((r.entrants goal axioms).map (·.name)).Nodup :=
  (names_entrants_perm h goal axioms).nodup_iff.mpr h.names

/-- The keys under which the problem is kept tell the registered provers apart. -/
def KeysApart (r : Router κ) (goal : Formula) (axioms : List Formula) : Prop :=
  ∀ s ∈ r.registry.seats, ∀ t ∈ r.registry.seats,
    r.seatKey goal axioms s = r.seatKey goal axioms t → s.name = t.name

theorem KeysApart.eq (h : r.KeysApart goal axioms) (hdistinct : r.registry.Distinct) {s t : Seat}
    (hs : s ∈ r.registry.seats) (ht : t ∈ r.registry.seats)
    (heq : r.seatKey goal axioms s = r.seatKey goal axioms t) : s = t :=
  hdistinct.eq_of_name_eq hs ht (h s hs t ht heq)

/-- The registered provers in the order in which a strategy takes them. -/
def lineup (r : Router κ) (strategy : Strategy) (goal : Formula) (axioms : List Formula) :
    List Seat :=
  r.registry.ordered strategy (r.recommended goal axioms)

theorem lineup_perm (h : r.registry.Distinct) (strategy : Strategy) (goal : Formula)
    (axioms : List Formula) : (r.lineup strategy goal axioms).Perm r.registry.seats :=
  Registry.ordered_perm h strategy _

/-! ### Races -/

variable [DecidableEq κ]

/-- What happens in a race between the registered provers. -/
def raceEvents (r : Router κ) (goal : Formula) (axioms : List Formula) (timeout now : Nat) :
    List Race.Event :=
  r.desk.raceEvents (r.entrants goal axioms) goal axioms (r.seatKey goal axioms) timeout now

theorem crossCheck_fst (h : r.entrants goal axioms ≠ []) (timeout now : Nat) :
    (r.crossCheck goal axioms timeout now).1 =
      .ok (r.survey goal axioms (r.raceEvents goal axioms timeout now)) := by
  unfold crossCheck
  split
  · exact absurd ‹_› h
  · rfl

theorem proveParallel_fst (r : Router κ) (goal : Formula) (axioms : List Formula)
    (timeout now : Nat) :
    ∃ took, (r.proveParallel (r.entrants goal axioms) goal axioms timeout now).1 =
      (r.outcome goal axioms (r.raceEvents goal axioms timeout now)).winner.getD
        { r.undecided goal axioms (r.raceEvents goal axioms timeout now) with
          elapsed := took } := by
  have houtcome : (r.race .firstDecisive (r.entrants goal axioms) goal axioms timeout now).1 =
      r.outcome goal axioms (r.raceEvents goal axioms timeout now) := rfl
  refine ⟨.ofMillis (r.race .firstDecisive (r.entrants goal axioms) goal axioms timeout now).2.1,
    ?_⟩
  unfold proveParallel
  cases hwinner : (r.outcome goal axioms (r.raceEvents goal axioms timeout now)).winner with
  | some winner =>
    rw [← houtcome] at hwinner
    simp only [hwinner, Option.getD_some]
  | none =>
    rw [← houtcome] at hwinner
    simp only [hwinner, Option.getD_none]
    rfl

/-- The result of a race for the first decision is that of the winner, if there is one. -/
theorem prove_parallel_fst (h : r.entrants goal axioms ≠ []) (timeout now : Nat) :
    ∃ took, (r.prove goal axioms .parallel timeout now).1 =
      .ok ((r.outcome goal axioms (r.raceEvents goal axioms timeout now)).winner.getD
        { r.undecided goal axioms (r.raceEvents goal axioms timeout now) with
          elapsed := took }) := by
  obtain ⟨took, htook⟩ := proveParallel_fst r goal axioms timeout now
  refine ⟨took, ?_⟩
  obtain ⟨top, others, heq⟩ := List.exists_cons_of_ne_nil h
  have hordered : r.registry.ordered .parallel (r.recommended goal axioms) = top :: others := heq
  unfold prove
  rw [← htook, hordered, heq]

theorem prove_parallel_snd (h : r.entrants goal axioms ≠ []) (timeout now : Nat) :
    (r.prove goal axioms .parallel timeout now).2 =
      (r.race .firstDecisive (r.entrants goal axioms) goal axioms timeout now).2.2 := by
  obtain ⟨top, others, heq⟩ := List.exists_cons_of_ne_nil h
  have hordered : r.registry.ordered .parallel (r.recommended goal axioms) = top :: others := heq
  unfold prove
  rw [hordered, heq]
  dsimp only
  unfold proveParallel
  dsimp only
  split <;> rfl

theorem crossCheck_snd (h : r.entrants goal axioms ≠ []) (timeout now : Nat) :
    (r.crossCheck goal axioms timeout now).2 =
      (r.race .all (r.entrants goal axioms) goal axioms timeout now).2.2 := by
  unfold crossCheck
  split
  · exact absurd ‹_› h
  · rfl

/-- Without candidates nothing is done. -/
theorem prove_of_lineup_eq_nil {strategy : Strategy} (h : r.lineup strategy goal axioms = [])
    (timeout now : Nat) : r.prove goal axioms strategy timeout now = (.error .noCandidates, r) := by
  have hordered : r.registry.ordered strategy (r.recommended goal axioms) = [] := h
  rw [prove, hordered]

theorem crossCheck_of_entrants_eq_nil (h : r.entrants goal axioms = []) (timeout now : Nat) :
    r.crossCheck goal axioms timeout now = (.error .noCandidates, r) := by
  have hranked : r.registry.ranked (r.recommended goal axioms) = [] := h
  rw [crossCheck, hranked]

/-! ### One after the other -/

theorem call_eq (r : Router κ) (seat : Seat) (goal : Formula) (axioms : List Formula)
    (timeout now : Nat) :
    r.call seat goal axioms timeout now =
      ((r.desk.call seat goal axioms (r.seatKey goal axioms seat) timeout now).attempt,
        (r.desk.call seat goal axioms (r.seatKey goal axioms seat) timeout now).took,
        { r with desk :=
            (r.desk.call seat goal axioms (r.seatKey goal axioms seat) timeout now).desk }) :=
  rfl

variable {deadline now : Nat} {seat : Seat}

/-- The first to decide is the last to be tried. -/
theorem proveSequential_of_isDecisive (hnow : now < deadline)
    (h : (r.call seat goal axioms (deadline - now) now).1.isDecisive = true) (seats : List Seat)
    (last : Result) :
    proveSequential goal axioms deadline (seat :: seats) last now r =
      ((r.call seat goal axioms (deadline - now) now).1.toResult,
        (r.call seat goal axioms (deadline - now) now).2.2) := by
  rw [Attempt.isDecisive_eq] at h
  rw [proveSequential, if_neg (Nat.not_le.mpr hnow)]
  exact if_pos h

/-- As long as nobody decides, the next one is tried. -/
theorem proveSequential_of_undecided (hnow : now < deadline)
    (h : (r.call seat goal axioms (deadline - now) now).1.isDecisive = false) (seats : List Seat)
    (last : Result) :
    proveSequential goal axioms deadline (seat :: seats) last now r =
      proveSequential goal axioms deadline seats
        (r.call seat goal axioms (deadline - now) now).1.toResult
        (now + (r.call seat goal axioms (deadline - now) now).2.1)
        (r.call seat goal axioms (deadline - now) now).2.2 := by
  rw [Attempt.isDecisive_eq] at h
  rw [proveSequential, if_neg (Nat.not_le.mpr hnow)]
  exact if_neg (Bool.eq_false_iff.mp h)

theorem proveSequential_of_le (hnow : deadline ≤ now) (seat : Seat) (seats : List Seat)
    (last : Result) (r : Router κ) :
    proveSequential goal axioms deadline (seat :: seats) last now r =
      (.noted .timeout seat.name "deadline passed before the prover was tried", r) := by
  rw [proveSequential, if_pos hnow]

/-- Trying candidates changes nothing of the router but its desk. -/
theorem proveSequential_snd (goal : Formula) (axioms : List Formula) (deadline : Nat)
    (seats : List Seat) (last : Result) (now : Nat) (r : Router κ) :
    (proveSequential goal axioms deadline seats last now r).2 =
      { r with desk := (proveSequential goal axioms deadline seats last now r).2.desk } := by
  induction seats generalizing last now r with
  | nil => rfl
  | cons seat seats ih =>
    rcases Nat.lt_or_ge now deadline with hnow | hnow
    · cases h : (r.call seat goal axioms (deadline - now) now).1.isDecisive with
      | true =>
        rw [proveSequential_of_isDecisive hnow h]
        rfl
      | false =>
        rw [proveSequential_of_undecided hnow h, ih]
        rfl
    · rw [proveSequential_of_le hnow]

theorem prove_of_takesTurns {strategy : Strategy} (h : strategy.takesTurns = true)
    (hne : r.lineup strategy goal axioms ≠ []) (timeout now : Nat) :
    r.prove goal axioms strategy timeout now =
      (.ok (proveSequential goal axioms (now + timeout) (r.lineup strategy goal axioms) untried now
          r).1,
        (proveSequential goal axioms (now + timeout) (r.lineup strategy goal axioms) untried now
          r).2) := by
  obtain ⟨top, others, heq⟩ := List.exists_cons_of_ne_nil hne
  have hordered : r.registry.ordered strategy (r.recommended goal axioms) = top :: others := heq
  unfold prove
  rw [hordered, heq]
  cases strategy with
  | auto | parallel => cases h
  | sequential | fastest | mostCapable => rfl

/-- Without candidates there is no result. -/
theorem lineup_ne_nil_of_prove {strategy : Strategy} {timeout now : Nat} {result : Result}
    {r' : Router κ} (h : r.prove goal axioms strategy timeout now = (.ok result, r')) :
    r.lineup strategy goal axioms ≠ [] := by
  intro hnil
  rw [prove_of_lineup_eq_nil hnil] at h
  cases h

/-! ### One only -/

/-- The prover that is called if only one is. -/
theorem exists_prove_auto (hne : r.lineup .auto goal axioms ≠ []) :
    ∃ seat ∈ r.lineup .auto goal axioms, ∀ (d : Desk κ) (timeout now : Nat),
      prove { r with desk := d } goal axioms .auto timeout now =
        proveAuto { r with desk := d } seat goal axioms timeout now := by
  obtain ⟨top, others, heq⟩ := List.exists_cons_of_ne_nil hne
  have hordered : r.registry.ordered .auto (r.recommended goal axioms) = top :: others := heq
  refine ⟨((top :: others).find? (·.prover.available)).getD top, ?_, fun d timeout now => ?_⟩
  · rw [heq]
    cases hfind : (top :: others).find? (·.prover.available) with
    | none => exact List.mem_cons_self
    | some seat => exact List.mem_of_find?_eq_some hfind
  · have hordered' : Registry.ordered { r with desk := d }.registry .auto
        (recommended { r with desk := d } goal axioms) = top :: others := hordered
    unfold prove
    rw [hordered']

theorem proveAuto_snd (r : Router κ) (seat : Seat) (goal : Formula) (axioms : List Formula)
    (timeout now : Nat) :
    (r.proveAuto seat goal axioms timeout now).2 =
      (r.call seat goal axioms timeout now).2.2 := by
  unfold proveAuto
  split
  · rename_i hcall
    rw [hcall]
  · rename_i hcall
    rw [hcall]

end Router

end Deontica
