import Deontica.Cache
import Deontica.Cache.Key
import Deontica.Registry

/-!
# Calls of provers

Every call of a prover goes by way of the cache and is accounted for.  It has three steps, since
other calls may come in between:

* a call *begins*: a prover that is not available is not called, and neither is one whose answer is
  in the cache; otherwise the prover is called;
* the prover works for a while;
* the call *ends*: an answer that may be kept goes to the cache, and the account of the prover is
  brought up to date.

A call that is broken off never ends, so it leaves nothing in the cache or in the account.
-/

namespace Deontica

/-- The account of one prover.  Counts are natural numbers; that those of fewer than 2³² calls fit
into 32 bits is part of `Office.Accounts`.  The time that the calls have taken in all is left out,
since nothing reads it but a report of averages. -/
structure ProverStats where
  /-- Calls that ended, other than by a crash. -/
  attempts : Nat := 0
  /-- Those that settled the question. -/
  successes : Nat := 0
  /-- All others. -/
  failures : Nat := 0
  deriving Repr, DecidableEq, Inhabited

/-- Accounts for one more call. -/
def ProverStats.record (s : ProverStats) (success : Bool) : ProverStats where
  attempts := s.attempts + 1
  successes := if success then s.successes + 1 else s.successes
  failures := if success then s.failures else s.failures + 1

/-- What the caller of a prover is told. -/
inductive Attempt where
  | answered (result : Result)
  /-- The prover was not available, or did not do its work. -/
  | failed (prover reason : String)
  deriving Repr, Inhabited

namespace Attempt

/-- The attempt at a prover that is not available. -/
def unavailable (prover : String) : Attempt :=
  .failed prover "prover reports unavailable"

/-- The attempt as a result. -/
def toResult : Attempt → Result
  | .answered result => result
  | .failed prover reason => .failure prover reason

/-- Whether the attempt settles the question. -/
def isDecisive : Attempt → Bool
  | .answered result => result.status.isDecisive
  | .failed _ _ => false

end Attempt

/-- How a call that has begun goes on. -/
inductive Beginning where
  | unavailable
  | cached (result : Result)
  /-- The prover has been called. -/
  | called
  deriving Repr, Inhabited

/-- How a call ends. -/
inductive Ending where
  /-- The prover came back in time. -/
  | cameBack (run : Run)
  /-- It did not come back within so many milliseconds. -/
  | tooLate (timeout : Nat)
  deriving Repr, Inhabited

/-- What calls share: the cache, the accounts, and a note of every call. -/
structure Desk (κ : Type) where
  cache : Cache κ
  /-- The accounts of the provers by name, each name once. -/
  stats : List (String × ProverStats) := []
  /-- The registrations that were called, one number for each call. -/
  calls : List Nat := []
  deriving Repr, Inhabited

namespace Desk

variable {κ : Type} [DecidableEq κ]

/-- The account of a prover. -/
def statsOf (d : Desk κ) (name : String) : ProverStats :=
  (d.stats.lookup name).getD {}

/-- How often a registration was called. -/
def callsOf (d : Desk κ) (id : Nat) : Nat :=
  d.calls.count id

/-- Accounts for a call in a list of accounts. -/
def recordIn (name : String) (success : Bool) :
    List (String × ProverStats) → List (String × ProverStats)
  | [] => [(name, ProverStats.record {} success)]
  | (n, s) :: rest =>
    if n = name then (n, s.record success) :: rest else (n, s) :: recordIn name success rest

/-- Accounts for a call. -/
def record (d : Desk κ) (name : String) (success : Bool) : Desk κ :=
  { d with stats := recordIn name success d.stats }

/-- Looks for an answer in the cache at a given time.  If there is none, the prover is called. -/
def lookup (d : Desk κ) (seat : Seat) (key : κ) (now : Nat) : Beginning × Desk κ :=
  match d.cache.get key now with
  | (some result, cache) => (.cached { result with elapsed := ⟨0, 0⟩ }, { d with cache := cache })
  | (none, cache) => (.called, { d with cache := cache, calls := d.calls ++ [seat.id] })

/-- Begins a call at a given time. -/
def start (d : Desk κ) (seat : Seat) (key : κ) (now : Nat) : Beginning × Desk κ :=
  if !seat.prover.available then (.unavailable, d) else d.lookup seat key now

/-- What the caller is told when a call ends.  A crash is told as a failure.  This stands for less:
only a race outlives the crash of a prover, and a race goes by `Work.ofRun`; any other caller goes
down with the prover and is told nothing. -/
def attemptOf (name : String) : Ending → Attempt
  | .cameBack (.answered result) => .answered { result with prover := name, fromCache := false }
  | .cameBack (.failed causes) => .failed name (": ".intercalate causes)
  | .cameBack .crashed => .failed name "prover task failed"
  | .tooLate timeout =>
    .answered
      { Result.noted .timeout name ("no answer within " ++ (Duration.ofMillis timeout).render) with
        elapsed := .ofMillis timeout }

/-- Keeps a result at a given time, if it may be kept. -/
def keep (d : Desk κ) (key : κ) (result : Result) (now : Nat) : Desk κ :=
  if result.status.isCacheable then { d with cache := d.cache.put key result none now } else d

/-- Ends a call at a given time. -/
def finish (d : Desk κ) (seat : Seat) (key : κ) (ending : Ending) (now : Nat) :
    Attempt × Desk κ :=
  let attempt := attemptOf seat.name ending
  match ending, attempt with
  | .cameBack .crashed, _ => (attempt, d)
  | .cameBack _, .answered result =>
    (attempt, (d.keep key result now).record seat.name attempt.isDecisive)
  | _, _ => (attempt, d.record seat.name attempt.isDecisive)

end Desk

/-- What the caller of a prover gets, and the milliseconds it took. -/
structure Served (κ : Type) where
  attempt : Attempt
  desk : Desk κ
  took : Nat

/-- A whole call, with nothing in between, of at most `timeout` milliseconds.  Such calls are made
outside races, so if the prover crashes, the call does not come back; the attempt given here is that
of `attemptOf`, and the desk is as the call has left it. -/
def Desk.call {κ : Type} [DecidableEq κ] (d : Desk κ) (seat : Seat) (goal : Formula)
    (axioms : List Formula) (key : κ) (timeout now : Nat) : Served κ :=
  match d.start seat key now with
  | (.unavailable, d) => ⟨.unavailable seat.name, d, 0⟩
  | (.cached result, d) => ⟨.answered result, d, 0⟩
  | (.called, d) =>
    let inTime := seat.prover.pace.isWithin timeout
    let took := if inTime then seat.prover.pace.time else timeout
    let ending : Ending :=
      if inTime then .cameBack (seat.prover.run goal axioms timeout) else .tooLate timeout
    let (attempt, d) := d.finish seat key ending (now + took)
    ⟨attempt, d, took⟩

end Deontica
