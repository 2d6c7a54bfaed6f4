import Deontica.Dispatch
import Deontica.Race

/-!
# Running a race

All candidates begin at the same time, one after the other in their order.  A call that takes no time
has ended before the next candidate begins, so what it leaves in the cache is there by then.  The
others come to an end in the order of the time they take, and in their own order where times agree.
Those that take as long as the time allowed, or longer, meet the deadline; with no time allowed,
nobody begins.

When a race is won, all who are done by then have ended their calls.  The calls of the others are
broken off.
-/

namespace Deontica

/-- What a candidate does in a race. -/
inductive Work where
  /-- There is a result at once. -/
  | ready (result : Result)
  /-- The call broke off at once. -/
  | broken
  /-- The prover was called, and this is what the call will come to. -/
  | running (run : Run)
  deriving Repr, Inhabited

/-- What is left of the work of the prover `name` when its call has come to an end. -/
def Work.ofRun (name : String) : Run → Work
  | .crashed => .broken
  | run => .ready (Desk.attemptOf name (.cameBack run)).toResult

/-- A candidate in a race. -/
structure Runner (κ : Type) where
  /-- The number of the candidate. -/
  index : Nat
  seat : Seat
  key : κ
  work : Work

namespace Runner

variable {κ : Type} [DecidableEq κ]

/-- How long the runner takes. -/
def pace (r : Runner κ) : Pace :=
  match r.work with
  | .ready _ | .broken => .millis 0
  | .running _ => r.seat.prover.pace

/-- The runner's work when its call has come to an end. -/
def ending (r : Runner κ) : Work :=
  match r.work with
  | .running run => .ofRun r.seat.name run
  | work => work

/-- What happens when the runner comes to an end. -/
def event (r : Runner κ) : Race.Event :=
  match r.ending with
  | .ready result => .completed r.index result
  | _ => .crashed r.index

/-- Whether the runner comes to an end with a decisive result. -/
def isDecisive (r : Runner κ) : Bool :=
  match r.event with
  | .completed _ result => result.status.isDecisive
  | _ => false

/-- Ends the runner's call in a race that began at a given time. -/
def settle (start : Nat) (d : Desk κ) (r : Runner κ) : Desk κ :=
  match r.work with
  | .ready _ | .broken => d
  | .running run => (d.finish r.seat r.key (.cameBack run) (start + r.pace.time)).2

/-- The runners that come to an end before the deadline, in the order in which they do. -/
def inTime (timeout : Nat) (runners : List (Runner κ)) : List (Runner κ) :=
  (runners.filter (·.pace.isBefore timeout)).mergeSort fun r s =>
    decide (r.pace.halves ≤ s.pace.halves)

/-- What happens in a race between so many candidates, of whom the runners began. -/
def events (timeout candidates : Nat) (runners : List (Runner κ)) : List Race.Event :=
  let ended := inTime timeout runners
  ended.map event ++ if ended.length < candidates then [.deadline] else []

/-- The runners that have ended their calls when the race is over. -/
def done (mode : Race.Mode) (timeout : Nat) (runners : List (Runner κ)) : List (Runner κ) :=
  let ended := inTime timeout runners
  match mode, ended.find? isDecisive with
  | .firstDecisive, some winner =>
    ended.filter fun r => decide (r.pace.halves ≤ winner.pace.halves)
  | _, _ => ended

end Runner

/-- A race that has been run. -/
structure Race.Finish (κ : Type) where
  outcome : Race.Outcome
  desk : Desk κ
  /-- The milliseconds that the race took. -/
  took : Nat

namespace Desk

variable {κ : Type} [DecidableEq κ]

/-- Begins the call of a candidate, and ends it if it takes no time. -/
def enter (d : Desk κ) (seat : Seat) (goal : Formula) (axioms : List Formula) (key : κ)
    (timeout now : Nat) : Work × Desk κ :=
  match d.start seat key now with
  | (.unavailable, d) => (.ready (Attempt.unavailable seat.name).toResult, d)
  | (.cached result, d) => (.ready result, d)
  | (.called, d) =>
    let run := seat.prover.run goal axioms timeout
    if seat.prover.pace = .millis 0 then
      (.ofRun seat.name run, (d.finish seat key (.cameBack run) now).2)
    else (.running run, d)

/-- Begins the calls of candidates, the first of which has the number `index`. -/
def line (goal : Formula) (axioms : List Formula) (keyOf : Seat → κ) (timeout now : Nat) :
    Nat → List Seat → Desk κ → List (Runner κ) × Desk κ
  | _, [], d => ([], d)
  | index, seat :: seats, d =>
    let key := keyOf seat
    let (work, d) := d.enter seat goal axioms key timeout now
    let (runners, d) := line goal axioms keyOf timeout now (index + 1) seats d
    (⟨index, seat, key, work⟩ :: runners, d)

/-- Runs a race between candidates that begins at a given time. -/
def race (d : Desk κ) (mode : Race.Mode) (seats : List Seat) (goal : Formula)
    (axioms : List Formula) (keyOf : Seat → κ) (timeout now : Nat) : Race.Finish κ :=
  let (runners, d) :=
    d.line goal axioms keyOf timeout now 0 (if timeout = 0 then [] else seats)
  let events := Runner.events timeout seats.length runners
  let outcome := Race.judge mode (seats.map (·.name)) events
  let done := Runner.done mode timeout runners
  let took := if outcome.deadlineHit then timeout else (done.map (·.pace.time)).foldl max 0
  ⟨outcome, done.foldl (Runner.settle now) d, took⟩

end Desk

end Deontica
