import Deontica.Config.System
import Deontica.Formula.Parser
import Deontica.Prover.Native
import Deontica.Race.Runner
import Deontica.Reconciliation

/-!
# The router

The router has a problem analyzed, ranks the registered provers by what the analysis recommends, and
spends them on the problem by some strategy.  Calls go by way of a cache; `keyOf` says under which
key an inquiry is kept there.

The router does not look at a clock: a call is told the time at which it begins, in milliseconds,
and from then on time stands still but for calls of provers.  Times are natural numbers, so every
call has a deadline.  A clock that ends is not modelled: a call whose deadline lies beyond the last
time of its clock breaks off there, while here it goes on.
-/

namespace Deontica

/-- Why the router gave no result. -/
inductive RouterError where
  | parse (error : ParseError)
  | proverUnavailable (prover reason : String)
  | noCandidates
  deriving Repr, Inhabited

/-- The wording of a router's error. -/
def RouterError.message : RouterError → String
  | .parse error => error.message
  | .proverUnavailable prover reason => "prover '" ++ prover ++ "' unavailable: " ++ reason
  | .noCandidates => "no prover registered"

/-- A registry of provers with what it takes to spend them on problems. -/
structure Router (κ : Type) where
  registry : Registry
  analyzer : AnalyzerConfig
  parser : ParserConfig := {}
  config : RouterConfig
  /-- The key of an inquiry in the cache. -/
  keyOf : Inquiry → κ
  desk : Desk κ

/-- A router whose cache is addressed by digests, over an empty registry. -/
def Router.create (analyzer : AnalyzerConfig) (cache : CacheConfig) (config : RouterConfig) :
    Except ConfigError (Router Key) := do
  let cache ← Cache.create cache
  return {
    registry := {}
    analyzer := analyzer
    config := config
    keyOf := .ofInquiry
    desk := { cache := cache } }

/-- A router with the native prover and the given settings, if they are in order. -/
def Router.ofConfig (config : SystemConfig) : Except ConfigError (Router Key) := do
  config.validate
  let r ← Router.create config.analyzer config.cache config.router
  return { r with
    parser := config.parser
    registry := r.registry.register (Native.prover config.engine) }

namespace Router

variable {κ : Type} [DecidableEq κ]

/-- Registers a prover. -/
def register (r : Router κ) (p : Prover) : Router κ :=
  { r with registry := r.registry.register p }

/-- The provers recommended for a problem. -/
def recommended (r : Router κ) (goal : Formula) (axioms : List Formula) : List String :=
  (r.analyzer.analyzeProblem goal axioms).recommended

/-- The provers that are available for a problem, in the order of ranking. -/
def candidates (r : Router κ) (goal : Formula) (axioms : List Formula) : List Seat :=
  r.registry.candidates (r.recommended goal axioms)

/-- The key of a problem put to a registered prover. -/
def seatKey (r : Router κ) (goal : Formula) (axioms : List Formula) (seat : Seat) : κ :=
  r.keyOf ⟨goal, axioms, seat.name, seat.prover.fingerprint⟩

/-- Calls a registered prover, and says how many milliseconds that took. -/
def call (r : Router κ) (seat : Seat) (goal : Formula) (axioms : List Formula)
    (timeout now : Nat) : Attempt × Nat × Router κ :=
  let served := r.desk.call seat goal axioms (r.seatKey goal axioms seat) timeout now
  (served.attempt, served.took, { r with desk := served.desk })

/-- Runs a race between registered provers, and says how many milliseconds that took. -/
def race (r : Router κ) (mode : Race.Mode) (seats : List Seat) (goal : Formula)
    (axioms : List Formula) (timeout now : Nat) : Race.Outcome × Nat × Router κ :=
  let finish := r.desk.race mode seats goal axioms (r.seatKey goal axioms) timeout now
  (finish.outcome, finish.took, { r with desk := finish.desk })

/-- Tries one candidate only. -/
def proveAuto (r : Router κ) (seat : Seat) (goal : Formula) (axioms : List Formula)
    (timeout now : Nat) : Except RouterError Result × Router κ :=
  match r.call seat goal axioms timeout now with
  | (.answered result, _, r) => (.ok result, r)
  | (.failed prover reason, _, r) => (.error (.proverUnavailable prover reason), r)

/-- Tries candidates one after the other until one decides, but none once the deadline has come.
`last` is the result of the candidate before. -/
def proveSequential (goal : Formula) (axioms : List Formula) (deadline : Nat) :
    List Seat → Result → Nat → Router κ → Result × Router κ
  | [], last, _, r => (last, r)
  | seat :: seats, _, now, r =>
    if deadline ≤ now then
      (.noted .timeout seat.name "deadline passed before the prover was tried", r)
    else
      let (attempt, took, r) := r.call seat goal axioms (deadline - now) now
      let result := attempt.toResult
      if result.status.isDecisive then (result, r)
      else proveSequential goal axioms deadline seats result (now + took) r

/-- The result of trying no candidate. -/
def untried : Result :=
  .noted .unknown "none" "no candidate was tried"

/-- Tries all candidates at once until one decides. -/
def proveParallel (r : Router κ) (seats : List Seat) (goal : Formula) (axioms : List Formula)
    (timeout now : Nat) : Result × Router κ :=
  let (outcome, took, r) := r.race .firstDecisive seats goal axioms timeout now
  match outcome.winner with
  | some winner => (winner, r)
  | none => ({ Race.aggregate outcome seats.length with elapsed := .ofMillis took }, r)

/-- Has a goal proved from axioms by a strategy, within so many milliseconds from a given time.  The
deadline `now + timeout` is taken to be a time of the clock, however large the timeout is. -/
def prove (r : Router κ) (goal : Formula) (axioms : List Formula) (strategy : Strategy)
    (timeout now : Nat) : Except RouterError Result × Router κ :=
  match r.registry.ordered strategy (r.recommended goal axioms) with
  | [] => (.error .noCandidates, r)
  | top :: others =>
    let seats := top :: others
    match strategy with
    | .auto =>
      -- With nothing available, the top candidate is the one reported.
      r.proveAuto ((seats.find? (·.prover.available)).getD top) goal axioms timeout now
    | .sequential | .fastest | .mostCapable =>
      let (result, r) := proveSequential goal axioms (now + timeout) seats untried now r
      (.ok result, r)
    | .parallel =>
      let (result, r) := r.proveParallel seats goal axioms timeout now
      (.ok result, r)

/-- Has a goal proved by the configured strategy and within the configured time. -/
def proveDefault (r : Router κ) (goal : Formula) (axioms : List Formula) (now : Nat) :
    Except RouterError Result × Router κ :=
  r.prove goal axioms r.config.defaultStrategy r.config.defaultTimeout now

/-- Parses a goal and axioms, and has the goal proved. -/
def proveText (r : Router κ) (goal : String) (axioms : List String) (strategy : Strategy)
    (timeout now : Nat) : Except RouterError Result × Router κ :=
  let problem : Except ParseError (Formula × List Formula) := do
    let goal ← Formula.parseWithin r.parser.maxDepth goal
    let axioms ← Formula.parseAllWithin r.parser.maxDepth axioms
    return (goal, axioms)
  match problem with
  | .ok (goal, axioms) => r.prove goal axioms strategy timeout now
  | .error e => (.error (.parse e), r)

/-- Runs all candidates to the end, or to the deadline, and compares their verdicts.  As in `prove`,
the deadline is taken to be a time of the clock. -/
def crossCheck (r : Router κ) (goal : Formula) (axioms : List Formula) (timeout now : Nat) :
    Except RouterError Reconciliation × Router κ :=
  match r.registry.ranked (r.recommended goal axioms) with
  | [] => (.error .noCandidates, r)
  | seats =>
    let (outcome, _, r) := r.race .all seats goal axioms timeout now
    (.ok (.ofResults outcome.results), r)

/-- A description of the router. -/
def describe (r : Router κ) : String :=
  "ProverRouter \x7b registry: " ++ r.registry.describe ++
    ", config: RouterConfig \x7b default_timeout_ms: " ++ toString r.config.defaultTimeout ++
    ", default_strategy: " ++ r.config.defaultStrategy.name ++ " \x7d \x7d"

end Router

end Deontica
