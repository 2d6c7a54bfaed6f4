import Deontica.Text.LowerCase

/-!
# Strategies

How a list of candidate provers is spent on a problem.
-/

namespace Deontica

/-- How candidates are spent. -/
inductive Strategy where
  /-- Only the best candidate that is available. -/
  | auto
  /-- One candidate after the other, best first, until one decides. -/
  | sequential
  /-- All candidates at once, until one decides. -/
  | parallel
  /-- One after the other, the one with the lowest latency first. -/
  | fastest
  /-- One after the other, the one with the most features first. -/
  | mostCapable
  deriving Repr, DecidableEq, Inhabited

namespace Strategy

def name : Strategy → String
  | .auto => "Auto"
  | .sequential => "Sequential"
  | .parallel => "Parallel"
  | .fastest => "Fastest"
  | .mostCapable => "MostCapable"

/-- All strategies. -/
def every : List Strategy := [.auto, .sequential, .parallel, .fastest, .mostCapable]

/-- The strategy that a text names, in any case and with any dashes and underscores. -/
def ofText? (s : String) : Option Strategy :=
  let plain := String.ofList ((Text.lower s).toList.filter fun c => c ≠ '-' && c ≠ '_')
  every.find? fun strategy => Text.lower strategy.name == plain

/-- The complaint about a text that names no strategy. -/
def unknownMessage (s : String) : String :=
  "Unknown strategy: " ++ s

end Strategy

end Deontica
