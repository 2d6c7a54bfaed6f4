import Deontica.Budget
import Deontica.Logic

/-!
# Settings of the parser, the engine and the cache

Settings are plain records with defaults.  A record is checked once, where a component is set up;
the check names the first setting that is out of range.
-/

namespace Deontica

/-- Why settings were refused. -/
inductive ConfigError where
  | parserDepth
  | engineSteps
  | engineTime
  | engineFactsOrDepth
  | engineWorldsOrBranches
  | cacheEntries
  | cacheTtl
  | thresholds (low high : Nat)
  | noFallback
  /-- A row of the prover mapping, named by its fragment, lists no prover. -/
  | emptyRow (fragment : String)
  | routerTimeout
  deriving Repr, DecidableEq, Inhabited

/-- The wording of a refusal. -/
def ConfigError.message (e : ConfigError) : String :=
  "invalid configuration: " ++ match e with
    | .parserDepth => "parser.max_depth must be positive"
    | .engineSteps => "engine.max_steps must be positive"
    | .engineTime => "engine.time_budget_ms must be positive"
    | .engineFactsOrDepth => "engine.max_facts and engine.max_formula_depth must be positive"
    | .engineWorldsOrBranches => "engine.max_worlds and engine.max_branches must be positive"
    | .cacheEntries => "cache.max_entries must be positive"
    | .cacheTtl => "cache.ttl_ms must be positive"
    | .thresholds low high =>
      "analyzer thresholds must satisfy low < high <= 100 (got " ++ toString low ++ " and " ++
        toString high ++ ")"
    | .noFallback => "analyzer.prover_mapping.fallback is empty"
    | .emptyRow fragment => "analyzer mapping row for " ++ fragment ++ " lists no provers"
    | .routerTimeout => "router.default_timeout_ms must be positive"

/-- Refuses settings unless the condition holds. -/
def demand (condition : Bool) (otherwise : ConfigError) : Except ConfigError Unit :=
  if condition then .ok () else .error otherwise

/-! ### Parser -/

/-- Settings of the parser. -/
structure ParserConfig where
  /-- The nesting limit. -/
  maxDepth : Nat := 256
  deriving Repr, DecidableEq, Inhabited

def ParserConfig.validate (c : ParserConfig) : Except ConfigError Unit :=
  demand (0 < c.maxDepth) .parserDepth

/-! ### Engine -/

/-- Settings of the inference engine. -/
structure EngineConfig where
  /-- Rule applications and tableau expansions for one proof. -/
  maxSteps : Nat := 1000
  /-- Milliseconds for one proof. -/
  timeBudget : Nat := 5000
  /-- Facts at which forward chaining gives up. -/
  maxFacts : Nat := 10000
  /-- Formulas deeper than this are refused. -/
  maxFormulaDepth : Nat := 256
  /-- Worlds on one branch of a tableau; it also bounds the domain of a branch. -/
  maxWorlds : Nat := 64
  /-- Branches of a tableau that may wait at one time. -/
  maxBranches : Nat := 1024
  /-- The logic to use in place of the one that would be chosen. -/
  logic : Option Logic := none
  deriving Repr, DecidableEq, Inhabited

namespace EngineConfig

def validate (c : EngineConfig) : Except ConfigError Unit := do
  demand (0 < c.maxSteps) .engineSteps
  demand (0 < c.timeBudget) .engineTime
  demand (0 < c.maxFacts && 0 < c.maxFormulaDepth) .engineFactsOrDepth
  demand (0 < c.maxWorlds && 0 < c.maxBranches) .engineWorldsOrBranches

/-- The budget of a proof when none is given. -/
def budget (c : EngineConfig) : Budget :=
  ⟨c.maxSteps, c.timeBudget⟩

end EngineConfig

/-! ### Cache -/

/-- Settings of the proof cache. -/
structure CacheConfig where
  /-- Entries kept before the least recently used one is dropped. -/
  maxEntries : Nat := 1024
  /-- Milliseconds for which an entry is good unless it says otherwise. -/
  ttl : Nat := 3600000
  /-- A cache that is switched off finds nothing and keeps nothing. -/
  enabled : Bool := true
  deriving Repr, DecidableEq, Inhabited

def CacheConfig.validate (c : CacheConfig) : Except ConfigError Unit := do
  demand (0 < c.maxEntries) .cacheEntries
  demand (0 < c.ttl) .cacheTtl

end Deontica
