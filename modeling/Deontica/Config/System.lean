import Deontica.Analysis
import Deontica.Config
import Deontica.Strategy

/-!
# Settings of the whole system

The settings of all components together, as one record.
-/

namespace Deontica

/-- Settings of the router. -/
structure RouterConfig where
  /-- Milliseconds for a call that gives no time of its own. -/
  defaultTimeout : Nat := 30000
  /-- The strategy of a call that names none. -/
  defaultStrategy : Strategy := .auto
  deriving Repr, DecidableEq, Inhabited

def RouterConfig.validate (c : RouterConfig) : Except ConfigError Unit :=
  demand (0 < c.defaultTimeout) .routerTimeout

/-- The settings of all components. -/
structure SystemConfig where
  parser : ParserConfig := {}
  engine : EngineConfig := {}
  cache : CacheConfig := {}
  analyzer : AnalyzerConfig := {}
  router : RouterConfig := {}
  deriving Repr, DecidableEq, Inhabited

/-- Checks the components in order. -/
def SystemConfig.validate (c : SystemConfig) : Except ConfigError Unit := do
  c.parser.validate
  c.engine.validate
  c.cache.validate
  c.analyzer.validate
  c.router.validate

end Deontica
