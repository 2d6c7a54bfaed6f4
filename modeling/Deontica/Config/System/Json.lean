import Deontica.Analysis.Json
import Deontica.Config.Json
import Deontica.Config.System
import Deontica.Json.Reader

/-!
# Settings of the whole system as JSON
-/

namespace Deontica

def Strategy.ofJson? : Json → Option Strategy :=
  Json.choice? every name

namespace RouterConfig

def ofJson? (json : Json) : Option RouterConfig := do
  let default : RouterConfig := {}
  match ← json.settings? ["default_timeout_ms", "default_strategy"] with
  | [timeout, strategy] =>
    return {
      defaultTimeout := ← Json.setting default.defaultTimeout Json.count? timeout
      defaultStrategy := ← Json.setting default.defaultStrategy Strategy.ofJson? strategy }
  | _ => none

def toJson (c : RouterConfig) : Json :=
  .object [("default_timeout_ms", .natural c.defaultTimeout),
    ("default_strategy", .string c.defaultStrategy.name)]

end RouterConfig

/-- Why a text gave no settings. -/
inductive LoadError where
  /-- The text is not JSON, or does not fit the settings. -/
  | malformed
  | refused (reason : ConfigError)
  deriving Repr, DecidableEq, Inhabited

namespace SystemConfig

def ofJson? (json : Json) : Option SystemConfig := do
  match ← json.settings? ["parser", "engine", "cache", "analyzer", "router"] with
  | [parser, engine, cache, analyzer, router] =>
    return {
      parser := ← Json.setting {} ParserConfig.ofJson? parser
      engine := ← Json.setting {} EngineConfig.ofJson? engine
      cache := ← Json.setting {} CacheConfig.ofJson? cache
      analyzer := ← Json.setting {} AnalyzerConfig.ofJson? analyzer
      router := ← Json.setting {} RouterConfig.ofJson? router }
  | _ => none

def toJson (c : SystemConfig) : Json :=
  .object [("parser", c.parser.toJson), ("engine", c.engine.toJson), ("cache", c.cache.toJson),
    ("analyzer", c.analyzer.toJson), ("router", c.router.toJson)]

/-- Reads settings from a text and checks them. -/
def ofText (text : String) : Except LoadError SystemConfig := do
  let some config := (Json.parse text).bind ofJson? | throw .malformed
  config.validate.mapError .refused
  return config

end SystemConfig

end Deontica
