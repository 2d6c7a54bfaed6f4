import Deontica.Config
import Deontica.Json.Fields

/-!
# Settings as JSON

Settings that are left out keep their defaults, so a text only has to name what it changes.  Times
are given in milliseconds.
-/

namespace Deontica

def Logic.ofJson? : Json → Option Logic :=
  Json.choice? every name

def Logic.toJson (l : Logic) : Json :=
  .string l.name

namespace ParserConfig

def ofJson? (json : Json) : Option ParserConfig := do
  match ← json.settings? ["max_depth"] with
  | [maxDepth] => return { maxDepth := ← Json.setting 256 Json.count? maxDepth }
  | _ => none

def toJson (c : ParserConfig) : Json :=
  .object [("max_depth", .natural c.maxDepth)]

end ParserConfig

namespace EngineConfig

def ofJson? (json : Json) : Option EngineConfig := do
  let default : EngineConfig := {}
  match ← json.settings? ["max_steps", "time_budget_ms", "max_facts", "max_formula_depth",
      "max_worlds", "max_branches", "modal_logic"] with
  | [maxSteps, timeBudget, maxFacts, maxFormulaDepth, maxWorlds, maxBranches, logic] =>
    return {
      maxSteps := ← Json.setting default.maxSteps Json.count? maxSteps
      timeBudget := ← Json.setting default.timeBudget Json.count? timeBudget
      maxFacts := ← Json.setting default.maxFacts Json.count? maxFacts
      maxFormulaDepth := ← Json.setting default.maxFormulaDepth Json.count? maxFormulaDepth
      maxWorlds := ← Json.setting default.maxWorlds Json.count? maxWorlds
      maxBranches := ← Json.setting default.maxBranches Json.count? maxBranches
      logic := ← Json.setting default.logic (Json.nullable? Logic.ofJson?) logic }
  | _ => none

def toJson (c : EngineConfig) : Json :=
  .object [("max_steps", .natural c.maxSteps), ("time_budget_ms", .natural c.timeBudget),
    ("max_facts", .natural c.maxFacts), ("max_formula_depth", .natural c.maxFormulaDepth),
    ("max_worlds", .natural c.maxWorlds), ("max_branches", .natural c.maxBranches),
    ("modal_logic", Json.orNull Logic.toJson c.logic)]

end EngineConfig

namespace CacheConfig

def ofJson? (json : Json) : Option CacheConfig := do
  let default : CacheConfig := {}
  match ← json.settings? ["max_entries", "ttl_ms", "enabled"] with
  | [maxEntries, ttl, enabled] =>
    return {
      maxEntries := ← Json.setting default.maxEntries Json.count? maxEntries
      ttl := ← Json.setting default.ttl Json.count? ttl
      enabled := ← Json.setting default.enabled Json.bool? enabled }
  | _ => none

def toJson (c : CacheConfig) : Json :=
  .object [("max_entries", .natural c.maxEntries), ("ttl_ms", .natural c.ttl),
    ("enabled", .bool c.enabled)]

end CacheConfig

end Deontica
