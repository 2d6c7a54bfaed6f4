import Deontica.Analysis
import Deontica.Json.Fields

/-!
# Analyses and their settings as JSON
-/

namespace Deontica

def Fragment.ofJson? : Json → Option Fragment :=
  Json.choice? every name

def Bucket.ofJson? : Json → Option Bucket :=
  Json.choice? every name

namespace MappingRow

def ofJson? (json : Json) : Option MappingRow := do
  match ← json.fields? ["formula_type", "bucket", "provers"] with
  | [fragment, bucket, provers] =>
    return {
      fragment := ← Json.required Fragment.ofJson? fragment
      bucket := ← Json.optional Bucket.ofJson? bucket
      provers := ← Json.required (Json.list? Json.string?) provers }
  | _ => none

def toJson (row : MappingRow) : Json :=
  .object [("formula_type", .string row.fragment.name),
    ("bucket", Json.orNull (.string ·.name) row.bucket), ("provers", Json.strings row.provers)]

end MappingRow

namespace Mapping

def ofJson? (json : Json) : Option Mapping := do
  match ← json.fields? ["rules", "fallback"] with
  | [rows, fallback] =>
    return {
      rows := ← Json.required (Json.list? MappingRow.ofJson?) rows
      fallback := ← Json.required (Json.list? Json.string?) fallback }
  | _ => none

def toJson (m : Mapping) : Json :=
  .object [("rules", .array (m.rows.map MappingRow.toJson)), ("fallback", Json.strings m.fallback)]

end Mapping

namespace AnalyzerConfig

def ofJson? (json : Json) : Option AnalyzerConfig := do
  let default : AnalyzerConfig := {}
  match ← json.settings? ["low_threshold", "high_threshold", "arithmetic_symbols",
      "prover_mapping"] with
  | [low, high, symbols, mapping] =>
    return {
      lowThreshold := ← Json.setting default.lowThreshold Json.byte? low
      highThreshold := ← Json.setting default.highThreshold Json.byte? high
      arithmeticSymbols :=
        ← Json.setting default.arithmeticSymbols (Json.list? Json.string?) symbols
      mapping := ← Json.setting default.mapping Mapping.ofJson? mapping }
  | _ => none

def toJson (c : AnalyzerConfig) : Json :=
  .object [("low_threshold", .natural c.lowThreshold), ("high_threshold", .natural c.highThreshold),
    ("arithmetic_symbols", Json.strings c.arithmeticSymbols),
    ("prover_mapping", c.mapping.toJson)]

end AnalyzerConfig

def OperatorCounts.toJson (c : OperatorCounts) : Json :=
  .object [("predicates", .natural c.predicates), ("negations", .natural c.negations),
    ("connectives", .natural c.connectives), ("quantifiers", .natural c.quantifiers),
    ("obligations", .natural c.obligations), ("permissions", .natural c.permissions),
    ("prohibitions", .natural c.prohibitions), ("modal", .natural c.modal),
    ("temporal", .natural c.temporal)]

def Analysis.toJson (a : Analysis) : Json :=
  .object [("formula_type", .string a.fragment.name), ("complexity_score", .natural a.score),
    ("bucket", .string a.bucket.name), ("quantifier_depth", .natural a.quantifierDepth),
    ("nesting_level", .natural a.nesting), ("size", .natural a.size),
    ("operators", a.counts.toJson), ("recommended_provers", Json.strings a.recommended)]

end Deontica
