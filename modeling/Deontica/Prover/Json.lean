import Deontica.Json.Fields
import Deontica.Prover

/-!
# Capabilities as JSON
-/

namespace Deontica.Capabilities

def ofJson? (json : Json) : Option Capabilities := do
  match ← json.fields? ["supports_quantifiers", "supports_arithmetic", "supports_modal",
      "supports_temporal", "supports_deontic", "produces_proof_steps", "interactive",
      "typical_latency_ms"] with
  | [quantifiers, arithmetic, modal, temporal, deontic, proofSteps, interactive, latency] =>
    return {
      quantifiers := ← Json.required Json.bool? quantifiers
      arithmetic := ← Json.required Json.bool? arithmetic
      modal := ← Json.required Json.bool? modal
      temporal := ← Json.required Json.bool? temporal
      deontic := ← Json.required Json.bool? deontic
      proofSteps := ← Json.required Json.bool? proofSteps
      interactive := ← Json.required Json.bool? interactive
      latency := ← Json.required Json.count? latency }
  | _ => none

def toJson (c : Capabilities) : Json :=
  .object [("supports_quantifiers", .bool c.quantifiers),
    ("supports_arithmetic", .bool c.arithmetic), ("supports_modal", .bool c.modal), ("supports_temporal", .bool c.temporal),
    ("supports_deontic", .bool c.deontic), ("produces_proof_steps", .bool c.proofSteps),
    ("interactive", .bool c.interactive), ("typical_latency_ms", .natural c.latency)]

end Deontica.Capabilities
