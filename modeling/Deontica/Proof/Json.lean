import Deontica.Config.Json
import Deontica.Formula.Json
import Deontica.Proof

/-!
# Results as JSON
-/

namespace Deontica

namespace Json

/-- What a list of results holds came from one of the arguments. -/
theorem exists_of_mem_mapM {α β : Type} {f : α → Option β} {xs : List α} {ys : List β}
    (h : xs.mapM f = some ys) {y : β} (hy : y ∈ ys) : ∃ x ∈ xs, f x = some y := by
  induction xs generalizing ys with
  | nil =>
    simp only [List.mapM_nil, Option.pure_def, Option.some.injEq] at h
    simp [← h] at hy
  | cons x xs ih =>
    simp only [List.mapM_cons, Option.pure_def, Option.bind_eq_bind, Option.bind_eq_some_iff,
      Option.some.injEq] at h
    obtain ⟨z, hz, zs, hzs, rfl⟩ := h
    rcases List.mem_cons.1 hy with rfl | hy
    · exact ⟨x, by simp, hz⟩
    · obtain ⟨w, hw, hfw⟩ := ih hzs hy
      exact ⟨w, by simp [hw], hfw⟩

/-- A field is smaller than the record. -/
theorem sizeOf_lt_of_fields? {names : List String} {json value : Json} {fields : List (Option Json)}
    (h : json.fields? names = some fields) (hmem : some value ∈ fields) :
    sizeOf value < sizeOf json := by
  cases json with
  | object members =>
    obtain ⟨name, _, hname⟩ := exists_of_mem_mapM h hmem
    have hpart : (object members).part? name = some value := by simp [part?, hname]
    exact sizeOf_part?_lt hpart
  | array items =>
    simp only [fields?] at h
    split at h
    · simp only [Option.some.injEq] at h
      have hitem : value ∈ items := by simpa [← h] using hmem
      have := List.sizeOf_lt_of_mem hitem
      simp only [array.sizeOf_spec]
      omega
    · simp at h
  | _ => simp [fields?] at h

end Json

def Status.ofJson? : Json → Option Status :=
  Json.choice? every name

namespace Step

def ofJson? (json : Json) : Option Step := do
  match ← json.fields? ["rule", "premises", "conclusion", "justification"] with
  | [rule, premises, conclusion, justification] =>
    return {
      rule := ← Json.required Json.string? rule
      premises := ← Json.required (Json.list? Formula.ofJson?) premises
      conclusion := ← Json.required Formula.ofJson? conclusion
      justification := ← Json.required Json.string? justification }
  | _ => none

def toJson (s : Step) : Json :=
  .object [("rule", .string s.rule), ("premises", .array (s.premises.map Formula.toJson)),
    ("conclusion", s.conclusion.toJson), ("justification", .string s.justification)]

end Step

namespace Clash

def ofJson? (json : Json) : Option Clash := do
  match ← json.fields? ["formula", "negation"] with
  | [formula, negation] =>
    return {
      formula := ← Json.required Formula.ofJson? formula
      negation := ← Json.required Formula.ofJson? negation }
  | _ => none

def toJson (c : Clash) : Json :=
  .object [("formula", c.formula.toJson), ("negation", c.negation.toJson)]

end Clash

namespace Duration

/-- Reads a length of time.  Nanoseconds that make up whole seconds are carried over; the seconds
have to fit in 64 bits after that.  Unlike other records, this one has no room for more members. -/
def ofJson? (json : Json) : Option Duration := do
  let names := ["secs", "nanos"]
  if let .object members := json then
    guard (members.all (names.contains ·.1))
  match ← json.fields? names with
  | [secs, nanos] =>
    let secs ← Json.required Json.count? secs
    let nanos ← Json.required (Json.below? 0x100000000) nanos
    let seconds := secs + nanos / 1000000000
    guard (seconds < Json.countLimit)
    return ⟨seconds, nanos % 1000000000⟩
  | _ => none

def toJson (d : Duration) : Json :=
  .object [("secs", .natural d.seconds), ("nanos", .natural d.nanos)]

end Duration

namespace Result

def ofJson? (json : Json) : Option Result :=
  match _h : json.fields? ["status", "steps", "elapsed", "prover_used", "from_cache", "modal_logic",
      "inconsistency", "sub_results", "message"] with
  | some [status, steps, elapsed, prover, fromCache, logic, clash, some (.array parts), message] =>
    do
      return {
        status := ← Json.required Status.ofJson? status
        steps := ← Json.required (Json.list? Step.ofJson?) steps
        elapsed := ← Json.required Duration.ofJson? elapsed
        prover := ← Json.required Json.string? prover
        fromCache := ← Json.required Json.bool? fromCache
        logic := ← Json.optional Logic.ofJson? logic
        clash := ← Json.optional Clash.ofJson? clash
        parts := ← parts.attach.mapM fun ⟨part, _⟩ => ofJson? part
        message := ← Json.optional Json.string? message }
  | _ => none
termination_by sizeOf json
decreasing_by
  have hfield : sizeOf (Json.array parts) < sizeOf json :=
    Json.sizeOf_lt_of_fields? _h (by simp)
  have hpart := List.sizeOf_lt_of_mem ‹part ∈ parts›
  simp only [Json.array.sizeOf_spec] at hfield
  omega

mutual

def toJson : Result → Json
  | ⟨status, steps, elapsed, prover, fromCache, logic, clash, parts, message⟩ =>
    .object [("status", .string status.name), ("steps", .array (steps.map Step.toJson)),
      ("elapsed", elapsed.toJson), ("prover_used", .string prover),
      ("from_cache", .bool fromCache), ("modal_logic", Json.orNull Logic.toJson logic),
      ("inconsistency", Json.orNull Clash.toJson clash),
      ("sub_results", .array (toJsonParts parts)), ("message", Json.orNull .string message)]

def toJsonParts : List Result → List Json
  | [] => []
  | part :: parts => toJson part :: toJsonParts parts

end

end Result

end Deontica
