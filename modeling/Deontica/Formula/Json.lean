import Deontica.Formula
import Deontica.Json.Fields

/-!
# Formulas as JSON

A formula or term is stored as an object with a single member, whose key names the kind of node and
whose value holds its parts.  Reading accepts exactly such objects, in which the parts of a node may
come in any order, next to members that are not parts of it.
-/

namespace Deontica

/-! ### Names of operators -/

def Connective.name : Connective → String
  | .and => "And"
  | .or => "Or"
  | .implies => "Implies"
  | .iff => "Iff"
  | .xor => "Xor"

def Connective.ofJson? : Json → Option Connective :=
  Json.choice? [.and, .or, .implies, .iff, .xor] name

def Quantifier.name : Quantifier → String
  | .all => "Forall"
  | .exists => "Exists"

def Quantifier.ofJson? : Json → Option Quantifier :=
  Json.choice? [.all, .exists] name

def Norm.name : Norm → String
  | .obligatory => "Obligatory"
  | .permitted => "Permitted"
  | .forbidden => "Forbidden"

def Norm.ofJson? : Json → Option Norm :=
  Json.choice? [.obligatory, .permitted, .forbidden] name

def Tense.name : Tense → String
  | .always => "Always"
  | .eventually => "Eventually"
  | .next => "Next"

def Tense.ofJson? : Json → Option Tense :=
  Json.choice? [.always, .eventually, .next] name

def Span.name : Span → String
  | .until => "Until"
  | .since => "Since"

def Span.ofJson? : Json → Option Span :=
  Json.choice? [.until, .since] name

namespace Json

/-- The part of a node that stands under `key`. -/
def part? (key : String) : Json → Option Json
  | .object members => (member? members key).join
  | _ => none

/-- A part is smaller than the node. -/
theorem sizeOf_part?_lt {key : String} {node part : Json} (h : node.part? key = some part) :
    sizeOf part < sizeOf node := by
  cases node with
  | object members =>
    have hmem : ∃ k, (k, part) ∈ members.filter (·.1 == key) := by
      simp only [part?, member?] at h
      split at h
      · simp at h
      · rename_i k value hf
        simp only [Option.join_some, Option.some.injEq] at h
        exact ⟨k, by simp [hf, h]⟩
      · simp at h
    obtain ⟨k, hk⟩ := hmem
    have hlt := List.sizeOf_lt_of_mem (List.mem_filter.1 hk).1
    simp only [Prod.mk.sizeOf_spec] at hlt
    simp only [object.sizeOf_spec]
    omega
  | _ => simp [part?] at h

end Json

/-! ### Terms -/

namespace Term

mutual

def toJson : Term → Json
  | .var x => .object [("Variable", .string x)]
  | .const c => .object [("Constant", .string c)]
  | .app f args =>
    .object [("Function", .object [("name", .string f), ("args", .array (toJsonArgs args))])]

def toJsonArgs : List Term → List Json
  | [] => []
  | t :: ts => toJson t :: toJsonArgs ts

end

def ofJson? (json : Json) : Option Term :=
  match json with
  | .object [("Variable", body)] => body.string?.map .var
  | .object [("Constant", body)] => body.string?.map .const
  | .object [("Function", body)] => do
    let name ← (← body.part? "name").string?
    match _h : body.part? "args" with
    | some (.array items) =>
      let args ← items.attach.mapM fun ⟨item, _⟩ => ofJson? item
      return .app name args
    | _ => none
  | _ => none
termination_by sizeOf json
decreasing_by
  have hpart := Json.sizeOf_part?_lt _h
  have hitem := List.sizeOf_lt_of_mem ‹item ∈ items›
  simp only [Json.array.sizeOf_spec] at hpart
  simp only [Json.object.sizeOf_spec, List.cons.sizeOf_spec, Prod.mk.sizeOf_spec]
  omega

end Term

/-! ### Formulas -/

namespace Formula

def toJson : Formula → Json
  | .pred p args =>
    .object [("Predicate", .object [("name", .string p), ("args", .array (Term.toJsonArgs args))])]
  | .not a => .object [("Not", a.toJson)]
  | .binary op a b =>
    .object [("Binary",
      .object [("op", .string op.name), ("left", a.toJson), ("right", b.toJson)])]
  | .quant q x a =>
    .object [("Quantified",
      .object [("quantifier", .string q.name), ("variable", .string x), ("body", a.toJson)])]
  | .deontic op a =>
    .object [("Deontic", .object [("op", .string op.name), ("body", a.toJson)])]
  | .tense op a =>
    .object [("Temporal", .object [("op", .string op.name), ("body", a.toJson)])]
  | .span op a b =>
    .object [("BinaryTemporal",
      .object [("op", .string op.name), ("left", a.toJson), ("right", b.toJson)])]

def ofJson? (json : Json) : Option Formula :=
  match json with
  | .object [("Predicate", body)] => do
    let name ← (← body.part? "name").string?
    let args ← (← body.part? "args").list? Term.ofJson?
    return .pred name args
  | .object [("Not", body)] => (ofJson? body).map .not
  | .object [("Binary", body)] => do
    let op ← Connective.ofJson? (← body.part? "op")
    match _hl : body.part? "left", _hr : body.part? "right" with
    | some left, some right => return .binary op (← ofJson? left) (← ofJson? right)
    | _, _ => none
  | .object [("Quantified", body)] => do
    let q ← Quantifier.ofJson? (← body.part? "quantifier")
    let x ← (← body.part? "variable").string?
    match _h : body.part? "body" with
    | some inner => return .quant q x (← ofJson? inner)
    | none => none
  | .object [("Deontic", body)] => do
    let op ← Norm.ofJson? (← body.part? "op")
    match _h : body.part? "body" with
    | some inner => return .deontic op (← ofJson? inner)
    | none => none
  | .object [("Temporal", body)] => do
    let op ← Tense.ofJson? (← body.part? "op")
    match _h : body.part? "body" with
    | some inner => return .tense op (← ofJson? inner)
    | none => none
  | .object [("BinaryTemporal", body)] => do
    let op ← Span.ofJson? (← body.part? "op")
    match _hl : body.part? "left", _hr : body.part? "right" with
    | some left, some right => return .span op (← ofJson? left) (← ofJson? right)
    | _, _ => none
  | _ => none
termination_by sizeOf json
decreasing_by
  all_goals simp only [Json.object.sizeOf_spec, List.cons.sizeOf_spec, Prod.mk.sizeOf_spec]
  · omega
  · have := Json.sizeOf_part?_lt _hl
    omega
  · have := Json.sizeOf_part?_lt _hr
    omega
  · have := Json.sizeOf_part?_lt _h
    omega
  · have := Json.sizeOf_part?_lt _h
    omega
  · have := Json.sizeOf_part?_lt _h
    omega
  · have := Json.sizeOf_part?_lt _hl
    omega
  · have := Json.sizeOf_part?_lt _hr
    omega

end Formula

end Deontica
