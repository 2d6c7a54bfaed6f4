import Deontica.Formula.Parser

/-!
# The rungs of the ladder

What is read at each rung, as an equation between readers.  A rung opens a level by `enter`, which
is refused when there is no room; what it reads below is the next rung, with the same room.
-/

namespace Deontica.Source

variable (s : Source) (room : Nat) (bound : List String) (tokens : List Located)

/-- Opens a level and reads at a rung, if there is room. -/
def enter (rung : Rung) : (room : Nat) → List String → Reader Formula
  | 0, _, tokens => s.tooDeep tokens
  | room + 1, bound, tokens => s.read room rung bound tokens

/-- The readers for which one level less is left. -/
def level : Level := ⟨s.read room, fun bound => s.term bound room⟩

/-- Reads formulas joined by conjunctions. -/
def conjunction : Reader Formula :=
  s.leftGrouped .and .and (s.read room .span bound)

/-- Reads formulas joined by exclusive disjunctions. -/
def parity : Reader Formula :=
  s.leftGrouped .xor .xor (s.conjunction room bound)

/-- Reads formulas joined by disjunctions. -/
def disjunction : Reader Formula :=
  s.leftGrouped .or .or (s.parity room bound)

/-- What follows the left operand of a span. -/
def spanTail (left : Formula) : Reader Formula
  | [] => .ok (left, [])
  | t :: more =>
    match spanOp t.token with
    | none => .ok (left, t :: more)
    | some op => do
      let (right, rest) ← s.enter .span room bound more
      return (.span op left right, rest)

theorem read_span :
    s.read room .span bound tokens = (do
      let (left, rest) ← s.read room .unary bound tokens
      s.spanTail room bound left rest) := by
  have h : s.read room .span bound tokens = (do
      let (left, rest) ← s.read room .unary bound tokens
      match rest with
      | [] => return (left, [])
      | t :: more =>
        match spanOp t.token with
        | none => return (left, rest)
        | some op =>
          let (right, rest) ← s.enter .span room bound more
          return (.span op left right, rest)) := by
    cases room <;> rfl
  rw [h]
  refine congrArg _ (funext fun ⟨left, rest⟩ => ?_)
  cases rest with
  | nil => rfl
  | cons t more =>
    dsimp only [spanTail]
    cases spanOp t.token <;> rfl

/-- What follows the left operand of an implication. -/
def impliesTail (left : Formula) : Reader Formula
  | ⟨.implies, _⟩ :: more => do
    let (right, rest) ← s.enter .implication room bound more
    return (.implies left right, rest)
  | rest => .ok (left, rest)

theorem read_implication :
    s.read room .implication bound tokens = (do
      let (left, rest) ← s.disjunction room bound tokens
      s.impliesTail room bound left rest) := by
  have h : s.read room .implication bound tokens = (do
      let (left, rest) ← s.disjunction room bound tokens
      match rest with
      | ⟨.implies, _⟩ :: more =>
        let (right, rest) ← s.enter .implication room bound more
        return (.implies left right, rest)
      | _ => return (left, rest)) := by
    cases room <;> rfl
  rw [h]
  refine congrArg _ (funext fun ⟨left, rest⟩ => ?_)
  dsimp only [impliesTail]
  split <;> rfl

theorem read_formula :
    s.read room .formula bound tokens =
      s.leftGrouped .iff .iff (s.enter .implication room bound) tokens := by
  cases room <;> rfl

end Deontica.Source
