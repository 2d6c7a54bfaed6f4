import Deontica.Formula

/-!
# Modal logics

A normal modal logic is known by what it asks of accessibility.  Deontic and temporal operators use
two relations on worlds, and both have to meet the conditions of the logic in use.

A logic is needed only when a deontic or temporal operator occurs.  Unless one is prescribed it is
chosen by a short table: deontic operators call for `D`, temporal ones for `S4`.
-/

namespace Deontica

/-- A normal modal logic. -/
inductive Logic where
  /-- Any relation. -/
  | K
  /-- Reflexive relations. -/
  | T
  /-- Reflexive and transitive relations. -/
  | S4
  /-- Equivalence relations. -/
  | S5
  /-- Relations in which every world has a successor. -/
  | D
  deriving Repr, DecidableEq, Inhabited

/-- A condition on an accessibility relation. -/
inductive FrameCondition where
  | reflexive
  | transitive
  | symmetric
  | serial
  deriving Repr, DecidableEq, Inhabited

namespace Logic

def name : Logic → String
  | .K => "K"
  | .T => "T"
  | .S4 => "S4"
  | .S5 => "S5"
  | .D => "D"

/-- All logics. -/
def every : List Logic := [.K, .T, .S4, .S5, .D]

def isReflexive : Logic → Bool
  | .T | .S4 | .S5 => true
  | _ => false

def isTransitive : Logic → Bool
  | .S4 | .S5 => true
  | _ => false

def isSymmetric : Logic → Bool
  | .S5 => true
  | _ => false

/-- Whether every world has a successor; a reflexive relation is serial at once. -/
def isSerial (l : Logic) : Bool :=
  l == .D || l.isReflexive

/-- Whether the logic asks for the condition. -/
def meets (l : Logic) : FrameCondition → Bool
  | .reflexive => l.isReflexive
  | .transitive => l.isTransitive
  | .symmetric => l.isSymmetric
  | .serial => l.isSerial

/-! ### Names in any case -/

/-- The capital of a letter that can occur in the name of a logic.  Beyond ASCII only the long s has
a capital among those letters. -/
def capital (c : Char) : Char :=
  if c.toNat = 0x017F then 'S' else c.toUpper

/-- The logic of a name, in capitals or not. -/
def ofText? (text : String) : Option Logic :=
  every.find? fun l => l.name.toList == text.toList.map capital

/-- What to say of a name that no logic has. -/
def unknownMessage (text : String) : String :=
  "Unknown modal logic: " ++ text

/-! ### Choosing a logic -/

/-- Why a logic was chosen. -/
inductive Grounds where
  | prescribed
  | deontic
  | nestedTemporal
  | temporal
  | plain
  deriving Repr, DecidableEq, Inhabited

def Grounds.message : Grounds → String
  | .prescribed => "configured override"
  | .deontic => "deontic operator present"
  | .nestedTemporal => "nested temporal operators"
  | .temporal => "temporal operator present"
  | .plain => "plain modal wrapper"

/-- Whether a deontic or temporal operator occurs in one of the formulas. -/
def isNeeded (problem : List Formula) : Bool :=
  problem.any fun f => f.hasDeontic || f.hasTemporal

/-- The logic for a problem, and why it was chosen. -/
def select (prescribed : Option Logic) (problem : List Formula) : Logic × Grounds :=
  match prescribed with
  | some l => (l, .prescribed)
  | none =>
    if problem.any (·.hasDeontic) then (.D, .deontic)
    else if problem.any (2 ≤ ·.temporalNesting) then (.S4, .nestedTemporal)
    else if problem.any (·.hasTemporal) then (.S4, .temporal)
    else (.K, .plain)

end Logic

end Deontica
