import Deontica.Formula

/-!
# Patterns

A pattern is the shape of a formula with holes.  A hole matches any formula, and holes of one name
match equal formulas only.  Matching is purely syntactic: `A ∧ ¬B` does not match `¬Q ∧ P`.

What the holes stand for is a list of bindings.  Matching extends the bindings it is given, and
instantiating a pattern with bindings puts the formulas back.
-/

namespace Deontica

/-- The shape of a formula with named holes. -/
inductive Pattern where
  | hole (name : String)
  | not (body : Pattern)
  | binary (op : Connective) (left right : Pattern)
  | deontic (op : Norm) (body : Pattern)
  | tense (op : Tense) (body : Pattern)
  | span (op : Span) (left right : Pattern)
  deriving Repr, DecidableEq, Inhabited

/-- What the holes of a pattern stand for; a name is bound at most once. -/
abbrev Bindings : Type := List (String × Formula)

namespace Pattern

/-! ### Shorthands -/

abbrev and (left right : Pattern) : Pattern := .binary .and left right

abbrev or (left right : Pattern) : Pattern := .binary .or left right

abbrev implies (left right : Pattern) : Pattern := .binary .implies left right

abbrev iff (left right : Pattern) : Pattern := .binary .iff left right

abbrev xor (left right : Pattern) : Pattern := .binary .xor left right

abbrev obligatory (body : Pattern) : Pattern := .deontic .obligatory body

abbrev permitted (body : Pattern) : Pattern := .deontic .permitted body

abbrev forbidden (body : Pattern) : Pattern := .deontic .forbidden body

abbrev always (body : Pattern) : Pattern := .tense .always body

abbrev eventually (body : Pattern) : Pattern := .tense .eventually body

/-! ### Matching -/

/-- Extends the bindings so that the pattern becomes the formula, if that can be done. -/
def matchWith : Pattern → Formula → Bindings → Option Bindings
  | .hole x, f, bindings =>
    match bindings.lookup x with
    | some g => if g = f then some bindings else none
    | none => some ((x, f) :: bindings)
  | .not p, .not a, bindings => p.matchWith a bindings
  | .binary op p q, .binary op' a b, bindings =>
    if op = op' then (p.matchWith a bindings).bind (q.matchWith b) else none
  | .deontic op p, .deontic op' a, bindings =>
    if op = op' then p.matchWith a bindings else none
  | .tense op p, .tense op' a, bindings =>
    if op = op' then p.matchWith a bindings else none
  | .span op p q, .span op' a b, bindings =>
    if op = op' then (p.matchWith a bindings).bind (q.matchWith b) else none
  | _, _, _ => none

/-- Matches in place: whether the pattern becomes the formula, with the bindings as they are then.
Bindings made before a mismatch is met stay there, so a caller who goes on after one keeps a copy of
those it had. -/
def matchInPlace : Pattern → Formula → Bindings → Bool × Bindings
  | .hole x, f, bindings =>
    match bindings.lookup x with
    | some g => (g == f, bindings)
    | none => (true, (x, f) :: bindings)
  | .not p, .not a, bindings => p.matchInPlace a bindings
  | .binary op p q, .binary op' a b, bindings =>
    if op = op' then
      let left := p.matchInPlace a bindings
      if left.1 then q.matchInPlace b left.2 else left
    else (false, bindings)
  | .deontic op p, .deontic op' a, bindings =>
    if op = op' then p.matchInPlace a bindings else (false, bindings)
  | .tense op p, .tense op' a, bindings =>
    if op = op' then p.matchInPlace a bindings else (false, bindings)
  | .span op p q, .span op' a b, bindings =>
    if op = op' then
      let left := p.matchInPlace a bindings
      if left.1 then q.matchInPlace b left.2 else left
    else (false, bindings)
  | _, _, bindings => (false, bindings)

/-- Matches patterns with formulas one after the other, each under the bindings so far, and says
which of them matched.  One that does not match leaves the bindings as they are. -/
def matchEach : List (Pattern × Formula) → Bindings → List Bool × Bindings
  | [], bindings => ([], bindings)
  | (p, f) :: pairs, bindings =>
    match p.matchWith f bindings with
    | some extended =>
      let (matched, bindings) := matchEach pairs extended
      (true :: matched, bindings)
    | none =>
      let (matched, bindings) := matchEach pairs bindings
      (false :: matched, bindings)

/-- The formula that the pattern becomes under the bindings, or `none` when a hole is unbound. -/
def instantiate : Pattern → Bindings → Option Formula
  | .hole x, bindings => bindings.lookup x
  | .not p, bindings => (p.instantiate bindings).map .not
  | .binary op p q, bindings => do
    return .binary op (← p.instantiate bindings) (← q.instantiate bindings)
  | .deontic op p, bindings => (p.instantiate bindings).map (.deontic op)
  | .tense op p, bindings => (p.instantiate bindings).map (.tense op)
  | .span op p q, bindings => do
    return .span op (← p.instantiate bindings) (← q.instantiate bindings)

end Pattern

end Deontica
