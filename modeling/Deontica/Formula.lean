import Deontica.SortedSet
import Deontica.Term

/-!
# Formulas

First-order formulas with deontic operators (it is obligatory, permitted, forbidden that) and
temporal ones (always, eventually, next, until, since).  A formula is a plain tree: two formulas
are equal exactly when they are built alike, so neither `A ∧ B` and `B ∧ A` nor `¬¬A` and `A` are
identified.

The measures and listings are all defined by recursion on the tree.
-/

namespace Deontica

/-- A binary connective of propositional logic. -/
inductive Connective where
  | and
  | or
  | implies
  | iff
  | xor
  deriving Repr, DecidableEq, Inhabited

/-- A quantifier. -/
inductive Quantifier where
  | all
  | exists
  deriving Repr, DecidableEq, Inhabited

/-- A deontic operator. -/
inductive Norm where
  | obligatory
  | permitted
  | forbidden
  deriving Repr, DecidableEq, Inhabited

/-- A temporal operator on one formula. -/
inductive Tense where
  /-- At every accessible point. -/
  | always
  /-- At some accessible point. -/
  | eventually
  /-- At the next point. -/
  | next
  deriving Repr, DecidableEq, Inhabited

/-- A temporal operator on two formulas. -/
inductive Span where
  | until
  | since
  deriving Repr, DecidableEq, Inhabited

/-- A formula. -/
inductive Formula where
  /-- A predicate symbol with its arguments; a propositional letter has none. -/
  | pred (name : String) (args : List Term)
  | not (body : Formula)
  | binary (op : Connective) (left right : Formula)
  | quant (quantifier : Quantifier) (bound : String) (body : Formula)
  | deontic (op : Norm) (body : Formula)
  | tense (op : Tense) (body : Formula)
  | span (op : Span) (left right : Formula)
  deriving Repr, DecidableEq, Inhabited

/-! ### Shorthands -/

/-- A propositional letter. -/
@[match_pattern] abbrev Formula.atom (name : String) : Formula := .pred name []

@[match_pattern] abbrev Formula.and (left right : Formula) : Formula := .binary .and left right

@[match_pattern] abbrev Formula.or (left right : Formula) : Formula := .binary .or left right

@[match_pattern] abbrev Formula.implies (left right : Formula) : Formula :=
  .binary .implies left right

@[match_pattern] abbrev Formula.iff (left right : Formula) : Formula := .binary .iff left right

@[match_pattern] abbrev Formula.xor (left right : Formula) : Formula := .binary .xor left right

@[match_pattern] abbrev Formula.all (x : String) (body : Formula) : Formula := .quant .all x body

@[match_pattern] abbrev Formula.exists (x : String) (body : Formula) : Formula :=
  .quant .exists x body

@[match_pattern] abbrev Formula.obligatory (body : Formula) : Formula := .deontic .obligatory body

@[match_pattern] abbrev Formula.permitted (body : Formula) : Formula := .deontic .permitted body

@[match_pattern] abbrev Formula.forbidden (body : Formula) : Formula := .deontic .forbidden body

@[match_pattern] abbrev Formula.always (body : Formula) : Formula := .tense .always body

@[match_pattern] abbrev Formula.eventually (body : Formula) : Formula := .tense .eventually body

@[match_pattern] abbrev Formula.next (body : Formula) : Formula := .tense .next body

@[match_pattern] abbrev Formula.until (left right : Formula) : Formula := .span .until left right

@[match_pattern] abbrev Formula.since (left right : Formula) : Formula := .span .since left right

namespace Formula

/-! ### Listings -/

/-- The formulas directly below the root, from left to right. -/
def children : Formula → List Formula
  | .pred _ _ => []
  | .not body | .quant _ _ body | .deontic _ body | .tense _ body => [body]
  | .binary _ left right | .span _ left right => [left, right]

/-- All subformulas, the formula itself first, then those of its children from left to right. -/
def subformulas : Formula → List Formula
  | .pred p args => [.pred p args]
  | .not a => .not a :: a.subformulas
  | .binary op a b => .binary op a b :: (a.subformulas ++ b.subformulas)
  | .quant q x a => .quant q x a :: a.subformulas
  | .deontic op a => .deontic op a :: a.subformulas
  | .tense op a => .tense op a :: a.subformulas
  | .span op a b => .span op a b :: (a.subformulas ++ b.subformulas)

/-- The names of the constants, one for each occurrence, from left to right. -/
def constantOccurrences : Formula → List String
  | .pred _ args => Term.constantsArgs args
  | .not a | .quant _ _ a | .deontic _ a | .tense _ a => a.constantOccurrences
  | .binary _ a b | .span _ a b => a.constantOccurrences ++ b.constantOccurrences

/-- The names of the constants that occur, sorted. -/
def constants (f : Formula) : List String :=
  SortedSet.ofList f.constantOccurrences

/-! ### Measures -/

/-- The greatest number of nodes on a path from the root; an atom has depth one. -/
def depth : Formula → Nat
  | .pred _ _ => 1
  | .not a | .quant _ _ a | .deontic _ a | .tense _ a => a.depth + 1
  | .binary _ a b | .span _ a b => max a.depth b.depth + 1

/-- The number of nodes. -/
def size : Formula → Nat
  | .pred _ _ => 1
  | .not a | .quant _ _ a | .deontic _ a | .tense _ a => a.size + 1
  | .binary _ a b | .span _ a b => a.size + b.size + 1

/-- The greatest number of temporal operators on a path from the root. -/
def temporalNesting : Formula → Nat
  | .pred _ _ => 0
  | .not a | .quant _ _ a | .deontic _ a => a.temporalNesting
  | .binary _ a b => max a.temporalNesting b.temporalNesting
  | .tense _ a => a.temporalNesting + 1
  | .span _ a b => max a.temporalNesting b.temporalNesting + 1

/-! ### Which operators occur -/

/-- Whether the formula is a predicate. -/
def isAtomic : Formula → Bool
  | .pred _ _ => true
  | _ => false

/-- Whether the root is a temporal operator. -/
def isTemporal : Formula → Bool
  | .tense _ _ | .span _ _ _ => true
  | _ => false

/-- Whether a deontic operator occurs. -/
def hasDeontic : Formula → Bool
  | .pred _ _ => false
  | .deontic _ _ => true
  | .not a | .quant _ _ a | .tense _ a => a.hasDeontic
  | .binary _ a b | .span _ a b => a.hasDeontic || b.hasDeontic

/-- Whether a temporal operator occurs. -/
def hasTemporal : Formula → Bool
  | .pred _ _ => false
  | .tense _ _ | .span _ _ _ => true
  | .not a | .quant _ _ a | .deontic _ a => a.hasTemporal
  | .binary _ a b => a.hasTemporal || b.hasTemporal

/-- Whether a quantifier occurs. -/
def hasQuantifier : Formula → Bool
  | .pred _ _ => false
  | .quant _ _ _ => true
  | .not a | .deontic _ a | .tense _ a => a.hasQuantifier
  | .binary _ a b | .span _ a b => a.hasQuantifier || b.hasQuantifier

/-! ### Operations -/

/-- The opposite of a formula: a leading negation is taken away, otherwise one is put in front. -/
def negation : Formula → Formula
  | .not a => a
  | a => .not a

/-- Puts `replacement` for the variable `x` wherever `x` is not bound again.  A quantifier over
another variable is passed even if that variable occurs in the replacement. -/
def substitute (f : Formula) (x : String) (replacement : Term) : Formula :=
  match f with
  | .pred p args => .pred p (Term.substituteArgs args x replacement)
  | .not a => .not (a.substitute x replacement)
  | .binary op a b => .binary op (a.substitute x replacement) (b.substitute x replacement)
  | .quant q y a => if y = x then .quant q y a else .quant q y (a.substitute x replacement)
  | .deontic op a => .deontic op (a.substitute x replacement)
  | .tense op a => .tense op (a.substitute x replacement)
  | .span op a b => .span op (a.substitute x replacement) (b.substitute x replacement)

end Formula

end Deontica
