import Deontica.Formula

/-!
# The order of formulas

Formulas are ordered by the operator at the root, then by what stands below it from left to right.
Names compare code point by code point and argument lists lexicographically.  The place of an
operator in the order is its `rank`; the same numbers tag operators in the byte stream of a cache
key.
-/

namespace Deontica

def Connective.rank : Connective → Nat
  | .and => 0
  | .or => 1
  | .implies => 2
  | .iff => 3
  | .xor => 4

def Quantifier.rank : Quantifier → Nat
  | .all => 0
  | .exists => 1

def Norm.rank : Norm → Nat
  | .obligatory => 0
  | .permitted => 1
  | .forbidden => 2

def Tense.rank : Tense → Nat
  | .always => 0
  | .eventually => 1
  | .next => 2

def Span.rank : Span → Nat
  | .until => 0
  | .since => 1

namespace Formula

/-- The place of a formula's kind in the order of formulas. -/
def rank : Formula → Nat
  | .pred _ _ => 0
  | .not _ => 1
  | .binary _ _ _ => 2
  | .quant _ _ _ => 3
  | .deontic _ _ => 4
  | .tense _ _ => 5
  | .span _ _ _ => 6

/-- Formulas are ordered by kind, then by operator, then by what stands below. -/
def order : Formula → Formula → Ordering
  | .pred p as, .pred q bs => (compare p q).then (Term.orderArgs as bs)
  | .not a, .not b => order a b
  | .binary op a b, .binary op' a' b' =>
    (compare op.rank op'.rank).then ((order a a').then (order b b'))
  | .quant q x a, .quant q' y b =>
    (compare q.rank q'.rank).then ((compare x y).then (order a b))
  | .deontic op a, .deontic op' b => (compare op.rank op'.rank).then (order a b)
  | .tense op a, .tense op' b => (compare op.rank op'.rank).then (order a b)
  | .span op a b, .span op' a' b' =>
    (compare op.rank op'.rank).then ((order a a').then (order b b'))
  | f, g => compare f.rank g.rank

instance : Ord Formula := ⟨order⟩

end Formula

end Deontica
