import Deontica.Formula

/-!
# Canonical text

Every formula has one canonical text.  Operators are written as symbols, and every binary or
quantified formula stands in parentheses, except where its parentheses would double those of an
operator such as `O(…)` or follow the point of a quantifier.  The text depends on the formula alone,
and for formulas over ordinary names it reads back to the formula it came from.
-/

namespace Deontica

def Connective.symbol : Connective → String
  | .and => "∧"
  | .or => "∨"
  | .implies => "→"
  | .iff => "↔"
  | .xor => "⊕"

def Quantifier.symbol : Quantifier → String
  | .all => "∀"
  | .exists => "∃"

def Norm.letter : Norm → String
  | .obligatory => "O"
  | .permitted => "P"
  | .forbidden => "F"

def Span.letter : Span → String
  | .until => "U"
  | .since => "S"

namespace Formula

/-- Puts the parentheses that `f` needs as an operand around its text. -/
def enclose (f : Formula) (text : String) : String :=
  match f with
  | .binary _ _ _ | .quant _ _ _ | .span _ _ _ => "(" ++ text ++ ")"
  | _ => text

/-- The text of a formula without parentheses of its own. -/
def bare : Formula → String
  | .pred p [] => p
  | .pred p (t :: ts) => p ++ "(" ++ Term.renderArgs (t :: ts) ++ ")"
  | .not a => "¬" ++ a.enclose a.bare
  | .binary op a b => a.enclose a.bare ++ " " ++ op.symbol ++ " " ++ b.enclose b.bare
  | .quant q x a => q.symbol ++ x ++ ". " ++ a.bare
  | .deontic op a => op.letter ++ "(" ++ a.bare ++ ")"
  | .tense .always a => "□" ++ a.enclose a.bare
  | .tense .eventually a => "◊" ++ a.enclose a.bare
  | .tense .next a => "X(" ++ a.bare ++ ")"
  | .span op a b => a.enclose a.bare ++ " " ++ op.letter ++ " " ++ b.enclose b.bare

/-- The canonical text of a formula. -/
def render (f : Formula) : String :=
  f.enclose f.bare

instance : ToString Formula := ⟨render⟩

end Formula

end Deontica
