/-!
# Tokens

The words of the formula language.  A token forgets how it was spelt: `∧`, `&` and `&&` are one
token.  The letters `O`, `P`, `F`, `X`, `U` and `S` are ordinary names here; the grammar gives them
their meaning by position.
-/

namespace Deontica

/-- A token. -/
inductive Token where
  | not
  | and
  | or
  | implies
  | iff
  | xor
  | all
  | exists
  | always
  | eventually
  | next
  | until
  | since
  | name (text : String)
  | open
  | close
  | comma
  | point
  | colon
  deriving Repr, DecidableEq, Inhabited

namespace Token

/-- How an error message refers to a token. -/
def describe : Token → String
  | .not => "Not"
  | .and => "And"
  | .or => "Or"
  | .implies => "Implies"
  | .iff => "Iff"
  | .xor => "Xor"
  | .all => "Forall"
  | .exists => "Exists"
  | .always => "Always"
  | .eventually => "Eventually"
  | .next => "Next"
  | .until => "Until"
  | .since => "Since"
  | .name text => "identifier '" ++ text ++ "'"
  | .open => "LParen"
  | .close => "RParen"
  | .comma => "Comma"
  | .point => "Dot"
  | .colon => "Colon"

/-- The words that are no names. -/
def keywords : List (String × Token) :=
  [("forall", .all), ("exists", .exists), ("always", .always), ("eventually", .eventually),
    ("next", .next), ("until", .until), ("since", .since), ("xor", .xor)]

/-- The token of a word: a keyword's own, otherwise a name. -/
def ofWord (word : String) : Token :=
  (keywords.lookup word).getD (.name word)

end Token

/-- A token with the byte offset at which it starts. -/
structure Located where
  token : Token
  offset : Nat
  deriving Repr, DecidableEq, Inhabited

end Deontica
