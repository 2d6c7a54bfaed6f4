import Deontica.Token

/-!
# Why a text is no formula

A text fails to be read for one of three reasons: a character that no token starts with, nesting
beyond the reader's limit, or a token in the wrong place.  Each error carries the byte offset at
which it was noticed.
-/

namespace Deontica

/-- What is wrong about the token at some place.  `none` stands for the end of the text. -/
inductive Complaint where
  /-- There is no token at all. -/
  | empty
  /-- A formula or the end of the text should stand here. -/
  | unexpected (found : Option Token)
  | expected (wanted : Token) (found : Option Token)
  | expectedVariable (found : Option Token)
  | expectedTerm (found : Option Token)
  /-- An argument is followed by neither a comma nor a closing parenthesis. -/
  | expectedSeparator (found : Option Token)
  deriving Repr, DecidableEq, Inhabited

/-- How a message refers to what was found. -/
def describeFound : Option Token → String
  | some t => t.describe
  | none => "end of input"

/-- The wording of a complaint. -/
def Complaint.message : Complaint → String
  | .empty => "empty formula"
  | .unexpected found => "unexpected " ++ describeFound found
  | .expected wanted found => "expected " ++ wanted.describe ++ ", found " ++ describeFound found
  | .expectedVariable found => "expected bound variable, found " ++ describeFound found
  | .expectedTerm found => "expected term, found " ++ describeFound found
  | .expectedSeparator (some t) =>
    "expected ',' or ')' in argument list, found " ++ t.describe
  | .expectedSeparator none => "unterminated argument list"

/-- Why a text could not be read. -/
inductive ParseError where
  | malformed (offset : Nat) (complaint : Complaint)
  | tooDeep (limit : Nat) (offset : Nat)
  | unknownOperator (symbol : Char) (offset : Nat)
  deriving Repr, DecidableEq, Inhabited

namespace ParseError

/-- The byte offset at which the error was noticed. -/
def offset : ParseError → Nat
  | .malformed offset _ => offset
  | .tooDeep _ offset => offset
  | .unknownOperator _ offset => offset

/-- The wording of an error. -/
def message : ParseError → String
  | .malformed offset complaint =>
    "syntax error at offset " ++ toString offset ++ ": " ++ complaint.message
  | .tooDeep limit offset =>
    "maximum nesting depth " ++ toString limit ++ " exceeded at offset " ++ toString offset
  | .unknownOperator symbol offset =>
    "unknown operator '" ++ symbol.toString ++ "' at offset " ++ toString offset

end ParseError

end Deontica
