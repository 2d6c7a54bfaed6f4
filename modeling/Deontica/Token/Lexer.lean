import Deontica.ParseError
import Deontica.Text.Alphanumeric
import Deontica.Text.Blank

/-!
# Reading tokens

White space separates tokens and is dropped.  At any other character a token starts, and that
character together with at most what follows it decides which: the scanner reads the longest
token it can.  Offsets count bytes of the UTF-8 encoding.
-/

namespace Deontica.Token

/-- Whether `c` may stand in a name. -/
def isNameChar (c : Char) : Bool :=
  Text.isAlphanumeric c || c == '_' || c == '\''

/-- The token that starts with `c`, and how many of the characters after `c` belong to it. -/
def start (c : Char) (cs : List Char) : Option (Token × Nat) :=
  match c with
  | '¬' | '!' | '~' => some (.not, 0)
  | '∧' => some (.and, 0)
  | '&' => some (.and, if cs.head? = some '&' then 1 else 0)
  | '∨' => some (.or, 0)
  | '|' => some (.or, if cs.head? = some '|' then 1 else 0)
  | '→' | '⇒' => some (.implies, 0)
  | '↔' | '⇔' => some (.iff, 0)
  | '⊕' | '^' => some (.xor, 0)
  | '∀' => some (.all, 0)
  | '∃' => some (.exists, 0)
  | '□' => some (.always, 0)
  | '◊' | '◇' => some (.eventually, 0)
  | '(' => some (.open, 0)
  | ')' => some (.close, 0)
  | ',' => some (.comma, 0)
  | '.' => some (.point, 0)
  | ':' => some (.colon, 0)
  | '-' | '=' => if cs.head? = some '>' then some (.implies, 1) else none
  | '<' =>
    match cs with
    | '-' :: '>' :: _ | '=' :: '>' :: _ => some (.iff, 2)
    | _ => none
  | c =>
    if isNameChar c then
      let more := cs.takeWhile isNameChar
      some (ofWord (String.ofList (c :: more)), more.length)
    else none

/-- The tokens of a text that starts at byte `offset`, when its first `skip` characters belong to
the token before. -/
def scan : (skip offset : Nat) → List Char → Except ParseError (List Located)
  | _, _, [] => .ok []
  | skip + 1, offset, c :: cs => scan skip (offset + c.utf8Size) cs
  | 0, offset, c :: cs =>
    if Text.isBlank c then scan 0 (offset + c.utf8Size) cs
    else
      match start c cs with
      | none => .error (.unknownOperator c offset)
      | some (token, more) => do
        let rest ← scan more (offset + c.utf8Size) cs
        return ⟨token, offset⟩ :: rest

/-- The tokens of a text. -/
def tokenize (text : String) : Except ParseError (List Located) :=
  scan 0 0 text.toList

end Deontica.Token
