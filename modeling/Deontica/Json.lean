/-!
# JSON values

The data format in which formulas, configurations and results are stored.  A value keeps what its
text says and a reader may care about: the order and repetition of members, and how a number was
written.  Numbers in plain digits are told apart from all others because only they are accepted as
counts; `1.0`, `1e2` and `-0` are not.
-/

namespace Deontica

/-- A JSON value. -/
inductive Json where
  | null
  | bool (value : Bool)
  /-- A number written in plain digits. -/
  | natural (value : Nat)
  /-- Any other number, with a sign, a fraction or an exponent, as it was written. -/
  | number (literal : String)
  | string (value : String)
  | array (items : List Json)
  | object (members : List (String × Json))
  /-- A string, or an object with a key, in which an escape names no character.  It is well formed,
  but has no contents. -/
  | garbled
  deriving Repr, Inhabited

namespace Json

/-! ### Text -/

/-- The hexadecimal digit of a number below sixteen. -/
def hexDigit (n : Nat) : Char :=
  if n < 10 then Char.ofNat (48 + n) else Char.ofNat (87 + n)

/-- A character as it stands in a string: quotes, backslashes and control characters are escaped. -/
def escapeChar (c : Char) : List Char :=
  if c = '"' then ['\\', '"']
  else if c = '\\' then ['\\', '\\']
  else if c.toNat < 32 then
    ['\\', 'u', '0', '0', hexDigit (c.toNat / 16), hexDigit (c.toNat % 16)]
  else [c]

/-- A string in quotes. -/
def quote (s : String) : String :=
  "\"" ++ String.ofList (s.toList.flatMap escapeChar) ++ "\""

mutual

/-- The text of a value, without white space. -/
def render : Json → String
  | .null => "null"
  | .bool true => "true"
  | .bool false => "false"
  | .natural n => toString n
  | .number literal => literal
  | .string s => quote s
  | .array items => "[" ++ renderItems items ++ "]"
  | .object members => "\x7b" ++ renderMembers members ++ "\x7d"
  | .garbled => "null"

/-- The texts of the items of an array, with commas between them. -/
def renderItems : List Json → String
  | [] => ""
  | [item] => item.render
  | item :: items => item.render ++ "," ++ renderItems items

/-- The texts of the members of an object, with commas between them. -/
def renderMembers : List (String × Json) → String
  | [] => ""
  | [(key, value)] => quote key ++ ":" ++ value.render
  | (key, value) :: members => quote key ++ ":" ++ value.render ++ "," ++ renderMembers members

end

/-! ### Repeated keys -/

mutual

/-- Keeps only the last member of each key, in every object of a value. -/
def lastWins : Json → Json
  | .array items => .array (lastWinsItems items)
  | .object members => .object (lastWinsMembers members)
  | value => value

/-- Settles repeated keys in every item. -/
def lastWinsItems : List Json → List Json
  | [] => []
  | item :: items => item.lastWins :: lastWinsItems items

/-- Settles repeated keys in every member and drops the members that a later one repeats. -/
def lastWinsMembers : List (String × Json) → List (String × Json)
  | [] => []
  | (key, value) :: members =>
    if members.any (·.1 == key) then lastWinsMembers members
    else (key, value.lastWins) :: lastWinsMembers members

end

/-! ### Building -/

/-- An array of strings. -/
def strings (ss : List String) : Json :=
  .array (ss.map .string)

/-- The value, or null. -/
def orNull {α : Type} (encode : α → Json) : Option α → Json
  | some a => encode a
  | none => .null

end Json

end Deontica
