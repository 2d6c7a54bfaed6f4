import Deontica.Json

/-!
# Reading JSON

A strict reader: no comments, no trailing commas, no leading zeros, no bare control characters in
strings, and nothing but white space after the value.  Nesting is bounded only by the length of the
text, which is also what the recursion counts down.
-/

namespace Deontica.Json

/-- A reader takes an `α` off the front of a text and gives it with the text left over. -/
abbrev TextReader (α : Type) : Type := List Char → Option (α × List Char)

/-- Drops leading white space. -/
def skipBlanks (cs : List Char) : List Char :=
  cs.dropWhile fun c => c == ' ' || c == '\n' || c == '\r' || c == '\t'

/-- Takes the text `word` off the front. -/
def dropWord : (word : List Char) → List Char → Option (List Char)
  | [], cs => some cs
  | w :: word, c :: cs => if w = c then dropWord word cs else none
  | _ :: _, [] => none

/-! ### Numbers -/

/-- Takes a non-empty run of digits. -/
def digits : TextReader (List Char) := fun cs =>
  let run := cs.takeWhile Char.isDigit
  if run.isEmpty then none else some (run, cs.dropWhile Char.isDigit)

/-- Takes a point with digits after it, or nothing. -/
def fraction : TextReader (List Char)
  | '.' :: cs => do
    let (run, rest) ← digits cs
    return ('.' :: run, rest)
  | cs => some ([], cs)

/-- Takes an exponent, or nothing. -/
def exponent : TextReader (List Char)
  | e :: cs =>
    if e = 'e' || e = 'E' then
      match cs with
      | '+' :: more => do
        let (run, rest) ← digits more
        return (e :: '+' :: run, rest)
      | '-' :: more => do
        let (run, rest) ← digits more
        return (e :: '-' :: run, rest)
      | _ => do
        let (run, rest) ← digits cs
        return (e :: run, rest)
    else some ([], e :: cs)
  | [] => some ([], [])

/-- The value of a run of decimal digits. -/
def digitsValue (run : List Char) : Nat :=
  run.foldl (fun n c => 10 * n + (c.toNat - 48)) 0

/-- Takes a number that does not start with a sign, and says whether it has only digits. -/
def unsigned : TextReader (List Char × Bool) := fun cs => do
  let (whole, rest) ← digits cs
  if whole.length > 1 && whole.head? == some '0' then none
  else
    let (part, rest) ← fraction rest
    let (power, rest) ← exponent rest
    return ((whole ++ part ++ power, part.isEmpty && power.isEmpty), rest)

/-- Takes a number. -/
def readNumber : TextReader Json
  | '-' :: cs => do
    let ((literal, _), rest) ← unsigned cs
    return (.number (String.ofList ('-' :: literal)), rest)
  | cs => do
    let ((literal, plain), rest) ← unsigned cs
    return (if plain then .natural (digitsValue literal) else .number (String.ofList literal), rest)

/-! ### Strings -/

/-- The value of a hexadecimal digit. -/
def hexValue (c : Char) : Option Nat :=
  if c.isDigit then some (c.toNat - 48)
  else if 'a' ≤ c && c ≤ 'f' then some (c.toNat - 87)
  else if 'A' ≤ c && c ≤ 'F' then some (c.toNat - 55)
  else none

/-- Takes four hexadecimal digits. -/
def hexQuad : TextReader Nat
  | a :: b :: c :: d :: rest => do
    let a ← hexValue a
    let b ← hexValue b
    let c ← hexValue c
    let d ← hexValue d
    return (((a * 16 + b) * 16 + c) * 16 + d, rest)
  | _ => none

/-- The character that a single letter stands for after a backslash. -/
def shortEscape : Char → Option Char
  | '"' => some '"'
  | '\\' => some '\\'
  | '/' => some '/'
  | 'b' => some (Char.ofNat 8)
  | 'f' => some (Char.ofNat 12)
  | 'n' => some '\n'
  | 'r' => some '\r'
  | 't' => some '\t'
  | _ => none

/-- Whether a code unit is the first half of a pair. -/
def isLeading (unit : Nat) : Bool := 0xD800 ≤ unit && unit < 0xDC00

/-- Whether a code unit is the second half of a pair. -/
def isTrailing (unit : Nat) : Bool := 0xDC00 ≤ unit && unit < 0xE000

/-- The code units and characters of a string: a unit of a pair is kept as its number, anything else
is a character. -/
abbrev Piece : Type := Nat ⊕ Char

/-- Takes the pieces of a string up to and with its closing quote.  The count bounds the length. -/
def pieces : Nat → TextReader (List Piece)
  | 0, _ => none
  | _ + 1, [] => none
  | n + 1, c :: cs =>
    if c = '"' then some ([], cs)
    else if c = '\\' then
      match cs with
      | 'u' :: more => do
        let (unit, rest) ← hexQuad more
        let (tail, rest) ← pieces n rest
        let piece := if isLeading unit || isTrailing unit then .inl unit else .inr (Char.ofNat unit)
        return (piece :: tail, rest)
      | e :: more => do
        let c ← shortEscape e
        let (tail, rest) ← pieces n more
        return (.inr c :: tail, rest)
      | [] => none
    else if c.toNat < 32 then none
    else do
      let (tail, rest) ← pieces n cs
      return (.inr c :: tail, rest)

/-- The characters of a string, or `none` when a unit of a pair stands alone. -/
def assemble : List Piece → Option (List Char)
  | [] => some []
  | .inr c :: tail => (assemble tail).map (c :: ·)
  | .inl a :: .inl b :: tail =>
    if isLeading a && isTrailing b then
      (assemble tail).map (Char.ofNat (0x10000 + (a - 0xD800) * 1024 + (b - 0xDC00)) :: ·)
    else none
  | .inl _ :: _ => none

/-- Takes the rest of a string after its opening quote; the contents are `none` when an escape names
no character. -/
def readString : TextReader (Option String) := fun cs => do
  let (found, rest) ← pieces (cs.length + 1) cs
  return ((assemble found).map String.ofList, rest)

/-! ### Values -/

/-- Takes the items of an array up to and with the closing bracket, given the reader of one item.
The count bounds the number of items. -/
def readItems (item : TextReader Json) : Nat → TextReader (List Json)
  | 0, _ => none
  | n + 1, cs => do
    let (value, rest) ← item cs
    match skipBlanks rest with
    | ']' :: rest => return ([value], rest)
    | ',' :: rest =>
      let (values, rest) ← readItems item n rest
      return (value :: values, rest)
    | _ => none

/-- Takes the members of an object up to and with the closing brace, given the reader of one value.
The result is `none` when a key has no contents. -/
def readMembers (item : TextReader Json) : Nat → TextReader (Option (List (String × Json)))
  | 0, _ => none
  | n + 1, cs =>
    match skipBlanks cs with
    | '"' :: cs => do
      let (key, rest) ← readString cs
      match skipBlanks rest with
      | ':' :: rest =>
        let (value, rest) ← item rest
        match skipBlanks rest with
        | '\x7d' :: rest => return (key.map fun k => [(k, value)], rest)
        | ',' :: rest =>
          let (members, rest) ← readMembers item n rest
          return (key.bind fun k => members.map ((k, value) :: ·), rest)
        | _ => none
      | _ => none
    | _ => none

/-- Takes a value, with leading white space.  The room bounds the nesting. -/
def readValue : (room : Nat) → TextReader Json
  | 0, _ => none
  | room + 1, cs =>
    match skipBlanks cs with
    | '"' :: cs => do
      let (contents, rest) ← readString cs
      return ((contents.map .string).getD .garbled, rest)
    | '[' :: cs =>
      match skipBlanks cs with
      | ']' :: rest => some (.array [], rest)
      | _ => do
        let (items, rest) ← readItems (readValue room) cs.length cs
        return (.array items, rest)
    | '\x7b' :: cs =>
      match skipBlanks cs with
      | '\x7d' :: rest => some (.object [], rest)
      | _ => do
        let (members, rest) ← readMembers (readValue room) cs.length cs
        return ((members.map .object).getD .garbled, rest)
    | 'n' :: cs => (dropWord ['u', 'l', 'l'] cs).map (.null, ·)
    | 't' :: cs => (dropWord ['r', 'u', 'e'] cs).map (.bool true, ·)
    | 'f' :: cs => (dropWord ['a', 'l', 's', 'e'] cs).map (.bool false, ·)
    | cs => readNumber cs

/-- Reads a text that holds one value. -/
def parse (text : String) : Option Json := do
  let cs := text.toList
  let (value, rest) ← readValue (cs.length + 1) cs
  if (skipBlanks rest).isEmpty then return value else none

end Deontica.Json
