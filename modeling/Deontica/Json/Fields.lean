import Deontica.Json

/-!
# Reading data from JSON

The rules by which a record is read from a value, common to all kinds of data:

* a record is an object, or an array that lists the fields in order;
* members that the record does not know are passed over, and a known member may not be repeated;
* a setting that is left out keeps its default, while any other field has to be there;
* an array may leave out its last fields only if they are settings, and may not list more fields
  than there are;
* a plain choice is a string, or an object whose only member is the choice with a null.
-/

namespace Deontica.Json

/-! ### Single values -/

/-- A count below a limit. -/
def below? (limit : Nat) : Json → Option Nat
  | .natural n => if n < limit then some n else none
  | _ => none

/-- A count that fits in eight bits. -/
def byte? : Json → Option Nat := below? 0x100

/-- The least count that does not fit in sixty-four bits. -/
def countLimit : Nat := 0x10000000000000000

/-- A count that fits in sixty-four bits. -/
def count? : Json → Option Nat := below? countLimit

def bool? : Json → Option Bool
  | .bool b => some b
  | _ => none

def string? : Json → Option String
  | .string s => some s
  | _ => none

/-- An array whose items are all read by `decode`. -/
def list? {α : Type} (decode : Json → Option α) : Json → Option (List α)
  | .array items => items.mapM decode
  | _ => none

/-- A value that may be null. -/
def nullable? {α : Type} (decode : Json → Option α) : Json → Option (Option α)
  | .null => some none
  | value => (decode value).map some

/-- One of several choices, each known by its name. -/
def choice? {α : Type} (choices : List α) (name : α → String) : Json → Option α
  | .string s => choices.find? (name · == s)
  | .object [(key, .null)] => choices.find? (name · == key)
  | _ => none

/-- An object from strings to strings. -/
def stringMap? : Json → Option (List (String × String))
  | .object members => members.mapM fun (key, value) => value.string?.map (key, ·)
  | _ => none

/-! ### Records -/

/-- The member of a key.  The outer `none` says that the key is repeated, the inner one that it is
missing. -/
def member? (members : List (String × Json)) (key : String) : Option (Option Json) :=
  match members.filter (·.1 == key) with
  | [] => some none
  | [(_, value)] => some (some value)
  | _ => none

/-- The fields of a record in the order of `names`, `none` for one that is left out. -/
def fields? (names : List String) : Json → Option (List (Option Json))
  | .object members => names.mapM (member? members)
  | .array items =>
    if items.length = names.length then some (items.map some) else none
  | _ => none

/-- The fields of a record of settings: an array may also stop early. -/
def settings? (names : List String) : Json → Option (List (Option Json))
  | .object members => names.mapM (member? members)
  | .array items =>
    if items.length ≤ names.length then
      some (items.map some ++ List.replicate (names.length - items.length) none)
    else none
  | _ => none

/-- A field that has to be there. -/
def required {α : Type} (decode : Json → Option α) : Option Json → Option α
  | some value => decode value
  | none => none

/-- A setting, with its default. -/
def setting {α : Type} (default : α) (decode : Json → Option α) : Option Json → Option α
  | some value => decode value
  | none => some default

/-- A field that may be left out or null. -/
def optional {α : Type} (decode : Json → Option α) : Option Json → Option (Option α) :=
  setting none (nullable? decode)

end Deontica.Json
