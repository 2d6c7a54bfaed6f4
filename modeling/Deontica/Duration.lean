/-!
# Lengths of time
-/

namespace Deontica

/-- A length of time. -/
structure Duration where
  seconds : Nat
  /-- What is left over, below a thousand million. -/
  nanos : Nat
  deriving Repr, DecidableEq, Inhabited

namespace Duration

/-- A length of time given in milliseconds. -/
def ofMillis (ms : Nat) : Duration :=
  ⟨ms / 1000, ms % 1000 * 1000000⟩

/-- The digits of `n / 10 ^ places` after the point, without zeros at the end. -/
def fraction (n places : Nat) : List Char :=
  let digits := Nat.toDigits 10 n
  let padded := List.replicate (places - digits.length) '0' ++ digits
  (padded.reverse.dropWhile (· == '0')).reverse

/-- A number with what comes after its point, and no point if nothing does. -/
def decimal (whole n places : Nat) : String :=
  match fraction n places with
  | [] => toString whole
  | digits => toString whole ++ "." ++ String.ofList digits

/-- The text of a length of time, in the greatest unit of which there is one: `100ms`, `1.5s`. -/
def render (d : Duration) : String :=
  if 0 < d.seconds then decimal d.seconds d.nanos 9 ++ "s"
  else if 1000000 ≤ d.nanos then decimal (d.nanos / 1000000) (d.nanos % 1000000) 6 ++ "ms"
  else if 1000 ≤ d.nanos then decimal (d.nanos / 1000) (d.nanos % 1000) 3 ++ "µs"
  else toString d.nanos ++ "ns"

end Duration

end Deontica
