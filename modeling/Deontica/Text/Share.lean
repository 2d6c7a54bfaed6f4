/-!
# Shares

A share of a whole, written with six decimals.  The quotient is taken in double precision, that is
with 53 significant bits, and then written out; both roundings are to the nearest, and ties go to
the even neighbour.
-/

namespace Deontica.Text

/-- The quotient rounded to the nearest whole number, a tie to the even one. -/
def roundDiv (num den : Nat) : Nat :=
  let q := num / den
  let twice := 2 * (num % den)
  if twice < den || twice = den && q % 2 = 0 then q else q + 1

/-- The least scale `s` at which `part / whole * 2 ^ s` has 53 bits, for `0 < part ≤ whole`. -/
def shareScale (part whole : Nat) : Nat :=
  let s := 52 + whole.log2 - part.log2
  if (part <<< s) / whole < 1 <<< 52 then s + 1 else s

/-- The share in millionths. -/
def millionths (part whole : Nat) : Nat :=
  if part = 0 || whole = 0 then 0
  else
    let s := shareScale part whole
    roundDiv (roundDiv (part <<< s) whole * 1000000) (1 <<< s)

/-- The share of `part` in `whole` with six decimals; nothing is no share of nothing. -/
def share (part whole : Nat) : String :=
  let n := millionths part whole
  let decimals := toString (n % 1000000)
  toString (n / 1000000) ++ "." ++ "".pushn '0' (6 - decimals.length) ++ decimals

end Deontica.Text
