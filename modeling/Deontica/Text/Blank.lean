import Deontica.Text.Range

/-!
# White space

The twenty-five code points with the White_Space property.  Formula texts may use any of them
between two tokens; zero-width characters are not among them.
-/

namespace Deontica.Text

/-- The ranges of white space beyond ASCII. -/
def wideBlanks : List (Nat × Nat) :=
  [(0x0085, 0x0085), (0x00A0, 0x00A0), (0x1680, 0x1680), (0x2000, 0x200A), (0x2028, 0x2029),
    (0x202F, 0x202F), (0x205F, 0x205F), (0x3000, 0x3000)]

/-- Whether `c` is white space. -/
def isBlank (c : Char) : Bool :=
  if c.toNat < 128 then c.toNat == 32 || (9 ≤ c.toNat && c.toNat ≤ 13) else inRanges wideBlanks c

end Deontica.Text
