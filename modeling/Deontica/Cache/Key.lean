import Deontica.Digest.Blake3
import Deontica.Formula.Order
import Deontica.Formula.Walk
import Deontica.Term.Walk

/-!
# Cache keys

A key stands for one problem put to one prover under given settings.  It is the digest of a stream
of bytes that spells out the goal, the axioms in order, the name of the prover and its settings.

Formulas are spelt node by node in pre-order.  Every node starts with a byte for its kind, a name is
preceded by its length and a list of arguments by its number, so a stream can be read back in one
way only.  Printed text would not do: a variable and a constant of one name print alike.
-/

namespace Deontica

namespace Stream

/-- The lowest bytes of a number, least first. -/
def lowBytes : Nat → Nat → List UInt8
  | 0, _ => []
  | k + 1, n => n.toUInt8 :: lowBytes k (n / 256)

/-- A count as eight bytes, least first. -/
def count (n : Nat) : List UInt8 :=
  lowBytes 8 n

/-- The bytes of a text. -/
def bytes (s : String) : List UInt8 :=
  s.toUTF8.data.toList

/-- A text with a byte for its kind and its length in front. -/
def frame (kind : UInt8) (s : String) : List UInt8 :=
  let text := bytes s
  kind :: count text.length ++ text

/-- The bytes of a term without those of its arguments. -/
def termNode : Term → List UInt8
  | .var x => frame 0x20 x
  | .const c => frame 0x21 c
  | .app f args => frame 0x22 f ++ count args.length

/-- The bytes of terms: those of all their subterms in pre-order. -/
def terms (ts : List Term) : List UInt8 :=
  (Term.Walk.visit ts).flatMap termNode

/-- The bytes of a formula without those of its subformulas. -/
def node : Formula → List UInt8
  | .pred name args => frame 0x10 name ++ count args.length ++ terms args
  | .not _ => [0x11]
  | .binary op _ _ => [0x12, op.rank.toUInt8]
  | .quant q x _ => [0x13, q.rank.toUInt8] ++ frame 0x13 x
  | .deontic op _ => [0x14, op.rank.toUInt8]
  | .tense op _ => [0x15, op.rank.toUInt8]
  | .span op _ _ => [0x16, op.rank.toUInt8]

/-- The bytes of a formula: those of its nodes in pre-order. -/
def formula (f : Formula) : List UInt8 :=
  (Formula.Walk.subformulas f).flatMap node

end Stream

/-- A problem as it is put to a prover. -/
structure Inquiry where
  goal : Formula
  axioms : List Formula
  /-- The name of the prover. -/
  prover : String
  /-- The settings of the prover that may change its answers, in order of their names. -/
  settings : List (String × String)
  deriving Repr, DecidableEq, Inhabited

/-- The bytes that spell out an inquiry. -/
def Inquiry.stream (q : Inquiry) : List UInt8 :=
  0x01 :: Stream.formula q.goal ++
    q.axioms.flatMap (fun f => 0x02 :: Stream.formula f) ++
    Stream.frame 0x03 q.prover ++
    q.settings.flatMap fun (name, value) => Stream.frame 0x04 name ++ Stream.frame 0x05 value

/-- A digest that stands for an inquiry. -/
structure Key where
  bytes : List UInt8
  deriving Repr, DecidableEq, Inhabited

namespace Key

/-- The key of an inquiry. -/
def ofInquiry (q : Inquiry) : Key :=
  ⟨Blake3.hash q.stream⟩

/-- The two hexadecimal digits of a byte. -/
def hexByte (b : UInt8) : List Char :=
  [Nat.digitChar (b.toNat / 16), Nat.digitChar (b.toNat % 16)]

/-- The key in lower-case hexadecimal digits. -/
def hex (k : Key) : String :=
  String.ofList (k.bytes.flatMap hexByte)

end Key

end Deontica
