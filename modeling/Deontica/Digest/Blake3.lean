/-!
# BLAKE3

The BLAKE3 hash of a list of bytes, in its plain mode and with an output of 32 bytes.

The input is cut into chunks of 1024 bytes, and a chunk into blocks of 64.  The blocks of a chunk
are compressed one after the other, each from the chaining value that the one before left.  Chunks
are the leaves of a binary tree whose left subtrees are full; a parent compresses the chaining
values of its two children.  The last compression of all is marked as the root, so a node is kept
uncompressed until it is known whether it is the root.
-/

namespace Deontica.Blake3

/-! ### Compression -/

/-- A chaining value. -/
abbrev Chain : Type := Vector UInt32 8

/-- A block of input, as words. -/
abbrev Block : Type := Vector UInt32 16

/-- The state of a compression. -/
abbrev Mixer : Type := Vector UInt32 16

/-- The chaining value that a chunk starts from. -/
def start : Chain :=
  #v[0x6A09E667, 0xBB67AE85, 0x3C6EF372, 0xA54FF53A, 0x510E527F, 0x9B05688C, 0x1F83D9AB, 0x5BE0CD19]

/-- Where each word of a block comes from after a round. -/
def order : Vector (Fin 16) 16 :=
  #v[2, 6, 3, 10, 7, 0, 4, 13, 1, 11, 12, 5, 9, 14, 15, 8]

/-- Rotation to the right by `n` bits, where `0 < n < 32`. -/
def rotate (w n : UInt32) : UInt32 :=
  (w >>> n) ||| (w <<< (32 - n))

/-- Mixes two words of input into four words of the state. -/
def mix (v : Mixer) (a b c d : Fin 16) (x y : UInt32) : Mixer :=
  let va := v[a] + v[b] + x
  let vd := rotate (v[d] ^^^ va) 16
  let vc := v[c] + vd
  let vb := rotate (v[b] ^^^ vc) 12
  let va := va + vb + y
  let vd := rotate (vd ^^^ va) 8
  let vc := vc + vd
  let vb := rotate (vb ^^^ vc) 7
  (((v.set a va).set b vb).set c vc).set d vd

/-- A round: first the columns of the state, then its diagonals. -/
def round (v : Mixer) (m : Block) : Mixer :=
  let v := mix v 0 4 8 12 m[0] m[1]
  let v := mix v 1 5 9 13 m[2] m[3]
  let v := mix v 2 6 10 14 m[4] m[5]
  let v := mix v 3 7 11 15 m[6] m[7]
  let v := mix v 0 5 10 15 m[8] m[9]
  let v := mix v 1 6 11 12 m[10] m[11]
  let v := mix v 2 7 8 13 m[12] m[13]
  mix v 3 4 9 14 m[14] m[15]

/-- So many rounds, with the block reordered between them. -/
def rounds : Nat → Mixer → Block → Mixer
  | 0, v, _ => v
  | n + 1, v, m => rounds n (round v m) (order.map (m[·]))

/-! ### Nodes -/

/-- The marks that a compression may carry. -/
def chunkStart : UInt32 := 1
def chunkEnd : UInt32 := 2
def parent : UInt32 := 4
def root : UInt32 := 8

/-- A compression that has yet to be done. -/
structure Node where
  chain : Chain
  block : Block
  /-- The number of the chunk. -/
  counter : UInt64
  /-- The number of bytes in the block. -/
  length : UInt32
  marks : UInt32

/-- The chaining value that a node leaves, with some more marks. -/
def Node.compress (n : Node) (marks : UInt32) : Chain :=
  let tail : Vector UInt32 8 :=
    #v[start[0], start[1], start[2], start[3], n.counter.toUInt32, (n.counter >>> 32).toUInt32,
      n.length, n.marks ||| marks]
  let v := rounds 7 (n.chain ++ tail) n.block
  Vector.ofFn fun i : Fin 8 => v[i.val] ^^^ v[i.val + 8]

/-- The word that four bytes make, least byte first. -/
def word (bytes : List UInt8) : UInt32 :=
  bytes.foldr (fun b w => (w <<< 8) ||| b.toUInt32) 0

/-- A block of at most 64 bytes, filled up with zeros. -/
def block (bytes : List UInt8) : Block :=
  Vector.ofFn fun i : Fin 16 => word ((bytes.drop (4 * i)).take 4)

/-- The last node of a chunk, the blocks before it compressed. -/
def chunk (counter : UInt64) (chain : Chain) (marks : UInt32) (bytes : List UInt8) : Node :=
  if bytes.length ≤ 64 then
    ⟨chain, block bytes, counter, bytes.length.toUInt32, marks ||| chunkEnd⟩
  else
    let node : Node := ⟨chain, block (bytes.take 64), counter, 64, marks⟩
    chunk counter (node.compress 0) 0 (bytes.drop 64)
termination_by bytes.length
decreasing_by simp only [List.length_drop]; omega

/-- The bytes of the left subtree: the most chunks that are a power of two and leave something for
the right subtree. -/
def leftLength (length : Nat) : Nat :=
  1024 * Nat.pow 2 ((length - 1) / 1024).log2

theorem leftLength_pos (length : Nat) : 0 < leftLength length :=
  Nat.mul_pos (by decide) (Nat.two_pow_pos _)

theorem leftLength_lt {length : Nat} (h : 1024 < length) : leftLength length < length := by
  have hne : (length - 1) / 1024 ≠ 0 := by omega
  have : Nat.pow 2 ((length - 1) / 1024).log2 ≤ (length - 1) / 1024 := Nat.log2_self_le hne
  unfold leftLength
  omega

/-- The top node of the tree over some bytes, the first of which begin the chunk `counter`. -/
def tree (counter : Nat) (bytes : List UInt8) : Node :=
  if _h : bytes.length ≤ 1024 then chunk counter.toUInt64 start chunkStart bytes
  else
    let n := leftLength bytes.length
    let left := (tree counter (bytes.take n)).compress 0
    let right := (tree (counter + n / 1024) (bytes.drop n)).compress 0
    ⟨start, left ++ right, 0, 64, parent⟩
termination_by bytes.length
decreasing_by
  · have := leftLength_lt (Nat.lt_of_not_le _h)
    simp only [List.length_take]
    omega
  · have := leftLength_pos bytes.length
    simp only [List.length_drop]
    omega

/-- The bytes of a word, least first. -/
def wordBytes (w : UInt32) : List UInt8 :=
  [w.toUInt8, (w >>> 8).toUInt8, (w >>> 16).toUInt8, (w >>> 24).toUInt8]

/-- The 32 bytes of the hash. -/
def hash (bytes : List UInt8) : List UInt8 :=
  ((tree 0 bytes).compress root).toList.flatMap wordBytes

end Deontica.Blake3
