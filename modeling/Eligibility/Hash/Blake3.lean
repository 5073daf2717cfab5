import Eligibility.Bytes.Numbers

/-!
# The BLAKE3 hash

The unkeyed hash of a byte string. The string is cut into chunks of 1024 bytes, a chunk into blocks
of 64, and the blocks of a chunk are compressed one after the other into eight words. The chunks are
the leaves of a binary tree whose left subtrees are full, and every inner node compresses the words
of its two children. The root is marked, and its words are the hash.

## Main definitions

* `Blake3.compress` — the compression of one block.
* `Blake3.chunk`, `Blake3.tree` — the node of a chunk and of a string.
* `Blake3.hash` — the 32 bytes of the hash.

## Implementation notes

The state of sixteen words is four rows of four. A round mixes the columns, then the diagonals,
which are the columns after row `i` is turned by `i` places.
-/

set_option relaxedAutoImplicit false
set_option autoImplicit false

namespace Eligibility

namespace Blake3

/-! ## Compression -/

/-- A row of the state. -/
structure Row where
  a : UInt32
  b : UInt32
  c : UInt32
  d : UInt32

namespace Row

/-- Combines two rows place by place. -/
def zip (f : UInt32 → UInt32 → UInt32) (x y : Row) : Row :=
  ⟨f x.a y.a, f x.b y.b, f x.c y.c, f x.d y.d⟩

/-- Turns a row by one place to the left. -/
def turn (x : Row) : Row := ⟨x.b, x.c, x.d, x.a⟩

/-- The words of a row. -/
def toList (x : Row) : List UInt32 := [x.a, x.b, x.c, x.d]

/-- Exclusive or, then a rotation to the right by `n` bits. -/
def mixRight (n : UInt32) (x y : Row) : Row :=
  zip (fun x y => ((x ^^^ y) >>> n) ||| ((x ^^^ y) <<< (32 - n))) x y

end Row

/-- The state of a compression. -/
structure State where
  x : Row
  y : Row
  z : Row
  w : Row

/-- Half of a mixing of the four columns: adds a row of the message and stirs with two rotations. -/
def State.stir (s : State) (message : Row) (first second : UInt32) : State :=
  let x := Row.zip (· + ·) (Row.zip (· + ·) s.x s.y) message
  let w := Row.mixRight first s.w x
  let z := Row.zip (· + ·) s.z w
  let y := Row.mixRight second s.y z
  ⟨x, y, z, w⟩

/-- A mixing of the four columns with two rows of the message. -/
def State.mix (s : State) (first second : Row) : State :=
  (s.stir first 16 12).stir second 8 7

/-- Turns the diagonals into columns. -/
def State.skew (s : State) : State :=
  ⟨s.x, s.y.turn, s.z.turn.turn, s.w.turn.turn.turn⟩

/-- Turns the columns back into diagonals. -/
def State.unskew (s : State) : State :=
  ⟨s.x, s.y.turn.turn.turn, s.z.turn.turn, s.w.turn⟩

/-- The words of a message at four places. -/
def row (message : List UInt32) (i j k l : Nat) : Row :=
  ⟨message.getD i 0, message.getD j 0, message.getD k 0, message.getD l 0⟩

/-- One round: the columns, then the diagonals. -/
def round (s : State) (message : List UInt32) : State :=
  let columns := s.mix (row message 0 2 4 6) (row message 1 3 5 7)
  (columns.skew.mix (row message 8 10 12 14) (row message 9 11 13 15)).unskew

/-- The place in a round's message of each word of the next round's. -/
def permutation : List Nat := [2, 6, 3, 10, 7, 0, 4, 13, 1, 11, 12, 5, 9, 14, 15, 8]

/-- The message of the next round. -/
def permute (message : List UInt32) : List UInt32 :=
  permutation.map (message.getD · 0)

/-- The given number of rounds. -/
def rounds : Nat → State → List UInt32 → State
  | 0, s, _ => s
  | n + 1, s, message => rounds n (round s message) (permute message)

/-- The words that every hash starts from. -/
def initial : Row × Row :=
  (⟨0x6a09e667, 0xbb67ae85, 0x3c6ef372, 0xa54ff53a⟩,
    ⟨0x510e527f, 0x9b05688c, 0x1f83d9ab, 0x5be0cd19⟩)

/-- A block on its way to being compressed: the words before it, its own sixteen words, the number
of its chunk, how many of its bytes count, and its marks. -/
structure Node where
  input : Row × Row
  message : List UInt32
  counter : Nat
  length : Nat
  marks : UInt32

/-- The mark of the first block of a chunk. -/
def firstMark : UInt32 := 1

/-- The mark of the last block of a chunk. -/
def lastMark : UInt32 := 2

/-- The mark of a block that joins two chaining values. -/
def parentMark : UInt32 := 4

/-- The mark of the block at the top, whose state is the hash. -/
def rootMark : UInt32 := 8

/-- The eight words that a block is compressed to. -/
def Node.compress (n : Node) : Row × Row :=
  let s : State :=
    ⟨n.input.1, n.input.2, initial.1,
      ⟨.ofNat n.counter, .ofNat (n.counter / 2 ^ 32), .ofNat n.length, n.marks⟩⟩
  let s := rounds 7 s n.message
  (s.x.zip (· ^^^ ·) s.z, s.y.zip (· ^^^ ·) s.w)

/-! ## Chunks -/

/-- The words of a block, zeros standing for bytes that are missing. -/
def words (block : Bytes) : List UInt32 :=
  (List.range 16).map fun i => .ofNat (Bytes.ofLittleEndian ((block.drop (4 * i)).take 4))

/-- The node of a chunk from the words before it on; `marks` is the mark of its first block. -/
def blocks (counter : Nat) (input : Row × Row) (marks : UInt32) (bytes : Bytes) : Node :=
  if bytes.length ≤ 64 then ⟨input, words bytes, counter, bytes.length, marks ||| lastMark⟩
  else
    let first : Node := ⟨input, words (bytes.take 64), counter, 64, marks⟩
    blocks counter first.compress 0 (bytes.drop 64)
termination_by bytes.length
decreasing_by
  rw [List.length_drop]
  omega

/-- The node of the chunk with a number. -/
def chunk (counter : Nat) (bytes : Bytes) : Node :=
  blocks counter initial firstMark bytes

/-! ## The tree -/

/-- The node above two others. -/
def parent (left right : Row × Row) : Node :=
  ⟨initial, left.1.toList ++ left.2.toList ++ right.1.toList ++ right.2.toList, 0, 64, parentMark⟩

/-- The bytes below the left child of a node over more than one chunk: the most full chunks in a
power of two that leave something to the right. -/
def leftLength (length : Nat) : Nat := 1024 * 2 ^ Nat.log2 ((length - 1) / 1024)

/-- The left part of a tree is not empty. -/
theorem leftLength_pos (length : Nat) : 0 < leftLength length :=
  Nat.mul_pos (by decide) (Nat.two_pow_pos _)

/-- The left part of a tree of more than one chunk leaves something for the right part. -/
theorem leftLength_lt {length : Nat} (h : 1024 < length) : leftLength length < length := by
  have chunks : (length - 1) / 1024 ≠ 0 := by omega
  have := Nat.log2_self_le chunks
  unfold leftLength
  omega

/-- The node of a byte string whose first chunk has the given number. -/
def tree (counter : Nat) (bytes : Bytes) : Node :=
  if h : bytes.length ≤ 1024 then chunk counter bytes
  else
    have := leftLength_pos bytes.length
    have := leftLength_lt (Nat.lt_of_not_le h)
    let size := leftLength bytes.length
    parent (tree counter (bytes.take size)).compress
      (tree (counter + size / 1024) (bytes.drop size)).compress
termination_by bytes.length
decreasing_by
  all_goals simp only [List.length_take, List.length_drop]
  all_goals omega

/-- The 32 bytes of the hash. -/
def hash (bytes : Bytes) : Bytes :=
  let root := tree 0 bytes
  let (x, y) := { root with marks := root.marks ||| rootMark : Node }.compress
  (x.toList ++ y.toList).flatMap fun word => Bytes.littleEndian 4 word.toNat

end Blake3

end Eligibility
