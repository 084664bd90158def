import ShardLedger.Hash.Words

/-!
# RIPEMD-160

Two lines of eighty steps run over each block in different orders, and their
results are added to the state crosswise.
-/

namespace ShardLedger.Ripemd160

open Hash

/-- The five words of the state. -/
structure State where
  a : UInt32
  b : UInt32
  c : UInt32
  d : UInt32
  e : UInt32

/-- The state before the first block. -/
def initial : State :=
  ⟨0x67452301, 0xefcdab89, 0x98badcfe, 0x10325476, 0xc3d2e1f0⟩

/-- One of the five functions that mix three words. -/
def mix (stage : Nat) (x y z : UInt32) : UInt32 :=
  match stage with
  | 0 => x ^^^ y ^^^ z
  | 1 => (x &&& y) ||| ((x ^^^ 0xffffffff) &&& z)
  | 2 => (x ||| (y ^^^ 0xffffffff)) ^^^ z
  | 3 => (x &&& z) ||| (y &&& (z ^^^ 0xffffffff))
  | _ => x ^^^ (y ||| (z ^^^ 0xffffffff))

/-- A stage of one line: its function, its constant, and for each of its sixteen steps the word of
the block and the width of the rotation. -/
structure Stage where
  function : Nat
  constant : UInt32
  steps : List (Nat × UInt32)

/-- The stages of the left line. -/
def leftLine : List Stage :=
  [⟨0, 0x00000000, List.zip [0, 1, 2, 3, 4, 5, 6, 7, 8, 9, 10, 11, 12, 13, 14, 15]
      [11, 14, 15, 12, 5, 8, 7, 9, 11, 13, 14, 15, 6, 7, 9, 8]⟩,
    ⟨1, 0x5a827999, List.zip [7, 4, 13, 1, 10, 6, 15, 3, 12, 0, 9, 5, 2, 14, 11, 8]
      [7, 6, 8, 13, 11, 9, 7, 15, 7, 12, 15, 9, 11, 7, 13, 12]⟩,
    ⟨2, 0x6ed9eba1, List.zip [3, 10, 14, 4, 9, 15, 8, 1, 2, 7, 0, 6, 13, 11, 5, 12]
      [11, 13, 6, 7, 14, 9, 13, 15, 14, 8, 13, 6, 5, 12, 7, 5]⟩,
    ⟨3, 0x8f1bbcdc, List.zip [1, 9, 11, 10, 0, 8, 12, 4, 13, 3, 7, 15, 14, 5, 6, 2]
      [11, 12, 14, 15, 14, 15, 9, 8, 9, 14, 5, 6, 8, 6, 5, 12]⟩,
    ⟨4, 0xa953fd4e, List.zip [4, 0, 5, 9, 7, 12, 2, 10, 14, 1, 3, 8, 11, 6, 15, 13]
      [9, 15, 5, 11, 6, 8, 13, 12, 5, 12, 13, 14, 11, 8, 5, 6]⟩]

/-- The stages of the right line. -/
def rightLine : List Stage :=
  [⟨4, 0x50a28be6, List.zip [5, 14, 7, 0, 9, 2, 11, 4, 13, 6, 15, 8, 1, 10, 3, 12]
      [8, 9, 9, 11, 13, 15, 15, 5, 7, 7, 8, 11, 14, 14, 12, 6]⟩,
    ⟨3, 0x5c4dd124, List.zip [6, 11, 3, 7, 0, 13, 5, 10, 14, 15, 8, 12, 4, 9, 1, 2]
      [9, 13, 15, 7, 12, 8, 9, 11, 7, 7, 12, 7, 6, 15, 13, 11]⟩,
    ⟨2, 0x6d703ef3, List.zip [15, 5, 1, 3, 7, 14, 6, 9, 11, 8, 12, 2, 10, 0, 4, 13]
      [9, 7, 15, 11, 8, 6, 6, 14, 12, 13, 5, 14, 13, 13, 7, 5]⟩,
    ⟨1, 0x7a6d76e9, List.zip [8, 6, 4, 1, 3, 11, 15, 0, 5, 12, 2, 13, 9, 7, 10, 14]
      [15, 5, 8, 11, 14, 14, 6, 14, 6, 9, 12, 9, 12, 5, 15, 8]⟩,
    ⟨0, 0x00000000, List.zip [12, 15, 10, 4, 1, 5, 8, 7, 6, 2, 13, 14, 0, 3, 9, 11]
      [8, 5, 12, 9, 12, 5, 14, 6, 8, 13, 6, 5, 15, 13, 11, 11]⟩]

/-- One step of a line. -/
def step (block : Array UInt32) (stage : Stage) (s : State) (place : Nat × UInt32) : State :=
  let (index, width) := place
  let sum := s.a + mix stage.function s.b s.c s.d + block.getD index 0 + stage.constant
  ⟨s.e, rotateLeft32 sum width + s.e, s.b, rotateLeft32 s.c 10, s.d⟩

/-- Run a line over a block. -/
def run (block : Array UInt32) (line : List Stage) (s : State) : State :=
  line.foldl (fun s stage => stage.steps.foldl (step block stage) s) s

/-- Take in one block. -/
def compress (s : State) (block : Bytes) : State :=
  let words := (words32Little block).toArray
  let left := run words leftLine s
  let right := run words rightLine s
  ⟨s.b + left.c + right.d, s.c + left.d + right.e, s.d + left.e + right.a,
    s.e + left.a + right.b, s.a + left.b + right.c⟩

/-- The message up to whole blocks: its bytes, the padding and the count of its bits. -/
def padded (message : Bytes) : Bytes :=
  let length := message.length
  message ++ padding length ++ bytes64Little (8 * length).toUInt64

/-- The bytes of a state. -/
def State.toBytes (s : State) : Bytes :=
  bytes32Little s.a ++ bytes32Little s.b ++ bytes32Little s.c ++ bytes32Little s.d ++
    bytes32Little s.e

@[simp]
theorem State.length_toBytes (s : State) : s.toBytes.length = 20 := rfl

/-- The digest of a message. -/
def digest (message : Bytes) : AccountId :=
  let s := absorb 64 compress initial (padded message)
  ⟨s.toBytes, s.length_toBytes⟩

end ShardLedger.Ripemd160
