import AbiCodec.Word

/-!
# Keccak-256

The sponge with the 1600-bit Keccak permutation, a rate of 136 bytes and the
padding `10*1`.  A state is 25 lanes of 64 bits; the lane in column `x` and row
`y` has the index `x + 5 * y`.
-/

namespace AbiCodec

namespace Keccak

abbrev State := Vector UInt64 25

/-- The index of a lane, the coordinates taken modulo five. -/
def index (x y : Nat) : Fin 25 := ⟨x % 5 + 5 * (y % 5), by omega⟩

def State.lane (s : State) (x y : Nat) : UInt64 := s.get (index x y)

def rotateLeft (lane : UInt64) (n : Nat) : UInt64 :=
  if n = 0 then lane else (lane <<< UInt64.ofNat n) ||| (lane >>> UInt64.ofNat (64 - n))

/-- The rotation of the lane at each index. -/
def rotations : Vector Nat 25 :=
  #v[0, 1, 62, 28, 27, 36, 44, 6, 55, 20, 3, 10, 43, 25, 39, 41, 45, 15, 21, 8, 18, 2, 61, 56, 14]

def roundConstants : List UInt64 :=
  [0x0000000000000001, 0x0000000000008082, 0x800000000000808A, 0x8000000080008000,
    0x000000000000808B, 0x0000000080000001, 0x8000000080008081, 0x8000000000008009,
    0x000000000000008A, 0x0000000000000088, 0x0000000080008009, 0x000000008000000A,
    0x000000008000808B, 0x800000000000008B, 0x8000000000008089, 0x8000000000008003,
    0x8000000000008002, 0x8000000000000080, 0x000000000000800A, 0x800000008000000A,
    0x8000000080008081, 0x8000000000008080, 0x0000000080000001, 0x8000000080008008]

def column (s : State) (x : Nat) : UInt64 :=
  s.lane x 0 ^^^ s.lane x 1 ^^^ s.lane x 2 ^^^ s.lane x 3 ^^^ s.lane x 4

/-- Adds to each lane the parities of two neighbouring columns. -/
def theta (s : State) : State :=
  let columns : Vector UInt64 5 := Vector.ofFn fun x => column s x.val
  let effect : Vector UInt64 5 := Vector.ofFn fun x =>
    columns.get (x + 4) ^^^ rotateLeft (columns.get (x + 1)) 1
  Vector.ofFn fun i => s.get i ^^^ effect.get ⟨i.val % 5, by omega⟩

/-- Rotates each lane and moves it: the lane at `(x, y)` goes to `(y, 2x + 3y)`. -/
def rhoPi (s : State) : State :=
  Vector.ofFn fun i =>
    let x := i.val % 5
    let y := i.val / 5
    let source := index (x + 3 * y) x
    rotateLeft (s.get source) (rotations.get source)

/-- Combines each lane with the next two of its row. -/
def chi (s : State) : State :=
  Vector.ofFn fun i =>
    let x := i.val % 5
    let y := i.val / 5
    s.lane x y ^^^ (~~~ s.lane (x + 1) y &&& s.lane (x + 2) y)

def iota (constant : UInt64) (s : State) : State :=
  Vector.ofFn fun i => if i.val = 0 then s.get i ^^^ constant else s.get i

def permute (s : State) : State :=
  roundConstants.foldl (fun s constant => iota constant (chi (rhoPi (theta s)))) s

/-- Bytes that enter the state at a time. -/
def rate : Nat := 136

/-- The bytes that fill the last block: one, zeros, and the high bit of the last byte. -/
def suffix (length : Nat) : Bytes :=
  let free := rate - length % rate
  if free = 1 then [0x81] else 0x01 :: List.replicate (free - 2) 0 ++ [0x80]

/-- The 64-bit lane of eight bytes, the lowest first. -/
def laneOf (data : Bytes) : UInt64 := UInt64.ofNat (Bytes.toNat data.reverse)

/-- The lanes of a block, zero where the block has ended. -/
def blockLane (block : Bytes) (i : Nat) : UInt64 := laneOf ((block.drop (8 * i)).take 8)

def absorb (s : State) (block : Bytes) : State :=
  permute (Vector.ofFn fun i => s.get i ^^^ blockLane block i.val)

/-- Absorbs `count` blocks. -/
def absorbAll : (count : Nat) → State → Bytes → State
  | 0, s, _ => s
  | count + 1, s, data => absorbAll count (absorb s (data.take rate)) (data.drop rate)

/-- The first 32 bytes of the state. -/
def squeeze (s : State) : Bytes :=
  (List.range 4).flatMap fun x => (Bytes.ofNat 8 (s.lane x 0).toNat).reverse

end Keccak

/-- The Keccak-256 hash of a byte string. -/
def keccak256 (data : Bytes) : Word :=
  let message := data ++ Keccak.suffix data.length
  let final := Keccak.absorbAll (message.length / Keccak.rate) (Vector.replicate 25 0) message
  BitVec.ofNat 256 (Keccak.squeeze final).toNat

/-- The 32 bytes of the Keccak-256 hash. -/
def keccak256Bytes (data : Bytes) : Bytes := (keccak256 data).toBytes

end AbiCodec
