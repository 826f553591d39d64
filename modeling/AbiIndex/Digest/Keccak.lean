/-!
# Keccak-256

The sponge with a rate of 136 bytes over the permutation of 25 lanes of 64 bits, with the padding
that starts with a one byte. The digest has 32 bytes.
-/

namespace AbiIndex.Digest.Keccak

/-- Twenty-five lanes; lane `x + 5 * y` is the one in column `x` and row `y`. -/
abbrev State := Vector UInt64 25

/-- The bytes that one block of input has. -/
def rate : Nat := 136

/-- The lane in column `x` and row `y`, both taken modulo five. -/
def lane (s : State) (x y : Nat) : UInt64 := s[x % 5 + 5 * (y % 5)]

/-- The state whose lane in column `x` and row `y` is `f x y`. -/
def tabulate (f : Nat → Nat → UInt64) : State := Vector.ofFn fun i => f (i.val % 5) (i.val / 5)

/-- Rotation of a lane to the left. -/
def rotate (a : UInt64) (n : Nat) : UInt64 :=
  if n = 0 then a else (a <<< UInt64.ofNat n) ||| (a >>> UInt64.ofNat (64 - n))

/-- How far each lane is rotated. -/
def offsets : Vector Nat 25 := #v[
   0, 1, 62, 28, 27, 36, 44, 6, 55, 20, 3, 10, 43, 25, 39, 41, 45, 15, 21, 8, 18, 2, 61, 56, 14]

/-- The constant that each round adds to the first lane. -/
def roundConstants : List UInt64 :=
  [0x0000000000000001, 0x0000000000008082, 0x800000000000808a, 0x8000000080008000,
   0x000000000000808b, 0x0000000080000001, 0x8000000080008081, 0x8000000000008009,
   0x000000000000008a, 0x0000000000000088, 0x0000000080008009, 0x000000008000000a,
   0x000000008000808b, 0x800000000000008b, 0x8000000000008089, 0x8000000000008003,
   0x8000000000008002, 0x8000000000000080, 0x000000000000800a, 0x800000008000000a,
   0x8000000080008081, 0x8000000000008080, 0x0000000080000001, 0x8000000080008008]

/-- The sum of a column. -/
def column (s : State) (x : Nat) : UInt64 :=
  lane s x 0 ^^^ lane s x 1 ^^^ lane s x 2 ^^^ lane s x 3 ^^^ lane s x 4

/-- Adds to each lane the sums of the two neighbouring columns. -/
def mixColumns (s : State) : State :=
  let sums : Vector UInt64 5 := Vector.ofFn fun x => column s x.val
  let added : Vector UInt64 5 := Vector.ofFn fun x =>
    sums[(x.val + 4) % 5] ^^^ rotate sums[(x.val + 1) % 5] 1
  tabulate fun x y => lane s x y ^^^ added[x % 5]

/-- Rotates the lanes and moves them to their new places. -/
def moveLanes (s : State) : State :=
  tabulate fun x y =>
    -- column `source` of row `x` moves to column `x` of row `y`
    let source := (x + 3 * y) % 5
    rotate (lane s source x) offsets[source % 5 + 5 * (x % 5)]

/-- Adds to each lane the product of its two neighbours in the row, the first one inverted. -/
def mixRows (s : State) : State :=
  tabulate fun x y => lane s x y ^^^ (~~~ lane s (x + 1) y &&& lane s (x + 2) y)

/-- One round of the permutation. -/
def round (s : State) (constant : UInt64) : State :=
  let s := mixRows (moveLanes (mixColumns s))
  s.set 0 (s[0] ^^^ constant)

/-- The permutation. -/
def permute (s : State) : State := roundConstants.foldl round s

/-- The number of eight bytes, the lowest one first. -/
def laneOfBytes (bytes : List UInt8) : UInt64 :=
  bytes.foldr (fun b n => (n <<< 8) ||| b.toUInt64) 0

/-- The eight bytes of a lane, the lowest one first. -/
def bytesOfLane (a : UInt64) : List UInt8 :=
  (List.range 8).map fun i => (a >>> UInt64.ofNat (8 * i)).toUInt8

/-- Adds a block to the first lanes of the state. -/
def addBlock (s : State) (block : List UInt8) : State :=
  Vector.ofFn fun i =>
    s[i.val] ^^^ laneOfBytes ((block.drop (8 * i.val)).take (if i.val < 17 then 8 else 0))

/-- Takes in `count` blocks. -/
def absorb : Nat → State → List UInt8 → State
  | 0, s, _ => s
  | count + 1, s, bytes =>
    absorb count (permute (addBlock s (bytes.take rate))) (bytes.drop rate)

/-- The bytes that fill up the last block behind a message of the given length. -/
def padding (length : Nat) : List UInt8 :=
  let missing := rate - length % rate
  -- the first and the last byte of the padding may be the same
  if missing = 1 then [0x81] else 0x01 :: List.replicate (missing - 2) 0 ++ [0x80]

/-- The digest of a message. -/
def digest (message : List UInt8) : List UInt8 :=
  let padded := message ++ padding message.length
  let s := absorb (padded.length / rate) (Vector.replicate 25 0) padded
  (List.range 4).flatMap fun i => bytesOfLane (lane s i 0)

end AbiIndex.Digest.Keccak
