import Kernel31.Library.Blocks

namespace Kernel31.Fips180

open Blocks List

abbrev Word := BitVec 32

/-- Section 3.2 -/
def rotr (count : Nat) (x : Word) : Word := (x >>> count) ||| (x <<< (32 - count))

/-- Section 4.1.2 -/
def ch (x y z : Word) : Word := (x &&& y) ^^^ (~~~x &&& z)

def maj (x y z : Word) : Word := (x &&& y) ^^^ (x &&& z) ^^^ (y &&& z)

def bigSigma0 (x : Word) : Word := rotr 2 x ^^^ rotr 13 x ^^^ rotr 22 x

def bigSigma1 (x : Word) : Word := rotr 6 x ^^^ rotr 11 x ^^^ rotr 25 x

def smallSigma0 (x : Word) : Word := rotr 7 x ^^^ rotr 18 x ^^^ (x >>> 3)

def smallSigma1 (x : Word) : Word := rotr 17 x ^^^ rotr 19 x ^^^ (x >>> 10)

def primes : List Nat :=
  [2, 3, 5, 7, 11, 13, 17, 19, 23, 29, 31, 37, 41, 43, 47, 53, 59, 61, 67, 71, 73, 79, 83, 89, 97, 101, 103, 107, 109,
    113, 127, 131, 137, 139, 149, 151, 157, 163, 167, 173, 179, 181, 191, 193, 197, 199, 211, 223, 227, 229, 233, 239,
    241, 251, 257, 263, 269, 271, 277, 281, 283, 293, 307, 311]

/-- The integer part of a root, found from its highest of forty bits on. -/
def root (degree value : Nat) : Nat :=
  (range 40).foldr (fun bit found => if (found + 2 ^ bit) ^ degree ≤ value then found + 2 ^ bit else found) 0

/-- The first thirty-two bits of the fractional part of a root of the prime at a place. -/
def rootFraction (degree place : Nat) : Word := BitVec.ofNat 32 (root degree (primes.getD place 0 * 2 ^ (32 * degree)))

/-- Section 4.2.2: from the cube roots of the first sixty-four primes. -/
def constant (t : Nat) : Word := rootFraction 3 t

@[ext] structure Words where
  a : Word
  b : Word
  c : Word
  d : Word
  e : Word
  f : Word
  g : Word
  h : Word
  deriving DecidableEq

/-- Section 5.3.3: from the square roots of the first eight primes. -/
def initial : Words :=
  ⟨rootFraction 2 0, rootFraction 2 1, rootFraction 2 2, rootFraction 2 3, rootFraction 2 4, rootFraction 2 5,
    rootFraction 2 6, rootFraction 2 7⟩

def fromBytes (bytes : List UInt8) : Nat := bytes.foldl (fun number byte => 256 * number + byte.toNat) 0

def toBytes (count number : Nat) : List UInt8 :=
  ((range count).map fun i => UInt8.ofNat (number / 256 ^ i)).reverse

/-- Section 6.2.2, step 1. -/
def schedule (block : List UInt8) (t : Nat) : Word :=
  if t < 16 then BitVec.ofNat 32 (fromBytes ((block.drop (4 * t)).take 4))
  else smallSigma1 (schedule block (t - 2)) + schedule block (t - 7) + smallSigma0 (schedule block (t - 15)) +
    schedule block (t - 16)

/-- Section 6.2.2, one turn of step 3. -/
def round (k w : Word) (v : Words) : Words :=
  let t1 := v.h + bigSigma1 v.e + ch v.e v.f v.g + k + w
  let t2 := bigSigma0 v.a + maj v.a v.b v.c
  ⟨t1 + t2, v.a, v.b, v.c, v.d + t1, v.e, v.f, v.g⟩

/-- Section 6.2.2, step 4. -/
def Words.add (x y : Words) : Words :=
  ⟨x.a + y.a, x.b + y.b, x.c + y.c, x.d + y.d, x.e + y.e, x.f + y.f, x.g + y.g, x.h + y.h⟩

/-- Section 6.2.2 for one block of the message. -/
def compress (hash : Words) (block : List UInt8) : Words :=
  ((range 64).foldl (fun v t => round (constant t) (schedule block t) v) hash).add hash

/-- Section 5.1.1: the smallest number of zero bytes with `length + 1 + zeros` congruent to 56 modulo 64. -/
def zeros (length : Nat) : Nat := (119 - length % 64) % 64

/-- Section 5.1.1: the message, the byte `0x80`, zeros, and a bit length in eight bytes. -/
def padded (message : List UInt8) (bits : Nat) : List UInt8 :=
  message ++ 0x80 :: (replicate (zeros message.length) 0 ++ toBytes 8 bits)

def chain (bytes : List UInt8) : Words := (blocks 64 bytes).foldl compress initial

def Words.bytes (hash : Words) : List UInt8 :=
  [hash.a, hash.b, hash.c, hash.d, hash.e, hash.f, hash.g, hash.h].flatMap fun word => toBytes 4 word.toNat

/-- Section 6.2: the hash of a message, its length in bits below `2 ^ 64`. -/
def sha256 (message : List UInt8) : List UInt8 := (chain (padded message (8 * message.length))).bytes

theorem length_toBytes (count number : Nat) : (toBytes count number).length = count := by
  rw [toBytes, length_reverse, length_map, length_range]

theorem zeros_spec (length : Nat) : (length + 1 + zeros length) % 64 = 56 := by
  rw [zeros]
  omega

theorem length_padded (message : List UInt8) (bits : Nat) : (padded message bits).length % 64 = 0 := by
  have spec := zeros_spec message.length
  simp only [padded, length_append, length_cons, length_replicate, length_toBytes]
  omega

variable {message message' : List UInt8} {bits : Nat}

theorem marked_injective {count count' : Nat}
    (same : message ++ 0x80 :: replicate count 0 = message' ++ 0x80 :: replicate count' 0) :
    message = message' := by
  have back := congrArg reverse same
  simp only [reverse_append, reverse_cons, reverse_replicate, append_assoc, singleton_append] at back
  clear same
  induction count generalizing count' with
  | zero =>
    cases count' with
    | zero => exact reverse_injective (cons.inj back).2
    | succ count' => exact absurd (cons.inj back).1 (by decide)
  | succ count ih =>
    cases count' with
    | zero => exact absurd (cons.inj back).1 (by decide)
    | succ count' => exact ih (cons.inj back).2

theorem padded_injective (same : padded message bits = padded message' bits) : message = message' := by
  simp only [padded, ← cons_append, ← append_assoc] at same
  exact marked_injective (append_cancel_right same)

def Collision (bytes bytes' : List UInt8) : Prop :=
  blocks 64 bytes ≠ blocks 64 bytes' ∧ (chain bytes).bytes = (chain bytes').bytes

theorem blocks_padded_injective (same : blocks 64 (padded message bits) = blocks 64 (padded message' bits)) :
    message = message' := by
  refine @padded_injective _ _ bits ?_
  rw [← flatten_blocks (by decide) (length_padded message bits), same, flatten_blocks (by decide) (length_padded message' bits)]

/-- RFC 2104, section 2, for a key no longer than a block. -/
def keyPad (key : List UInt8) (constant : UInt8) : List UInt8 :=
  (key ++ replicate (64 - key.length) 0).map (· ^^^ constant)

/-- RFC 2104, section 2: `H(K XOR opad, H(K XOR ipad, text))`. -/
def hmac (key text : List UInt8) : List UInt8 := sha256 (keyPad key 0x5c ++ sha256 (keyPad key 0x36 ++ text))

theorem Words.length_bytes (hash : Words) : hash.bytes.length = 32 := by
  simp only [bytes, flatMap_cons, flatMap_nil, length_append, length_toBytes, length_nil]

end Kernel31.Fips180
