import Kernel31.Crypto.Digest

namespace Kernel31.Crypto

open Checked Blocks
open List hiding Vector

/-- The trait `Hash`, with `Default`. -/
class Hash (H : Type) where
  digestLen : Nat
  default : H
  update : H → List UInt8 → Exec H
  digest {n : Nat} : H → Vector UInt8 n → Exec (Vector UInt8 n × H)

instance : Hash Sha256 where
  digestLen := sha256DigestLen
  default := Sha256.default
  update := Sha256.update
  digest := Sha256.digest

structure Hmac (H : Type) where
  ihasher : H
  ohasher : H

namespace Hmac

section Model
variable {H : Type} [Hash H]

def new : Hmac H := ⟨Hash.default, Hash.default⟩

def setByte (self : Hmac H) (byte : UInt8) : Exec (Hmac H) := do
  let ihasher ← Hash.update self.ihasher [0x36 ^^^ byte]
  let ohasher ← Hash.update self.ohasher [0x5c ^^^ byte]
  pure ⟨ihasher, ohasher⟩

def setKey (self : Hmac H) (key : List UInt8) : Exec (Hmac H) := key.foldlM setByte self

def update (self : Hmac H) (message : List UInt8) : Exec (Hmac H) := do
  let ihasher ← Hash.update self.ihasher message
  pure { self with ihasher := ihasher }

def digest {n : Nat} (self : Hmac H) (sum : Vector UInt8 n) : Exec (Vector UInt8 n × Hmac H) :=
  if n = Hash.digestLen H then do
    let (sum, ihasher) ← Hash.digest self.ihasher sum
    let ohasher ← Hash.update self.ohasher sum.toList
    let (sum, ohasher) ← Hash.digest ohasher sum
    pure (sum, ⟨ihasher, ohasher⟩)
  else throw .assertion

end Model

def mac (key : List UInt8) (pieces : List (List UInt8)) : Exec (List UInt8) := do
  let hmac ← (new : Hmac Sha256).setKey key
  let hmac ← pieces.foldlM update hmac
  let (sum, _) ← hmac.digest (Vector.replicate 32 0)
  pure sum.toList

open Sha256 (Absorbed absorb absorbed)

theorem setKey_rule {self : Hmac Sha256} {inner outer : List UInt8} {length : Nat} (key : List UInt8)
    (inside : self.ihasher.Absorbed inner length) (outside : self.ohasher.Absorbed outer length)
    (fits : 8 * (length + key.length) < 2 ^ 64) :
    ∃ next, self.setKey key = .ok next ∧
      next.ihasher.Absorbed ((key.map fun byte => [0x36 ^^^ byte]).foldl absorb inner) (length + key.length) ∧
      next.ohasher.Absorbed ((key.map fun byte => [0x5c ^^^ byte]).foldl absorb outer) (length + key.length) := by
  induction key generalizing self inner outer length with
  | nil => exact ⟨self, rfl, inside, outside⟩
  | cons byte key ih =>
    have one : length + (byte :: key).length = length + 1 + key.length := by
      rw [length_cons]
      omega
    rw [one] at fits ⊢
    have room (byte : UInt8) : 8 * (length + [byte].length) < 2 ^ 64 := by
      rw [length_singleton]
      omega
    obtain ⟨ihasher, first, inside⟩ := Sha256.update_rule inside (room (0x36 ^^^ byte))
    obtain ⟨ohasher, second, outside⟩ := Sha256.update_rule outside (room (0x5c ^^^ byte))
    obtain ⟨next, others, done⟩ := @ih ⟨ihasher, ohasher⟩ _ _ _ inside outside fits
    refine ⟨next, ?_, done⟩
    have turn : self.setByte byte = .ok ⟨ihasher, ohasher⟩ := by
      rw [setByte]
      show (self.ihasher.update _ >>= _) = _
      rw [first, ok_bind]
      show (self.ohasher.update _ >>= _) = _
      rw [second]
      rfl
    rw [setKey, foldlM_cons, turn, ok_bind]
    exact others

theorem foldl_absorb_bytes (mask : UInt8) {bytes key : List UInt8} (short : bytes.length % 64 + key.length < 64) :
    (key.map fun byte => [mask ^^^ byte]).foldl absorb bytes = bytes ++ key.map (mask ^^^ ·) := by
  induction key generalizing bytes with
  | nil => rw [map_nil, map_nil, foldl_nil, append_nil]
  | cons byte key ih =>
    rw [length_cons] at short
    have kept : absorb bytes [mask ^^^ byte] = bytes ++ [mask ^^^ byte] := if_neg fun both => by
      rw [length_singleton] at both
      omega
    rw [map_cons, foldl_cons, kept, ih, map_cons, append_assoc, singleton_append]
    rw [length_append, length_singleton]
    omega

theorem foldlM_update (self : Hmac Sha256) (pieces : List (List UInt8)) :
    pieces.foldlM update self = (do
      let ihasher ← pieces.foldlM Sha256.update self.ihasher
      pure { self with ihasher := ihasher }) := by
  induction pieces generalizing self with
  | nil => rfl
  | cons piece pieces ih =>
    rw [foldlM_cons, foldlM_cons, update]
    show ((self.ihasher.update piece >>= _) >>= _) = _
    cases self.ihasher.update piece with
    | error fault => rfl
    | ok ihasher =>
      rw [ok_bind, pure_eq, ok_bind, ih, ok_bind]

/-- The key is not filled up to a block, and `update` loses and repeats bytes of a longer message. -/
def innerHash (key : List UInt8) (pieces : List (List UInt8)) : List UInt8 :=
  (Fips180.chain (Fips180.padded (pieces.foldl absorb (key.map (0x36 ^^^ ·))) (8 * (32 + pieces.flatten.length)))).bytes

/-- The inner digest completes the first block of the outer hasher and is taken twice. -/
def outerBytes (key : List UInt8) (pieces : List (List UInt8)) : List UInt8 :=
  key.map (0x5c ^^^ ·) ++ innerHash key pieces ++ innerHash key pieces

theorem digest_eq (self : Hmac Sha256) (sum : Vector UInt8 32) :
    self.digest sum = (do
      let (sum, ihasher) ← self.ihasher.digest sum
      let ohasher ← self.ohasher.update sum.toList
      let (sum, ohasher) ← ohasher.digest sum
      pure (sum, ⟨ihasher, ohasher⟩)) := if_pos rfl

theorem digest_rule {self : Hmac Sha256} {key : List UInt8} {pieces : List (List UInt8)} (sized : key.length = 32)
    (inner : self.ihasher.Absorbed (pieces.foldl absorb (key.map (0x36 ^^^ ·))) (32 + pieces.flatten.length))
    (outer : self.ohasher.Absorbed (key.map (0x5c ^^^ ·)) 32) (sum : Vector UInt8 32) :
    ∃ result final, self.digest sum = .ok (result, final) ∧
      result.toList = (Fips180.chain (Fips180.padded (outerBytes key pieces) 512)).bytes := by
  obtain ⟨middle, ihasher, first, bytes⟩ := Sha256.digest_rule inner sum
  have bytes : middle.toList = innerHash key pieces := bytes
  have size : (innerHash key pieces).length = 32 := Fips180.Words.length_bytes _
  obtain ⟨ohasher, second, outer⟩ := Sha256.update_rule outer (show 8 * (32 + middle.toList.length) < 2 ^ 64 by
    rw [Vector.length_toList]
    decide)
  have twice : absorb (key.map (0x5c ^^^ ·)) middle.toList = outerBytes key pieces := by
    rw [absorb, length_map, sized, bytes, size, if_pos (by decide), take_of_length_le size.le]
    rfl
  rw [twice, Vector.length_toList] at outer
  obtain ⟨result, ohasher', third, written⟩ := Sha256.digest_rule outer middle
  refine ⟨result, ⟨ihasher, ohasher'⟩, ?_, written⟩
  simp only [digest_eq, first, second, third, ok_bind]
  rfl

theorem mac_eq {key : List UInt8} (sized : key.length = 32) (pieces : List (List UInt8)) :
    mac key pieces = if 2 ^ 61 ≤ 32 + pieces.flatten.length then .error .overflow
      else .ok (Fips180.chain (Fips180.padded (outerBytes key pieces) 512)).bytes := by
  obtain ⟨hmac, keyed, inner, outer⟩ := @setKey_rule new _ _ _ key Sha256.default_absorbed Sha256.default_absorbed
    (by rw [sized]; decide)
  rw [foldl_absorb_bytes _ (by rw [sized]; decide), nil_append, Nat.zero_add, sized] at inner outer
  rw [mac, keyed, ok_bind, foldlM_update]
  by_cases large : 2 ^ 61 ≤ 32 + pieces.flatten.length
  · rw [if_pos large, Sha256.foldlM_update_overflow inner pieces (by decide) (by omega)]
    rfl
  · obtain ⟨ihasher, updated, inner⟩ := Sha256.foldlM_update_rule inner pieces (by omega)
    obtain ⟨result, final, digested, written⟩ := @digest_rule ⟨ihasher, hmac.ohasher⟩ _ _ sized inner outer (Vector.replicate 32 0)
    rw [if_neg large, updated, ok_bind, pure_eq, ok_bind, digested, ← written]
    rfl

theorem outer_blocks_differ (bytes bytes' : List UInt8) :
    blocks 64 (Fips180.padded bytes 512) ≠ blocks 64 (Fips180.padded bytes' 768) := by
  intro same
  have equal : Fips180.padded bytes 512 = Fips180.padded bytes' 768 := by
    rw [← flatten_blocks (by decide) (Fips180.length_padded bytes 512), same,
      flatten_blocks (by decide) (Fips180.length_padded bytes' 768)]
  simp only [Fips180.padded, ← cons_append, ← append_assoc] at equal
  have fields := (append_inj' equal (by rw [Fips180.length_toBytes, Fips180.length_toBytes])).2
  exact absurd fields (by decide)

/-- The code of RFC 2104 comes out only if two rows of blocks, which always differ, have the same hash. -/
theorem mac_eq_hmac_iff (key : Vector UInt8 32) (pieces : List (List UInt8)) :
    mac key.toList pieces = .ok (Fips180.hmac key.toList pieces.flatten) ↔
      32 + pieces.flatten.length < 2 ^ 61 ∧
        Fips180.Collision (Fips180.padded (outerBytes key.toList pieces) 512)
          (Fips180.padded (Fips180.keyPad key.toList 0x5c ++
            Fips180.sha256 (Fips180.keyPad key.toList 0x36 ++ pieces.flatten)) 768) := by
  have size : 8 * (Fips180.keyPad key.toList 0x5c ++
      Fips180.sha256 (Fips180.keyPad key.toList 0x36 ++ pieces.flatten)).length = 768 := by
    rw [length_append, Fips180.sha256, Fips180.Words.length_bytes, Fips180.keyPad, length_map, length_append,
      length_replicate, Vector.length_toList]
  have standard : Fips180.hmac key.toList pieces.flatten = (Fips180.chain (Fips180.padded (Fips180.keyPad key.toList 0x5c ++
      Fips180.sha256 (Fips180.keyPad key.toList 0x36 ++ pieces.flatten)) 768)).bytes := by
    rw [Fips180.hmac, Fips180.sha256, size]
  rw [mac_eq Vector.length_toList, standard]
  by_cases large : 2 ^ 61 ≤ 32 + pieces.flatten.length
  · rw [if_pos large]
    exact iff_of_false (by simp) fun both => absurd both.1 (by omega)
  · rw [if_neg large, Except.ok.injEq]
    exact ⟨fun same => ⟨by omega, outer_blocks_differ _ _, same⟩, fun both => both.2.2⟩

theorem hash_hash_eq_hmac {key text : List UInt8} (short : (Fips180.keyPad key 0x36 ++ text).length < 2 ^ 61)
    (keyed : (Fips180.keyPad key 0x5c).length < 2 ^ 60) :
    (do
      let inner ← Sha256.hash [Fips180.keyPad key 0x36 ++ text]
      Sha256.hash [Fips180.keyPad key 0x5c ++ inner]) = .ok (Fips180.hmac key text) := by
  have size : (Fips180.sha256 (Fips180.keyPad key 0x36 ++ text)).length = 32 := Fips180.Words.length_bytes _
  rw [Sha256.hash_singleton short, ok_bind, Sha256.hash_singleton (by rw [length_append]; omega), Fips180.hmac]

theorem zero_key_mac_differs :
    mac (Vector.replicate 32 0).toList [[0x61, 0x62, 0x63]] ≠
      .ok (Fips180.hmac (Vector.replicate 32 0).toList [[0x61, 0x62, 0x63]].flatten) := by
  rw [← hash_hash_eq_hmac (by decide) (by decide)]
  decide +kernel

end Hmac

end Kernel31.Crypto
