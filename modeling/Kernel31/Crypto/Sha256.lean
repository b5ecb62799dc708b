import Kernel31.Elf.Slices
import Kernel31.Library.Fips180

namespace Kernel31.Crypto

open Checked Slices
open Elf (slice fromBeBytes)

def sha256DigestLen : Nat := 32

def kTable : Vector (BitVec 32) 64 := #v[
  0x428a2f98, 0x71374491, 0xb5c0fbcf, 0xe9b5dba5, 0x3956c25b, 0x59f111f1, 0x923f82a4, 0xab1c5ed5,
  0xd807aa98, 0x12835b01, 0x243185be, 0x550c7dc3, 0x72be5d74, 0x80deb1fe, 0x9bdc06a7, 0xc19bf174,
  0xe49b69c1, 0xefbe4786, 0x0fc19dc6, 0x240ca1cc, 0x2de92c6f, 0x4a7484aa, 0x5cb0a9dc, 0x76f988da,
  0x983e5152, 0xa831c66d, 0xb00327c8, 0xbf597fc7, 0xc6e00bf3, 0xd5a79147, 0x06ca6351, 0x14292967,
  0x27b70a85, 0x2e1b2138, 0x4d2c6dfc, 0x53380d13, 0x650a7354, 0x766a0abb, 0x81c2c92e, 0x92722c85,
  0xa2bfe8a1, 0xa81a664b, 0xc24b8b70, 0xc76c51a3, 0xd192e819, 0xd6990624, 0xf40e3585, 0x106aa070,
  0x19a4c116, 0x1e376c08, 0x2748774c, 0x34b0bcb5, 0x391c0cb3, 0x4ed8aa4a, 0x5b9cca4f, 0x682e6ff3,
  0x748f82ee, 0x78a5636f, 0x84c87814, 0x8cc70208, 0x90befffa, 0xa4506ceb, 0xbef9a3f7, 0xc67178f2]

def ch (x y z : BitVec 32) : BitVec 32 := (x &&& y) ^^^ (~~~x &&& z)

def maj (x y z : BitVec 32) : BitVec 32 := (x &&& y) ^^^ (x &&& z) ^^^ (y &&& z)

def bsig0 (x : BitVec 32) : BitVec 32 := x.rotateRight 2 ^^^ x.rotateRight 13 ^^^ x.rotateRight 22

def bsig1 (x : BitVec 32) : BitVec 32 := x.rotateRight 6 ^^^ x.rotateRight 11 ^^^ x.rotateRight 25

def ssig0 (x : BitVec 32) : BitVec 32 := x.rotateRight 7 ^^^ x.rotateRight 18 ^^^ (x >>> 3)

def ssig1 (x : BitVec 32) : BitVec 32 := x.rotateRight 17 ^^^ x.rotateRight 19 ^^^ (x >>> 10)

structure Sha256 where
  messageLen : Nat
  wTable : Vector (BitVec 32) 64
  bytesRemain : Vector UInt8 64
  bytesRemainLen : Nat
  h : Vector (BitVec 32) 8

namespace Sha256

def default : Sha256 where
  messageLen := 0
  wTable := Vector.replicate 64 0
  bytesRemain := Vector.replicate 64 0
  bytesRemainLen := 0
  h := #v[0x6a09e667, 0xbb67ae85, 0x3c6ef372, 0xa54ff53a, 0x510e527f, 0x9b05688c, 0x1f83d9ab, 0x5be0cd19]

def loadWord (state : Vector (BitVec 32) 64 × List UInt8) (place : Nat) : Exec (Vector (BitVec 32) 64 × List UInt8) := do
  let word ← slice state.2 0 4
  let table ← assign state.1 place (BitVec.ofNat 32 (fromBeBytes word))
  let message ← slice state.2 4 state.2.length
  pure (table, message)

def extendWord (table : Vector (BitVec 32) 64) (wTablePtr : Nat) : Exec (Vector (BitVec 32) 64) := do
  let w16 ← index table (wTablePtr - 16)
  let w15 ← index table (wTablePtr - 15)
  let w7 ← index table (wTablePtr - 7)
  let w2 ← index table (wTablePtr - 2)
  assign table wTablePtr (w16 + ssig0 w15 + w7 + ssig1 w2)

def updateWTable (self : Sha256) (message : List UInt8) : Exec Sha256 := do
  let (table, _) ← (List.range' 0 16).foldlM loadWord (self.wTable, message)
  let table ← (List.range' 16 48).foldlM extendWord table
  pure { self with wTable := table }

def hashRound (h : Vector (BitVec 32) 8) (k w : BitVec 32) : Vector (BitVec 32) 8 :=
  let ch := ch h[4] h[5] h[6]
  let temp1 := h[7] + bsig1 h[4] + ch + k + w
  let maj := maj h[0] h[1] h[2]
  let temp2 := bsig0 h[0] + maj
  let h := h.set 7 h[6]
  let h := h.set 6 h[5]
  let h := h.set 5 h[4]
  let h := h.set 4 (h[3] + temp1)
  let h := h.set 3 h[2]
  let h := h.set 2 h[1]
  let h := h.set 1 h[0]
  h.set 0 (temp1 + temp2)

def hashTurn (wTable : Vector (BitVec 32) 64) (h : Vector (BitVec 32) 8) (round : Nat) : Exec (Vector (BitVec 32) 8) := do
  let k ← index kTable round
  let w ← index wTable round
  pure (hashRound h k w)

def updateH (self : Sha256) : Exec Sha256 := do
  let h ← (List.range' 0 64).foldlM (hashTurn self.wTable) self.h
  pure { self with h := self.h.zipWith (· + ·) h }

def updateChunk (self : Sha256) (chunk : List UInt8) : Exec Sha256 := do
  let self ← self.updateWTable chunk
  self.updateH

def updateBlocks : Nat → Sha256 → List UInt8 → Exec (Sha256 × List UInt8)
  | 0, self, message => if 64 ≤ message.length then throw .recursion else pure (self, message)
  | fuel + 1, self, message =>
    if 64 ≤ message.length then do
      let chunk ← slice message 0 64
      let self ← self.updateChunk chunk
      let message ← slice message 64 message.length
      updateBlocks fuel self message
    else pure (self, message)

def updateFrom (self : Sha256) (message : List UInt8) : Exec Sha256 := do
  let (self, message) ← updateBlocks message.length self message
  if message = [] then pure self
  else do
    let bytes ← copyFromSlice self.bytesRemain 0 message.length message
    pure { self with bytesRemain := bytes, bytesRemainLen := message.length }

def buffered (self : Sha256) : Exec (Vector UInt8 64) := do
  let bytes ← slice self.bytesRemain.toList 0 self.bytesRemainLen
  copyFromSlice (Vector.replicate 64 0) 0 self.bytesRemainLen bytes

def updateBytes (self : Sha256) (message : List UInt8) : Exec Sha256 :=
  if 0 < self.bytesRemainLen then
    if 64 ≤ self.bytesRemainLen + message.length then do
      let chunk ← self.buffered
      let first ← slice message 0 (64 - self.bytesRemainLen)
      let chunk ← copyFromSlice chunk self.bytesRemainLen 64 first
      let next ← self.updateChunk chunk.toList
      -- the bytes just hashed once more, not those that follow them
      let message ← slice message 0 (64 - self.bytesRemainLen)
      updateFrom { next with bytesRemainLen := 0 } message
    else do
      let stop := self.bytesRemainLen + message.length
      let bytes ← copyFromSlice self.bytesRemain self.bytesRemainLen stop message
      pure { self with bytesRemain := bytes, bytesRemainLen := stop }
  else self.updateFrom message

def u64 (value : Nat) : Exec Nat := if value < 2 ^ 64 then pure value else throw .overflow

def update (self : Sha256) (message : List UInt8) : Exec Sha256 := do
  let bits ← u64 (8 * message.length)
  let messageLen ← u64 (self.messageLen + bits)
  updateBytes { self with messageLen := messageLen } message

def finish (self : Sha256) : Exec Sha256 := do
  let chunk ← self.buffered
  let chunk ← assign chunk self.bytesRemainLen 0x80
  if 64 - 9 < self.bytesRemainLen then do
    let self ← self.updateChunk chunk.toList
    let chunk ← copyFromSlice (Vector.replicate 64 0) 56 64 (beBytes 8 self.messageLen)
    self.updateChunk chunk.toList
  else do
    let chunk ← copyFromSlice chunk 56 64 (beBytes 8 self.messageLen)
    self.updateChunk chunk.toList

def storeWord {n : Nat} (h : Vector (BitVec 32) 8) (sum : Vector UInt8 n) (i : Nat) : Exec (Vector UInt8 n) := do
  let word ← index h i
  copyFromSlice sum (4 * i) (4 * (i + 1)) (beBytes 4 word.toNat)

def digest {n : Nat} (self : Sha256) (sum : Vector UInt8 n) : Exec (Vector UInt8 n × Sha256) := do
  let self ← self.finish
  let sum ← (List.range' 0 8).foldlM (storeWord self.h) sum
  pure (sum, self)

end Sha256

section BlockFunction

theorem rotateRight_eq_rotr (word : BitVec 32) {count : Nat} (small : count < 32) :
    word.rotateRight count = Fips180.rotr count word := by
  rw [BitVec.rotateRight_def, Nat.mod_eq_of_lt small, Fips180.rotr]

theorem bsig0_eq (x : BitVec 32) : bsig0 x = Fips180.bigSigma0 x := by
  simp only [bsig0, Fips180.bigSigma0, rotateRight_eq_rotr x (show 2 < 32 by decide),
    rotateRight_eq_rotr x (show 13 < 32 by decide), rotateRight_eq_rotr x (show 22 < 32 by decide)]

theorem bsig1_eq (x : BitVec 32) : bsig1 x = Fips180.bigSigma1 x := by
  simp only [bsig1, Fips180.bigSigma1, rotateRight_eq_rotr x (show 6 < 32 by decide),
    rotateRight_eq_rotr x (show 11 < 32 by decide), rotateRight_eq_rotr x (show 25 < 32 by decide)]

theorem ssig0_eq (x : BitVec 32) : ssig0 x = Fips180.smallSigma0 x := by
  simp only [ssig0, Fips180.smallSigma0, rotateRight_eq_rotr x (show 7 < 32 by decide),
    rotateRight_eq_rotr x (show 18 < 32 by decide)]

theorem ssig1_eq (x : BitVec 32) : ssig1 x = Fips180.smallSigma1 x := by
  simp only [ssig1, Fips180.smallSigma1, rotateRight_eq_rotr x (show 17 < 32 by decide),
    rotateRight_eq_rotr x (show 19 < 32 by decide)]

theorem kTable_eq_constant : ∀ t : Fin 64, getElem kTable t.val t.isLt = Fips180.constant t := by decide +kernel

theorem fromBeBytes_eq (bytes : List UInt8) : fromBeBytes bytes = Fips180.fromBytes bytes := by
  simp only [fromBeBytes, Elf.fromLeBytes, List.foldr_reverse, Fips180.fromBytes, Nat.add_comm]

def hashWords (h : Vector (BitVec 32) 8) : Fips180.Words := ⟨h[0], h[1], h[2], h[3], h[4], h[5], h[6], h[7]⟩

theorem hashWords_default : hashWords Sha256.default.h = Fips180.initial := by decide +kernel

theorem hashWords_hashRound (h : Vector (BitVec 32) 8) (k w : BitVec 32) :
    hashWords (Sha256.hashRound h k w) = Fips180.round k w (hashWords h) := by
  simp [hashWords, Sha256.hashRound, Fips180.round, bsig0_eq, bsig1_eq, ch, Fips180.ch, maj, Fips180.maj]

namespace Sha256

def Scheduled (table : Vector (BitVec 32) 64) (block : List UInt8) (count : Nat) : Prop :=
  ∀ t < count, table[t]? = some (Fips180.schedule block t)

variable {table : Vector (BitVec 32) 64} {block : List UInt8} {i : Nat}

theorem Scheduled.assign (filled : Scheduled table block i) (inside : i < 64) {word : BitVec 32}
    (next : word = Fips180.schedule block i) :
    Slices.assign table i word = .ok (table.set i word) ∧ Scheduled (table.set i word) block (i + 1) := by
  refine ⟨assign_ok inside word, fun t small => ?_⟩
  rw [Vector.getElem?_set]
  by_cases last : i = t
  · rw [if_pos last, ← last, next]
  · rw [if_neg last]
    exact filled t (by omega)

theorem loadWord_rule (size : block.length = 64) (small : i < 16) (filled : Scheduled table block i) :
    ∃ next, loadWord (table, block.drop (4 * i)) i = .ok (next, block.drop (4 * (i + 1))) ∧ Scheduled next block (i + 1) := by
  have left : (block.drop (4 * i)).length = 64 - 4 * i := by rw [List.length_drop, size]
  have word : BitVec.ofNat 32 (fromBeBytes ((block.drop (4 * i)).take 4)) = Fips180.schedule block i := by
    rw [Fips180.schedule, if_pos small, fromBeBytes_eq]
  obtain ⟨stored, filled⟩ := filled.assign (by omega) word
  refine ⟨_, ?_, filled⟩
  rw [loadWord, slice_prefix (by rw [left]; omega), ok_bind, stored, ok_bind, slice_suffix (by rw [left]; omega), ok_bind,
    List.drop_drop]
  rfl

theorem extendWord_rule (low : 16 ≤ i) (high : i < 64) (filled : Scheduled table block i) :
    ∃ next, extendWord table i = .ok next ∧ Scheduled next block (i + 1) := by
  have word : Fips180.schedule block (i - 16) + ssig0 (Fips180.schedule block (i - 15)) +
      Fips180.schedule block (i - 7) + ssig1 (Fips180.schedule block (i - 2)) = Fips180.schedule block i := by
    conv_rhs => rw [Fips180.schedule, if_neg (by omega), ← ssig0_eq, ← ssig1_eq]
    ac_rfl
  obtain ⟨stored, filled'⟩ := filled.assign high word
  refine ⟨_, ?_, filled'⟩
  rw [extendWord, index_ok (filled (i - 16) (by omega)), ok_bind, index_ok (filled (i - 15) (by omega)), ok_bind,
    index_ok (filled (i - 7) (by omega)), ok_bind, index_ok (filled (i - 2) (by omega)), ok_bind, stored]

theorem updateWTable_rule (self : Sha256) (size : block.length = 64) :
    ∃ table, self.updateWTable block = .ok { self with wTable := table } ∧ Scheduled table block 64 := by
  obtain ⟨⟨loaded, rest⟩, first, -, filled⟩ := @foldlM_range' _ _ loadWord
    (fun i state => state.2 = block.drop (4 * i) ∧ Scheduled state.1 block i) 0 16 (self.wTable, block)
    ⟨rfl, fun t none => absurd none (Nat.not_lt_zero t)⟩ (by
      rintro i ⟨table, message⟩ - small ⟨rfl, filled⟩
      obtain ⟨next, run, filled⟩ := loadWord_rule size (by omega) filled
      exact ⟨_, run, rfl, filled⟩)
  obtain ⟨table, second, filled⟩ := @foldlM_range' _ _ extendWord (fun i table => Scheduled table block i) 16 48 loaded
    filled fun i table low high filled => extendWord_rule low (by omega) filled
  refine ⟨table, ?_, filled⟩
  rw [updateWTable, first, ok_bind]
  simp only [second, ok_bind]
  rfl

theorem hashTurn_rule (filled : Scheduled table block 64) {t : Nat} (small : t < 64) (h : Vector (BitVec 32) 8) :
    ∃ next, hashTurn table h t = .ok next ∧
      hashWords next = Fips180.round (Fips180.constant t) (Fips180.schedule block t) (hashWords h) := by
  have constant : kTable[t]? = some (Fips180.constant t) :=
    (Vector.getElem?_eq_getElem small).trans (congrArg some (kTable_eq_constant ⟨t, small⟩))
  refine ⟨hashRound h (Fips180.constant t) (Fips180.schedule block t), ?_, hashWords_hashRound _ _ _⟩
  rw [hashTurn, index_ok constant, ok_bind, index_ok (filled t small), ok_bind]
  rfl

theorem hashWords_zipWith (h h' : Vector (BitVec 32) 8) :
    hashWords (h.zipWith (· + ·) h') = (hashWords h').add (hashWords h) := by
  simp only [hashWords, Vector.getElem_zipWith, Fips180.Words.add, BitVec.add_comm]

theorem updateH_rule (self : Sha256) (filled : Scheduled self.wTable block 64) :
    ∃ h, self.updateH = .ok { self with h := h } ∧ hashWords h = Fips180.compress (hashWords self.h) block := by
  obtain ⟨h, run, rounds⟩ := @foldlM_range' _ _ (hashTurn self.wTable)
    (fun t h => hashWords h =
      (List.range t).foldl (fun v t => Fips180.round (Fips180.constant t) (Fips180.schedule block t) v) (hashWords self.h))
    0 64 self.h rfl (by
      intro t h _ small before
      obtain ⟨next, run, turn⟩ := hashTurn_rule filled (by omega : t < 64) h
      exact ⟨next, run, by rw [turn, before, List.range_succ, List.foldl_append]; rfl⟩)
  refine ⟨self.h.zipWith (· + ·) h, ?_, ?_⟩
  · rw [updateH, run]
    rfl
  · rw [hashWords_zipWith, rounds, Fips180.compress]

structure Compressed (before after : Sha256) (blocks : List (List UInt8)) : Prop where
  hash : hashWords after.h = blocks.foldl Fips180.compress (hashWords before.h)
  messageLen : after.messageLen = before.messageLen
  bytesRemain : after.bytesRemain = before.bytesRemain
  bytesRemainLen : after.bytesRemainLen = before.bytesRemainLen

theorem Compressed.refl (self : Sha256) : Compressed self self [] := ⟨rfl, rfl, rfl, rfl⟩

theorem Compressed.trans {first second third : Sha256} {blocks blocks' : List (List UInt8)}
    (left : Compressed first second blocks) (right : Compressed second third blocks') :
    Compressed first third (blocks ++ blocks') where
  hash := by rw [right.hash, left.hash, List.foldl_append]
  messageLen := right.messageLen.trans left.messageLen
  bytesRemain := right.bytesRemain.trans left.bytesRemain
  bytesRemainLen := right.bytesRemainLen.trans left.bytesRemainLen

theorem updateChunk_rule (self : Sha256) (size : block.length = 64) :
    ∃ next, self.updateChunk block = .ok next ∧ Compressed self next [block] := by
  obtain ⟨table, first, filled⟩ := self.updateWTable_rule size
  obtain ⟨h, second, hash⟩ := updateH_rule { self with wTable := table } filled
  refine ⟨{ self with wTable := table, h := h }, ?_, hash, rfl, rfl, rfl⟩
  rw [updateChunk, first, ok_bind]
  exact second

end Sha256

end BlockFunction

end Kernel31.Crypto
