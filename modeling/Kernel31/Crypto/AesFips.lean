import Kernel31.Crypto.AesLayers
import Kernel31.Library.Fips197

namespace Kernel31.Crypto

open Checked
open List hiding Vector
open Gf256 (mul product)

namespace Aes

def affineInv (byte : UInt8) : UInt8 :=
  ⟨byte.toBitVec.rotateLeft 1 ^^^ byte.toBitVec.rotateLeft 3 ^^^ byte.toBitVec.rotateLeft 6 ^^^ 0x05#8⟩

theorem affine_affineInv (byte : UInt8) : Fips197.affine (affineInv byte) = byte := by
  revert byte
  apply Gf256.forall_byte
  decide +kernel

theorem product_affineInv (byte : UInt8) (nonzero : byte ≠ 0) : product 8 byte (affineInv (lookup sbox byte)) = 1 := by
  have table : (List.range 256).zipWith (fun n entry => product 8 (UInt8.ofNat n) (affineInv entry)) sbox.toList =
      (List.range 256).map fun n => if n = 0 then 0 else 1 := by decide +kernel
  have positive : byte.toNat ≠ 0 := fun zero => nonzero (UInt8.toNat_inj.mp zero)
  have small : byte.toNat < 256 := byte.toNat_lt
  have read : sbox.toList[byte.toNat]? = some (lookup sbox byte) := by
    rw [getElem?_eq_getElem (by simp; exact small), Vector.getElem_toList]
    rfl
  have entry := congrArg (fun list => list[byte.toNat]?) table
  simpa only [getElem?_zipWith, getElem?_map, getElem?_range small, read, Option.map_some, UInt8.ofNat_toNat,
    if_neg positive, Option.some.injEq] using entry

theorem lookup_sbox (byte : UInt8) : lookup sbox byte = Fips197.sBox byte := by
  rw [Fips197.sBox]
  by_cases zero : byte = 0
  · rw [zero, Gf256.inv_zero]
    rfl
  · have inverse : mul byte (affineInv (lookup sbox byte)) = 1 := by
      rw [Gf256.mul_eq_product, product_affineInv byte zero]
    rw [Gf256.inv_eq inverse, affine_affineInv]

def cells (block : Block) : Fips197.State := cell block

theorem cells_subBytes (block : Block) : cells (subBytes block) = Fips197.subBytes (cells block) := by
  funext row col
  exact (cell_subBytes block row col).trans (lookup_sbox _)

theorem cells_shiftRows (block : Block) : cells (shiftRows block) = Fips197.shiftRows (cells block) := by
  funext row col
  exact cell_shiftRows block row col

theorem cells_mixColumns (block : Block) : cells (mixColumns block) = Fips197.mixColumns (cells block) := by
  funext row col
  refine (cell_mixColumns_row block row col).trans ?_
  rw [Fips197.mixColumns_row, mixRow]
  simp only [cells]
  ac_rfl

variable {schedule : Nat → Fips197.Word} {round rounds : Nat} {current : Block}

theorem cells_addRoundKey {roundKey : Block}
    (same : ∀ row col, cell roundKey row col = schedule (4 * round + col.val) row) (block : Block) :
    cells (addRoundKey block roundKey) = Fips197.addRoundKey schedule round (cells block) := by
  funext row col
  rw [cells, cell_addRoundKey, same]
  rfl

def Holds {rounds : Nat} (roundKeys : Vector Block (rounds + 1)) (schedule : Nat → Fips197.Word) (upto : Nat) : Prop :=
  ∀ round : Fin (rounds + 1), round.val < upto →
    ∀ row col, cell roundKeys[round] row col = schedule (4 * round.val + col.val) row

theorem cells_encryptBlock {roundKeys : Vector Block (rounds + 1)}
    (holds : Holds roundKeys schedule (rounds + 1)) (block : Block) :
    cells (encryptBlock roundKeys block) = Fips197.cipher rounds schedule (cells block) := by
  have numbers : List.range' 1 (rounds - 1) = (List.finRange (rounds - 1)).map fun i => i.val + 1 := by
    apply ext_getElem
    · simp
    · intro i _ _
      simp [Nat.add_comm]
  have key (round : Nat) (inside : round < rounds + 1) (row col : Fin 4) :
      cell roundKeys[round] row col = schedule (4 * round + col.val) row := holds ⟨round, inside⟩ inside row col
  have turn (state : Block) (round : Nat) (inside : round < rounds + 1) : cells (encryptRound state roundKeys[round]) =
      Fips197.addRoundKey schedule round (Fips197.mixColumns (Fips197.shiftRows (Fips197.subBytes (cells state)))) := by
    rw [← cells_subBytes, ← cells_shiftRows, ← cells_mixColumns, ← cells_addRoundKey (key round inside)]
    rfl
  have first := cells_addRoundKey (key 0 (Nat.succ_pos rounds)) block
  have last := cells_addRoundKey (key rounds (Nat.lt_succ_self rounds))
  rw [Fips197.cipher, numbers, foldl_map, ← first, encryptBlock]
  simp only [last, cells_shiftRows, cells_subBytes]
  congr 3
  refine (foldl_hom cells ?_).symm
  intro state i
  exact (turn state (i.val + 1) (by omega)).symm

theorem cell_firstColumn (word : Fin 4 → UInt8) (previousKey current : Block) (row : Fin 4) :
    cell (firstColumn word previousKey current) row 0 = word row ^^^ cell previousKey row 0 := by
  have written : firstColumn word previousKey current = setCell (setCell (setCell (setCell current 0 0
      (word 0 ^^^ cell previousKey 0 0)) 1 0 (word 1 ^^^ cell previousKey 1 0)) 2 0 (word 2 ^^^ cell previousKey 2 0)) 3 0
      (word 3 ^^^ cell previousKey 3 0) := rfl
  rw [written]
  simp only [cell_setCell]
  fin_cases row <;> simp

theorem cell_nextColumn (previousKey current : Block) (before : Fin 3) (row col : Fin 4) :
    cell (nextColumn previousKey current before) row col =
      if col = before.succ then cell previousKey row before.succ ^^^ cell current row before.castSucc
      else cell current row col := by
  have turn (current : Block) (row : Fin 4) : nextByte previousKey before current row =
      setCell current row before.succ (cell previousKey row before.succ ^^^ cell current row before.castSucc) := rfl
  have apart : before.succ ≠ before.castSucc := by
    intro same
    have value := congrArg Fin.val same
    simp at value
  simp only [nextColumn, foldl_cons, foldl_nil, turn, cell_setCell, apart, and_false, if_false]
  by_cases same : before.succ = col
  · rw [if_pos same.symm, same]
    fin_cases row <;> simp
  · simp [same, Ne.symm same]

theorem cell_otherColumns (previousKey current : Block) (row : Fin 4) :
    cell (otherColumns previousKey current) row 0 = cell current row 0 ∧
    ∀ before : Fin 3, cell (otherColumns previousKey current) row before.succ =
      cell previousKey row before.succ ^^^ cell (otherColumns previousKey current) row before.castSucc := by
  constructor
  · simp only [otherColumns, foldl_cons, foldl_nil, cell_nextColumn]
    rfl
  · intro before
    simp only [otherColumns, foldl_cons, foldl_nil, cell_nextColumn]
    fin_cases before <;> rfl

theorem rc_table : ∀ i : Fin 15, rc[i] = (product 8 2)^[i.val] 1 := by
  decide

theorem rc_eq (i : Nat) (inside : i < 15) : rc[i] = (mul 2)^[i] 1 := by
  rw [funext (Gf256.mul_eq_product 2)]
  exact rc_table ⟨i, inside⟩

theorem Holds.set {roundKeys : Vector Block (rounds + 1)} {upto : Nat} (holds : Holds roundKeys schedule upto)
    (inside : upto < rounds + 1) (same : ∀ row col, cell current row col = schedule (4 * upto + col.val) row) :
    Holds (roundKeys.set upto current) schedule (upto + 1) := by
  intro round below row col
  rw [Fin.getElem_fin, Vector.getElem_set]
  split
  · rename_i here
    rw [← here, same]
  · rename_i other
    exact holds round (by omega) row col

theorem Holds.unique {left right : Vector Block (rounds + 1)} (first : Holds left schedule (rounds + 1))
    (second : Holds right schedule (rounds + 1)) : left = right := by
  apply Vector.ext
  intro round inside
  apply cell_ext
  intro row col
  exact (first ⟨round, inside⟩ inside row col).trans (second ⟨round, inside⟩ inside row col).symm

theorem cell_roundKey {k : Nat} {key : Nat → UInt8} {word : Fin 4 → UInt8} {previousKey : Block}
    (positive : 0 < k) (above : k ≤ round)
    (previous : ∀ row col, cell previousKey row col = Fips197.keyExpansion (4 * k) key (4 * (round - k) + col.val) row)
    (first : ∀ row, word row =
      Fips197.scheduleCore (4 * k) (4 * round) (Fips197.keyExpansion (4 * k) key (4 * round - 1)) row)
    (plain : ∀ (before : Fin 3) last, Fips197.scheduleCore (4 * k) (4 * round + (before.val + 1)) last = last)
    (row col : Fin 4) :
    cell (otherColumns previousKey (firstColumn word previousKey current)) row col =
      Fips197.keyExpansion (4 * k) key (4 * round + col.val) row := by
  obtain ⟨zeroth, others⟩ := cell_otherColumns previousKey (firstColumn word previousKey current) row
  induction col using Fin.induction with
  | zero =>
    have here : 4 * round + (0 : Fin 4).val = 4 * round := Nat.add_zero _
    have back : 4 * (round - k) + (0 : Fin 4).val = 4 * round - 4 * k := by
      rw [Nat.mul_sub]
      rfl
    rw [zeroth, cell_firstColumn, first, previous, UInt8.xor_comm, here, back,
      Fips197.keyExpansion_above key (by omega) (show 4 * k ≤ 4 * round by omega)]
  | succ before ih =>
    rw [others, ih, previous, Fips197.keyExpansion_above key (by omega) (show 4 * k ≤ 4 * round + before.succ.val by omega)]
    have back : 4 * round + before.succ.val - 4 * k = 4 * (round - k) + before.succ.val := by omega
    have last : 4 * round + before.succ.val - 1 = 4 * round + before.castSucc.val := by simp
    rw [back, last, Fin.val_succ, plain]

end Aes

open Aes

def byteOf (bytes : List UInt8) (place : Nat) : UInt8 := bytes.getD place 0

theorem cell_eq_byteOf (block : Block) (row col : Fin 4) : cell block row col = byteOf block.toList (4 * col.val + row.val) := by
  have inside : 4 * col.val + row.val < block.toList.length := by
    rw [Vector.length_toList]
    omega
  rw [byteOf, getD_eq_getElem?_getD, getElem?_eq_getElem inside, Option.getD_some, Vector.getElem_toList]
  rfl

theorem cells_eq_toState (block : Block) : cells block = Fips197.toState (byteOf block.toList) := by
  funext row col
  rw [cells, cell_eq_byteOf, Nat.add_comm]
  rfl

theorem Aes.Holds.encryptBlock_eq {nk rounds : Nat} {key : Nat → UInt8} {roundKeys : Vector Block (rounds + 1)}
    (holds : Holds roundKeys (Fips197.keyExpansion nk key) (rounds + 1)) (block : Block) (row col : Fin 4) :
    (encryptBlock roundKeys block)[4 * col.val + row.val] =
      Fips197.encrypt nk rounds key (byteOf block.toList) row col := by
  rw [Fips197.encrypt, ← cells_eq_toState]
  exact congrFun (congrFun (cells_encryptBlock holds block) row) col

namespace Aes128

theorem expandRound_holds {key : Nat → UInt8} {keys : Vector Block (aes128Round + 1)} (i : Fin aes128Round)
    (holds : Holds keys (Fips197.keyExpansion (4 * 1) key) (i.val + 1)) :
    Holds (expandRound keys i) (Fips197.keyExpansion (4 * 1) key) (i.val + 1 + 1) := by
  have bound : i.val < 10 := i.isLt
  have previous (row col : Fin 4) :
      cell keys[i.val] row col = Fips197.keyExpansion (4 * 1) key (4 * (i.val + 1 - 1) + col.val) row :=
    holds ⟨i.val, by omega⟩ (Nat.lt_succ_self _) row col
  refine holds.set (by omega) (cell_roundKey Nat.one_pos (by omega) previous ?_ ?_)
  · intro row
    have core : 4 * (i.val + 1) % (4 * 1) = 0 := by omega
    have number : 4 * (i.val + 1) / (4 * 1) = i.val + 1 := by omega
    have last : 4 * (i.val + 1) - 1 = 4 * i.val + 3 := by omega
    have bottom : Fips197.keyExpansion (4 * 1) key (4 * i.val + 3) (row + 1) = cell keys[i.val] (row + 1) 3 :=
      (previous (row + 1) 3).symm
    rw [Fips197.scheduleCore, if_pos core, number, last, Fips197.xorWord, Fips197.subWord, Fips197.rotWord, bottom,
      Fips197.rcon, Nat.add_sub_cancel, ← rc_eq i.val (by omega), ← lookup_sbox, UInt8.xor_comm]
    rfl
  · intro before last
    have place : (4 * (i.val + 1) + (before.val + 1)) % (4 * 1) ≠ 0 := by omega
    rw [Fips197.scheduleCore, if_neg place, if_neg (by omega)]

theorem setKey_holds (now : Aes128) {key : List UInt8} (sized : key.length = aes128KeySize) :
    ∃ cipher, now.setKey key = .ok cipher ∧
      Holds cipher.roundKeys (Fips197.keyExpansion 4 (byteOf key)) (aes128Round + 1) := by
  obtain ⟨first, contents, run⟩ := now.setKey_returns sized
  refine ⟨_, run, ?_⟩
  apply Lists.foldl_finRange_rule (fun turns keys => Holds keys (Fips197.keyExpansion (4 * 1) (byteOf key)) (turns + 1))
  · exact fun i keys holds => expandRound_holds i holds
  · have none : Holds now.roundKeys (Fips197.keyExpansion (4 * 1) (byteOf key)) 0 := fun round below => absurd below (by omega)
    refine none.set (Nat.succ_pos _) fun row col => ?_
    rw [Nat.mul_zero, Nat.zero_add, Fips197.keyExpansion_below _ (by omega), cell_eq_byteOf, contents]

end Aes128

namespace Aes256

theorem firstWord_eq {key : Nat → UInt8} {i : Nat} (bound : i < 13) {w1 : Block}
    (previous : ∀ row col, cell w1 row col = Fips197.keyExpansion (4 * 2) key (4 * (i + 1) + col.val) row) (row : Fin 4) :
    (if (i + 2) % 2 = 0 then (if row = 0 then rc[(i + 1) / 2] else 0) ^^^ lookup sbox (cell w1 (row + 1) 3)
      else lookup sbox (cell w1 row 3)) =
      Fips197.scheduleCore (4 * 2) (4 * (i + 2)) (Fips197.keyExpansion (4 * 2) key (4 * (i + 2) - 1)) row := by
  have last : 4 * (i + 2) - 1 = 4 * (i + 1) + 3 := by omega
  have bottom (row : Fin 4) : Fips197.keyExpansion (4 * 2) key (4 * (i + 1) + 3) row = cell w1 row 3 := (previous row 3).symm
  rw [Fips197.scheduleCore, last]
  by_cases even : (i + 2) % 2 = 0
  · have core : 4 * (i + 2) % (4 * 2) = 0 := by omega
    have number : 4 * (i + 2) / (4 * 2) - 1 = (i + 1) / 2 := by omega
    rw [if_pos even, if_pos core, Fips197.xorWord, Fips197.subWord, Fips197.rotWord, bottom, Fips197.rcon, number,
      ← rc_eq ((i + 1) / 2) (by omega), ← lookup_sbox, UInt8.xor_comm]
  · have core : 4 * (i + 2) % (4 * 2) ≠ 0 := by omega
    have middle : 6 < 4 * 2 ∧ 4 * (i + 2) % (4 * 2) = 4 := by omega
    rw [if_neg even, if_neg core, if_pos middle, Fips197.subWord, bottom, ← lookup_sbox]

theorem expandRound_holds {key : Nat → UInt8} {keys : Vector Block (aes256Round + 1)} (i : Fin (aes256Round - 1))
    (holds : Holds keys (Fips197.keyExpansion (4 * 2) key) (i.val + 2)) :
    Holds (expandRound keys i) (Fips197.keyExpansion (4 * 2) key) (i.val + 2 + 1) := by
  have bound : i.val < 13 := i.isLt
  have inside : i.val + 2 < aes256Round + 1 := by
    change i.val + 2 < 15
    omega
  have previous (row col : Fin 4) :
      cell keys[i.val] row col = Fips197.keyExpansion (4 * 2) key (4 * (i.val + 2 - 2) + col.val) row :=
    holds ⟨i.val, by omega⟩ (by simp only; omega) row col
  have before (row col : Fin 4) :
      cell keys[i.val + 1] row col = Fips197.keyExpansion (4 * 2) key (4 * (i.val + 1) + col.val) row :=
    holds ⟨i.val + 1, by omega⟩ (Nat.lt_succ_self _) row col
  refine holds.set inside (cell_roundKey Nat.two_pos (by omega) previous ?_ ?_)
  · intro row
    exact firstWord_eq bound before row
  · intro column last
    have place : (4 * (i.val + 2) + (column.val + 1)) % (4 * 2) ≠ 0 := by omega
    have middle : (4 * (i.val + 2) + (column.val + 1)) % (4 * 2) ≠ 4 := by omega
    rw [Fips197.scheduleCore, if_neg place, if_neg fun both => middle both.2]

theorem setKey_holds (now : Aes256) {key : List UInt8} (sized : key.length = aes256KeySize) :
    ∃ cipher, now.setKey key = .ok cipher ∧
      Holds cipher.roundKeys (Fips197.keyExpansion 8 (byteOf key)) (aes256Round + 1) := by
  obtain ⟨first, second, front, back, run⟩ := now.setKey_returns sized
  refine ⟨_, run, ?_⟩
  apply Lists.foldl_finRange_rule (fun turns keys => Holds keys (Fips197.keyExpansion (4 * 2) (byteOf key)) (turns + 2))
  · exact fun i keys holds => expandRound_holds i holds
  · have none : Holds now.roundKeys (Fips197.keyExpansion (4 * 2) (byteOf key)) 0 := fun round below => absurd below (by omega)
    have one : Holds (now.roundKeys.set 0 first) (Fips197.keyExpansion (4 * 2) (byteOf key)) 1 := by
      refine none.set (Nat.succ_pos _) fun row col => ?_
      rw [Nat.mul_zero, Nat.zero_add, Fips197.keyExpansion_below _ (by omega), cell_eq_byteOf, front, byteOf, byteOf,
        getD_eq_getElem?_getD, getD_eq_getElem?_getD, getElem?_take_of_lt (by omega)]
    refine one.set (by decide) fun row col => ?_
    rw [Fips197.keyExpansion_below _ (by omega), cell_eq_byteOf, back, byteOf, byteOf, getD_eq_getElem?_getD,
      getD_eq_getElem?_getD, getElem?_drop]
    congr 2
    omega

end Aes256

/-- The table-driven ciphers compute the cipher of the standard. -/
theorem aes_eq_fips197 :
    (∀ (now : Aes128) (key : List UInt8) (block : Vector UInt8 16), key.length = aes128KeySize →
      ∃ cipher output, now.setKey key = .ok cipher ∧ cipher.blockEncrypt block = .ok (output, cipher) ∧
        ∀ row col : Fin 4, output[4 * col.val + row.val] =
          Fips197.encrypt 4 10 (byteOf key) (byteOf block.toList) row col) ∧
    ∀ (now : Aes256) (key : List UInt8) (block : Vector UInt8 16), key.length = aes256KeySize →
      ∃ cipher output, now.setKey key = .ok cipher ∧ cipher.blockEncrypt block = .ok (output, cipher) ∧
        ∀ row col : Fin 4, output[4 * col.val + row.val] =
          Fips197.encrypt 8 14 (byteOf key) (byteOf block.toList) row col := by
  constructor
  · intro now key block sized
    obtain ⟨cipher, run, holds⟩ := now.setKey_holds sized
    exact ⟨cipher, encryptBlock cipher.roundKeys block, run, rfl, holds.encryptBlock_eq block⟩
  · intro now key block sized
    obtain ⟨cipher, run, holds⟩ := now.setKey_holds sized
    exact ⟨cipher, encryptBlock cipher.roundKeys block, run, rfl, holds.encryptBlock_eq block⟩

def testKey128 : List UInt8 :=
  [0x2b, 0x7e, 0x15, 0x16, 0x28, 0xae, 0xd2, 0xa6, 0xab, 0xf7, 0x15, 0x88, 0x09, 0xcf, 0x4f, 0x3c]

def testKey256 : List UInt8 :=
  [0x60, 0x3d, 0xeb, 0x10, 0x15, 0xca, 0x71, 0xbe, 0x2b, 0x73, 0xae, 0xf0, 0x85, 0x7d, 0x77, 0x81,
    0x1f, 0x35, 0x2c, 0x07, 0x3b, 0x61, 0x08, 0xd7, 0x2d, 0x98, 0x10, 0xa3, 0x09, 0x14, 0xdf, 0xf4]

def testBlock : Block :=
  #v[0x6b, 0xc1, 0xbe, 0xe2, 0x2e, 0x40, 0x9f, 0x96, 0xe9, 0x3d, 0x7e, 0x11, 0x73, 0x93, 0x17, 0x2a]

theorem test_keys_follow_fips197 :
    (∃ cipher output, Aes128.default.setKey testKey128 = .ok cipher ∧
      cipher.blockEncrypt testBlock = .ok (output, cipher) ∧ ∀ row col : Fin 4, output[4 * col.val + row.val] =
        Fips197.encrypt 4 10 (byteOf testKey128) (byteOf testBlock.toList) row col) ∧
    ∃ cipher output, Aes256.default.setKey testKey256 = .ok cipher ∧
      cipher.blockEncrypt testBlock = .ok (output, cipher) ∧ ∀ row col : Fin 4, output[4 * col.val + row.val] =
        Fips197.encrypt 8 14 (byteOf testKey256) (byteOf testBlock.toList) row col :=
  ⟨aes_eq_fips197.1 _ _ _ (by decide), aes_eq_fips197.2 _ _ _ (by decide)⟩

end Kernel31.Crypto
