import Kernel31.Crypto.Aes
import Kernel31.Library.Gf256
import Kernel31.Library.Lists

namespace Kernel31.Crypto

open Checked Gf256 BlockCipher AdjoinRoot
open List hiding Vector
open Gf256 (mul value product)

namespace Aes

def cell (block : Block) (row col : Fin 4) : UInt8 :=
  getElem block (4 * col.val + row.val) (cell_inside row col)

theorem cell_ext {left right : Block} (same : ∀ row col, cell left row col = cell right row col) : left = right := by
  apply Vector.ext
  intro i inside
  have here := same ⟨i % 4, by omega⟩ ⟨i / 4, by omega⟩
  simpa only [cell, show 4 * (i / 4) + i % 4 = i by omega] using here

def setCell (block : Block) (row col : Fin 4) (value : UInt8) : Block :=
  block.set (4 * col.val + row.val) value (cell_inside row col)

theorem cell_setCell (block : Block) (row col row' col' : Fin 4) (value : UInt8) :
    cell (setCell block row col value) row' col' = if row = row' ∧ col = col' then value else cell block row' col' := by
  have place : 4 * col.val + row.val = 4 * col'.val + row'.val ↔ row = row' ∧ col = col' := by omega
  simp only [cell, setCell, Vector.getElem_set, place]

theorem cell_addRoundKey (block roundKey : Block) (row col : Fin 4) :
    cell (addRoundKey block roundKey) row col = cell block row col ^^^ cell roundKey row col := by
  simp only [cell, addRoundKey, Vector.getElem_zipWith]

theorem cell_mixColumn (rows : Fin 4 → UInt8 → UInt8 → UInt8 → UInt8 → UInt8) (block : Block) (col row' col' : Fin 4) :
    cell (mixColumn (rows 0) (rows 1) (rows 2) (rows 3) block col) row' col' =
      if col = col' then rows row' (cell block 0 col) (cell block 1 col) (cell block 2 col) (cell block 3 col)
      else cell block row' col' := by
  have written : mixColumn (rows 0) (rows 1) (rows 2) (rows 3) block col = setCell (setCell (setCell (setCell block 0 col
      (rows 0 (cell block 0 col) (cell block 1 col) (cell block 2 col) (cell block 3 col)))
      1 col (rows 1 (cell block 0 col) (cell block 1 col) (cell block 2 col) (cell block 3 col)))
      2 col (rows 2 (cell block 0 col) (cell block 1 col) (cell block 2 col) (cell block 3 col)))
      3 col (rows 3 (cell block 0 col) (cell block 1 col) (cell block 2 col) (cell block 3 col)) := rfl
  rw [written]
  simp only [cell_setCell]
  by_cases same : col = col'
  · fin_cases row' <;> simp [same]
  · simp [same]

theorem cell_mixColumn_all (rows : Fin 4 → UInt8 → UInt8 → UInt8 → UInt8 → UInt8) (block : Block) (row col : Fin 4) :
    cell (([0, 1, 2, 3] : List (Fin 4)).foldl (mixColumn (rows 0) (rows 1) (rows 2) (rows 3)) block) row col =
      rows row (cell block 0 col) (cell block 1 col) (cell block 2 col) (cell block 3 col) := by
  simp only [foldl_cons, foldl_nil, cell_mixColumn]
  fin_cases col <;> rfl

section

variable (block : Block)

theorem cell_subBytes (row col : Fin 4) : cell (subBytes block) row col = lookup sbox (cell block row col) := by
  simp only [cell, subBytes, Vector.getElem_map]

theorem cell_subBytesInv (row col : Fin 4) : cell (subBytesInv block) row col = lookup sboxInv (cell block row col) := by
  simp only [cell, subBytesInv, Vector.getElem_map]

theorem cell_shiftRow (row col0 col1 col2 col3 row' col : Fin 4) :
    cell (shiftRow block row col0 col1 col2 col3) row' col =
      if row = row' then cell block row (![col0, col1, col2, col3] col) else cell block row' col := by
  have written : shiftRow block row col0 col1 col2 col3 = setCell (setCell (setCell (setCell block row 0 (cell block row col0))
      row 1 (cell block row col1)) row 2 (cell block row col2)) row 3 (cell block row col3) := rfl
  rw [written]
  simp only [cell_setCell]
  by_cases same : row = row'
  · fin_cases col <;> simp [same]
  · simp [same]

theorem cell_shiftRows (row col : Fin 4) : cell (shiftRows block) row col = cell block row (col + row) := by
  simp only [shiftRows, cell_shiftRow]
  fin_cases row <;> fin_cases col <;> rfl

theorem cell_shiftRowsInv (row col : Fin 4) : cell (shiftRowsInv block) row col = cell block row (col - row) := by
  simp only [shiftRowsInv, cell_shiftRow]
  fin_cases row <;> fin_cases col <;> rfl

theorem cell_mixColumns (row col : Fin 4) :
    cell (mixColumns block) row col = lookup mul2 (cell block row col) ^^^ cell block (row + 3) col ^^^
      cell block (row + 2) col ^^^ lookup mul3 (cell block (row + 1) col) := by
  have each := cell_mixColumn_all ![fun a0 a1 a2 a3 => lookup mul2 a0 ^^^ a3 ^^^ a2 ^^^ lookup mul3 a1,
    fun a0 a1 a2 a3 => lookup mul2 a1 ^^^ a0 ^^^ a3 ^^^ lookup mul3 a2,
    fun a0 a1 a2 a3 => lookup mul2 a2 ^^^ a1 ^^^ a0 ^^^ lookup mul3 a3,
    fun a0 a1 a2 a3 => lookup mul2 a3 ^^^ a2 ^^^ a1 ^^^ lookup mul3 a0] block row col
  refine each.trans ?_
  fin_cases row <;> rfl

theorem cell_mixColumnsInv (row col : Fin 4) :
    cell (mixColumnsInv block) row col = lookup mul9 (cell block (row + 3) col) ^^^
      lookup mul11 (cell block (row + 1) col) ^^^ lookup mul13 (cell block (row + 2) col) ^^^
      lookup mul14 (cell block row col) := by
  have each := cell_mixColumn_all ![
    fun a0 a1 a2 a3 => lookup mul9 a3 ^^^ lookup mul11 a1 ^^^ lookup mul13 a2 ^^^ lookup mul14 a0,
    fun a0 a1 a2 a3 => lookup mul9 a0 ^^^ lookup mul11 a2 ^^^ lookup mul13 a3 ^^^ lookup mul14 a1,
    fun a0 a1 a2 a3 => lookup mul9 a1 ^^^ lookup mul11 a3 ^^^ lookup mul13 a0 ^^^ lookup mul14 a2,
    fun a0 a1 a2 a3 => lookup mul9 a2 ^^^ lookup mul11 a0 ^^^ lookup mul13 a1 ^^^ lookup mul14 a3] block row col
  refine each.trans ?_
  fin_cases row <;> rfl

end

theorem lookup_of_list {table : Vector UInt8 256} {entry : UInt8 → UInt8}
    (listed : table.toList = (List.range 256).map fun n => entry (UInt8.ofNat n)) (byte : UInt8) :
    lookup table byte = entry byte := by
  have inside : byte.toNat < table.toList.length := by
    rw [Vector.length_toList]
    exact byte.toNat_lt
  have read : lookup table byte = table.toList[byte.toNat] := by
    rw [Vector.getElem_toList]
    rfl
  rw [read]
  simp only [listed, getElem_map, getElem_range, UInt8.ofNat_toNat]

def mulTables : List (UInt8 × Vector UInt8 256) :=
  [(2, mul2), (3, mul3), (9, mul9), (11, mul11), (13, mul13), (14, mul14)]

theorem mulTables_listed : ∀ entry ∈ mulTables,
    entry.2.toList = (List.range 256).map fun n => product 8 entry.1 (UInt8.ofNat n) := by
  decide +kernel

theorem lookup_mul {factor : UInt8} {table : Vector UInt8 256} (member : (factor, table) ∈ mulTables) (byte : UInt8) :
    lookup table byte = mul factor byte := by
  rw [mul_eq_product]
  exact lookup_of_list (mulTables_listed _ member) byte

section

variable (byte : UInt8)

theorem lookup_mul2 : lookup mul2 byte = mul 2 byte := lookup_mul (by simp [mulTables]) byte

theorem lookup_mul3 : lookup mul3 byte = mul 3 byte := lookup_mul (by simp [mulTables]) byte

theorem lookup_mul9 : lookup mul9 byte = mul 9 byte := lookup_mul (by simp [mulTables]) byte

theorem lookup_mul11 : lookup mul11 byte = mul 11 byte := lookup_mul (by simp [mulTables]) byte

theorem lookup_mul13 : lookup mul13 byte = mul 13 byte := lookup_mul (by simp [mulTables]) byte

theorem lookup_mul14 : lookup mul14 byte = mul 14 byte := lookup_mul (by simp [mulTables]) byte

theorem lookup_sboxInv_sbox : lookup sboxInv (lookup sbox byte) = byte := by
  have table : sbox.toList.map (lookup sboxInv) = (List.range 256).map UInt8.ofNat := by decide +kernel
  have listed : lookup (sbox.map (lookup sboxInv)) byte = id byte := lookup_of_list (by rw [Vector.toList_map]; exact table) byte
  rwa [lookup, Fin.getElem_fin, Vector.getElem_map] at listed

theorem lookup_sbox_sboxInv : lookup sbox (lookup sboxInv byte) = byte := by
  have injective : Function.Injective (lookup sbox) := Function.LeftInverse.injective lookup_sboxInv_sbox
  have finite : Finite UInt8 := Finite.of_injective UInt8.toFin fun _ _ same => UInt8.toFin_inj.mp same
  obtain ⟨source, rfl⟩ := Finite.surjective_of_injective injective byte
  rw [lookup_sboxInv_sbox]

end

theorem value_two : value 2 = root Gf256.modulus := by
  rw [show (2 : UInt8) = Gf256.xtime 1 from rfl, value_xtime, value_one, mul_one]

theorem value_four : value 4 = root Gf256.modulus ^ 2 := by
  rw [show (4 : UInt8) = Gf256.xtime 2 from rfl, value_xtime, value_two, sq]

theorem value_eight : value 8 = root Gf256.modulus ^ 3 := by
  rw [show (8 : UInt8) = Gf256.xtime 4 from rfl, value_xtime, value_four, pow_succ' _ 2]

theorem value_coefficients :
    value 3 = value 2 + 1 ∧ value 9 = value 2 ^ 3 + 1 ∧ value 11 = value 2 ^ 3 + value 2 + 1 ∧
      value 13 = value 2 ^ 3 + value 2 ^ 2 + 1 ∧ value 14 = value 2 ^ 3 + value 2 ^ 2 + value 2 := by
  rw [show (3 : UInt8) = 2 ^^^ 1 from rfl, show (9 : UInt8) = 8 ^^^ 1 from rfl, show (11 : UInt8) = 8 ^^^ 2 ^^^ 1 from rfl,
    show (13 : UInt8) = 8 ^^^ 4 ^^^ 1 from rfl, show (14 : UInt8) = 8 ^^^ 4 ^^^ 2 from rfl]
  simp only [value_xor, value_eight, value_four, value_two, value_one, and_self]

theorem two_eq_zero : (2 : AdjoinRoot Gf256.modulus) = 0 := by
  have zero : (2 : ZMod 2) = 0 := rfl
  rw [← map_ofNat (of Gf256.modulus) 2, zero, map_zero]

noncomputable def mixRow (a b c d : UInt8) : UInt8 := mul 2 a ^^^ d ^^^ c ^^^ mul 3 b

noncomputable def mixRowInv (a b c d : UInt8) : UInt8 := mul 9 d ^^^ mul 11 b ^^^ mul 13 c ^^^ mul 14 a

theorem mixRowInv_mixRow (a b c d : UInt8) :
    mixRowInv (mixRow a b c d) (mixRow b c d a) (mixRow c d a b) (mixRow d a b c) = a := by
  apply value_injective
  obtain ⟨three, nine, eleven, thirteen, fourteen⟩ := value_coefficients
  simp only [mixRow, mixRowInv, value_xor, value_mul, three, nine, eleven, thirteen, fourteen]
  generalize value 2 = x
  linear_combination (value a * (1 + x + x ^ 2 + 2 * x ^ 3 + x ^ 4) + value b * (1 + x + 2 * x ^ 2 + 2 * x ^ 3 + x ^ 4) +
    (value c + value d) * (1 + 2 * x + x ^ 2 + 2 * x ^ 3 + x ^ 4)) * two_eq_zero

theorem mixRow_mixRowInv (a b c d : UInt8) :
    mixRow (mixRowInv a b c d) (mixRowInv b c d a) (mixRowInv c d a b) (mixRowInv d a b c) = a := by
  apply value_injective
  obtain ⟨three, nine, eleven, thirteen, fourteen⟩ := value_coefficients
  simp only [mixRow, mixRowInv, value_xor, value_mul, three, nine, eleven, thirteen, fourteen]
  generalize value 2 = x
  linear_combination (value a * (1 + x + x ^ 2 + 2 * x ^ 3 + x ^ 4) + value b * (1 + x + 2 * x ^ 2 + 2 * x ^ 3 + x ^ 4) +
    (value c + value d) * (1 + 2 * x + x ^ 2 + 2 * x ^ 3 + x ^ 4)) * two_eq_zero

theorem cell_mixColumns_row (block : Block) (row col : Fin 4) : cell (mixColumns block) row col =
    mixRow (cell block row col) (cell block (row + 1) col) (cell block (row + 2) col) (cell block (row + 3) col) := by
  rw [cell_mixColumns, lookup_mul2, lookup_mul3, mixRow]

theorem cell_mixColumnsInv_row (block : Block) (row col : Fin 4) : cell (mixColumnsInv block) row col =
    mixRowInv (cell block row col) (cell block (row + 1) col) (cell block (row + 2) col) (cell block (row + 3) col) := by
  rw [cell_mixColumnsInv, lookup_mul9, lookup_mul11, lookup_mul13, lookup_mul14, mixRowInv]

theorem row_add (row : Fin 4) : row + 1 + 1 = row + 2 ∧ row + 1 + 2 = row + 3 ∧ row + 1 + 3 = row ∧
    row + 2 + 1 = row + 3 ∧ row + 2 + 2 = row ∧ row + 2 + 3 = row + 1 ∧ row + 3 + 1 = row ∧ row + 3 + 2 = row + 1 ∧
    row + 3 + 3 = row + 2 := by
  revert row
  decide

section Inverse

theorem addRoundKey_addRoundKey (block roundKey : Block) : addRoundKey (addRoundKey block roundKey) roundKey = block := by
  apply cell_ext
  intro row col
  rw [cell_addRoundKey, cell_addRoundKey, UInt8.xor_assoc, UInt8.xor_self, UInt8.xor_zero]

section

variable (block : Block)

theorem subBytesInv_subBytes : subBytesInv (subBytes block) = block := by
  apply cell_ext
  intro row col
  rw [cell_subBytesInv, cell_subBytes, lookup_sboxInv_sbox]

theorem subBytes_subBytesInv : subBytes (subBytesInv block) = block := by
  apply cell_ext
  intro row col
  rw [cell_subBytes, cell_subBytesInv, lookup_sbox_sboxInv]

theorem shiftRowsInv_shiftRows : shiftRowsInv (shiftRows block) = block := by
  apply cell_ext
  intro row col
  rw [cell_shiftRowsInv, cell_shiftRows, sub_add_cancel]

theorem shiftRows_shiftRowsInv : shiftRows (shiftRowsInv block) = block := by
  apply cell_ext
  intro row col
  rw [cell_shiftRows, cell_shiftRowsInv, add_sub_cancel_right]

theorem mixColumnsInv_mixColumns : mixColumnsInv (mixColumns block) = block := by
  apply cell_ext
  intro row col
  obtain ⟨a, b, c, d, e, f, g, h, i⟩ := row_add row
  simp only [cell_mixColumnsInv_row, cell_mixColumns_row, a, b, c, d, e, f, g, h, i]
  exact mixRowInv_mixRow _ _ _ _

theorem mixColumns_mixColumnsInv : mixColumns (mixColumnsInv block) = block := by
  apply cell_ext
  intro row col
  obtain ⟨a, b, c, d, e, f, g, h, i⟩ := row_add row
  simp only [cell_mixColumnsInv_row, cell_mixColumns_row, a, b, c, d, e, f, g, h, i]
  exact mixRow_mixRowInv _ _ _ _

end

theorem decryptRound_encryptRound (block roundKey : Block) : decryptRound (encryptRound block roundKey) roundKey = block := by
  simp only [decryptRound, encryptRound, addRoundKey_addRoundKey, mixColumnsInv_mixColumns, shiftRowsInv_shiftRows,
    subBytesInv_subBytes]

theorem encryptRound_decryptRound (block roundKey : Block) : encryptRound (decryptRound block roundKey) roundKey = block := by
  simp only [decryptRound, encryptRound, addRoundKey_addRoundKey, mixColumns_mixColumnsInv, shiftRows_shiftRowsInv,
    subBytes_subBytesInv]

variable {rounds : Nat} (roundKeys : Vector Block (rounds + 1)) (block : Block)

theorem decryptBlock_encryptBlock : decryptBlock roundKeys (encryptBlock roundKeys block) = block := by
  have loops := Lists.foldl_reverse_foldl (fun block (i : Fin (rounds - 1)) => encryptRound block roundKeys[i.val + 1])
    (fun block i => decryptRound block roundKeys[i.val + 1]) (fun state _ => decryptRound_encryptRound state _)
    (List.finRange (rounds - 1))
  simp only [decryptBlock, encryptBlock, addRoundKey_addRoundKey, shiftRowsInv_shiftRows, subBytesInv_subBytes, loops]

theorem encryptBlock_decryptBlock : encryptBlock roundKeys (decryptBlock roundKeys block) = block := by
  have loops := Lists.foldl_reverse_foldl (fun block (i : Fin (rounds - 1)) => decryptRound block roundKeys[i.val + 1])
    (fun block i => encryptRound block roundKeys[i.val + 1]) (fun state _ => encryptRound_decryptRound state _)
    (List.finRange (rounds - 1)).reverse
  rw [reverse_reverse] at loops
  simp only [decryptBlock, encryptBlock, addRoundKey_addRoundKey, shiftRows_shiftRowsInv, subBytes_subBytesInv, loops]

end Inverse

end Aes

open Aes

def RoundTrips {B : Type} [BlockCipher B] (cipher : B) : Prop :=
  ∀ block : Vector UInt8 (blockSize B),
    (∃ output next last, blockEncrypt cipher block = .ok (output, next) ∧
      blockDecrypt next output = .ok (block, last)) ∧
    ∃ output next last, blockDecrypt cipher block = .ok (output, next) ∧
      blockEncrypt next output = .ok (block, last)

theorem RoundTrips.of_inverse {B : Type} [BlockCipher B] {cipher : B}
    {encrypt decrypt : Vector UInt8 (blockSize B) → Vector UInt8 (blockSize B)}
    (encrypts : ∀ block, blockEncrypt cipher block = .ok (encrypt block, cipher))
    (decrypts : ∀ block, blockDecrypt cipher block = .ok (decrypt block, cipher))
    (left : ∀ block, decrypt (encrypt block) = block) (right : ∀ block, encrypt (decrypt block) = block) :
    RoundTrips cipher := by
  intro block
  refine ⟨⟨encrypt block, cipher, cipher, encrypts block, ?_⟩, ⟨decrypt block, cipher, cipher, decrypts block, ?_⟩⟩
  · rw [decrypts, left]
  · rw [encrypts, right]

theorem Aes128.roundTrips (cipher : Aes128) : RoundTrips cipher :=
  .of_inverse (fun _ => rfl) (fun _ => rfl) (decryptBlock_encryptBlock cipher.roundKeys)
    (encryptBlock_decryptBlock cipher.roundKeys)

theorem Aes256.roundTrips (cipher : Aes256) : RoundTrips cipher :=
  .of_inverse (fun _ => rfl) (fun _ => rfl) (decryptBlock_encryptBlock cipher.roundKeys)
    (encryptBlock_decryptBlock cipher.roundKeys)

theorem Aes128.setKey_returns (now : Aes128) {key : List UInt8} (sized : key.length = aes128KeySize) :
    ∃ first, first.toList = key ∧
      now.setKey key = .ok ⟨(List.finRange aes128Round).foldl Aes128.expandRound (now.roundKeys.set 0 first)⟩ := by
  obtain ⟨first, copied, contents⟩ := Slices.copyFromSlice_ok now.roundKeys[0] (Nat.zero_le aesBlockSize) le_rfl sized
  refine ⟨first, ?_, ?_⟩
  · rw [contents, take_zero, nil_append, drop_of_length_le (by simp [aesBlockSize]), append_nil]
  · rw [Aes128.setKey, if_pos sized, copied]
    rfl

theorem Aes256.setKey_returns (now : Aes256) {key : List UInt8} (sized : key.length = aes256KeySize) :
    ∃ first second, first.toList = key.take 16 ∧ second.toList = key.drop 16 ∧
      now.setKey key = .ok ⟨(List.finRange (aes256Round - 1)).foldl Aes256.expandRound
        ((now.roundKeys.set 0 first).set 1 second)⟩ := by
  change key.length = 32 at sized
  have front : Elf.slice key 0 aesBlockSize = .ok (key.take 16) :=
    Slices.slice_prefix (show 16 ≤ key.length by omega)
  have back : Elf.slice key aesBlockSize key.length = .ok (key.drop 16) :=
    Slices.slice_suffix (show 16 ≤ key.length by omega)
  have whole : now.roundKeys[0].toList.drop 16 = [] ∧ now.roundKeys[1].toList.drop 16 = [] := by
    constructor <;> exact drop_of_length_le (by simp)
  obtain ⟨first, copied, contents⟩ := Slices.copyFromSlice_ok now.roundKeys[0] (Nat.zero_le aesBlockSize) le_rfl
    (show (key.take 16).length = aesBlockSize - 0 by rw [length_take, sized]; rfl)
  obtain ⟨second, copied', contents'⟩ := Slices.copyFromSlice_ok now.roundKeys[1] (Nat.zero_le aesBlockSize) le_rfl
    (show (key.drop 16).length = aesBlockSize - 0 by rw [length_drop, sized]; rfl)
  refine ⟨first, second, ?_, ?_, ?_⟩
  · rw [contents, take_zero, nil_append, show aesBlockSize = 16 from rfl, whole.1, append_nil]
  · rw [contents', take_zero, nil_append, show aesBlockSize = 16 from rfl, whole.2, append_nil]
  · rw [Aes256.setKey, if_pos (show key.length = aes256KeySize from sized), front, ok_bind, copied, ok_bind, back, ok_bind,
      copied']
    rfl

/-- After `set_key` both ciphers decrypt what they encrypted and encrypt what they decrypted. -/
theorem aes_round_trips :
    (∀ (now : Aes128) (key : List UInt8), key.length = aes128KeySize → ∃ cipher, now.setKey key = .ok cipher ∧
      RoundTrips cipher) ∧
    ∀ (now : Aes256) (key : List UInt8), key.length = aes256KeySize → ∃ cipher, now.setKey key = .ok cipher ∧
      RoundTrips cipher := by
  constructor
  · intro now key sized
    obtain ⟨first, _, run⟩ := now.setKey_returns sized
    exact ⟨_, run, Aes128.roundTrips _⟩
  · intro now key sized
    obtain ⟨first, second, _, _, run⟩ := now.setKey_returns sized
    exact ⟨_, run, Aes256.roundTrips _⟩

theorem zero_keys_round_trip :
    (∃ cipher, Aes128.default.setKey (List.replicate 16 0) = .ok cipher ∧ RoundTrips cipher) ∧
      ∃ cipher, Aes256.default.setKey (List.replicate 32 0) = .ok cipher ∧ RoundTrips cipher :=
  ⟨aes_round_trips.1 _ _ (by decide), aes_round_trips.2 _ _ (by decide)⟩

end Kernel31.Crypto
