import Mathlib.Tactic

namespace Kernel31.Rfc8439

open List Function

abbrev Word := BitVec 32

/-- The sixteen words of the state, by index (section 2.3). -/
abbrev State := Fin 16 → Word

local instance neZero_words : NeZero 16 := ⟨by decide⟩

/-- Section 2.1: `n <<<= s`. -/
def rotl (word : Word) (count : Nat) : Word := (word <<< count) ||| (word >>> (32 - count))

/-- Section 2.2: QUARTERROUND(x, y, z, w) on the words of the state. -/
def quarterRound (x y z w : Fin 16) (state : State) : State :=
  let a := state x
  let b := state y
  let c := state z
  let d := state w
  let a := a + b
  let d := rotl (d ^^^ a) 16
  let c := c + d
  let b := rotl (b ^^^ c) 12
  let a := a + b
  let d := rotl (d ^^^ a) 8
  let c := c + d
  let b := rotl (b ^^^ c) 7
  update (update (update (update state x a) y b) z c) w d

/-- Section 2.3.1: four column rounds and four diagonal rounds. -/
def innerBlock (state : State) : State :=
  quarterRound 3 4 9 14 (quarterRound 2 7 8 13 (quarterRound 1 6 11 12 (quarterRound 0 5 10 15
    (quarterRound 3 7 11 15 (quarterRound 2 6 10 14 (quarterRound 1 5 9 13 (quarterRound 0 4 8 12 state)))))))

def littleEndian (bytes : List UInt8) (place : Nat) : Word :=
  BitVec.ofNat 32 ((bytes.getD (4 * place) 0).toNat + 2 ^ 8 * (bytes.getD (4 * place + 1) 0).toNat +
    2 ^ 16 * (bytes.getD (4 * place + 2) 0).toNat + 2 ^ 24 * (bytes.getD (4 * place + 3) 0).toNat)

/-- Section 2.3: constants, key, block counter, nonce. -/
def start (key : List UInt8) (counter : Word) (nonce : List UInt8) : State := fun i =>
  if i = 0 then 0x61707865
  else if i = 1 then 0x3320646e
  else if i = 2 then 0x79622d32
  else if i = 3 then 0x6b206574
  else if i < 12 then littleEndian key (i.val - 4)
  else if i = 12 then counter
  else littleEndian nonce (i.val - 13)

/-- Section 2.3.1: the words of `chacha20_block` before they are serialised. -/
def block (key : List UInt8) (counter : Word) (nonce : List UInt8) : State :=
  let state := start key counter nonce
  fun i => innerBlock^[10] state i + state i

theorem quarter_lt (place : Fin 64) : place.val / 4 < 16 := Nat.div_lt_of_lt_mul place.isLt

def blockByte (key : List UInt8) (counter : Word) (nonce : List UInt8) (place : Fin 64) : UInt8 :=
  UInt8.ofNat ((block key counter nonce ⟨place.val / 4, quarter_lt place⟩).toNat / 2 ^ (8 * (place.val % 4)))

/-- Section 2.4 with the initial counter 0: a byte of the key stream. -/
def keyByte (key nonce : List UInt8) (i : Nat) : UInt8 :=
  blockByte key (BitVec.ofNat 32 (i / 64)) nonce ⟨i % 64, Nat.mod_lt _ (by decide)⟩

/-- Section 2.4: the bytes from position `start` on, xored with the key stream. -/
def xorFrom (key nonce : List UInt8) (start : Nat) (bytes : List UInt8) : List UInt8 :=
  bytes.mapIdx fun i byte => byte ^^^ keyByte key nonce (start + i)

section
variable (key nonce : List UInt8) (start : Nat)

@[simp] theorem length_xorFrom (bytes : List UInt8) : (xorFrom key nonce start bytes).length = bytes.length :=
  length_mapIdx

theorem xorFrom_getElem? (bytes : List UInt8) (i : Nat) :
    (xorFrom key nonce start bytes)[i]? = bytes[i]?.map (· ^^^ keyByte key nonce (start + i)) := by
  simp only [xorFrom, getElem?_mapIdx]

theorem xorFrom_append (before after : List UInt8) :
    xorFrom key nonce start (before ++ after) =
      xorFrom key nonce start before ++ xorFrom key nonce (start + before.length) after := by
  have place (i : Nat) : start + (i + before.length) = start + before.length + i := by omega
  simp only [xorFrom, mapIdx_append, place]

theorem xorFrom_xorFrom (bytes : List UInt8) : xorFrom key nonce start (xorFrom key nonce start bytes) = bytes := by
  apply ext_getElem?
  intro i
  rw [xorFrom_getElem?, xorFrom_getElem?, Option.map_map]
  have cancel : ((· ^^^ keyByte key nonce (start + i)) ∘ (· ^^^ keyByte key nonce (start + i)) : UInt8 → UInt8) = id := by
    funext byte
    simp only [comp_apply, UInt8.xor_assoc, UInt8.xor_self, UInt8.xor_zero, id_eq]
  rw [cancel, Option.map_id, id_eq]

end

end Kernel31.Rfc8439
