import Kernel31.Library.Gf256

namespace Kernel31.Fips197

open Gf256

abbrev Word : Type := Fin 4 → UInt8

abbrev State : Type := Fin 4 → Fin 4 → UInt8

local instance neZero_rows : NeZero 4 := ⟨by decide⟩

def bitOf (byte : UInt8) (i : Nat) : Bool := byte.toBitVec.getLsbD (i % 8)

/-- The affine transformation over GF(2), bit by bit, with the constant `63`. -/
def affine (byte : UInt8) : UInt8 :=
  UInt8.ofNat ((List.range 8).map fun i =>
    if bitOf byte i ^^ bitOf byte (i + 4) ^^ bitOf byte (i + 5) ^^ bitOf byte (i + 6) ^^ bitOf byte (i + 7) ^^
      bitOf 0x63 i then 2 ^ i else 0).sum

noncomputable def sBox (byte : UInt8) : UInt8 := affine (inv byte)

noncomputable def subBytes (state : State) : State := fun row column => sBox (state row column)

def shiftRows (state : State) : State := fun row column => state row (column + row)

/-- The coefficients of `{03}x^3 + {01}x^2 + {01}x + {02}`, the lowest one first. -/
def mixCoefficient : Fin 4 → UInt8 := ![2, 1, 1, 3]

/-- Each column times that polynomial, modulo `x^4 + 1`. -/
noncomputable def mixColumns (state : State) : State := fun row column =>
  mul (mixCoefficient (row - 0)) (state 0 column) ^^^ mul (mixCoefficient (row - 1)) (state 1 column) ^^^
    mul (mixCoefficient (row - 2)) (state 2 column) ^^^ mul (mixCoefficient (row - 3)) (state 3 column)

/-- The four words of the schedule from `4 * round` on, one a column. -/
def addRoundKey (schedule : Nat → Word) (round : Nat) (state : State) : State := fun row column =>
  state row column ^^^ schedule (4 * round + column) row

def rotWord (word : Word) : Word := fun row => word (row + 1)

noncomputable def subWord (word : Word) : Word := fun row => sBox (word row)

def xorWord (left right : Word) : Word := fun row => left row ^^^ right row

/-- `x` to the power `j - 1`, and three zero bytes. -/
noncomputable def rcon (j : Nat) : Word := fun row => if row = 0 then (mul 2)^[j - 1] 1 else 0

/-- What is added to `w[i - Nk]` for `w[i]`, from `w[i - 1]`. -/
noncomputable def scheduleCore (nk i : Nat) (previous : Word) : Word :=
  if i % nk = 0 then xorWord (subWord (rotWord previous)) (rcon (i / nk))
  else if 6 < nk ∧ i % nk = 4 then subWord previous
  else previous

/-- `w[i]` for a key of `nk` words. -/
noncomputable def keyExpansion (nk : Nat) (key : Nat → UInt8) (i : Nat) : Word :=
  if inside : i < nk ∨ nk = 0 then fun row => key (4 * i + row)
  else xorWord (keyExpansion nk key (i - nk)) (scheduleCore nk i (keyExpansion nk key (i - 1)))
termination_by i

/-- The cipher of `rounds` rounds on a state. -/
noncomputable def cipher (rounds : Nat) (schedule : Nat → Word) (state : State) : State :=
  let state := (List.range' 1 (rounds - 1)).foldl
    (fun state round => addRoundKey schedule round (mixColumns (shiftRows (subBytes state))))
    (addRoundKey schedule 0 state)
  addRoundKey schedule rounds (shiftRows (subBytes state))

def toState (block : Nat → UInt8) : State := fun row column => block (row + 4 * column)

noncomputable def encrypt (nk rounds : Nat) (key block : Nat → UInt8) : State :=
  cipher rounds (keyExpansion nk key) (toState block)

theorem mixColumns_row (state : State) (row column : Fin 4) :
    mixColumns state row column = mul 2 (state row column) ^^^ mul 3 (state (row + 1) column) ^^^
      state (row + 2) column ^^^ state (row + 3) column := by
  match row with
  | 0 =>
    change mul 2 (state 0 column) ^^^ mul 3 (state 1 column) ^^^ mul 1 (state 2 column) ^^^ mul 1 (state 3 column) = _
    rw [unit_mul, unit_mul]
    rfl
  | 1 =>
    change mul 1 (state 0 column) ^^^ mul 2 (state 1 column) ^^^ mul 3 (state 2 column) ^^^ mul 1 (state 3 column) =
      mul 2 (state 1 column) ^^^ mul 3 (state 2 column) ^^^ state 3 column ^^^ state 0 column
    rw [unit_mul, unit_mul]
    ac_rfl
  | 2 =>
    change mul 1 (state 0 column) ^^^ mul 1 (state 1 column) ^^^ mul 2 (state 2 column) ^^^ mul 3 (state 3 column) =
      mul 2 (state 2 column) ^^^ mul 3 (state 3 column) ^^^ state 0 column ^^^ state 1 column
    rw [unit_mul, unit_mul]
    ac_rfl
  | 3 =>
    change mul 3 (state 0 column) ^^^ mul 1 (state 1 column) ^^^ mul 1 (state 2 column) ^^^ mul 2 (state 3 column) =
      mul 2 (state 3 column) ^^^ mul 3 (state 0 column) ^^^ state 1 column ^^^ state 2 column
    rw [unit_mul, unit_mul]
    ac_rfl

section Schedule
variable {nk i : Nat} (key : Nat → UInt8)

theorem keyExpansion_below (below : i < nk) (row : Fin 4) : keyExpansion nk key i row = key (4 * i + row) := by
  rw [keyExpansion, dif_pos (Or.inl below)]

theorem keyExpansion_above (positive : 0 < nk) (above : nk ≤ i) (row : Fin 4) :
    keyExpansion nk key i row =
      keyExpansion nk key (i - nk) row ^^^ scheduleCore nk i (keyExpansion nk key (i - 1)) row := by
  rw [keyExpansion, dif_neg (by omega)]
  rfl

end Schedule

end Kernel31.Fips197
