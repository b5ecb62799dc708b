import Mathlib.Data.FinEnum
import Mathlib.RingTheory.AdjoinRoot
import Mathlib.Tactic

namespace Kernel31.Gf256

open Polynomial Function AdjoinRoot

/-- `x^8 + x^4 + x^3 + x + 1` -/
noncomputable def modulus : (ZMod 2)[X] := X ^ 8 + X ^ 4 + X ^ 3 + X + 1

def bit (byte : UInt8) (i : Nat) : ZMod 2 := if byte.toBitVec.getLsbD i then 1 else 0

/-- The polynomial with the bits of a byte as its coefficients, the lowest bit first. -/
noncomputable def toPoly (byte : UInt8) : (ZMod 2)[X] := ∑ i ∈ Finset.range 8, C (bit byte i) * X ^ i

noncomputable def value (byte : UInt8) : AdjoinRoot modulus := mk modulus (toPoly byte)

noncomputable def mul (left right : UInt8) : UInt8 := invFun value (value left * value right)

open Classical in
/-- The byte whose product with `byte` is one, and zero for zero. -/
noncomputable def inv (byte : UInt8) : UInt8 := if found : ∃ other, mul byte other = 1 then found.choose else 0

theorem forall_byte {holds : UInt8 → Prop} (each : ∀ n : Fin 256, holds (UInt8.ofFin n)) (byte : UInt8) : holds byte :=
  each byte.toFin

section Bits

theorem bit_of_le (byte : UInt8) {i : Nat} (above : 8 ≤ i) : bit byte i = 0 := by
  rw [bit, BitVec.getLsbD_of_ge _ _ above]
  rfl

theorem bit_xor (left right : UInt8) (i : Nat) : bit (left ^^^ right) i = bit left i + bit right i := by
  simp only [bit, UInt8.toBitVec_xor, BitVec.getLsbD_xor]
  cases left.toBitVec.getLsbD i <;> cases right.toBitVec.getLsbD i <;> decide

theorem coeff_toPoly (byte : UInt8) (i : Nat) : (toPoly byte).coeff i = bit byte i := by
  simp only [toPoly, finsetSum_coeff, coeff_C_mul_X_pow]
  by_cases inside : i < 8
  · rw [Finset.sum_eq_single_of_mem i (Finset.mem_range.mpr inside) fun j _ other => if_neg (Ne.symm other), if_pos rfl]
  · rw [bit_of_le byte (by omega)]
    refine Finset.sum_eq_zero fun j member => if_neg ?_
    have small := Finset.mem_range.mp member
    omega

theorem toPoly_injective : Function.Injective toPoly := by
  intro left right same
  apply UInt8.toBitVec_inj.mp
  apply BitVec.eq_of_getLsbD_eq
  intro i _
  have coefficient : bit left i = bit right i := by rw [← coeff_toPoly, ← coeff_toPoly, same]
  simp only [bit] at coefficient
  generalize left.toBitVec.getLsbD i = a at coefficient ⊢
  generalize right.toBitVec.getLsbD i = b at coefficient ⊢
  revert coefficient
  revert a b
  decide

theorem toPoly_xor (left right : UInt8) : toPoly (left ^^^ right) = toPoly left + toPoly right := by
  ext i
  rw [coeff_add, coeff_toPoly, coeff_toPoly, coeff_toPoly, bit_xor]

theorem toPoly_zero : toPoly 0 = 0 := by
  ext i
  rw [coeff_toPoly, coeff_zero]
  simp [bit]

theorem toPoly_one : toPoly 1 = 1 := by
  ext i
  rw [coeff_toPoly, coeff_one]
  by_cases inside : i < 8
  · interval_cases i <;> decide
  · rw [bit_of_le 1 (by omega), if_neg (by omega)]

theorem degree_toPoly_lt (byte : UInt8) : (toPoly byte).degree < 8 := by
  refine (degree_lt_iff_coeff_zero _ 8).mpr fun i above => ?_
  rw [coeff_toPoly, bit_of_le byte above]

theorem degree_modulus : modulus.degree = 8 := by
  unfold modulus
  compute_degree!

theorem value_injective : Function.Injective value := by
  intro left right same
  apply toPoly_injective
  have divides : modulus ∣ toPoly left - toPoly right := mk_eq_mk.mp same
  have small : (toPoly left - toPoly right).degree < modulus.degree := by
    rw [degree_modulus]
    exact lt_of_le_of_lt (degree_sub_le _ _) (max_lt (degree_toPoly_lt left) (degree_toPoly_lt right))
  exact sub_eq_zero.mp (eq_zero_of_dvd_of_degree_lt divides small)

theorem value_xor (left right : UInt8) : value (left ^^^ right) = value left + value right := by
  rw [value, toPoly_xor, map_add, ← value, ← value]

theorem value_zero : value 0 = 0 := by
  rw [value, toPoly_zero, map_zero]

theorem value_one : value 1 = 1 := by
  rw [value, toPoly_one, map_one]

end Bits

/-- A shift, and the lower coefficients of `modulus` when the highest bit goes out. -/
def xtime (byte : UInt8) : UInt8 := ⟨(byte.toBitVec <<< 1) ^^^ (if byte.toBitVec.msb then 0x1b#8 else 0#8)⟩

/-- The lowest bits of `factor` times `byte`, one bit a turn. -/
def product : Nat → UInt8 → UInt8 → UInt8
  | 0, _, _ => 0
  | bits + 1, factor, byte => (if factor.toBitVec.getLsbD 0 then byte else 0) ^^^ product bits (factor >>> 1) (xtime byte)

section Product

theorem bit_xtime (byte : UInt8) :
    bit (xtime byte) 0 = bit byte 7 ∧ bit (xtime byte) 1 = bit byte 0 + bit byte 7 ∧ bit (xtime byte) 2 = bit byte 1 ∧
      bit (xtime byte) 3 = bit byte 2 + bit byte 7 ∧ bit (xtime byte) 4 = bit byte 3 + bit byte 7 ∧
      bit (xtime byte) 5 = bit byte 4 ∧ bit (xtime byte) 6 = bit byte 5 ∧ bit (xtime byte) 7 = bit byte 6 := by
  revert byte
  apply forall_byte
  decide +kernel

theorem toPoly_xtime (byte : UInt8) : X * toPoly byte = toPoly (xtime byte) + C (bit byte 7) * modulus := by
  obtain ⟨zero, one, two, three, four, five, six, seven⟩ := bit_xtime byte
  have twice : (C (bit byte 7) : (ZMod 2)[X]) + C (bit byte 7) = 0 := CharTwo.add_self_eq_zero _
  simp only [toPoly, modulus, Finset.sum_range_succ, Finset.range_zero, Finset.sum_empty, zero, one, two, three, four, five,
    six, seven, C_add]
  linear_combination -(1 + X + X ^ 3 + X ^ 4) * twice

theorem value_xtime (byte : UInt8) : value (xtime byte) = root modulus * value byte := by
  have step := congrArg (mk modulus) (toPoly_xtime byte)
  rw [map_mul, map_add, map_mul, mk_self, mul_zero, add_zero, mk_X] at step
  exact step.symm

noncomputable def lowValue (bits : Nat) (byte : UInt8) : AdjoinRoot modulus :=
  ∑ i ∈ Finset.range bits, of modulus (bit byte i) * root modulus ^ i

theorem lowValue_eight (byte : UInt8) : lowValue 8 byte = value byte := by
  simp only [lowValue, value, toPoly, map_sum, map_mul, map_pow, mk_X, mk_C]

theorem bit_shiftRight (byte : UInt8) (i : Nat) : bit (byte >>> 1) i = bit byte (i + 1) := by
  have shifted : (byte >>> 1).toBitVec = byte.toBitVec >>> (1 : Nat) := rfl
  simp only [bit, shifted, BitVec.getLsbD_ushiftRight, Nat.add_comm]

theorem value_product (bits : Nat) (factor byte : UInt8) :
    value (product bits factor byte) = lowValue bits factor * value byte := by
  induction bits generalizing factor byte with
  | zero => simp [product, lowValue, value_zero]
  | succ bits ih =>
    have first : value (if factor.toBitVec.getLsbD 0 then byte else 0) =
        of modulus (bit factor 0) * value byte := by
      unfold bit
      split
      · rw [map_one, one_mul]
      · rw [map_zero, zero_mul, value_zero]
    have shifted : lowValue (bits + 1) factor =
        lowValue bits (factor >>> 1) * root modulus + of modulus (bit factor 0) := by
      rw [lowValue, Finset.sum_range_succ', pow_zero, mul_one, lowValue, Finset.sum_mul]
      simp only [bit_shiftRight, pow_succ, mul_assoc]
    rw [product, value_xor, ih, first, value_xtime, shifted]
    ring

theorem value_product_eight (left right : UInt8) : value (product 8 left right) = value left * value right := by
  rw [value_product, lowValue_eight]

theorem mul_eq_product (left right : UInt8) : mul left right = product 8 left right := by
  rw [mul, ← value_product_eight]
  exact leftInverse_invFun value_injective _

theorem value_mul (left right : UInt8) : value (mul left right) = value left * value right := by
  rw [mul_eq_product, value_product_eight]

theorem unit_mul (byte : UInt8) : mul 1 byte = byte := by
  apply value_injective
  rw [value_mul, value_one, one_mul]

theorem inv_eq {byte other : UInt8} (one : mul byte other = 1) : inv byte = other := by
  have found : ∃ other, mul byte other = 1 := ⟨other, one⟩
  have chosen := found.choose_spec
  rw [inv, dif_pos found]
  generalize found.choose = picked at chosen
  have left : value byte * value other = 1 := by rw [← value_mul, one, value_one]
  have right : value byte * value picked = 1 := by rw [← value_mul, chosen, value_one]
  apply value_injective
  calc value picked = value picked * (value byte * value other) := by rw [left, mul_one]
    _ = (value byte * value picked) * value other := by ring
    _ = value other := by rw [right, one_mul]

theorem inv_zero : inv 0 = 0 := by
  rw [inv, dif_neg]
  rintro ⟨other, one⟩
  have zero : value (mul 0 other) = value 0 := by rw [value_mul, value_zero, zero_mul]
  have same := value_injective zero
  rw [one] at same
  exact absurd same (by decide)

end Product

end Kernel31.Gf256
