import Mathlib.Tactic

namespace Kernel31.Bitmap

open Function List

variable {width count : Nat}

section Words

variable {word : BitVec width} {place i : Nat}

def leadingOnes (word : BitVec width) : Nat := (range width).findIdx fun i => !word.getMsbD i

theorem leadingOnes_le : leadingOnes word ≤ width := by
  have bound : leadingOnes word ≤ (range width).length := findIdx_le_length
  rwa [length_range] at bound

theorem getMsbD_of_lt_leadingOnes (below : i < leadingOnes word) : word.getMsbD i = true := by
  have inside : i < (range width).length := below.trans_le findIdx_le_length
  simpa using not_of_lt_findIdx below

theorem getMsbD_leadingOnes (some : leadingOnes word < width) : word.getMsbD (leadingOnes word) = false := by
  have inside : (range width).findIdx (fun i => !word.getMsbD i) < (range width).length := by
    rwa [length_range]
  have found := @List.findIdx_getElem _ (fun i => !word.getMsbD i) _ inside
  rw [getElem_range] at found
  simpa [leadingOnes] using found

/-- The mask of the bit at a place that is counted from the most significant one. -/
def mask (width place : Nat) : BitVec width := BitVec.ofNat width 1 <<< (width - 1 - place)

theorem getMsbD_mask (inside : place < width) (small : i < width) : (mask width place).getMsbD i = decide (i = place) := by
  rw [mask, BitVec.getMsbD, decide_eq_true small, Bool.true_and]
  change (BitVec.twoPow width (width - 1 - place)).getLsbD (width - 1 - i) = _
  rw [BitVec.getLsbD_twoPow, decide_eq_true (show width - 1 - place < width by omega), Bool.true_and]
  exact decide_eq_decide.mpr (by omega)

end Words

/-- The bits of some words, numbered from the most significant one of the first word on. -/
def bit (words : Fin count → BitVec width) (i : Nat) : Bool :=
  if inside : i / width < count then (words ⟨i / width, inside⟩).getMsbD (i % width) else false

section Bits

variable {words : Fin count → BitVec width} {index : Fin count} {place i : Nat}

variable (inside : place < width)
include inside

theorem bit_eq : bit words (width * index + place) = (words index).getMsbD place := by
  have positive : 0 < width := by omega
  have quotient : (width * index + place) / width = index := by
    rw [Nat.mul_add_div positive, Nat.div_eq_of_lt inside, Nat.add_zero]
  have rest : (width * index + place) % width = place := by rw [Nat.mul_add_mod, Nat.mod_eq_of_lt inside]
  have inside' : (width * index + place) / width < count := by
    rw [quotient]
    exact index.isLt
  rw [bit, dif_pos inside', rest, show (⟨_, inside'⟩ : Fin count) = index from Fin.ext quotient]

theorem bit_update {word : BitVec width} {value : Bool}
    (single : ∀ rest < width, word.getMsbD rest = if rest = place then value else (words index).getMsbD rest) :
    bit (update words index word) i = if i = width * index + place then value else bit words i := by
  have positive : 0 < width := by omega
  by_cases same : i / width = index
  · obtain ⟨rest, small, rfl⟩ : ∃ rest < width, i = width * index + rest :=
      ⟨i % width, Nat.mod_lt _ positive, by rw [← same, Nat.div_add_mod]⟩
    rw [bit_eq small, bit_eq small, update_self, single rest small]
    simp only [Nat.add_left_cancel_iff]
  · have apart : i ≠ width * index + place := by
      rintro rfl
      rw [Nat.mul_add_div positive, Nat.div_eq_of_lt inside] at same
      exact same (Nat.add_zero _)
    rw [if_neg apart, bit, bit]
    split
    · rw [update_of_ne fun here => same (congrArg Fin.val here)]
    · rfl

theorem bit_set :
    bit (update words index (words index ||| mask width place)) i =
      if i = width * index + place then true else bit words i := by
  refine bit_update inside fun rest small => ?_
  rw [BitVec.getMsbD_or, getMsbD_mask inside small]
  split <;> simp [*]

theorem bit_clear :
    bit (update words index (words index &&& ~~~mask width place)) i =
      if i = width * index + place then false else bit words i := by
  refine bit_update inside fun rest small => ?_
  rw [BitVec.getMsbD_and, BitVec.getMsbD_not, getMsbD_mask inside small]
  split <;> simp [*]

end Bits

end Kernel31.Bitmap
