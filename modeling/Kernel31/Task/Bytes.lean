import Kernel31.Task.Load

namespace Kernel31.Task

open Page Paging Radix

def wordByte (word : BitVec 64) (place : Nat) : UInt8 := ⟨(word >>> (8 * place)).setWidth 8⟩

def loadByte (mem : Memory) (address : Nat) : UInt8 :=
  wordByte (mem (address / pageSize) (address % pageSize / 8)) (address % 8)

theorem loadByte_congr {mem mem' : Memory} {address : Nat} (same : mem' (address / pageSize) = mem (address / pageSize)) :
    loadByte mem' address = loadByte mem address := by
  unfold loadByte
  rw [same]

theorem loadByte_page (mem : Memory) {page i : Nat} (below : i < pageSize) :
    loadByte mem (page * pageSize + i) = wordByte (mem page (i / 8)) (i % 8) := by
  simp only [loadByte, pageSize_eq] at *
  rw [show (page * 4096 + i) / 4096 = page by omega, show (page * 4096 + i) % 4096 = i by omega,
    show (page * 4096 + i) % 8 = i % 8 by omega]

theorem wordByte_getLsbD (word : BitVec 64) (place : Nat) {i : Nat} (small : i < 8) :
    (wordByte word place).toBitVec.getLsbD i = word.getLsbD (8 * place + i) := by
  simp [wordByte, small]

theorem byteMask_getLsbD (i : Nat) : (0xff#64).getLsbD i = decide (i < 8) := by
  rw [BitVec.getLsbD, show (0xff#64).toNat = 2 ^ 8 - 1 from rfl, Nat.testBit_two_pow_sub_one]

theorem setByte_getLsbD (word : BitVec 64) (byte : UInt8) {place i : Nat} (inside : i < 64) :
    (setByte word place byte).getLsbD i =
      if 8 * place ≤ i ∧ i < 8 * place + 8 then byte.toBitVec.getLsbD (i - 8 * place) else word.getLsbD i := by
  simp only [setByte, BitVec.getLsbD_or, BitVec.getLsbD_and, BitVec.getLsbD_not, BitVec.getLsbD_shiftLeft,
    BitVec.getLsbD_setWidth, byteMask_getLsbD, inside, decide_true, Bool.true_and]
  by_cases low : i < 8 * place
  · have outside : ¬ (8 * place ≤ i ∧ i < 8 * place + 8) := by omega
    simp [low, outside]
  · by_cases high : i - 8 * place < 8
    · have here : 8 * place ≤ i ∧ i < 8 * place + 8 := by omega
      simp [low, high, here, show i - 8 * place < 64 by omega]
    · have outside : ¬ (8 * place ≤ i ∧ i < 8 * place + 8) := by omega
      have none : byte.toBitVec.getLsbD (i - 8 * place) = false := BitVec.getLsbD_of_ge _ _ (by omega)
      simp [low, high, outside, none]

theorem wordByte_setByte (word : BitVec 64) (byte : UInt8) {place other : Nat} (low : other < 8) :
    wordByte (setByte word place byte) other = if other = place then byte else wordByte word other := by
  apply UInt8.eq_of_toBitVec_eq
  apply BitVec.eq_of_getLsbD_eq
  intro i small
  rw [wordByte_getLsbD _ _ small, setByte_getLsbD _ _ (by omega)]
  by_cases same : other = place
  · subst same
    rw [if_pos rfl, if_pos (by omega), Nat.add_sub_cancel_left]
  · rw [if_neg same, if_neg (by omega), wordByte_getLsbD _ _ small]

theorem word_ext {word word' : BitVec 64} (same : ∀ place, place < 8 → wordByte word place = wordByte word' place) :
    word = word' := by
  apply BitVec.eq_of_getLsbD_eq
  intro i inside
  have byte := congrArg (fun byte : UInt8 => byte.toBitVec.getLsbD (i % 8)) (same (i / 8) (by omega))
  simpa only [wordByte_getLsbD _ _ (Nat.mod_lt i (by decide : 0 < 8)), Nat.div_add_mod] using byte

theorem memory_ext {mem mem' : Memory} (bytes : ∀ address, loadByte mem address = loadByte mem' address)
    (far : ∀ page index, pageSize / 8 ≤ index → mem page index = mem' page index) : mem = mem' := by
  funext page index
  by_cases inside : index < pageSize / 8
  · refine word_ext fun place small => ?_
    have byte := bytes (page * pageSize + index * 8 + place)
    simp only [loadByte, pageSize_eq] at byte inside
    rwa [show (page * 4096 + index * 8 + place) / 4096 = page by omega,
      show (page * 4096 + index * 8 + place) % 4096 / 8 = index by omega,
      show (page * 4096 + index * 8 + place) % 8 = place by omega] at byte
  · exact far page index (Nat.le_of_not_lt inside)

theorem loadByte_storeByte (mem : Memory) (address other : Nat) (byte : UInt8) :
    loadByte (storeByte mem address byte) other = if other = address then byte else loadByte mem other := by
  unfold loadByte storeByte
  by_cases here : other / pageSize = address / pageSize ∧ other % pageSize / 8 = address % pageSize / 8
  · rw [here.1, here.2, Scheme.write_same, wordByte_setByte _ _ (Nat.mod_lt _ (by decide))]
    have same : other % 8 = address % 8 ↔ other = address := by
      simp only [pageSize_eq] at here
      omega
    simp only [same]
  · have different : other ≠ address := by
      rintro rfl
      exact here ⟨rfl, rfl⟩
    rw [Scheme.write_other _ _ here, if_neg different]

theorem Copy.loadByte_store (copy : Copy) (bytes : List UInt8) (beyond : Nat → UInt8) (mem : Memory) (count address : Nat) :
    loadByte (copy.store bytes beyond mem count) address =
      if copy.destination ≤ address ∧ address < copy.destination + count then
        bytes[copy.source + (address - copy.destination)]?.getD (beyond (copy.source + (address - copy.destination)))
      else loadByte mem address := by
  induction count with
  | zero => rw [Copy.store, if_neg (by omega)]
  | succ count ih =>
    rw [Copy.store, loadByte_storeByte, ih]
    by_cases last : address = copy.destination + count
    · rw [if_pos last, if_pos (by omega), last, Nat.add_sub_cancel_left]
    · rw [if_neg last]
      by_cases inside : copy.destination ≤ address ∧ address < copy.destination + count
      · rw [if_pos inside, if_pos (by omega)]
      · rw [if_neg inside, if_neg (by omega)]

theorem Copy.store_far (copy : Copy) (bytes : List UInt8) (beyond : Nat → UInt8) (mem : Memory) (count page : Nat)
    {index : Nat} (far : pageSize / 8 ≤ index) : copy.store bytes beyond mem count page index = mem page index := by
  induction count with
  | zero => rfl
  | succ count ih =>
    rw [Copy.store, storeByte, Scheme.write_other _ _ ?_, ih]
    rintro ⟨_, rfl⟩
    simp only [pageSize_eq] at far
    omega

end Kernel31.Task
