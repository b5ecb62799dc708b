import Kernel31.Mcache.Model
import Kernel31.Library.Linked

namespace Kernel31.Mcache

open Page Checked List

/-- The facts of the table the code relies on: whole pages, room for the `CachePage` in one cell. -/
theorem cacheSize_facts : ∀ entry ∈ cacheSize, 64 ≤ entry.1 ∧ 2 ≤ entry.2 ∧
    entry.2 * entry.1 / pageSize * pageSize = entry.2 * entry.1 ∧ 0 < entry.2 * entry.1 / pageSize ∧
    Buddy.ceilToPower2 (entry.2 * entry.1 / pageSize) = .ok (entry.2 * entry.1 / pageSize) ∧
    (cachePageSize + entry.1 - 1) / entry.1 = 1 := by
  decide

theorem sizeToClass_some {size cellSize cellCount idx : Nat} (found : sizeToClass size = some ((cellSize, cellCount), idx)) :
    cacheSize[idx]? = some (cellSize, cellCount) ∧ size ≤ cellSize := by
  have large := find?_some found
  have member := mem_of_find?_eq_some found
  rw [mk_mem_zipIdx_iff_getElem?] at member
  exact ⟨member, by simpa using large⟩

theorem nonNull_eq_some {ptr value : Nat} : nonNull ptr = some value ↔ ptr = value ∧ ptr ≠ 0 := by
  unfold nonNull
  split
  · simp [*]
  · rename_i positive
    simp only [Option.some.injEq, ne_eq, positive, not_false_eq_true, and_true]

namespace CachePage

def cellCount (cache : CachePage) : Nat := cache.pageCount * pageSize / cache.cellSize

def cells (cache : CachePage) : List Nat :=
  (List.range' 1 (cache.cellCount - 1)).map fun i => cache.pageStart + i * cache.cellSize

/-- A cache of one of the size classes on whole pages of the address space. -/
structure Shaped (cache : CachePage) : Prop where
  sized : ∃ count, (cache.cellSize, count) ∈ cacheSize ∧ cache.pageCount * pageSize = count * cache.cellSize
  aligned : cache.pageStart % pageSize = 0
  positive : 0 < cache.pageStart
  below : cache.pageStart + cache.pageCount * pageSize ≤ 2 ^ 64

theorem cells_apart {cache : CachePage} {cell other : Nat} (member : cell ∈ cache.cells) (member' : other ∈ cache.cells)
    (different : cell ≠ other) : cell + cache.cellSize ≤ other ∨ other + cache.cellSize ≤ cell := by
  obtain ⟨i, _, rfl⟩ := mem_map.mp member
  obtain ⟨j, _, rfl⟩ := mem_map.mp member'
  rcases Nat.lt_trichotomy i j with less | rfl | more
  · left
    have step : (i + 1) * cache.cellSize ≤ j * cache.cellSize := Nat.mul_le_mul_right _ less
    rw [Nat.add_mul] at step
    omega
  · exact absurd rfl different
  · right
    have step : (j + 1) * cache.cellSize ≤ i * cache.cellSize := Nat.mul_le_mul_right _ more
    rw [Nat.add_mul] at step
    omega

section Shaped

variable {cache : CachePage} (shaped : cache.Shaped)
include shaped

theorem Shaped.cellSize_pos : 64 ≤ cache.cellSize := by
  obtain ⟨count, member, _⟩ := shaped.sized
  exact (cacheSize_facts _ member).1

theorem Shaped.cellCount_mul : cache.cellCount * cache.cellSize = cache.pageCount * pageSize ∧ 2 ≤ cache.cellCount := by
  obtain ⟨count, member, size⟩ := shaped.sized
  obtain ⟨large, many, _⟩ := cacheSize_facts _ member
  have exact : cache.cellCount = count := by
    rw [cellCount, size]
    exact Nat.mul_div_cancel _ (by omega)
  rw [exact]
  exact ⟨size.symm, many⟩

theorem Shaped.mem_cells {cell : Nat} (member : cell ∈ cache.cells) :
    cache.pageStart + cache.cellSize ≤ cell ∧ cell + cache.cellSize ≤ cache.pageStart + cache.pageCount * pageSize := by
  obtain ⟨i, inside, rfl⟩ := mem_map.mp member
  have bounds := mem_range'_1.mp inside
  obtain ⟨whole, many⟩ := shaped.cellCount_mul
  have low : 1 * cache.cellSize ≤ i * cache.cellSize := Nat.mul_le_mul_right _ bounds.1
  have high : (i + 1) * cache.cellSize ≤ cache.cellCount * cache.cellSize := Nat.mul_le_mul_right _ (by omega)
  rw [Nat.add_mul] at high
  omega

theorem Shaped.inRange_of_mem {cell : Nat} (member : cell ∈ cache.cells) : cache.inRange cell = true := by
  have bounds := shaped.mem_cells member
  have large := shaped.cellSize_pos
  simp only [inRange, Bool.decide_and, Bool.and_eq_true, decide_eq_true_eq]
  omega

theorem Shaped.inRange_start : cache.inRange cache.pageStart = true := by
  obtain ⟨whole, many⟩ := shaped.cellCount_mul
  have large := shaped.cellSize_pos
  have room : 0 < cache.cellCount * cache.cellSize := Nat.mul_pos (by omega) (by omega)
  simp only [inRange, Bool.decide_and, Bool.and_eq_true, decide_eq_true_eq]
  omega

theorem Shaped.cells_nodup : cache.cells.Nodup := by
  have large := shaped.cellSize_pos
  apply List.Nodup.map
  · intro i j same
    exact Nat.eq_of_mul_eq_mul_right (show 0 < cache.cellSize by omega) (Nat.add_left_cancel same)
  · exact nodup_range'

end Shaped

end CachePage

end Kernel31.Mcache
