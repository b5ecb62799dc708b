import Kernel31.Mcache.Cells

namespace Kernel31.Mcache

open Page Checked Function List CachePage

variable {head head' : Nat → Nat} {owned owned' : List Nat} {cache : CachePage}

/-- The cells that are not `owned` are those of the free list, and the counts are the numbers of both. -/
structure CacheOk (head : Nat → Nat) (owned : List Nat) (cache : CachePage) : Prop where
  shaped : cache.Shaped
  free : ∃ free, Linked (fun cell => nonNull (head cell)) (nonNull cache.freeListHead) free ∧
    free.length = cache.freeCount ∧ (free ++ owned.filter cache.inRange).Perm cache.cells
  used : cache.usedCount = (owned.filter cache.inRange).length

theorem CacheOk.frame (ok : CacheOk head owned cache)
    (same : ∀ cell, cache.inRange cell = true → head' cell = head cell)
    (owns : (owned'.filter cache.inRange).Perm (owned.filter cache.inRange)) : CacheOk head' owned' cache := by
  obtain ⟨free, linked, length, cells⟩ := ok.free
  refine ⟨ok.shaped, ⟨free, ?_, length, (owns.append_left free).trans cells⟩, by rw [ok.used, owns.length_eq]⟩
  apply linked.frame
  intro cell member
  have inside := ok.shaped.inRange_of_mem (cells.subset (mem_append_left _ member))
  rw [same cell inside]

theorem CacheOk.nodup (ok : CacheOk head owned cache) : (owned.filter cache.inRange).Nodup := by
  obtain ⟨free, _, _, cells⟩ := ok.free
  exact (nodup_append.mp (cells.nodup_iff.mpr ok.shaped.cells_nodup)).2.1

variable {cell start pageCount cellSize : Nat}

theorem CacheOk.mem_cells (ok : CacheOk head owned cache) (member : cell ∈ owned)
    (inside : cache.inRange cell = true) : cell ∈ cache.cells := by
  obtain ⟨free, _, _, cells⟩ := ok.free
  exact cells.subset (mem_append_right _ (mem_filter.mpr ⟨member, inside⟩))

def CachePage.taken (cache : CachePage) (next : Nat) : CachePage :=
  { cache with freeCount := cache.freeCount - 1, usedCount := cache.usedCount + 1, freeListHead := next }

def CachePage.given (cache : CachePage) (cell : Nat) : CachePage :=
  { cache with usedCount := cache.usedCount - 1, freeCount := cache.freeCount + 1, freeListHead := cell }

theorem CachePage.Shaped.taken (shaped : cache.Shaped) (next : Nat) : (cache.taken next).Shaped :=
  ⟨shaped.sized, shaped.aligned, shaped.positive, shaped.below⟩

theorem CachePage.Shaped.given (shaped : cache.Shaped) (cell : Nat) : (cache.given cell).Shaped :=
  ⟨shaped.sized, shaped.aligned, shaped.positive, shaped.below⟩

theorem CacheOk.take (ok : CacheOk head owned cache) (some : cache.freeCount ≠ 0) (word : Nat) :
    cache.freeListHead ∈ cache.cells ∧ cache.freeListHead ∉ owned ∧
      CacheOk (update head cache.freeListHead word) (cache.freeListHead :: owned)
        (cache.taken (head cache.freeListHead)) := by
  obtain ⟨free, linked, length, cells⟩ := ok.free
  cases free with
  | nil => exact absurd length.symm some
  | cons cell rest =>
    obtain ⟨start, linked⟩ := linked
    obtain ⟨same, _⟩ := nonNull_eq_some.mp start
    rw [same]
    have member : cell ∈ cache.cells := cells.subset (by simp)
    have inside := ok.shaped.inRange_of_mem member
    have distinct := cells.nodup_iff.mpr ok.shaped.cells_nodup
    rw [cons_append, nodup_cons, mem_append, not_or] at distinct
    have unowned : cell ∉ owned := fun owns => distinct.1.2 (mem_filter.mpr ⟨owns, inside⟩)
    have owns : (cell :: owned).filter cache.inRange = cell :: owned.filter cache.inRange :=
      filter_cons_of_pos inside
    refine ⟨member, unowned, ok.shaped.taken _, ⟨rest, ?_, ?_, ?_⟩, ?_⟩
    · apply linked.frame
      intro other there
      have different : other ≠ cell := by
        rintro rfl
        exact distinct.1.1 there
      rw [update_of_ne different]
    · simp only [taken, ← length, length_cons]
      omega
    · change (rest ++ (cell :: owned).filter cache.inRange).Perm cache.cells
      rw [owns]
      exact perm_middle.trans cells
    · change cache.usedCount + 1 = ((cell :: owned).filter cache.inRange).length
      rw [owns, length_cons, ok.used]

theorem CacheOk.give (ok : CacheOk head owned cache) (inside : cache.inRange cell = true)
    (owns : owned.Perm (cell :: owned')) :
    cache.usedCount ≠ 0 ∧ CacheOk (update head cell cache.freeListHead) owned' (cache.given cell) := by
  obtain ⟨free, linked, length, cells⟩ := ok.free
  have filtered : (owned.filter cache.inRange).Perm (cell :: owned'.filter cache.inRange) := by
    have perm := owns.filter cache.inRange
    rwa [filter_cons_of_pos inside] at perm
  have cells' : (cell :: free ++ owned'.filter cache.inRange).Perm cache.cells :=
    (perm_middle.symm.trans (filtered.symm.append_left free)).trans cells
  have distinct := cells'.nodup_iff.mpr ok.shaped.cells_nodup
  rw [cons_append, nodup_cons, mem_append, not_or] at distinct
  have member : cell ∈ cache.cells := cells'.subset (by simp)
  have positive : cell ≠ 0 := by
    have bounds := ok.shaped.mem_cells member
    have start := ok.shaped.positive
    omega
  have used := ok.used
  rw [filtered.length_eq, length_cons] at used
  refine ⟨by omega, ok.shaped.given cell, ⟨cell :: free, ⟨?_, ?_⟩, ?_, cells'⟩, ?_⟩
  · exact nonNull_eq_some.mpr ⟨rfl, positive⟩
  · simp only [update_self]
    apply linked.frame
    intro other there
    have different : other ≠ cell := by
      rintro rfl
      exact distinct.1.1 there
    rw [update_of_ne different]
  · simp only [given, length_cons, length]
  · change cache.usedCount - 1 = (owned'.filter cache.inRange).length
    omega

theorem initLoop_eq (start cellSize : Nat) (head : Nat → Nat) (count cell : Nat) :
    (range count).foldl (fun head i =>
      update head (start + (1 + i) * cellSize) (start + (1 + i + 1) * cellSize)) head cell =
      if ∃ i, i < count ∧ cell = start + (1 + i) * cellSize then cell + cellSize else head cell := by
  induction count with
  | zero => simp
  | succ count ih =>
    rw [range_succ, foldl_append, foldl_cons, foldl_nil]
    by_cases last : cell = start + (1 + count) * cellSize
    · rw [last, update_self, if_pos ⟨count, by omega, rfl⟩, Nat.add_mul (1 + count) 1, Nat.one_mul, Nat.add_assoc]
    · rw [update_of_ne last, ih]
      congr 1
      apply propext
      constructor
      · rintro ⟨i, below, same⟩
        exact ⟨i, by omega, same⟩
      · rintro ⟨i, below, same⟩
        refine ⟨i, ?_, same⟩
        have different : i ≠ count := by
          rintro rfl
          exact last same
        omega

def freshCache (start pageCount cellSize : Nat) : CachePage where
  pageStart := start
  pageCount := pageCount
  cellSize := cellSize
  usedCount := 0
  freeCount := pageCount * pageSize / cellSize - 1
  freeListHead := start + cellSize

theorem freshCache_init (shaped : (freshCache start pageCount cellSize).Shaped)
    (run : (freshCache start pageCount cellSize).init 1 head = .ok head') :
    (∀ cell, (freshCache start pageCount cellSize).inRange cell = false → head' cell = head cell) ∧
      Linked (fun cell => nonNull (head' cell)) (nonNull (start + cellSize)) (freshCache start pageCount cellSize).cells := by
  obtain ⟨whole, many⟩ := shaped.cellCount_mul
  have large := shaped.cellSize_pos
  have first := shaped.positive
  simp only [cellCount, freshCache] at whole many large first
  have someFree : (freshCache start pageCount cellSize).freeCount ≠ 0 := by
    simp only [freshCache]
    omega
  rw [init, if_neg someFree] at run
  obtain rfl := pure_ok.mp run
  generalize counted : pageCount * pageSize / cellSize = count at whole many
  -- The last cell is the one that ends the pages.
  have end' : start + pageCount * pageSize - cellSize = start + (1 + (count - 2)) * cellSize := by
    rw [← whole, show count = 1 + (count - 2) + 1 by omega, Nat.add_mul _ 1]
    simp only [show 1 + (count - 2) + 1 - 2 = count - 2 by omega]
    omega
  have steps : ∀ cell, update ((range (count - 1 - 1)).foldl (fun head i =>
      update head (start + (1 + i) * cellSize) (start + (1 + i + 1) * cellSize)) head)
      (start + pageCount * pageSize - cellSize) 0 cell =
      if cell = start + (1 + (count - 2)) * cellSize then 0
      else if ∃ i, i < count - 1 - 1 ∧ cell = start + (1 + i) * cellSize then cell + cellSize else head cell := by
    intro cell
    rw [end']
    by_cases last : cell = start + (1 + (count - 2)) * cellSize
    · rw [last, update_self, if_pos rfl]
    · rw [update_of_ne last, initLoop_eq, if_neg last]
  simp only [freshCache, counted, steps]
  constructor
  · intro cell outside
    simp only [inRange, Bool.decide_and, Bool.and_eq_false_iff, decide_eq_false_iff_not, ← whole] at outside
    have inner : ∀ i, i < count - 1 → start ≤ start + (1 + i) * cellSize ∧
        start + (1 + i) * cellSize < start + count * cellSize := by
      intro i below
      have step : (1 + i + 1) * cellSize ≤ count * cellSize := Nat.mul_le_mul_right _ (by omega)
      rw [Nat.add_mul _ 1] at step
      omega
    rw [if_neg, if_neg]
    · rintro ⟨i, below, rfl⟩
      have bounds := inner i (by omega)
      omega
    · rintro rfl
      have bounds := inner (count - 2) (by omega)
      omega
  · simp only [cells, cellCount, counted]
    have begins : nonNull (start + cellSize) = some (start + 1 * cellSize) := by
      rw [nonNull_eq_some]
      omega
    rw [begins]
    apply Linked.of_range (fun i => start + i * cellSize)
    · omega
    · intro i low high
      have inside : start + i * cellSize ≠ start + (1 + (count - 2)) * cellSize := by
        have step : (i + 1) * cellSize ≤ (1 + (count - 2)) * cellSize := Nat.mul_le_mul_right _ (by omega)
        rw [Nat.add_mul i] at step
        omega
      rw [if_neg inside, if_pos ⟨i - 1, by omega, by rw [show 1 + (i - 1) = i by omega]⟩, nonNull_eq_some, Nat.add_mul i]
      omega
    · rw [if_pos (by rw [show 1 + (count - 1) - 1 = 1 + (count - 2) by omega])]
      rfl

theorem freshCache_ok (shaped : (freshCache start pageCount cellSize).Shaped)
    (run : (freshCache start pageCount cellSize).init 1 head = .ok head')
    (unowned : ∀ cell ∈ owned, (freshCache start pageCount cellSize).inRange cell = false) :
    CacheOk head' owned (freshCache start pageCount cellSize) := by
  have none : owned.filter (freshCache start pageCount cellSize).inRange = [] := by
    rw [filter_eq_nil_iff]
    intro cell member
    rw [unowned cell member]
    exact Bool.false_ne_true
  refine ⟨shaped, ⟨_, (freshCache_init shaped run).2, ?_, ?_⟩, ?_⟩
  · simp [cells, cellCount, freshCache]
  · rw [none, append_nil]
  · rw [none]
    rfl

end Kernel31.Mcache
