import Kernel31.Mcache.Slots
import Kernel31.Library.Runs
import Kernel31.Page.Bump

namespace Kernel31.Mcache

open Page Checked Function Relation List Heap CachePage

/-- The cells that the `CachePage` itself takes. -/
def headerCells (cellSize : Nat) : Nat := (cachePageSize + cellSize - 1) / cellSize

/-- Memory and the cells of one cache that were handed out and not freed since. -/
structure CacheRun (A : Type) where
  heap : Heap A
  outstanding : List Nat

variable {A : Type}

/-- `alloc_obj` and `free_obj` of the cache at `ptr`, and a word that a user writes into a cell. -/
inductive CacheStep (ptr : Nat) : CacheRun A → CacheRun A → Prop where
  | alloc (s : CacheRun A) (cell : Nat) (heap : Heap A) (run : s.heap.allocObj ptr = some (cell, heap)) :
      CacheStep ptr s ⟨heap, cell :: s.outstanding⟩
  | free (s : CacheRun A) (cell : Nat) (heap : Heap A) (out : cell ∈ s.outstanding)
      (run : s.heap.freeObj ptr cell = .ok heap) : CacheStep ptr s ⟨heap, s.outstanding.erase cell⟩
  | write (s : CacheRun A) (cell address word : Nat) (out : cell ∈ s.outstanding)
      (inside : cell ≤ address ∧ address + ptrSize ≤ cell + (s.heap.caches ptr).cellSize) :
      CacheStep ptr s ⟨s.heap.setHead address word, s.outstanding⟩

/-- The cache is still the one that was allocated, and all outstanding cells are its own. -/
structure CacheRunOk (ptr pageCount cellSize : Nat) (now : CacheRun A) : Prop where
  start : (now.heap.caches ptr).pageStart = ptr
  pages : (now.heap.caches ptr).pageCount = pageCount
  size : (now.heap.caches ptr).cellSize = cellSize
  ok : CacheOk now.heap.head now.outstanding (now.heap.caches ptr)
  own : ∀ cell ∈ now.outstanding, cell ∈ (now.heap.caches ptr).cells

section Runs

variable {ptr pageCount cellSize : Nat} {s s' : CacheRun A}

variable {heap heap' : Heap A} {cache : CachePage} {cellCount : Nat}

theorem CacheRunOk.of_cache {outstanding : List Nat} (ok : CacheOk heap.head outstanding cache)
    (here : heap.caches ptr = cache) (start : cache.pageStart = ptr) (pages : cache.pageCount = pageCount)
    (size : cache.cellSize = cellSize) (own : ∀ cell ∈ outstanding, cell ∈ cache.cells) :
    CacheRunOk ptr pageCount cellSize ⟨heap, outstanding⟩ := by
  subst here
  exact ⟨start, pages, size, ok, own⟩

section

variable (ok : CacheRunOk ptr pageCount cellSize s)
include ok

theorem CacheRunOk.filter_outstanding : s.outstanding.filter (s.heap.caches ptr).inRange = s.outstanding :=
  filter_eq_self.mpr fun cell member => ok.ok.shaped.inRange_of_mem (ok.own cell member)

theorem CacheRunOk.nodup : s.outstanding.Nodup := ok.filter_outstanding ▸ ok.ok.nodup

theorem CacheRunOk.free_perm :
    ∃ free, Linked (fun cell => nonNull (s.heap.head cell)) (nonNull (s.heap.caches ptr).freeListHead) free ∧
      free.length = (s.heap.caches ptr).freeCount ∧ (free ++ s.outstanding).Perm (s.heap.caches ptr).cells := by
  obtain ⟨free, linked, length, perm⟩ := ok.ok.free
  rw [ok.filter_outstanding] at perm
  exact ⟨free, linked, length, perm⟩

theorem CacheRunOk.allocated {cell : Nat} {heap : Heap A} (run : s.heap.allocObj ptr = some (cell, heap)) :
    CacheRunOk ptr pageCount cellSize ⟨heap, cell :: s.outstanding⟩ := by
  rw [allocObj] at run
  split at run
  · cases run
  · rename_i some
    obtain ⟨rfl, rfl⟩ := Prod.mk.inj (Option.some.inj run)
    obtain ⟨member, _, taken⟩ := ok.ok.take some (s.heap.head (s.heap.caches ptr).freeListHead)
    rw [update_eq_self] at taken
    exact .of_cache taken (update_self ..) ok.start ok.pages ok.size (forall_mem_cons.mpr ⟨member, ok.own⟩)

theorem CacheRunOk.freeObj_eq {cell : Nat} (out : cell ∈ s.outstanding) :
    s.heap.freeObj ptr cell = .ok ((s.heap.setHead cell (s.heap.caches ptr).freeListHead).setCache ptr
        ((s.heap.caches ptr).given cell)) ∧
      CacheOk (update s.heap.head cell (s.heap.caches ptr).freeListHead) (s.outstanding.erase cell)
        ((s.heap.caches ptr).given cell) := by
  have inside := ok.ok.shaped.inRange_of_mem (ok.own cell out)
  obtain ⟨used, given⟩ := ok.ok.give inside (perm_cons_erase out)
  refine ⟨?_, given⟩
  rw [freeObj, if_neg used]
  rfl

theorem CacheRunOk.freed {cell : Nat} {heap : Heap A} (out : cell ∈ s.outstanding)
    (run : s.heap.freeObj ptr cell = .ok heap) : CacheRunOk ptr pageCount cellSize ⟨heap, s.outstanding.erase cell⟩ := by
  obtain ⟨freed, given⟩ := ok.freeObj_eq out
  obtain rfl := ok_unique freed run
  exact .of_cache given (update_self ..) ok.start ok.pages ok.size
    fun other member => ok.own other (mem_of_mem_erase member)

/-- A word of an outstanding cell is no word of a free one. -/
theorem CacheRunOk.written {cell address : Nat} (word : Nat) (out : cell ∈ s.outstanding)
    (inside : cell ≤ address ∧ address + ptrSize ≤ cell + (s.heap.caches ptr).cellSize) :
    CacheRunOk ptr pageCount cellSize ⟨s.heap.setHead address word, s.outstanding⟩ := by
  obtain ⟨free, linked, length, cells⟩ := ok.ok.free
  refine ⟨ok.start, ok.pages, ok.size, ⟨ok.ok.shaped, ⟨free, linked.frame fun other member => ?_, length, cells⟩, ok.ok.used⟩, ok.own⟩
  have perm := ok.filter_outstanding ▸ cells
  have distinct := perm.nodup_iff.mpr ok.ok.shaped.cells_nodup
  have different : cell ≠ other := fun same => (disjoint_of_nodup_append distinct) member (same ▸ out)
  have apart := CachePage.cells_apart (ok.own cell out) (perm.subset (mem_append_left _ member)) different
  have elsewhere : other ≠ address := by
    unfold ptrSize at inside
    omega
  change nonNull (update s.heap.head address word other) = _
  rw [update_of_ne elsewhere]

end

theorem CacheRunOk.step (ok : CacheRunOk ptr pageCount cellSize s) (step : CacheStep ptr s s') :
    CacheRunOk ptr pageCount cellSize s' := by
  cases step with
  | alloc cell heap run => exact ok.allocated run
  | free cell heap out run => exact ok.freed out run
  | write cell address word out inside => exact ok.written word out inside

theorem mem_cells_iff {cell : Nat} (entry : (cache.cellSize, cellCount) ∈ cacheSize)
    (whole : cache.pageCount * pageSize = cellCount * cache.cellSize) :
    cell ∈ cache.cells ↔ ∃ i, headerCells cache.cellSize ≤ i ∧ i < cellCount ∧ cell = cache.pageStart + i * cache.cellSize := by
  obtain ⟨large, many, _, _, _, offset⟩ := cacheSize_facts _ entry
  have count : cache.cellCount = cellCount := by
    rw [CachePage.cellCount, whole]
    exact Nat.mul_div_cancel _ (by dsimp only at large; omega)
  dsimp only at many offset
  rw [cells, mem_map, count, headerCells, offset]
  constructor
  · rintro ⟨i, inside, rfl⟩
    have bounds := mem_range'_1.mp inside
    exact ⟨i, by omega, by omega, rfl⟩
  · rintro ⟨i, low, high, rfl⟩
    exact ⟨i, mem_range'_1.mpr ⟨by omega, by omega⟩, rfl⟩

theorem CacheRunOk.of_allocate [PageAllocator A] (entry : (cellSize, cellCount) ∈ cacheSize)
    (made : allocate cellSize cellCount heap = .ok (ptr, heap')) (positive : 0 < ptr)
    (below : ptr + cellCount * cellSize ≤ 2 ^ 64) :
    CacheRunOk ptr (cellCount * cellSize / pageSize) cellSize ⟨heap', []⟩ := by
  obtain ⟨page, alloc, head, _, place, init, rfl⟩ := CachePage.allocate_ok entry made
  obtain ⟨_, _, whole, _⟩ := cacheSize_facts _ entry
  have shaped : (freshCache ptr (cellCount * cellSize / pageSize) cellSize).Shaped :=
    ⟨⟨cellCount, entry, whole⟩, place ▸ Nat.mul_mod_right _ _, positive, by dsimp only [freshCache] at whole ⊢; omega⟩
  have ok := freshCache_ok shaped init (fun _ member => absurd member not_mem_nil)
  exact .of_cache ok (update_self ..) rfl rfl rfl fun _ member => absurd member not_mem_nil

/-- In every run on a new cache of any size class, whatever the users write into their cells. -/
theorem cache_cells_exact [PageAllocator A] (entry : (cellSize, cellCount) ∈ cacheSize)
    (made : allocate cellSize cellCount heap = .ok (ptr, heap')) (positive : 0 < ptr)
    (below : ptr + cellCount * cellSize ≤ 2 ^ 64) (run : ReflTransGen (CacheStep ptr) ⟨heap', []⟩ s) :
    ∃ free, Linked (fun cell => nonNull (s.heap.head cell)) (nonNull (s.heap.caches ptr).freeListHead) free ∧
      free.length = (s.heap.caches ptr).freeCount ∧ free.Nodup ∧ s.outstanding.Nodup ∧
      (s.heap.caches ptr).freeCount + (s.heap.caches ptr).usedCount = cellCount - headerCells cellSize ∧
      free.Disjoint s.outstanding ∧
      (∀ cell, cell ∈ free ∨ cell ∈ s.outstanding ↔
        ∃ i, headerCells cellSize ≤ i ∧ i < cellCount ∧ cell = ptr + i * cellSize) ∧
      (s.heap.allocObj ptr = none →
        ∀ i, headerCells cellSize ≤ i → i < cellCount → ptr + i * cellSize ∈ s.outstanding) ∧
      ∀ cell ∈ s.outstanding, ∃ after, s.heap.freeObj ptr cell = .ok after := by
  have ok := Runs.preserved (CacheRunOk ptr (cellCount * cellSize / pageSize) cellSize) (fun _ _ ok step => ok.step step)
    (CacheRunOk.of_allocate entry made positive below) run
  obtain ⟨free, linked, length, perm⟩ := ok.free_perm
  obtain ⟨large, _, whole, _, _, offset⟩ := cacheSize_facts _ entry
  dsimp only at large whole offset
  have distinct := perm.nodup_iff.mpr ok.ok.shaped.cells_nodup
  have members : ∀ cell, cell ∈ free ∨ cell ∈ s.outstanding ↔
      ∃ i, headerCells cellSize ≤ i ∧ i < cellCount ∧ cell = ptr + i * cellSize := by
    intro cell
    have entry' : ((s.heap.caches ptr).cellSize, cellCount) ∈ cacheSize := by rwa [ok.size]
    rw [← mem_append, perm.mem_iff, mem_cells_iff entry' (by rw [ok.size, ok.pages, whole]), ok.size, ok.start]
  refine ⟨free, linked, length, (nodup_append.mp distinct).1, ok.nodup, ?_, disjoint_of_nodup_append distinct,
    members, ?_, fun cell out => ⟨_, (ok.freeObj_eq out).1⟩⟩
  · have total := perm.length_eq
    rw [length_append, length, ← ok.filter_outstanding, ← ok.ok.used, cells, length_map,
      length_range', CachePage.cellCount, ok.pages, ok.size, whole, Nat.mul_div_cancel _ (by omega)] at total
    rw [total, headerCells, offset]
  · intro none i low high
    rw [allocObj] at none
    split at none
    · rename_i full
      obtain rfl := length_eq_zero_iff.mp (length.trans full)
      exact ((members _).mpr ⟨i, low, high, rfl⟩).resolve_left not_mem_nil
    · cases none

theorem written_cell_exact : ∃ (ptr cell : Nat) (heap' heap'' : Heap Bump),
    allocate (512 * 1024) 2 (⟨⟨1, [], nofun⟩, fun _ => 0, fun ptr => freshCache ptr 0 0, fun _ => .default⟩ : Heap Bump) =
        .ok (ptr, heap') ∧
      heap'.allocObj ptr = some (cell, heap'') ∧
      ReflTransGen (CacheStep ptr) ⟨heap', []⟩ ⟨heap''.setHead cell 7, [cell]⟩ ∧
      (heap''.caches ptr).freeCount + (heap''.caches ptr).usedCount = 1 := by
  have made : passes (allocate (512 * 1024) 2
      (⟨⟨1, [], nofun⟩, fun _ => 0, fun ptr => freshCache ptr 0 0, fun _ => .default⟩ : Heap Bump))
      (fun result => decide (result.1 = 4096) && (result.2.allocObj result.1).any fun given =>
        decide ((given.2.caches result.1).cellSize = 512 * 1024)) = true := by decide +kernel
  obtain ⟨⟨ptr, heap'⟩, made, tested⟩ := exists_of_passes made
  obtain ⟨place, taken⟩ := Bool.and_eq_true_iff.mp tested
  obtain ⟨⟨cell, heap''⟩, taken, size⟩ := (Option.any_eq_true _ _).mp taken
  obtain rfl : ptr = 4096 := of_decide_eq_true place
  have size : (heap''.caches 4096).cellSize = 512 * 1024 := of_decide_eq_true size
  have run : ReflTransGen (CacheStep 4096) ⟨heap', []⟩ ⟨heap''.setHead cell 7, [cell]⟩ :=
    .head (.alloc ⟨heap', []⟩ cell heap'' taken)
      (.single (.write ⟨heap'', [cell]⟩ cell cell 7 (mem_singleton_self cell) ⟨le_rfl, by rw [size]; exact Nat.add_le_add_left (by decide) cell⟩))
  obtain ⟨_, _, _, _, _, counts, _⟩ := cache_cells_exact (by decide) made (by decide) (by decide) run
  exact ⟨4096, cell, heap', heap'', made, taken, run, counts⟩

end Runs

end Kernel31.Mcache
