import Kernel31.Mcache.Placement
import Kernel31.Buddy.System

namespace Kernel31.Mcache

open Page Checked List

theorem Layout.align_dvd (layout : Layout) (exponent : Nat) (below : layout.align ≤ 2 ^ exponent) :
    layout.align ∣ 2 ^ exponent := by
  obtain ⟨e, power⟩ := layout.power
  rw [power] at below ⊢
  exact Nat.pow_dvd_pow 2 ((Nat.pow_le_pow_iff_right (by decide)).mp below)

theorem headerSize_eq (layout : Layout) : headerSize layout = max ptrSize layout.align := by
  obtain ⟨e, power⟩ := layout.power
  rw [headerSize, calcHeaderPadding, power, show ptrSize = 8 from rfl]
  by_cases small : e ≤ 3
  · interval_cases e <;> rfl
  · have large : 2 ^ 4 ≤ 2 ^ e := Nat.pow_le_pow_right (by decide) (by omega)
    have offset : 8 % 2 ^ e = 8 := Nat.mod_eq_of_lt (by omega)
    rw [offset, Nat.mod_eq_of_lt (by omega), max_eq_right (by omega)]
    omega

theorem align_dvd_header (layout : Layout) : layout.align ∣ headerSize layout := by
  rw [headerSize_eq]
  rcases Nat.le_total layout.align ptrSize with small | large
  · rw [max_eq_left small]
    exact layout.align_dvd 3 small
  · rw [max_eq_right large]

theorem align_dvd_cellSize {layout : Layout} {cellSize cellCount idx : Nat}
    (cls : objectClass layout = some ((cellSize, cellCount), idx)) : layout.align ∣ cellSize := by
  have powers : ∀ entry ∈ cacheSize, ∃ exponent < 20, entry.1 = 2 ^ exponent := by decide
  obtain ⟨member, fits⟩ := sizeToClass_some cls
  obtain ⟨exponent, _, power⟩ := powers _ (mem_of_getElem? member)
  dsimp only at power
  have header : layout.align ≤ headerSize layout := by
    rw [headerSize_eq]
    exact le_max_right _ _
  rw [power] at fits ⊢
  exact layout.align_dvd exponent (by omega)

section Aligned

variable {A : Type} [PageAllocator A] {used : A → Nat → Prop} {global : Nat} {mgrs : List Nat}
variable {objs others : List (Nat × Nat)} {world : World A} {layout : Layout} {ptr : Nat}

omit [PageAllocator A] in
theorem WorldOk.aligned_iff (ok : WorldOk used global world mgrs objs others) (live : (ptr, layout) ∈ world.live) :
    ∃ block, (block ∈ world.heap.blocks (mgrs ++ [global]) ∨ pagesOf (ptr, layout) = some block) ∧
      Within (ptr, layout.size) (bytes block) ∧ (layout.align ∣ ptr ↔ layout.align ∣ (bytes block).1) := by
  cases cls : objectClass layout with
  | some entry =>
    obtain ⟨low, owns⟩ := ok.cell_owned live cls
    obtain ⟨c, there, cells, size, first, last⟩ := ok.toBase.obj_within owns
    refine ⟨_, .inl (mem_map.mpr ⟨c, there, rfl⟩), ?_, ?_⟩
    · have fits := (sizeToClass_some cls).2
      dsimp only at first last
      exact ⟨by dsimp only; omega, by dsimp only; omega⟩
    · obtain ⟨i, _, place⟩ := mem_map.mp cells
      have address : ptr = (world.heap.caches c).pageStart + (i * entry.1.1 + headerSize layout) := by
        dsimp only at place size
        rw [← size]
        omega
      rw [(ok.store.caches c there).shaped.bytes_block, address]
      exact Nat.dvd_add_iff_left ((align_dvd_cellSize cls).mul_left i |>.add (align_dvd_header layout)) |>.symm
  | none =>
    have within := liveRegion_within (ok.placed (ptr, layout) live)
    have placed := ok.placed (ptr, layout) live
    rw [Placed, if_pos cls] at placed
    rw [liveRegion, if_pos cls, enclosing] at within
    simp only [cls] at within
    refine ⟨_, .inr (if_pos cls), within, ?_⟩
    rw [bytes, Nat.div_mul_cancel (Nat.dvd_of_mod_eq_zero placed)]

end Aligned

section Unaligned

open Buddy

def oddAllocator : BuddyAllocator :=
  { free := 512, zones := [(MemoryZone.empty 257 512).setPow 9 [⟨.fixed 0, 0⟩]], nodePool := .afterOne, extendedPools := [] }

theorem oddAllocator_boot : boot [(257, 512)] = .ok oddAllocator := by
  have new : MemoryZone.new .init 257 512 = .ok ((MemoryZone.empty 257 512).setPow 9 [⟨.fixed 0, 0⟩], .afterOne) := by
    rw [FreeNodePool.init_eq]
    exact MemoryZone.new_two_pow 9 257 511 (by decide) (.fixed 0) _
  simp only [boot, foldlM_cons, foldlM_nil, BuddyAllocator.addZone, BuddyAllocator.init, new]
  rfl

def oddHeap : Heap BuddyAllocator where
  alloc := oddAllocator
  head _ := 0
  caches ptr := freshCache ptr 0 0
  managers _ := CacheManager.default

def twoPageLayout (size : Nat) (positive : 0 < size) (bounded : size + 2 ^ 13 ≤ 2 ^ 63) : Layout :=
  ⟨size, 2 ^ 13, positive, ⟨13, rfl⟩, bounded⟩

end Unaligned

end Kernel31.Mcache
