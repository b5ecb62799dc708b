import Kernel31.Buddy.Refill

namespace Kernel31.Buddy

open Checked DyadicBlocks MemoryZone FreeNodePool

def MemoryZone.WellFormed (zone : MemoryZone) : Prop := Packing zone.freeBlocks zone.pages

def MemoryZone.FreePage (zone : MemoryZone) (page : Nat) : Prop :=
  zone.base ≤ page ∧ Covered zone.freeBlocks (page - zone.base)

/-- The node of the block itself goes back to the pool before the split. -/
def MemoryZone.Stocked (zone : MemoryZone) (pool : FreeNodePool) (order : Nat) : Prop :=
  ∀ level, zone.firstLevel order = some level →
    level ≤ order + pool.freeStart.length + 1 ∧ level ≤ order + pool.freenodeRemain + 1

theorem MemoryZone.firstLevel_isSome_iff {zone : MemoryZone} {order : Nat} :
    (zone.firstLevel order).isSome ↔
      ∃ level, order ≤ level ∧ level < buddyAllocMaxPow ∧ zone.pows level ≠ [] := by
  rw [← not_iff_not, Bool.not_eq_true, Option.isSome_eq_false_iff, Option.isNone_iff_eq_none, firstLevel_none]
  push Not
  rfl

structure MemoryZone.Taken (zone zone' : MemoryZone) (order page : Nat) : Prop where
  above : zone.base ≤ page
  aligned : 2 ^ order ∣ page - zone.base
  smallest : ∃ block ∈ zone.freeBlocks, block.start = page - zone.base ∧ order ≤ block.order ∧
    ∀ other ∈ zone.freeBlocks, order ≤ other.order → block.order ≤ other.order
  free : ∀ taken, page ≤ taken → taken < page + 2 ^ order → zone.FreePage taken
  left : ∀ other, zone'.FreePage other ↔ zone.FreePage other ∧ ¬ (page ≤ other ∧ other < page + 2 ^ order)

theorem MemoryZone.allocPages_taken {zone zone' : MemoryZone} {pool pool' : FreeNodePool} {order page : Nat}
    (formed : zone.WellFormed) (run : zone.allocPages pool (2 ^ order) = .ok (some page, zone', pool')) :
    zone'.WellFormed ∧ zone'.base = zone.base ∧ zone'.pages = zone.pages ∧ zone.Taken zone' order page := by
  obtain ⟨level, start, rest, first, rfl, base, pages, blocks, blocks', _⟩ := allocPages_blocks run
  obtain ⟨_, fits, _, _⟩ := firstLevel_some.mp first
  have packing : Packing (⟨start, order⟩ :: (halves start order level ++ rest)) zone.pages :=
    halves_rule (P := (Packing · zone.pages)) Packing.split fits (Packing.perm formed blocks)
  have before : ∀ cell, Covered zone.freeBlocks cell ↔
      Covered (⟨start, order⟩ :: (halves start order level ++ rest)) cell := fun cell =>
    (covered_perm blocks).trans (halves_rule (P := fun blocks => Covered _ cell ↔ Covered blocks cell)
      (fun whole => whole.trans covered_split) fits .rfl)
  refine ⟨?_, base, pages, ?_⟩
  · rw [MemoryZone.WellFormed, pages]
    exact packing.tail.perm blocks'.symm
  · constructor
    case above => omega
    case aligned =>
      have aligned := packing.aligned _ List.mem_cons_self
      rwa [Nat.add_sub_cancel_left]
    case smallest =>
      refine ⟨⟨start, level⟩, blocks.mem_iff.mpr List.mem_cons_self, ?_, fits, ?_⟩
      · rw [Nat.add_sub_cancel_left]
      · exact fun other member wide => firstLevel_least first member wide
    case free =>
      intro taken low high
      refine ⟨by omega, (before _).mpr (covered_cons.mpr (Or.inl ?_))⟩
      simp only [Block.Covers, Block.stop, Block.size]
      omega
    case left =>
      intro other
      have outside : Covered zone'.freeBlocks (other - zone.base) ↔ _ :=
        (covered_perm blocks').trans packing.covered_tail
      rw [MemoryZone.FreePage, MemoryZone.FreePage, base, outside, ← before]
      simp only [Block.Covers, Block.stop, Block.size]
      constructor
      · rintro ⟨low, covered, clear⟩
        exact ⟨⟨low, covered⟩, by omega⟩
      · rintro ⟨⟨low, covered⟩, clear⟩
        exact ⟨low, covered, by omega⟩

/-- A request returns, finds a run exactly if some list holds a block for it, and takes exactly the pages of that
    run. -/
theorem MemoryZone.allocPages_exact {zone : MemoryZone} {pool : FreeNodePool} {order : Nat} (formed : zone.WellFormed)
    (stocked : zone.Stocked pool order) :
    ∃ found zone' pool', zone.allocPages pool (2 ^ order) = .ok (found, zone', pool') ∧
      (found.isSome ↔ ∃ level, order ≤ level ∧ level < buddyAllocMaxPow ∧ zone.pows level ≠ []) ∧
      zone'.WellFormed ∧ zone'.base = zone.base ∧ zone'.pages = zone.pages ∧ (found = none → zone' = zone) ∧
      ∀ page, found = some page → zone.Taken zone' order page := by
  rw [← firstLevel_isSome_iff]
  cases first : zone.firstLevel order with
  | none => exact ⟨none, zone, pool, allocPages_misses pool first, by simp, formed, rfl, rfl, by simp⟩
  | some level =>
    obtain ⟨enough, remain⟩ := stocked level first
    obtain ⟨page, zone', pool', run⟩ := allocPages_succeeds first enough remain
    obtain ⟨formed', base, pages, taken⟩ := allocPages_taken formed run
    refine ⟨some page, zone', pool', run, by simp, formed', base, pages, by simp, ?_⟩
    intro other same
    rwa [← Option.some.inj same]

theorem MemoryZone.allocPages_eight :
    let zone := (empty 100 8).setPow 3 [⟨.extended 7 0, 0⟩]
    zone.WellFormed ∧ zone.Stocked init 1 ∧ ∃ page zone' pool',
      zone.allocPages init (2 ^ 1) = .ok (some page, zone', pool') ∧ zone.Taken zone' 1 page := by
  intro zone
  have blocks : zone.freeBlocks = [⟨0, 3⟩] := by decide
  have formed : zone.WellFormed := by
    rw [MemoryZone.WellFormed, blocks]
    exact ⟨by simp [Block.Aligned], by simp [Block.stop, Block.size, zone, MemoryZone.setPow, empty], by simp⟩
  have stocked : zone.Stocked init 1 := by
    intro level first
    obtain ⟨bound, _⟩ := firstLevel_some.mp first
    have length : init.freeStart.length = nodeCompatibility := by simp [init]
    rw [length]
    change level < 36 at bound
    change level ≤ 1 + 512 + 1 ∧ level ≤ 1 + 512 + 1
    omega
  obtain ⟨found, zone', pool', run, some, _, _, _, _, taken⟩ := allocPages_exact formed stocked
  obtain ⟨page, rfl⟩ := Option.isSome_iff_exists.mp (some.mpr ⟨3, by decide, by decide, by decide⟩)
  exact ⟨formed, stocked, page, zone', pool', run, taken page rfl⟩

end Kernel31.Buddy
