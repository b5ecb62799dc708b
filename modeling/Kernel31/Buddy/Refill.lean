import Kernel31.Buddy.Nodes

namespace Kernel31.Buddy

open Checked DyadicBlocks MemoryZone List BuddyAllocator

variable {order level : Nat} {pool : FreeNodePool} {zones : List MemoryZone} {allocator : BuddyAllocator}

theorem halves_sum (start : Nat) (below : order ≤ level) :
    ((halves start order level).map Block.size).sum + 2 ^ order = 2 ^ level := by
  induction below using Nat.decreasingInduction with
  | self => simp [halves_self]
  | of_succ order below ih =>
    rw [halves_cons below, map_cons, sum_cons]
    change 2 ^ order + _ + 2 ^ order = 2 ^ level
    rw [pow_succ] at ih
    omega

theorem halves_count (start bound : Nat) (below : order ≤ level) :
    (halves start order level).countP (fun block => bound ≤ block.order) = level - max order bound := by
  induction below using Nat.decreasingInduction with
  | self => simp [halves_self]
  | of_succ order below ih =>
    rw [halves_cons below, countP_cons, ih]
    simp only [decide_eq_true_eq]
    split
    · omega
    · omega

theorem MemoryZone.firstLevel_isSome {zone : MemoryZone} :
    zone.firstLevel order ≠ none ↔ 0 < zone.freeBlocks.countP (fun block => order ≤ block.order) := by
  rw [countP_pos_iff, Ne, firstLevel_none]
  simp only [decide_eq_true_eq, mem_freeBlocks]
  constructor
  · intro some
    push Not at some
    obtain ⟨level, fits, bound, full⟩ := some
    obtain ⟨node, next, list⟩ := exists_cons_of_ne_nil full
    exact ⟨⟨node.pageNumber, level⟩, ⟨bound, node, by simp [list], rfl⟩, fits⟩
  · rintro ⟨block, ⟨bound, node, member, _⟩, fits⟩ none
    rw [none _ fits bound] at member
    cases member

theorem allocZones_succeeds (counted : pool.freeStart.length ≤ pool.freenodeRemain)
    (first : zones.findSome? (fun zone => zone.firstLevel order) = some level)
    (enough : level ≤ order + pool.freeStart.length + 1) :
    ∃ page zones' pool', allocZones (2 ^ order) zones pool = .ok (some page, zones', pool') := by
  obtain ⟨before, zone, after, _, here, asked⟩ := allocZones_at pool first
  obtain ⟨page, zone', pool', taken⟩ := allocPages_succeeds here enough (by omega)
  exact ⟨page, before ++ zone' :: after, pool', by rw [asked, taken]; rfl⟩

theorem allocZones_fails (counted : pool.freeStart.length ≤ pool.freenodeRemain)
    (first : zones.findSome? (fun zone => zone.firstLevel order) = some level)
    (short : order + pool.freeStart.length + 1 < level) : allocZones (2 ^ order) zones pool = .error .noFreeNode := by
  obtain ⟨_, zone, _, _, here, asked⟩ := allocZones_at pool first
  rw [asked, allocPages_fails counted here short]
  rfl

def BuddyAllocator.nodes (self : BuddyAllocator) : Nat := self.nodePool.freeStart.length

def BuddyAllocator.freeTotal (self : BuddyAllocator) : Nat := (self.zones.map MemoryZone.freeTotal).sum

def BuddyAllocator.blocksFrom (self : BuddyAllocator) (order : Nat) : Nat :=
  (self.zones.map fun zone => zone.freeBlocks.countP fun block => order ≤ block.order).sum

structure BuddyAllocator.Backed (allocator : BuddyAllocator) : Prop where
  counted : allocator.nodes ≤ allocator.nodePool.freenodeRemain
  funded : allocator.freeTotal ≤ allocator.free

theorem BuddyAllocator.firstLevel_isSome : allocator.firstLevel order ≠ none ↔ 0 < allocator.blocksFrom order := by
  unfold firstLevel blocksFrom
  induction allocator.zones with
  | nil => simp
  | cons zone zones ih =>
    rw [findSome?_cons, map_cons, sum_cons, Nat.add_pos_iff_pos_or_pos, ← ih,
      ← MemoryZone.firstLevel_isSome]
    cases zone.firstLevel order <;> simp

theorem BuddyAllocator.firstLevel_bounds (first : allocator.firstLevel order = some level) :
    order ≤ level ∧ level < buddyAllocMaxPow := by
  obtain ⟨zone, _, own⟩ := exists_of_findSome?_eq_some first
  obtain ⟨bound, fits, _, _⟩ := firstLevel_some.mp own
  exact ⟨fits, bound⟩

theorem BuddyAllocator.request_effect {allocator' : BuddyAllocator} {count page : Nat}
    (run : allocator.request count = .ok (.ok page, allocator')) :
    ∃ level, allocator.firstLevel (ceilOrder count) = some level ∧
      allocator'.nodes + (level - ceilOrder count) = allocator.nodes + 1 ∧
      allocator'.nodePool.freenodeRemain + (level - ceilOrder count) = allocator.nodePool.freenodeRemain + 1 ∧
      allocator'.freeTotal + 2 ^ ceilOrder count = allocator.freeTotal ∧
      allocator'.free + 2 ^ ceilOrder count = allocator.free ∧
      ∀ order, allocator'.blocksFrom order + (if order ≤ level then 1 else 0) =
        allocator.blocksFrom order + (level - max (ceilOrder count) order) := by
  rcases request_cases run with ⟨failed, _⟩ | ⟨before, zone, after, zone', pool, page', _, split, taken, asked, enough, rfl⟩
  · cases failed
  obtain ⟨level, start, rest, first, _, _, _, blocks, blocks', nodes, remain⟩ := allocPages_blocks taken
  obtain ⟨_, fits, _, _⟩ := firstLevel_some.mp first
  refine ⟨level, ?_, nodes, remain, ?_, by simp only; omega, ?_⟩
  · rw [asked, first]
  · have total := (blocks.map Block.size).sum_eq
    have total' := (blocks'.map Block.size).sum_eq
    have sum := halves_sum start fits
    simp only [map_cons, map_append, sum_cons, sum_append] at total total'
    simp only [freeTotal, split, map_cons, map_append, sum_cons, sum_append,
      MemoryZone.freeTotal, total, total', Block.size]
    omega
  · intro order
    have count := blocks.countP_eq fun block => order ≤ block.order
    have count' := blocks'.countP_eq fun block => order ≤ block.order
    rw [countP_cons] at count
    rw [countP_append, halves_count start order fits] at count'
    simp only [blocksFrom, split, map_cons, map_append, sum_cons, sum_append,
      count, count', decide_eq_true_eq]
    omega

end Kernel31.Buddy
