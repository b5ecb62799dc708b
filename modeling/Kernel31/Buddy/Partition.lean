import Kernel31.Buddy.System

namespace Kernel31.Buddy

open Checked DyadicBlocks Page List MemoryZone BuddyAllocator

variable {allocator allocator' : BuddyAllocator} {start count : Nat} {regions : List (Nat × Nat)}

def System.CleanFree (s : System) : Op → Prop
  | .alloc _ => True
  | .free pageStart pagesCount => ∀ zone ∈ s.allocator.zones, zone.contains (pageStart, pagesCount) = true →
      zone.CleanMerge (ceilOrder pagesCount) (pageStart - zone.base)

instance (s : System) : DecidablePred s.CleanFree
  | .alloc _ => isTrue trivial
  | .free pageStart pagesCount =>
    inferInstanceAs (Decidable (∀ zone ∈ s.allocator.zones, zone.contains (pageStart, pagesCount) = true →
      zone.CleanMerge (ceilOrder pagesCount) (pageStart - zone.base)))

theorem perm_filter_erase {α : Type} [BEq α] [LawfulBEq α] {values : List α} {value : α}
    (member : value ∈ values) (test : α → Bool) :
    (values.filter test).Perm (if test value then value :: (values.erase value).filter test
      else (values.erase value).filter test) := by
  have same := (perm_cons_erase member).filter test
  rw [filter_cons] at same
  exact same

theorem BuddyAllocator.freePages_cases (run : allocator.freePages start count = .ok allocator') :
    (allocator' = allocator ∧ ∀ zone ∈ allocator.zones, zone.contains (start, count) = false) ∨
    ∃ before zone after zone' pool', allocator.zones = before ++ zone :: after ∧
      zone.contains (start, count) = true ∧
      zone.freePages allocator.nodePool start (2 ^ ceilOrder count) = .ok (zone', pool') ∧
      allocator' = { allocator with
        free := allocator.free + 2 ^ ceilOrder count, zones := before ++ zone' :: after, nodePool := pool' } := by
  simp only [freePages, bind_ok, Prod.exists] at run
  obtain ⟨rounded, power, found, zones, pool, searched, run⟩ := run
  obtain ⟨rfl, _⟩ := ceilToPower2_ok power
  rcases freeZones_cases searched with ⟨rfl, rfl, rfl, outside⟩ | ⟨before, zone, after, zone', rfl, split, rfl, inside, freed⟩
  · obtain rfl := pure_ok.mp run
    exact Or.inl ⟨rfl, outside⟩
  · obtain rfl := pure_ok.mp run
    exact Or.inr ⟨before, zone, after, zone', pool, split, inside, freed, rfl⟩

variable {held : List (Nat × Nat)} {base pages : Nat}

theorem BuddyAllocator.Tiled.free (tiled : allocator.Tiled regions held) (member : (start, count) ∈ held)
    (clean : ∀ zone ∈ allocator.zones, zone.contains (start, count) = true →
      zone.CleanMerge (ceilOrder count) (start - zone.base))
    (run : allocator.freePages start count = .ok allocator') :
    allocator'.Tiled regions (held.erase (start, count)) := by
  rcases freePages_cases run with ⟨_, outside⟩ | ⟨before, zone, after, zone', pool', split, inside, freed, rfl⟩
  · obtain ⟨home, homeMember, holds⟩ := tiled.housed _ member
    rw [outside home homeMember] at holds
    cases holds
  have zoneMember : zone ∈ allocator.zones := by simp [split]
  have own := perm_filter_erase member zone.contains
  rw [if_pos inside] at own
  have old := (tiled.tiling zone zoneMember).perm ((own.map (heldBlock zone.base)).append_left _)
  rw [map_cons] at old
  have bound : ceilOrder count < buddyAllocMaxPow := by
    have block : heldBlock zone.base (start, count) ∈
        zone.freeBlocks ++ heldBlock zone.base (start, count) ::
          ((held.erase (start, count)).filter zone.contains).map (heldBlock zone.base) := by simp
    exact Tiling.order_lt old (tiled.small zone zoneMember) block
  obtain ⟨sameBase, samePages, tiling⟩ := MemoryZone.freePages_tiling bound (clean zone zoneMember inside) freed old
  have sums := old.sum_size
  have sums' := tiling.sum_size
  simp only [map_append, map_cons, sum_append, sum_cons] at sums sums'
  have balance : zone'.freeTotal = zone.freeTotal + 2 ^ ceilOrder count := by
    simp only [freeTotal, heldBlock, Block.size] at sums sums' ⊢
    omega
  apply tiled.replace split rfl
  · simp [region, sameBase, samePages]
  · exact tiling
  · intro other elsewhere
    have outside := MemoryZone.not_contains_of_apart (tiled.apart_of_split split elsewhere) inside
    have kept := perm_filter_erase member other.contains
    rw [if_neg (by simp [outside])] at kept
    exact kept
  · intro block kept
    exact tiled.housed block (mem_of_mem_erase kept)
  · simp only
    omega

theorem BuddyAllocator.freePages_pools (run : allocator.freePages start count = .ok allocator') :
    allocator'.pools = allocator.pools := by
  rcases freePages_cases run with ⟨rfl, _⟩ | ⟨_, _, _, _, _, _, _, _, rfl⟩ <;> rfl

theorem System.Tiled.step {s s' : System} (tiled : s.Tiled regions) (steps : s.Steps System.CleanFree s') :
    s'.Tiled regions := by
  obtain ⟨op, permitted, clean, run⟩ := steps
  cases op with
  | alloc count => exact tiled.alloc run
  | free start count =>
    simp only [System.step, bind_ok, pure_ok] at run
    obtain ⟨after, freed, rfl⟩ := run
    simp only [System.Permits] at permitted
    have erased := BuddyAllocator.Tiled.free tiled (mem_append_left _ permitted) clean freed
    rw [System.held, erase_append_left _ permitted] at erased
    simp only [System.Tiled, System.held, freePages_pools freed]
    exact erased

theorem BuddyAllocator.addZone_ok (run : allocator.addZone base pages = .ok allocator') :
    ∃ zone pool, MemoryZone.new allocator.nodePool base pages = .ok (zone, pool) ∧
      allocator' = { allocator with
        zones := allocator.zones ++ [zone], nodePool := pool, free := allocator.free + pages } := by
  simp only [addZone, bind_ok, Prod.exists] at run
  obtain ⟨zone, pool, new, run⟩ := run
  split at run
  · exact ⟨zone, pool, new, (pure_ok.mp run).symm⟩
  · simp [throw_ok] at run

theorem BuddyAllocator.Tiled.addZone (tiled : allocator.Tiled regions [])
    (run : allocator.addZone base pages = .ok allocator')
    (apart : (regions ++ [(base, pages)]).Pairwise RegionsApart) :
    allocator'.Tiled (regions ++ [(base, pages)]) [] ∧ allocator'.extendedPools = allocator.extendedPools := by
  obtain ⟨zone, pool, new, rfl⟩ := addZone_ok run
  obtain ⟨sameBase, samePages, tiling, _⟩ := MemoryZone.new_tiling new
  have region : zone.region = (base, pages) := by simp [region, sameBase, samePages]
  refine ⟨⟨by simp [tiled.zoned, region], apart, ?_, ?_, by simp, ?_⟩, rfl⟩
  · simp only [forall_mem_append, forall_mem_singleton, samePages]
    exact ⟨tiled.small, MemoryZone.new_small new⟩
  · have old := tiled.tiling
    simp only [filter_nil, map_nil, append_nil] at old ⊢
    simp only [forall_mem_append, forall_mem_singleton, samePages]
    exact ⟨old, tiling⟩
  · have total : zone.freeTotal = pages := tiling.sum_size
    simp [tiled.accounted, total]

theorem BuddyAllocator.Tiled.boot {added : List (Nat × Nat)} (tiled : allocator.Tiled regions [])
    (apart : (regions ++ added).Pairwise RegionsApart)
    (run : added.foldlM (fun allocator region => allocator.addZone region.1 region.2) allocator = .ok allocator') :
    allocator'.Tiled (regions ++ added) [] ∧ allocator'.extendedPools = allocator.extendedPools := by
  induction added generalizing allocator regions with
  | nil =>
    obtain rfl := pure_ok.mp run
    exact ⟨by simpa using tiled, rfl⟩
  | cons region added ih =>
    simp only [foldlM_cons, bind_ok] at run
    obtain ⟨middle, first, run⟩ := run
    rw [append_cons] at apart ⊢
    obtain ⟨tiled', pools⟩ := tiled.addZone first (apart.sublist (sublist_append_left _ _))
    obtain ⟨final, pools'⟩ := ih tiled' apart run
    exact ⟨final, pools'.trans pools⟩

theorem boot_tiled (apart : regions.Pairwise RegionsApart) (booted : boot regions = .ok allocator) :
    System.Tiled ⟨allocator, []⟩ regions := by
  have nothing : BuddyAllocator.default.init.Tiled [] [] := by
    refine ⟨rfl, .nil, by simp [init, BuddyAllocator.default],
      by simp [init, BuddyAllocator.default], by simp, rfl⟩
  obtain ⟨tiled, pools⟩ := nothing.boot (by simpa using apart) booted
  have none : allocator.pools = [] := by
    rw [BuddyAllocator.pools, pools]
    rfl
  simpa [System.Tiled, System.held, none] using tiled

theorem BuddyAllocator.Tiled.heldApart (tiled : allocator.Tiled regions held) : held.Pairwise HeldApart := by
  have inside : ∀ zone ∈ allocator.zones, ∀ block ∈ held, zone.contains block = true →
      block.1 - zone.base + nextPowerOfTwo block.2 ≤ zone.pages := by
    intro zone member block kept holds
    have listed : heldBlock zone.base block ∈
        zone.freeBlocks ++ (held.filter zone.contains).map (heldBlock zone.base) :=
      mem_append_right _ (mem_map_of_mem (mem_filter.mpr ⟨kept, holds⟩))
    exact (tiled.tiling zone member).inside _ listed
  apply Lists.pairwise_of_classes allocator.zones MemoryZone.contains
  · intro zone member
    have pairs := (pairwise_append.mp (tiled.tiling zone member).apart).2.1
    rw [pairwise_map] at pairs
    refine pairs.imp_of_mem ?_
    intro left right first second apart
    have leftBase := (mem_filter.mp first).2
    have rightBase := (mem_filter.mp second).2
    simp only [MemoryZone.contains, decide_eq_true_eq] at leftBase rightBase
    simp only [Block.Apart, Block.stop, Block.size, heldBlock] at apart
    simp only [HeldApart, nextPowerOfTwo]
    omega
  · intro left first right second separate
    obtain ⟨home, homeMember, holds⟩ := tiled.housed left first
    obtain ⟨other, otherMember, holds'⟩ := tiled.housed right second
    have different : home ≠ other := fun same => separate home homeMember ⟨holds, by rw [same]; exact holds'⟩
    have apart : RegionsApart home.region other.region := by
      obtain ⟨before, after, split⟩ := append_of_mem homeMember
      apply tiled.apart_of_split split
      rw [split] at otherMember
      rcases mem_append.mp otherMember with early | late
      · exact mem_append_left _ early
      · rcases mem_cons.mp late with same | late
        · exact absurd same.symm different
        · exact mem_append_right _ late
    have leftInside := inside home homeMember left first holds
    have rightInside := inside other otherMember right second holds'
    simp only [MemoryZone.contains, decide_eq_true_eq] at holds holds'
    simp only [RegionsApart, region] at apart
    simp only [HeldApart]
    omega

/-- Without stray partners the free and the held blocks partition every zone, and `free` counts the pages in the
    lists. -/
theorem partition_of_clean_runs {regions : List (Nat × Nat)} {allocator : BuddyAllocator} {s : System}
    (apart : regions.Pairwise RegionsApart) (booted : boot regions = .ok allocator)
    (run : Relation.ReflTransGen (System.Steps System.CleanFree) ⟨allocator, []⟩ s) :
    s.allocator.zones.map region = regions ∧
    (∀ zone ∈ s.allocator.zones,
      Tiling (zone.freeBlocks ++ (s.held.filter zone.contains).map (heldBlock zone.base)) zone.pages) ∧
    (∀ block ∈ s.held, ∃ zone ∈ s.allocator.zones, zone.contains block = true) ∧
    s.held.Pairwise HeldApart ∧
    s.allocator.free = (s.allocator.zones.map freeTotal).sum := by
  have tiled := Runs.preserved (fun s => s.Tiled regions) (fun _ _ kept steps => kept.step steps)
    (boot_tiled apart booted) run
  exact ⟨tiled.zoned, tiled.tiling, tiled.housed, tiled.heldApart, tiled.accounted⟩

def eightPagesAllocator : BuddyAllocator :=
  { free := 8, zones := [eightPages.zone], nodePool := .afterOne, extendedPools := [] }

theorem eightPages_boot : boot [(0, 8)] = .ok eightPagesAllocator := by
  simp only [boot, foldlM_cons, foldlM_nil, addZone, init, eightPages_new]
  rfl

theorem partition_of_two_page_run :
    ∃ s, boot [(0, 8)] = .ok eightPagesAllocator ∧
      [Op.alloc 1, .alloc 2, .free 0 1].foldlM (System.next System.CleanFree) ⟨eightPagesAllocator, []⟩ = some s ∧
      s.held = [(2, 2)] ∧ s.allocator.free = (s.allocator.zones.map freeTotal).sum := by
  have played : ∃ s, [Op.alloc 1, .alloc 2, .free 0 1].foldlM (System.next System.CleanFree)
      ⟨eightPagesAllocator, []⟩ = some s ∧ s.held = [(2, 2)] := ⟨_, rfl, rfl⟩
  obtain ⟨s, played, held⟩ := played
  have run := Runs.of_foldlM (System.next_steps System.CleanFree) played
  exact ⟨s, eightPages_boot, played, held, (partition_of_clean_runs (by simp) eightPages_boot run).2.2.2.2⟩

def doubleRun : List Op :=
  List.replicate 8 (.alloc 1) ++ [.free 5 1, .free 2 1, .free 3 1, .free 0 1, .alloc 2]

theorem page_handed_out_twice :
    ∃ s, boot [(0, 8)] = .ok eightPagesAllocator ∧
      Relation.ReflTransGen (System.Steps fun _ _ => True) ⟨eightPagesAllocator, []⟩ s ∧
      (0, 2) ∈ s.outstanding ∧ (1, 1) ∈ s.outstanding ∧ ¬ s.held.Pairwise HeldApart := by
  have played : ∃ s, doubleRun.foldlM (System.next fun _ _ => True) ⟨eightPagesAllocator, []⟩ = some s ∧
      s.outstanding = [(0, 2), (7, 1), (6, 1), (4, 1), (1, 1)] := ⟨_, rfl, rfl⟩
  obtain ⟨s, played, outstanding⟩ := played
  refine ⟨s, eightPages_boot, Runs.of_foldlM (System.next_steps _) played, by simp [outstanding],
    by simp [outstanding], ?_⟩
  intro apart
  rw [System.held, outstanding] at apart
  have overlap : HeldApart (0, 2) (1, 1) := (pairwise_cons.mp apart).1 (1, 1) (by simp)
  revert overlap
  decide

end Kernel31.Buddy
