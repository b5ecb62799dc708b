import Kernel31.Buddy.NodeSafety

namespace Kernel31.Buddy

open Checked DyadicBlocks Page MemoryZone BuddyAllocator List Block

variable {zone : MemoryZone} {s : System} {taken freed : Nat}

def wideZone : MemoryZone := (MemoryZone.empty 0 (2 ^ 11)).setPow 11 [⟨.fixed 0, 0⟩]

def wideAllocator : BuddyAllocator :=
  { free := 2 ^ 11, zones := [wideZone], nodePool := .afterOne, extendedPools := [] }

theorem wide_boot : boot [(0, 2 ^ 11)] = .ok wideAllocator := by
  have new : MemoryZone.new .init 0 (2 ^ 11) = .ok (wideZone, .afterOne) := by
    rw [FreeNodePool.init_eq, new_two_pow 11 0 511 (by decide)]
    rfl
  simp only [boot, foldlM_cons, foldlM_nil, addZone, init, new]
  rfl

abbrev FreeRun : System → System → Prop := Relation.ReflTransGen (System.Steps fun _ _ => True)

structure Draining (s : System) (taken : Nat) : Prop where
  run : FreeRun ⟨wideAllocator, []⟩ s
  tiled : s.Tiled [(0, 2 ^ 11)]
  counted : s.Counted
  length : s.outstanding.length = taken
  singles : ∀ block ∈ s.outstanding, block.2 = 1
  pools : s.allocator.extendedPools = []
  orders : ∀ zone ∈ s.allocator.zones, (zone.freeBlocks.map Block.order).Nodup
  nodes : s.allocator.nodes + s.allocator.blocksFrom 0 = 512

theorem BuddyAllocator.zones_of_region {allocator : BuddyAllocator} {region : Nat × Nat}
    (zoned : allocator.zones.map MemoryZone.region = [region]) :
    ∃ zone, allocator.zones = [zone] ∧ zone.base = region.1 ∧ zone.pages = region.2 := by
  obtain ⟨zone, single, same⟩ := map_eq_singleton_iff.mp zoned
  rw [← same]
  exact ⟨zone, single, rfl, rfl⟩

theorem Draining.start : Draining ⟨wideAllocator, []⟩ 0 := by
  have tiled := boot_tiled (by simp) wide_boot
  refine ⟨.refl, tiled, (boot_counts wide_boot).1, rfl, by simp, rfl, ?_, ?_⟩
  · intro zone member
    obtain rfl : zone = wideZone := by simpa [wideAllocator] using member
    decide
  · simp only [BuddyAllocator.nodes, wideAllocator, FreeNodePool.afterOne, length_map, length_range']
    decide

theorem MemoryZone.freeBlocks_order_lt {block : Block} (member : block ∈ zone.freeBlocks) :
    block.order < buddyAllocMaxPow := ((zone.mem_freeBlocks block).mp member).1

theorem MemoryZone.freeBlocks_length_le (orders : (zone.freeBlocks.map Block.order).Nodup) :
    zone.freeBlocks.length ≤ buddyAllocMaxPow := by
  have inside : zone.freeBlocks.map Block.order ⊆ List.range buddyAllocMaxPow := by
    intro order member
    obtain ⟨block, listed, rfl⟩ := mem_map.mp member
    exact mem_range.mpr (freeBlocks_order_lt listed)
  simpa using (subperm_of_subset orders inside).length_le

theorem halves_orders (start order level : Nat) :
    (halves start order level).map Block.order = List.range' order (level - order) := by
  rw [halves, map_map]
  exact map_id _

theorem MemoryZone.allocPages_orders {zone' : MemoryZone} {pool pool' : FreeNodePool} {page : Nat}
    (run : zone.allocPages pool (2 ^ 0) = .ok (some page, zone', pool'))
    (orders : (zone.freeBlocks.map Block.order).Nodup) : (zone'.freeBlocks.map Block.order).Nodup := by
  obtain ⟨level, start, rest, first, _, _, _, blocks, blocks', _⟩ := allocPages_blocks run
  obtain ⟨_, _, _, empty⟩ := firstLevel_some.mp first
  have split := (blocks.map Block.order).nodup_iff.mp orders
  rw [map_cons, nodup_cons] at split
  rw [(blocks'.map Block.order).nodup_iff, map_append, nodup_append, halves_orders]
  refine ⟨nodup_range', split.2, ?_⟩
  intro low inHalves high inRest
  have below : low < level := by
    have bounds := mem_range'_1.mp inHalves
    omega
  obtain ⟨block, member, rfl⟩ := mem_map.mp inRest
  have listed := (zone.mem_freeBlocks block).mp (blocks.mem_iff.mpr (mem_cons_of_mem _ member))
  obtain ⟨_, node, present, _⟩ := listed
  have above : level ≤ block.order := by
    by_contra small
    rw [empty _ (Nat.zero_le _) (by omega)] at present
    cases present
  omega

theorem Draining.freeTotal (draining : Draining s taken) : s.allocator.freeTotal + taken = 2 ^ 11 := by
  obtain ⟨zone, single, based, sized⟩ := zones_of_region draining.tiled.zoned
  have tiling := draining.tiled.tiling zone (by simp [single])
  have all : s.held.filter zone.contains = s.outstanding := by
    rw [System.held, BuddyAllocator.pools, draining.pools, map_nil, append_nil, filter_eq_self]
    intro block member
    obtain ⟨home, homeMember, holds⟩ := draining.tiled.housed block (mem_append_left _ member)
    rw [single, mem_singleton] at homeMember
    rwa [homeMember] at holds
  have sizes : (s.outstanding.map (heldBlock zone.base)).map size = s.outstanding.map fun _ => 1 := by
    rw [map_map]
    refine map_congr_left fun block member => ?_
    simp [heldBlock, size, draining.singles block member, ceilOrder]
  have sum := tiling.sum_size
  rw [all, map_append, sum_append, sizes, map_const', sum_replicate, draining.length, sized] at sum
  simp only [BuddyAllocator.freeTotal, single, map_cons, map_nil, sum_cons, sum_nil,
    MemoryZone.freeTotal]
  simpa using sum

theorem Draining.step (draining : Draining s taken) (more : taken < 2 ^ 11) : ∃ s', Draining s' (taken + 1) := by
  obtain ⟨zone, single, _, _⟩ := zones_of_region draining.tiled.zoned
  have backed := Runs.preserved System.Backed (fun _ _ kept steps => kept.step steps) (boot_backed wide_boot) draining.run
  have total := draining.freeTotal
  have blocks : s.allocator.blocksFrom 0 = zone.freeBlocks.length := by
    simp [blocksFrom, single]
  have few := freeBlocks_length_le (draining.orders zone (by simp [single]))
  have some : 0 < s.allocator.blocksFrom 0 := by
    rw [blocks, length_pos_iff]
    intro none
    simp only [BuddyAllocator.freeTotal, single, map_cons, map_nil, sum_cons, sum_nil,
      MemoryZone.freeTotal, none] at total
    omega
  obtain ⟨level, first⟩ := Option.ne_none_iff_exists'.mp (firstLevel_isSome.mpr some)
  have bounds := firstLevel_bounds first
  have nodes := draining.nodes
  have counted : s.allocator.nodePool.freenodeRemain = s.allocator.nodes := draining.counted
  simp only [buddyAllocMaxPow, vaBits, pageBits] at few bounds
  have plenty : ¬ s.allocator.nodePool.freenodeRemain ≤ minPoolRemain := by
    simp only [minPoolRemain, buddyAllocMaxPow, vaBits, pageBits]
    omega
  have zero : ceilOrder 1 = 0 := rfl
  obtain ⟨page, after, granted⟩ := request_succeeds backed.allocator (by norm_num : 1 ≤ 2 ^ 63) first
    (by omega)
  have step : s.step (.alloc 1) = .ok ⟨after, (page, 1) :: s.outstanding⟩ := by
    simp only [System.step, allocPages_eq, if_neg plenty, granted]
    rfl
  obtain ⟨_, first', used, remain, _, _, counts⟩ := request_effect granted
  have count := counts 0
  rw [if_pos (Nat.zero_le _)] at count
  have tiled := draining.tiled.alloc step
  refine ⟨_, draining.run.tail ⟨.alloc 1, trivial, trivial, step⟩, tiled, ?_, ?_, ?_, ?_, ?_, ?_⟩
  · unfold System.Counted
    simp only
    omega
  · simp [draining.length]
  · simpa using draining.singles
  · rcases request_cases granted with ⟨failed, _⟩ | ⟨_, _, _, _, _, _, _, _, _, _, _, rfl⟩
    · cases failed
    · exact draining.pools
  · rcases request_cases granted with ⟨failed, _⟩ | ⟨before, home, later, zone', _, _, _, split, taken, _, _, rfl⟩
    · cases failed
    · simp only [forall_mem_append, forall_mem_cons]
      have orders := draining.orders
      rw [split] at orders
      simp only [forall_mem_append, forall_mem_cons] at orders
      exact ⟨orders.1, allocPages_orders taken orders.2.1, orders.2.2⟩
  · simp only
    omega

theorem draining_exists (bound : taken ≤ 2 ^ 11) : ∃ s, Draining s taken := by
  induction taken with
  | zero => exact ⟨_, Draining.start⟩
  | succ taken ih =>
    obtain ⟨s, draining⟩ := ih (by omega)
    exact draining.step (by omega)

structure Fragmented (s : System) (freed : Nat) : Prop where
  run : FreeRun ⟨wideAllocator, []⟩ s
  single : ∃ zone, s.allocator.zones = [zone] ∧ zone.base = 0 ∧ zone.pages = 2 ^ 11 ∧
    (∀ level, 0 < level → level < buddyAllocMaxPow → zone.pows level = []) ∧
    (∀ node ∈ zone.pows 0, node.pageNumber % 2 = 0) ∧ (zone.pows 0).length = freed
  counted : s.Counted
  nodes : s.allocator.nodes + freed = 512
  out : ∀ i, freed ≤ i → i < 2 ^ 10 → (2 * i, 1) ∈ s.outstanding

theorem Draining.fragmented (draining : Draining s (2 ^ 11)) : Fragmented s 0 := by
  obtain ⟨zone, single, based, sized⟩ := zones_of_region draining.tiled.zoned
  have total := draining.freeTotal
  have zero : zone.freeTotal = 0 := by
    simp only [BuddyAllocator.freeTotal, single, map_cons, map_nil, sum_cons, sum_nil] at total
    omega
  have none : zone.freeBlocks = [] := by
    by_contra some
    obtain ⟨block, rest, list⟩ := exists_cons_of_ne_nil some
    have positive := block.size_pos
    simp only [MemoryZone.freeTotal, list, map_cons, sum_cons] at zero
    omega
  have empty : ∀ level, level < buddyAllocMaxPow → zone.pows level = [] := by
    intro level bound
    by_contra some
    obtain ⟨node, next, list⟩ := exists_cons_of_ne_nil some
    have member := (zone.mem_freeBlocks ⟨node.pageNumber, level⟩).mpr ⟨bound, node, by simp [list], rfl⟩
    rw [none] at member
    cases member
  have first := empty 0 (by decide)
  refine ⟨draining.run, ⟨zone, single, based, sized, fun level _ bound => empty level bound, by simp [first],
    by simp [first]⟩, draining.counted, ?_, ?_⟩
  · have nodes := draining.nodes
    simp only [blocksFrom, single, map_cons, map_nil, sum_cons, sum_nil, none,
      countP_nil] at nodes
    exact nodes
  · intro i _ bound
    obtain ⟨block, member, covers⟩ := (draining.tiled.tiling zone (by simp [single])).covered (2 * i)
      (by rw [sized]; omega)
    rw [none, nil_append, System.held, BuddyAllocator.pools, draining.pools, map_nil, append_nil] at member
    obtain ⟨held, listed, rfl⟩ := mem_map.mp member
    have kept := (mem_filter.mp listed).1
    have one := draining.singles held kept
    simp only [Block.Covers, Block.stop, size, heldBlock, one, based] at covers
    have order : ceilOrder 1 = 0 := rfl
    rw [order] at covers
    have same : held = (2 * i, 1) := by
      ext
      · simp only; omega
      · exact one
    rwa [← same]

theorem MemoryZone.freePages_alone (pool : FreeNodePool) {start order : Nat} (bound : order < buddyAllocMaxPow)
    (inside : zone.base ≤ start) (alone : ¬ zone.MeetsPartner order (start - zone.base)) :
    zone.freePages pool start (2 ^ order) = zone.addNode pool order (start - zone.base) := by
  have stays : mergeLoop (buddyAllocMaxPow - order) order
      ⟨zone, pool, order, start - zone.base, 2 ^ order⟩ = .ok ⟨zone, pool, order, start - zone.base, 2 ^ order⟩ := by
    apply mergeLoop_skips
    intro level low high full
    rw [Bool.eq_false_iff]
    exact fun partner => alone ⟨level, low, by omega, full, partner⟩
  rw [MemoryZone.freePages, if_neg (by simp [nextPowerOfTwo_two_pow]), if_neg (by omega)]
  simp only [findPow_two_pow bound]
  rw [stays, ok_bind]

theorem Fragmented.free (fragmented : Fragmented s freed) (single : s.allocator.zones = [zone])
    (bound : freed < 2 ^ 10) :
    s.allocator.freePages (2 * freed) 1 =
      (zone.addNode s.allocator.nodePool 0 (2 * freed)).map fun result =>
        { s.allocator with free := s.allocator.free + 1, zones := [result.1], nodePool := result.2 } := by
  obtain ⟨own, single', based, sized, upper, even, _⟩ := fragmented.single
  obtain rfl : zone = own := by simpa [single] using single'
  have alone : ¬ zone.MeetsPartner 0 (2 * freed - zone.base) := by
    rintro ⟨level, _, inside, full, partner⟩
    obtain ⟨node, member, test⟩ := (zone.hasPartner_iff _ _).mp partner
    have ground : level = 0 := by
      by_contra higher
      exact full 1 (by omega) (by omega) (upper 1 (by omega) (by omega))
    subst ground
    have parity := even node member
    simp only [isPartner, based, Nat.sub_zero, zero_add, pow_one, pow_zero, Nat.mul_mod_right, if_true,
      decide_eq_true_eq] at test
    omega
  have freed' := freePages_alone s.allocator.nodePool (show 0 < buddyAllocMaxPow by decide)
    (by omega) alone
  rw [based, Nat.sub_zero, pow_zero] at freed'
  have one : ceilToPower2 1 = .ok 1 := rfl
  rw [BuddyAllocator.freePages, one, ok_bind, single, freeZones, if_pos (by omega), freed']
  cases zone.addNode s.allocator.nodePool 0 (2 * freed) with
  | error fault => rfl
  | ok result => rfl

theorem Fragmented.step (fragmented : Fragmented s freed) (bound : freed < 512) :
    ∃ s', Fragmented s' (freed + 1) := by
  obtain ⟨zone, single, based, sized, upper, even, length⟩ := fragmented.single
  have nodes := fragmented.nodes
  have counted : s.allocator.nodePool.freenodeRemain = s.allocator.nodes := fragmented.counted
  obtain ⟨node, rest, list⟩ := exists_cons_of_length_pos (l := s.allocator.nodePool.freeStart)
    (by simp only [BuddyAllocator.nodes] at nodes; omega)
  have added := zone.addNode_eq (2 * freed) (show 0 < buddyAllocMaxPow by decide) list
    (by simp [counted, BuddyAllocator.nodes, list])
  have run := fragmented.free single (by omega)
  rw [added] at run
  let after : BuddyAllocator :=
    { s.allocator with
      free := s.allocator.free + 1
      zones := [zone.setPow 0 (⟨node, 2 * freed⟩ :: zone.pows 0)]
      nodePool := { freenodeRemain := s.allocator.nodePool.freenodeRemain - 1, freeStart := rest } }
  have step : s.step (.free (2 * freed) 1) = .ok ⟨after, s.outstanding.erase (2 * freed, 1)⟩ := by
    rw [System.step, run]
    rfl
  have length' : s.allocator.nodes = rest.length + 1 := by simp [BuddyAllocator.nodes, list]
  refine ⟨_, fragmented.run.tail ⟨.free (2 * freed) 1, fragmented.out freed le_rfl (by omega), trivial, step⟩,
    ⟨_, rfl, based, sized, ?_, ?_, ?_⟩, ?_, ?_, ?_⟩
  · intro level positive inside
    rw [setPow_pows, Function.update_of_ne (by omega)]
    exact upper level positive inside
  · simpa using even
  · simp [length]
  · simp only [System.Counted, BuddyAllocator.nodes, after]
    omega
  · simp only [BuddyAllocator.nodes, after]
    omega
  · intro i low high
    refine (mem_erase_of_ne ?_).mpr (fragmented.out i (by omega) high)
    simp only [ne_eq, Prod.mk.injEq, not_and]
    omega

theorem fragmented_exists (bound : freed ≤ 512) : ∃ s, Fragmented s freed := by
  induction freed with
  | zero =>
    obtain ⟨s, draining⟩ := draining_exists le_rfl
    exact ⟨s, draining.fragmented⟩
  | succ freed ih =>
    obtain ⟨s, fragmented⟩ := ih (by omega)
    exact fragmented.step (by omega)

theorem Fragmented.refuses (fragmented : Fragmented s 476) :
    s.allocator.allocPages 1 = .ok (.error .outOfMemory, s.allocator.bumped) := by
  obtain ⟨zone, single, _, _, upper, _, _⟩ := fragmented.single
  have nodes := fragmented.nodes
  have counted : s.allocator.nodePool.freenodeRemain = s.allocator.nodes := fragmented.counted
  have low : s.allocator.nodePool.freenodeRemain ≤ minPoolRemain := by
    simp only [minPoolRemain, buddyAllocMaxPow, vaBits, pageBits]
    omega
  have none : s.allocator.bumped.firstLevel poolOrder = .none := by
    change s.allocator.zones.findSome? (fun zone => zone.firstLevel poolOrder) = .none
    rw [single, findSome?_eq_none_iff]
    intro home member
    rw [mem_singleton.mp member, firstLevel_none]
    intro level fits bound
    have positive : 0 < poolOrder := by decide
    exact upper level (by omega) bound
  rw [allocPages_eq, if_pos low, request_misses poolOrder_small none]
  rfl

end Kernel31.Buddy
