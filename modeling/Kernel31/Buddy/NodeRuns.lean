import Kernel31.Buddy.Contract

namespace Kernel31.Buddy

open Checked DyadicBlocks Page MemoryZone BuddyAllocator List

def MergeState.absorb (s : MergeState) (pow : Nat) (partner : FreeNode) (nodes : List FreeNode) (pageRelative : Nat) :
    MergeState :=
  { zone := s.zone.setPow pow nodes
    pool := s.pool.recycleNode partner.ptr
    powFinal := s.powFinal + 1
    pageRelative := pageRelative
    pagesCount := s.pagesCount <<< 1 }

/-- Loop rule of the merge for any partner, stray ones included. -/
theorem mergeLoop_any_rule (inv : Nat → MergeState → Prop)
    (skip : ∀ pow s, inv pow s → inv (pow + 1) s)
    (merge : ∀ pow s partner nodes pageRelative, pow < buddyAllocMaxPow → inv pow s →
      (s.zone.pows pow).Perm (partner :: nodes) →
      inv (pow + 1) (s.absorb pow partner nodes pageRelative))
    {remaining pow : Nat} {s s' : MergeState} (levels : pow + remaining = buddyAllocMaxPow) (start : inv pow s)
    (run : mergeLoop remaining pow s = .ok s') : ∃ last, inv last s' := by
  induction remaining generalizing pow s with
  | zero =>
    obtain rfl := pure_ok.mp run
    exact ⟨pow, start⟩
  | succ remaining ih =>
    simp only [mergeLoop] at run
    split at run
    · obtain rfl := pure_ok.mp run
      exact ⟨pow, start⟩
    · rename_i current next list
      split at run
      · exact ih (by omega) (skip pow s start) run
      · rename_i partner nodes unlinked
        have perm := (unlinkPartner_some unlinked).2
        rw [← list] at perm
        split at run
        · exact ih (by omega) (merge pow s partner nodes _ (by omega) start perm) run
        · split at run
          · simp [throw_ok] at run
          · exact ih (by omega) (merge pow s partner nodes _ (by omega) start perm) run

def MemoryZone.nodes (zone : MemoryZone) : List NodePtr :=
  (range buddyAllocMaxPow).flatMap fun pow => (zone.pows pow).map FreeNode.ptr

/-- Nodes only move between the free list and the lists of the zone, and the counter moves with them. -/
structure Moves (zone : MemoryZone) (pool : FreeNodePool) (zone' : MemoryZone) (pool' : FreeNodePool) : Prop where
  perm : (pool'.freeStart ++ zone'.nodes).Perm (pool.freeStart ++ zone.nodes)
  counted : pool'.freenodeRemain + pool.freeStart.length = pool.freenodeRemain + pool'.freeStart.length

section Moves

variable {zone zone' : MemoryZone} {pool pool' : FreeNodePool}

theorem Moves.refl : Moves zone pool zone pool := ⟨.refl _, rfl⟩

theorem Moves.trans {last : MemoryZone} {left : FreeNodePool} (first : Moves zone pool zone' pool')
    (second : Moves zone' pool' last left) : Moves zone pool last left := by
  refine ⟨second.perm.trans first.perm, ?_⟩
  have before := first.counted
  have after := second.counted
  omega

theorem Moves.take {pow : Nat} {node : FreeNode} {nodes : List FreeNode} (bound : pow < buddyAllocMaxPow)
    (list : (zone.pows pow).Perm (node :: nodes)) :
    Moves zone pool (zone.setPow pow nodes) (pool.recycleNode node.ptr) := by
  have taken := zone.listed_take (fun _ => FreeNode.ptr) bound node nodes list
  refine ⟨perm_middle.symm.trans (taken.symm.append_left _), ?_⟩
  simp only [FreeNodePool.recycleNode, length_cons]
  omega

theorem Moves.add {pow page : Nat} (added : zone.addNode pool pow page = .ok (zone', pool')) :
    Moves zone pool zone' pool' := by
  obtain ⟨bound, node, popped, rfl⟩ := addNode_ok.mp added
  obtain ⟨list, remain⟩ := FreeNodePool.allocNode_ok.mp popped
  have pushed := zone.listed_push (fun _ => FreeNode.ptr) bound ⟨node, page⟩
  refine ⟨?_, ?_⟩
  · rw [list]
    exact (pushed.append_left _).trans perm_middle
  · rw [list, length_cons]
    omega

theorem Moves.new {base pages : Nat} (run : MemoryZone.new pool base pages = .ok (zone, pool')) :
    Moves (empty base pages) pool zone pool' :=
  newLoop_rule (fun current left _ _ => Moves (empty base pages) pool current left)
    (fun _ _ _ _ _ _ _ moves added => moves.trans (.add added)) .refl run

theorem Moves.alloc {order : Nat} {found : Option Nat}
    (run : zone.allocPages pool (2 ^ order) = .ok (found, zone', pool')) : Moves zone pool zone' pool' := by
  obtain ⟨_, rfl, rfl, _⟩ | ⟨level, node, next, first, list, _, rule⟩ := allocPages_cases run
  · exact .refl
  · exact rule (fun _ current left => Moves zone pool current left)
      (.take (firstLevel_some.mp first).1 (by rw [list])) fun _ _ _ _ _ _ moves added => moves.trans (.add added)

theorem findPow_lt (count : Nat) : findPow count < buddyAllocMaxPow := by
  unfold findPow
  cases found : (range buddyAllocMaxPow).find? fun pow => decide (2 ^ pow = count) with
  | none => decide
  | some pow => exact mem_range.mp (mem_of_find?_eq_some found)

theorem Moves.free {start count : Nat} (run : zone.freePages pool start count = .ok (zone', pool')) :
    Moves zone pool zone' pool' := by
  unfold MemoryZone.freePages at run
  split at run
  · simp [throw_ok] at run
  split at run
  · simp [throw_ok] at run
  obtain ⟨s, merged, added⟩ := bind_ok.mp run
  have bound := findPow_lt count
  obtain ⟨_, moves⟩ := mergeLoop_any_rule (fun _ s => Moves zone pool s.zone s.pool) (fun _ _ moves => moves)
    (fun _ _ _ _ _ inside moves list => moves.trans (.take inside list)) (by omega) .refl merged
  exact moves.trans (.add added)

end Moves

variable {start count : Nat} {allocator allocator' : BuddyAllocator} {s s' : System}
  {regions : List (Nat × Nat)}

theorem MemoryZone.freePages_total {zone zone' : MemoryZone} {pool pool' : FreeNodePool} {order : Nat}
    (bound : order < buddyAllocMaxPow) (run : zone.freePages pool start (2 ^ order) = .ok (zone', pool')) :
    zone'.freeTotal ≤ zone.freeTotal + 2 ^ order := by
  obtain ⟨_, s, merged, added⟩ := freePages_ok bound run
  let inv := fun pow (s : MergeState) => s.powFinal ≤ pow ∧
    s.zone.freeTotal + 2 ^ s.powFinal ≤ zone.freeTotal + 2 ^ order
  have skip : ∀ pow s, inv pow s → inv (pow + 1) s := fun pow s ⟨order, rest⟩ => ⟨by omega, rest⟩
  have merge : ∀ pow s partner nodes pageRelative, pow < buddyAllocMaxPow → inv pow s →
      (s.zone.pows pow).Perm (partner :: nodes) →
      inv (pow + 1) (s.absorb pow partner nodes pageRelative) := by
    rintro pow s partner nodes pageRelative inside ⟨final, total⟩ list
    have taken := ((s.zone.freeBlocks_take inside partner nodes list).map Block.size).sum_eq
    rw [map_cons, sum_cons] at taken
    have larger : 2 ^ s.powFinal ≤ 2 ^ pow := Nat.pow_le_pow_right (by omega) final
    refine ⟨Nat.succ_le_succ final, ?_⟩
    simp only [MergeState.absorb, freeTotal, Block.size, pow_succ] at taken total ⊢
    omega
  have opened : inv order ⟨zone, pool, order, start - zone.base, 2 ^ order⟩ := ⟨le_rfl, le_rfl⟩
  obtain ⟨_, _, total⟩ := mergeLoop_any_rule inv skip merge (Nat.add_sub_of_le bound.le) opened merged
  have grown := ((freeBlocks_add added).map Block.size).sum_eq
  rw [map_cons, sum_cons] at grown
  simp only [freeTotal, Block.size] at grown total ⊢
  omega

theorem BuddyAllocator.freePages_effect (bound : ceilOrder count < buddyAllocMaxPow)
    (run : allocator.freePages start count = .ok allocator') :
    allocator'.freeTotal + allocator.free ≤ allocator.freeTotal + allocator'.free ∧
      allocator'.nodePool.freenodeRemain + allocator.nodes = allocator.nodePool.freenodeRemain + allocator'.nodes := by
  rcases freePages_cases run with ⟨rfl, _⟩ | ⟨before, zone, after, zone', pool', split, _, freed, rfl⟩
  · exact ⟨le_rfl, rfl⟩
  · have total := freePages_total bound freed
    refine ⟨?_, (Moves.free freed).counted⟩
    simp only [BuddyAllocator.freeTotal, split, map_append, map_cons, sum_append, sum_cons]
    omega

def System.Indexed (s : System) : Prop := ∀ block ∈ s.outstanding, ceilOrder block.2 < buddyAllocMaxPow

theorem System.step_alloc_cases (run : s.step (.alloc count) = .ok s') :
    (∃ start, (start = s.allocator ∧ minPoolRemain < s.allocator.nodePool.freenodeRemain ∨
        s.allocator.nodePool.freenodeRemain ≤ minPoolRemain ∧ ∃ page middle,
          s.allocator.bumped.request extendedPoolPages = .ok (.ok page, middle) ∧ start = middle.withPool page) ∧
      (s' = { s with allocator := start } ∨
        ∃ page, start.request count = .ok (.ok page, s'.allocator) ∧ s'.outstanding = (page, count) :: s.outstanding)) ∨
    (s.allocator.nodePool.freenodeRemain ≤ minPoolRemain ∧ s.allocator.firstLevel poolOrder = none ∧
      s' = { s with allocator := s.allocator.bumped }) := by
  simp only [System.step, bind_ok, Prod.exists, allocPages_eq] at run
  obtain ⟨result, after, run, last⟩ := run
  have finish : ∀ {start : BuddyAllocator}, start.request count = .ok (result, after) →
      s' = { s with allocator := start } ∨
        ∃ page, start.request count = .ok (.ok page, s'.allocator) ∧ s'.outstanding = (page, count) :: s.outstanding := by
    intro start request
    cases result with
    | ok page =>
      obtain rfl := pure_ok.mp last
      exact Or.inr ⟨page, request, rfl⟩
    | error failure =>
      obtain rfl := pure_ok.mp last
      obtain rfl := request_refused request
      exact Or.inl rfl
  split at run
  · rename_i low
    simp only [bind_ok, Prod.exists] at run
    obtain ⟨first, middle, pool, run⟩ := run
    cases first with
    | error failure =>
      obtain ⟨⟩ := pure_ok.mp run
      obtain rfl := pure_ok.mp last
      obtain rfl := request_refused pool
      refine Or.inr ⟨low, ?_, rfl⟩
      rcases request_cases pool with ⟨_, _, none⟩ | ⟨_, _, _, _, _, _, found, _⟩
      · exact none
      · cases found
    | ok page => exact Or.inl ⟨_, Or.inr ⟨low, page, middle, pool, rfl⟩, finish run⟩
  · rename_i plenty
    exact Or.inl ⟨_, Or.inl ⟨rfl, by omega⟩, finish run⟩

theorem boot_counts (booted : boot regions = .ok allocator) :
    allocator.nodePool.freenodeRemain = allocator.nodes ∧ allocator.free = allocator.freeTotal := by
  have exact_ : ∀ (added : List (Nat × Nat)) (start : BuddyAllocator),
      start.nodePool.freenodeRemain = start.nodes ∧ start.free = start.freeTotal →
      added.foldlM (fun allocator region => allocator.addZone region.1 region.2) start = .ok allocator →
      allocator.nodePool.freenodeRemain = allocator.nodes ∧ allocator.free = allocator.freeTotal := by
    intro added
    induction added with
    | nil =>
      intro start counts run
      obtain rfl := pure_ok.mp run
      exact counts
    | cons region added ih =>
      rintro start ⟨counted, funded⟩ run
      simp only [foldlM_cons, bind_ok] at run
      obtain ⟨middle, first, run⟩ := run
      obtain ⟨zone, pool, new, rfl⟩ := addZone_ok first
      refine ih _ ⟨?_, ?_⟩ run
      · have kept := (Moves.new new).counted
        simp only [BuddyAllocator.nodes] at counted ⊢
        omega
      · have total : zone.freeTotal = region.2 := (new_tiling new).2.2.1.sum_size
        simp only [BuddyAllocator.freeTotal, map_append, map_cons, map_nil, sum_append,
          sum_cons, sum_nil] at funded ⊢
        omega
  refine exact_ regions _ ⟨?_, rfl⟩ booted
  simp [init, BuddyAllocator.nodes, FreeNodePool.init]

structure System.Backed (s : System) : Prop where
  allocator : s.allocator.Backed
  indexed : s.Indexed

theorem BuddyAllocator.Backed.request {page : Nat} (backed : allocator.Backed)
    (run : allocator.request count = .ok (.ok page, allocator')) :
    allocator'.Backed ∧ ceilOrder count < buddyAllocMaxPow := by
  obtain ⟨level, first, nodes, remain, total, free, _⟩ := request_effect run
  have bounds := firstLevel_bounds first
  have counted := backed.counted
  have funded := backed.funded
  exact ⟨⟨by omega, by omega⟩, by omega⟩

theorem System.Backed.step {guard : System → Op → Prop} (backed : s.Backed) (steps : s.Steps guard s') : s'.Backed := by
  obtain ⟨op, permitted, _, run⟩ := steps
  cases op with
  | alloc count =>
    rcases System.step_alloc_cases run with ⟨start, origin, outcome⟩ | ⟨_, _, rfl⟩
    · have begun : start.Backed := by
        rcases origin with ⟨rfl, _⟩ | ⟨_, page, middle, pool, rfl⟩
        · exact backed.allocator
        · exact backed.allocator.withPool pool
      rcases outcome with rfl | ⟨page, granted, held⟩
      · exact ⟨begun, backed.indexed⟩
      · obtain ⟨after, small⟩ := begun.request granted
        refine ⟨after, ?_⟩
        rw [System.Indexed, held, forall_mem_cons]
        exact ⟨small, backed.indexed⟩
    · exact ⟨backed.allocator.bumped, backed.indexed⟩
  | free start count =>
    simp only [System.step, bind_ok, pure_ok] at run
    obtain ⟨after, freed, rfl⟩ := run
    obtain ⟨total, counted⟩ := freePages_effect (backed.indexed _ permitted) freed
    have old := backed.allocator
    refine ⟨⟨?_, ?_⟩, fun block member => backed.indexed block (mem_of_mem_erase member)⟩
    · have promised := old.counted
      simp only
      omega
    · have promised := old.funded
      simp only
      omega

theorem boot_backed (booted : boot regions = .ok allocator) : System.Backed ⟨allocator, []⟩ := by
  obtain ⟨counted, funded⟩ := boot_counts booted
  exact ⟨⟨counted.ge, funded.ge⟩, by simp [System.Indexed]⟩

end Kernel31.Buddy
