import Kernel31.Buddy.NodeRuns

namespace Kernel31.Buddy

open Checked DyadicBlocks Page BuddyAllocator FreeNodePool

variable {remaining pow start : Nat} {s : MergeState} {pool : FreeNodePool} {allocator : BuddyAllocator}

def MemoryZone.MeetsPartner (zone : MemoryZone) (order pageRelative : Nat) : Prop :=
  ∃ level, order ≤ level ∧ level < buddyAllocMaxPow ∧ (∀ i, order ≤ i → i ≤ level → zone.pows i ≠ []) ∧
    zone.hasPartner level pageRelative = true

variable {fault : Fault} {s' : MergeState} {zone : MemoryZone} {page count : Nat}

theorem mergeLoop_error (run : mergeLoop remaining pow s = .error fault) : fault = .overflow := by
  induction remaining generalizing pow s with
  | zero => cases run
  | succ remaining ih =>
    simp only [mergeLoop] at run
    split at run
    · cases run
    · split at run
      · exact ih run
      · split at run
        · exact ih run
        · split at run
          · cases run
            rfl
          · exact ih run

theorem mergeLoop_keeps_nodes (levels : pow + remaining = buddyAllocMaxPow) (some : s.pool.freeStart ≠ [])
    (run : mergeLoop remaining pow s = .ok s') : s'.pool.freeStart ≠ [] :=
  (mergeLoop_any_rule (fun _ s => s.pool.freeStart ≠ []) (fun _ _ kept => kept)
    (fun _ _ _ _ _ _ _ _ => by simp [MergeState.absorb, recycleNode]) levels some run).choose_spec

theorem mergeLoop_recycles (levels : pow + remaining = buddyAllocMaxPow)
    (meets : s.zone.MeetsPartner pow s.pageRelative) (run : mergeLoop remaining pow s = .ok s') :
    s'.pool.freeStart ≠ [] := by
  induction remaining generalizing pow with
  | zero =>
    obtain ⟨level, above, bound, _⟩ := meets
    omega
  | succ remaining ih =>
    obtain ⟨level, above, bound, full, partner⟩ := meets
    simp only [mergeLoop] at run
    split at run
    · rename_i empty
      exact absurd empty (full pow le_rfl above)
    · rename_i current next list
      split at run
      · rename_i missed
        rw [unlinkPartner_none, ← list] at missed
        have higher : level ≠ pow := by
          rintro rfl
          obtain ⟨node, member, test⟩ := (s.zone.hasPartner_iff _ _).mp partner
          rw [missed node member] at test
          cases test
        exact ih (by omega) ⟨level, by omega, bound, fun i low high => full i (by omega) high, partner⟩ run
      · split at run
        · exact mergeLoop_keeps_nodes (by omega) (by simp [recycleNode]) run
        · split at run
          · cases run
          · exact mergeLoop_keeps_nodes (by omega) (by simp [recycleNode]) run

theorem MemoryZone.addNode_noFreeNode (run : zone.addNode pool pow page = .error .noFreeNode) :
    pool.freeStart = [] := by
  rw [MemoryZone.addNode, bind_error] at run
  rcases run with popped | ⟨⟨_, _⟩, _, rest⟩
  · unfold allocNode at popped
    split at popped
    · assumption
    · split at popped
      · cases popped
      · cases popped
  · simp only at rest
    split at rest
    · cases rest
    · cases rest

theorem MemoryZone.freePages_noFreeNode {order : Nat} (bound : order < buddyAllocMaxPow)
    (run : zone.freePages pool start (2 ^ order) = .error .noFreeNode) :
    pool.freeStart = [] ∧ ¬ zone.MeetsPartner order (start - zone.base) := by
  unfold MemoryZone.freePages at run
  split at run
  · cases run
  · split at run
    · cases run
    · simp only [findPow_two_pow bound, bind_error] at run
      rcases run with merging | ⟨s, merged, added⟩
      · cases mergeLoop_error merging
      · have empty := MemoryZone.addNode_noFreeNode added
        refine ⟨?_, fun meets => mergeLoop_recycles (Nat.add_sub_of_le bound.le) meets merged empty⟩
        by_contra some
        exact mergeLoop_keeps_nodes (Nat.add_sub_of_le bound.le) some merged empty

theorem freeZones_error {zones : List MemoryZone} (run : freeZones start count zones pool = .error fault) :
    ∃ zone ∈ zones, zone.contains (start, count) = true ∧ zone.freePages pool start count = .error fault := by
  induction zones with
  | nil => cases run
  | cons zone zones ih =>
    simp only [freeZones] at run
    split at run
    · rename_i inside
      rcases bind_error.mp run with failed | ⟨_, _, rest⟩
      · exact ⟨zone, by simp, by simpa [MemoryZone.contains] using inside, failed⟩
      · cases rest
    · rcases bind_error.mp run with failed | ⟨_, _, rest⟩
      · obtain ⟨home, member, found⟩ := ih failed
        exact ⟨home, List.mem_cons_of_mem _ member, found⟩
      · cases rest

/-- A free has a node left or finds a partner; an allocation that refills the pool finds a block and the nodes to
    split it. -/
def System.NodesAtHand (s : System) : Op → Prop
  | .alloc _ => s.allocator.nodePool.freenodeRemain ≤ minPoolRemain →
      ∃ level, s.allocator.firstLevel poolOrder = some level ∧ level ≤ poolOrder + s.allocator.nodes + 1
  | .free pageStart pagesCount => s.allocator.nodes ≠ 0 ∨
      ∀ zone ∈ s.allocator.zones, zone.contains (pageStart, pagesCount) = true →
        zone.MeetsPartner (ceilOrder pagesCount) (pageStart - zone.base)

def System.Counted (s : System) : Prop := s.allocator.nodePool.freenodeRemain = s.allocator.nodes

theorem BuddyAllocator.withPool_counted {middle : BuddyAllocator}
    (counted : allocator.nodePool.freenodeRemain = allocator.nodes)
    (run : allocator.bumped.request extendedPoolPages = .ok (.ok page, middle)) :
    (middle.withPool page).nodePool.freenodeRemain = (middle.withPool page).nodes := by
  obtain ⟨level, _, nodes, remain, _⟩ := request_effect run
  have same : allocator.bumped.nodes = allocator.nodes := rfl
  have raised : allocator.bumped.nodePool.freenodeRemain =
    allocator.nodePool.freenodeRemain + extNodeCompatibility := rfl
  rw [withPool_nodes, withPool_freenodeRemain]
  omega

theorem System.Counted.step {s s' : System} (counted : s.Counted) (backed : s.Backed)
    (steps : s.Steps System.NodesAtHand s') : s'.Counted := by
  obtain ⟨op, permitted, atHand, run⟩ := steps
  cases op with
  | alloc count =>
    rcases System.step_alloc_cases run with ⟨start, origin, outcome⟩ | ⟨low, none, _⟩
    · have begun : start.nodePool.freenodeRemain = start.nodes := by
        rcases origin with ⟨rfl, _⟩ | ⟨_, page, middle, pool, rfl⟩
        · exact counted
        · exact withPool_counted counted pool
      rcases outcome with rfl | ⟨page, granted, _⟩
      · exact begun
      · obtain ⟨level, _, nodes, remain, _⟩ := request_effect granted
        unfold System.Counted
        omega
    · obtain ⟨level, first, _⟩ := atHand low
      rw [none] at first
      cases first
  | free start count =>
    simp only [System.step, bind_ok, pure_ok] at run
    obtain ⟨after, freed, rfl⟩ := run
    have moved := (freePages_effect (backed.indexed _ permitted) freed).2
    unfold System.Counted at counted ⊢
    simp only
    omega

theorem BuddyAllocator.request_noFreeNode (backed : allocator.Backed) (count : Nat)
    (plenty : buddyAllocMaxPow ≤ allocator.nodes) : allocator.request count ≠ .error .noFreeNode := by
  intro run
  rcases le_or_gt count (2 ^ 63) with small | large
  · cases first : allocator.firstLevel (ceilOrder count) with
    | none =>
      rw [request_misses small first] at run
      cases run
    | some level =>
      have bounds := firstLevel_bounds first
      obtain ⟨page, after, granted⟩ := request_succeeds backed small first (by omega)
      rw [granted] at run
      cases run
  · rw [request_overflows large] at run
    cases run

theorem BuddyAllocator.allocPages_noFreeNode (backed : allocator.Backed)
    (counted : allocator.nodePool.freenodeRemain = allocator.nodes) (count : Nat)
    (atHand : allocator.nodePool.freenodeRemain ≤ minPoolRemain →
      ∃ level, allocator.firstLevel poolOrder = some level ∧ level ≤ poolOrder + allocator.nodes + 1) :
    allocator.allocPages count ≠ .error .noFreeNode := by
  rw [allocPages_eq]
  split
  · rename_i low
    obtain ⟨level, first, enough⟩ := atHand low
    obtain ⟨page, middle, pool⟩ := request_succeeds backed.bumped poolOrder_small first enough
    rw [pool, ok_bind]
    refine request_noFreeNode (backed.withPool pool) count ?_
    rw [withPool_nodes]
    simp only [buddyAllocMaxPow, vaBits, pageBits, extNodeCompatibility]
    omega
  · rename_i plenty
    refine request_noFreeNode backed count ?_
    simp only [minPoolRemain] at plenty
    omega

theorem BuddyAllocator.freePages_noFreeNode (bound : ceilOrder count < buddyAllocMaxPow)
    (run : allocator.freePages start count = .error .noFreeNode) :
    allocator.nodes = 0 ∧ ∃ zone ∈ allocator.zones, zone.contains (start, count) = true ∧
      ¬ zone.MeetsPartner (ceilOrder count) (start - zone.base) := by
  simp only [freePages, bind_error, Prod.exists] at run
  rcases run with rounding | ⟨rounded, power, failed | ⟨_, _, _, _, rest⟩⟩
  · unfold ceilToPower2 at rounding
    split at rounding <;> cases rounding
  · obtain ⟨rfl, _⟩ := ceilToPower2_ok power
    obtain ⟨zone, member, inside, failed⟩ := freeZones_error failed
    obtain ⟨empty, alone⟩ := MemoryZone.freePages_noFreeNode bound failed
    exact ⟨by simp [BuddyAllocator.nodes, empty], zone, member, inside, alone⟩
  · cases rest

end Kernel31.Buddy
