import Kernel31.Buddy.Refill

namespace Kernel31.Buddy

open Checked DyadicBlocks Page BuddyAllocator List

variable {allocator : BuddyAllocator} {count level : Nat}

theorem two_pow_ceilOrder_of_large (large : 2 ^ 63 < count) : buddyAllocMaxPow ≤ ceilOrder count := by
  unfold ceilOrder
  rw [if_neg (by omega)]
  have top : 63 ≤ Nat.log2 (count - 1) := (Nat.le_log2 (by omega)).mpr (by omega)
  simp only [buddyAllocMaxPow, vaBits, pageBits]
  omega

theorem BuddyAllocator.le_freeTotal {order : Nat} (first : allocator.firstLevel order = some level) :
    2 ^ order ≤ allocator.freeTotal := by
  obtain ⟨zone, member, own⟩ := exists_of_findSome?_eq_some first
  obtain ⟨bound, fits, full, _⟩ := MemoryZone.firstLevel_some.mp own
  obtain ⟨node, next, list⟩ := exists_cons_of_ne_nil full
  have block : (⟨node.pageNumber, level⟩ : Block) ∈ zone.freeBlocks :=
    (zone.mem_freeBlocks _).mpr ⟨bound, node, by simp [list], rfl⟩
  calc 2 ^ order ≤ 2 ^ level := Nat.pow_le_pow_right (by omega) fits
    _ ≤ zone.freeTotal := single_le_sum (by simp) _ (mem_map_of_mem block)
    _ ≤ allocator.freeTotal := single_le_sum (by simp) _ (mem_map_of_mem member)

theorem ceilToPower2_eq (small : count ≤ 2 ^ 63) : ceilToPower2 count = .ok (2 ^ ceilOrder count) := by
  rw [ceilToPower2, if_pos small]
  rfl

theorem BuddyAllocator.request_overflows (large : 2 ^ 63 < count) : allocator.request count = .error .overflow := by
  rw [request, ceilToPower2, if_neg (by omega)]
  rfl

theorem BuddyAllocator.request_misses (small : count ≤ 2 ^ 63)
    (none : allocator.firstLevel (ceilOrder count) = none) :
    allocator.request count = .ok (.error .outOfMemory, allocator) := by
  rw [request, ceilToPower2_eq small, ok_bind, allocZones_misses _ none]
  rfl

theorem BuddyAllocator.request_fails (backed : allocator.Backed) (small : count ≤ 2 ^ 63)
    (first : allocator.firstLevel (ceilOrder count) = some level)
    (short : ceilOrder count + allocator.nodes + 1 < level) : allocator.request count = .error .noFreeNode := by
  rw [request, ceilToPower2_eq small, ok_bind, allocZones_fails backed.counted first short]
  rfl

theorem BuddyAllocator.request_succeeds (backed : allocator.Backed) (small : count ≤ 2 ^ 63)
    (first : allocator.firstLevel (ceilOrder count) = some level)
    (enough : level ≤ ceilOrder count + allocator.nodes + 1) :
    ∃ page allocator', allocator.request count = .ok (.ok page, allocator') := by
  obtain ⟨page, zones, pool, taken⟩ := allocZones_succeeds backed.counted first enough
  have funds := le_trans (le_freeTotal first) backed.funded
  rw [request, ceilToPower2_eq small, ok_bind, taken, ok_bind]
  simp only
  rw [if_neg (by omega)]
  exact ⟨_, _, rfl⟩

theorem BuddyAllocator.Backed.bumped (backed : allocator.Backed) : allocator.bumped.Backed :=
  ⟨le_trans backed.counted (Nat.le_add_right _ _), backed.funded⟩

@[simp] theorem BuddyAllocator.withPool_nodes (allocator : BuddyAllocator) (page : Nat) :
    (allocator.withPool page).nodes = allocator.nodes + extNodeCompatibility := by
  simp only [nodes, withPool, length_append, length_map, length_range]
  omega

@[simp] theorem BuddyAllocator.withPool_freenodeRemain (allocator : BuddyAllocator) (page : Nat) :
    (allocator.withPool page).nodePool.freenodeRemain = allocator.nodePool.freenodeRemain := by
  simp only [withPool]

variable {middle allocator' : BuddyAllocator} {page : Nat}

theorem BuddyAllocator.Backed.withPool (backed : allocator.Backed)
    (run : allocator.bumped.request extendedPoolPages = .ok (.ok page, middle)) : (middle.withPool page).Backed := by
  obtain ⟨level, _, nodes, remain, total, free, _⟩ := request_effect run
  have counted : allocator.bumped.nodes ≤ allocator.nodePool.freenodeRemain := backed.counted
  have funded := backed.bumped.funded
  have raised : allocator.bumped.nodePool.freenodeRemain =
    allocator.nodePool.freenodeRemain + extNodeCompatibility := rfl
  have same : (middle.withPool page).freeTotal = middle.freeTotal := by
    rw [freeTotal, withPool_zones]
    rfl
  refine ⟨?_, ?_⟩
  · rw [withPool_nodes, withPool_freenodeRemain]
    omega
  · rw [same, withPool_free]
    omega

def BuddyAllocator.Holds (self : BuddyAllocator) (count : Nat) : Prop :=
  ∃ zone ∈ self.zones, ∃ level, ceilOrder count ≤ level ∧ level < buddyAllocMaxPow ∧ zone.pows level ≠ []

theorem BuddyAllocator.holds_iff : allocator.Holds count ↔ allocator.firstLevel (ceilOrder count) ≠ none := by
  simp only [Holds, firstLevel, Ne, findSome?_eq_none_iff,
    MemoryZone.firstLevel_none]
  push Not
  rfl

def poolOrder : Nat := ceilOrder extendedPoolPages

/-- With a low `freenode_remain` the pool's own block comes first, and the request is served from what that leaves. -/
def BuddyAllocator.CanServe (self : BuddyAllocator) (count : Nat) : Prop :=
  if minPoolRemain < self.nodePool.freenodeRemain then
    ∀ level, self.firstLevel (ceilOrder count) = some level → level ≤ ceilOrder count + self.nodes + 1
  else
    ∃ level, self.firstLevel poolOrder = some level ∧
      if level ≤ poolOrder + self.nodes + 1 then
        2 ^ 63 < count ∨ (if ceilOrder count ≤ level then 1 else 0) <
          self.blocksFrom (ceilOrder count) + (level - max poolOrder (ceilOrder count))
      else self.firstLevel (ceilOrder count) = none

def BuddyAllocator.Contract (self : BuddyAllocator) (count : Nat) : Prop :=
  (self.Holds count → ∃ page allocator', self.allocPages count = .ok (.ok page, allocator')) ∧
  ∀ failure allocator', self.allocPages count = .ok (.error failure, allocator') → allocator' = self

theorem BuddyAllocator.firstLevel_of_large (large : 2 ^ 63 < count) : allocator.firstLevel (ceilOrder count) = none := by
  cases first : allocator.firstLevel (ceilOrder count) with
  | none => rfl
  | some level =>
    have bounds := firstLevel_bounds first
    have order := two_pow_ceilOrder_of_large large
    omega

theorem BuddyAllocator.contract_of_grant (run : allocator.allocPages count = .ok (.ok page, allocator')) :
    allocator.Contract count := by
  refine ⟨fun _ => ⟨page, allocator', run⟩, ?_⟩
  intro failure after refused
  rw [run] at refused
  cases refused

theorem BuddyAllocator.contract_of_panic {fault : Fault} (run : allocator.allocPages count = .error fault) :
    allocator.Contract count ↔ allocator.firstLevel (ceilOrder count) = none := by
  simp [Contract, holds_iff, run]

theorem BuddyAllocator.not_contract_of_refusal {failure : AllocError}
    (run : allocator.allocPages count = .ok (.error failure, allocator')) (changed : allocator' ≠ allocator) :
    ¬ allocator.Contract count := fun contract => changed (contract.2 _ _ run)

theorem BuddyAllocator.contract_iff_of_plenty (backed : allocator.Backed)
    (plenty : minPoolRemain < allocator.nodePool.freenodeRemain) :
    allocator.Contract count ↔ allocator.CanServe count := by
  have run : allocator.allocPages count = allocator.request count := by
    rw [allocPages_eq, if_neg (by omega)]
  rw [CanServe, if_pos plenty]
  rcases le_or_gt count (2 ^ 63) with small | large
  · cases first : allocator.firstLevel (ceilOrder count) with
    | none =>
      have refused := run.trans (request_misses small first)
      simp [Contract, holds_iff, first, refused]
    | some level =>
      simp only [Option.some.injEq, forall_eq']
      rcases le_or_gt level (ceilOrder count + allocator.nodes + 1) with enough | short
      · obtain ⟨page, after, granted⟩ := request_succeeds backed small first enough
        exact iff_of_true (contract_of_grant (run.trans granted)) enough
      · have failed := run.trans (request_fails backed small first short)
        rw [contract_of_panic failed, first]
        simp only [reduceCtorEq, false_iff]
        omega
  · have none : allocator.firstLevel (ceilOrder count) = none := firstLevel_of_large large
    rw [contract_of_panic (run.trans (request_overflows large)), none]
    simp

theorem poolOrder_small : extendedPoolPages ≤ 2 ^ 63 := by decide

theorem BuddyAllocator.contract_iff_of_refilled (backed : allocator.Backed)
    (pool : allocator.bumped.request extendedPoolPages = .ok (.ok page, middle))
    (run : allocator.allocPages count = (middle.withPool page).request count) :
    allocator.Contract count ↔ 2 ^ 63 < count ∨ 0 < middle.blocksFrom (ceilOrder count) := by
  have same : (middle.withPool page).firstLevel (ceilOrder count) = middle.firstLevel (ceilOrder count) := by
    rw [firstLevel, withPool_zones]
    rfl
  have refilled := backed.withPool pool
  rw [← firstLevel_isSome]
  rcases le_or_gt count (2 ^ 63) with small | large
  · cases first : middle.firstLevel (ceilOrder count) with
    | none =>
      have refused := run.trans (request_misses small (same.trans first))
      have changed : middle.withPool page ≠ allocator := by
        intro equal
        have pools : middle.extendedPools = allocator.extendedPools := by
          rcases request_cases pool with ⟨failed, _⟩ | ⟨_, _, _, _, _, _, _, _, _, _, _, rfl⟩
          · cases failed
          · rfl
        have longer := congrArg (fun state => state.extendedPools.length) equal
        simp [withPool, pools] at longer
      refine iff_of_false (not_contract_of_refusal refused changed) ?_
      rintro (large | some)
      · omega
      · exact some rfl
    | some level =>
      have bounds := firstLevel_bounds first
      have nodes : level ≤ ceilOrder count + (middle.withPool page).nodes + 1 := by
        rw [withPool_nodes]
        simp only [buddyAllocMaxPow, vaBits, pageBits, extNodeCompatibility] at *
        omega
      obtain ⟨taken, after, granted⟩ := request_succeeds refilled small (same.trans first) nodes
      exact iff_of_true (contract_of_grant (run.trans granted)) (by simp)
  · rw [contract_of_panic (run.trans (request_overflows large))]
    exact iff_of_true (firstLevel_of_large large) (Or.inl large)

theorem BuddyAllocator.contract_iff_of_low (backed : allocator.Backed)
    (low : allocator.nodePool.freenodeRemain ≤ minPoolRemain) :
    allocator.Contract count ↔ allocator.CanServe count := by
  have run := allocator.allocPages_eq count
  rw [if_pos low] at run
  rw [CanServe, if_neg (by omega)]
  cases first : allocator.firstLevel poolOrder with
  | none =>
    have missed : allocator.bumped.request extendedPoolPages = .ok (.error .outOfMemory, allocator.bumped) :=
      request_misses poolOrder_small first
    rw [missed] at run
    have changed : allocator.bumped ≠ allocator := by
      intro equal
      have raised := congrArg (fun state => state.nodePool.freenodeRemain) equal
      simp [bumped, extNodeCompatibility] at raised
    exact iff_of_false (not_contract_of_refusal run changed) (by simp)
  | some level =>
    simp only [Option.some.injEq, exists_eq_left']
    split
    · rename_i enough
      obtain ⟨page, middle, granted⟩ := request_succeeds backed.bumped poolOrder_small first enough
      rw [granted] at run
      obtain ⟨taken, first', _, _, _, _, blocks⟩ := request_effect granted
      obtain rfl : taken = level := Option.mem_unique first' first
      have count' : middle.blocksFrom (ceilOrder count) + (if ceilOrder count ≤ taken then 1 else 0) =
        allocator.blocksFrom (ceilOrder count) + (taken - max poolOrder (ceilOrder count)) := blocks (ceilOrder count)
      rw [contract_iff_of_refilled backed granted run, ← count']
      simp
    · rename_i short
      have failed : allocator.bumped.request extendedPoolPages = .error .noFreeNode :=
        request_fails backed.bumped poolOrder_small first (by
          change poolOrder + allocator.nodes + 1 < level
          omega)
      rw [failed] at run
      exact contract_of_panic run

theorem BuddyAllocator.contract_iff (backed : allocator.Backed) :
    allocator.Contract count ↔ allocator.CanServe count := by
  rcases le_or_gt allocator.nodePool.freenodeRemain minPoolRemain with low | plenty
  · exact contract_iff_of_low backed low
  · exact contract_iff_of_plenty backed plenty

end Kernel31.Buddy
