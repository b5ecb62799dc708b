import Kernel31.Buddy.Partition

namespace Kernel31.Buddy

open Checked MemoryZone List FreeNodePool

theorem FreeNodePool.recycleNode_length (pool : FreeNodePool) (node : NodePtr) :
    (pool.recycleNode node).freeStart.length = pool.freeStart.length + 1 := rfl

theorem FreeNodePool.recycleNode_counted {pool : FreeNodePool}
    (counted : pool.freeStart.length ≤ pool.freenodeRemain) (node : NodePtr) :
    (pool.recycleNode node).freeStart.length ≤ (pool.recycleNode node).freenodeRemain := Nat.succ_le_succ counted

theorem MemoryZone.addNode_eq (zone : MemoryZone) {pool : FreeNodePool} {pow : Nat} (page : Nat)
    (bound : pow < buddyAllocMaxPow) {node : NodePtr} {rest : List NodePtr} (list : pool.freeStart = node :: rest)
    (positive : 0 < pool.freenodeRemain) :
    zone.addNode pool pow page = .ok (zone.setPow pow (⟨node, page⟩ :: zone.pows pow),
      { freenodeRemain := pool.freenodeRemain - 1, freeStart := rest }) := by
  refine addNode_ok.mpr ⟨bound, node, ?_, rfl⟩
  exact allocNode_ok.mpr ⟨list, by simp only; omega⟩

theorem MemoryZone.addNode_empty {zone : MemoryZone} {pool : FreeNodePool} {pow page : Nat}
    (empty : pool.freeStart = []) : zone.addNode pool pow page = .error .noFreeNode := by
  simp only [MemoryZone.addNode, allocNode, empty]
  rfl

theorem MemoryZone.splitLoop_succeeds {order pow : Nat} (left : Nat) (zone : MemoryZone) {pool : FreeNodePool}
    (above : order < pow) (bound : pow ≤ buddyAllocMaxPow) (enough : pow ≤ order + pool.freeStart.length)
    (remain : pow ≤ order + pool.freenodeRemain) :
    ∃ zone' pool', zone.splitLoop pool (2 ^ order) left pow = .ok (some (zone.base + left), zone', pool') := by
  induction pow generalizing zone pool with
  | zero => omega
  | succ i ih =>
    obtain ⟨node, rest, list⟩ := exists_cons_of_length_pos (l := pool.freeStart) (by omega)
    rw [splitLoop, zone.addNode_eq _ (by omega) list (by omega), ok_bind]
    simp only
    split
    · exact ⟨_, _, rfl⟩
    · rename_i size
      have higher : order < i := by
        have different : order ≠ i := fun equal => size (by rw [equal])
        omega
      rw [list, length_cons] at enough
      exact ih _ higher (by omega) (by simp only; omega) (by simp only; omega)

theorem MemoryZone.splitLoop_fails {order pow : Nat} (left : Nat) (zone : MemoryZone) {pool : FreeNodePool}
    (counted : pool.freeStart.length ≤ pool.freenodeRemain) (bound : pow ≤ buddyAllocMaxPow)
    (short : order + pool.freeStart.length < pow) :
    zone.splitLoop pool (2 ^ order) left pow = .error .noFreeNode := by
  induction pow generalizing zone pool with
  | zero => omega
  | succ i ih =>
    rw [splitLoop]
    cases list : pool.freeStart with
    | nil =>
      rw [addNode_empty list]
      rfl
    | cons node rest =>
      rw [list, length_cons] at counted short
      rw [zone.addNode_eq _ (by omega) list (by omega), ok_bind]
      have different : 2 ^ order ≠ 2 ^ i := fun same => by
        have equal := Nat.pow_right_injective le_rfl same
        omega
      simp only [if_neg different]
      exact ih _ (by simp only; omega) (by omega) (by simp only; omega)

section Zone

variable {order level : Nat} {zone : MemoryZone} {pool : FreeNodePool}

theorem MemoryZone.allocPages_succeeds (first : zone.firstLevel order = some level)
    (enough : level ≤ order + pool.freeStart.length + 1) (remain : level ≤ order + pool.freenodeRemain + 1) :
    ∃ page zone' pool', zone.allocPages pool (2 ^ order) = .ok (some page, zone', pool') := by
  obtain ⟨bound, fits, _, _⟩ := firstLevel_some.mp first
  obtain ⟨node, next, _, equal, larger⟩ := allocPages_at pool first
  by_cases same : level = order
  · exact ⟨_, _, _, equal same⟩
  · have above : order < level := by omega
    rw [larger above]
    have nodes : level ≤ order + (pool.recycleNode node.ptr).freeStart.length := by
      rw [recycleNode_length]
      omega
    have counter : level ≤ order + (pool.recycleNode node.ptr).freenodeRemain := by
      simp only [recycleNode]
      omega
    obtain ⟨zone', pool', split⟩ := splitLoop_succeeds node.pageNumber (zone.setPow level next) above
      bound.le nodes counter
    exact ⟨_, _, _, split⟩

theorem MemoryZone.allocPages_fails (counted : pool.freeStart.length ≤ pool.freenodeRemain)
    (first : zone.firstLevel order = some level) (short : order + pool.freeStart.length + 1 < level) :
    zone.allocPages pool (2 ^ order) = .error .noFreeNode := by
  obtain ⟨bound, _, _, _⟩ := firstLevel_some.mp first
  obtain ⟨node, next, _, _, larger⟩ := allocPages_at pool first
  rw [larger (by omega)]
  exact splitLoop_fails node.pageNumber (zone.setPow level next)
    (recycleNode_counted counted node.ptr) (by omega)
    (by rw [recycleNode_length]; omega)

end Zone

end Kernel31.Buddy
