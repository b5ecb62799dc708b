import Kernel31.Mcache.Slots

namespace Kernel31.Mcache

open Page Checked Function List Heap

variable {A : Type} {heap heap' : Heap A} {global self idx ptr cellSize padding : Nat} {mgrs : List Nat}

/-- The `prev` pointers lead from the newest manager through all others to the global one. -/
def PrevLinked (heap : Heap A) (chain : List Nat) : Prop :=
  Linked (fun mgr => (heap.managers mgr).prev) chain.head? chain

theorem PrevLinked.congr {chain : List Nat} (prevs : PrevLinked heap chain)
    (same : ∀ mgr ∈ chain, (heap'.managers mgr).prev = (heap.managers mgr).prev) : PrevLinked heap' chain :=
  Linked.frame prevs same

theorem firstMgrLoop_eq {fuel mgr : Nat} (prevs : PrevLinked heap (mgrs ++ [global])) (member : mgr ∈ mgrs ++ [global])
    (enough : mgrs.length < fuel) : firstMgrLoop heap fuel mgr = .ok global := by
  induction mgrs generalizing fuel mgr with
  | nil =>
    obtain rfl := mem_singleton.mp member
    obtain ⟨fuel, rfl⟩ := Nat.exists_eq_add_of_lt enough
    rw [firstMgrLoop, show (heap.managers mgr).prev = none from prevs.2]
    rfl
  | cons newest rest ih =>
    have linked : Linked (fun mgr => (heap.managers mgr).prev) (heap.managers newest).prev (rest ++ [global]) := prevs.2
    have before : (heap.managers newest).prev = (rest ++ [global]).head? := linked.start_eq
    have older : PrevLinked heap (rest ++ [global]) := by
      rw [PrevLinked, ← before]
      exact linked
    rw [length_cons] at enough
    rcases mem_cons.mp member with rfl | inside
    · obtain ⟨fuel, rfl⟩ : ∃ k, fuel = k + 1 := ⟨fuel - 1, by omega⟩
      obtain ⟨prev, head⟩ : ∃ prev, (rest ++ [global]).head? = some prev := by
        cases rest with
        | nil => exact ⟨global, rfl⟩
        | cons first others => exact ⟨first, rfl⟩
      rw [firstMgrLoop, before, head]
      exact ih older (mem_of_mem_head? head) (by omega)
    · exact ih older inside (by omega)

theorem firstMgr_eq {mgr : Nat} (prevs : PrevLinked heap (mgrs ++ [global])) (nodup : (mgrs ++ [global]).Nodup)
    (bounded : ∀ m ∈ mgrs ++ [global], m < 2 ^ 64) (member : mgr ∈ mgrs ++ [global]) : firstMgr heap mgr = .ok global := by
  apply firstMgrLoop_eq prevs member
  have few := (nodup.subperm fun m inside => mem_range.mpr (bounded m inside)).length_le
  rw [length_range, length_append, length_singleton] at few
  exact few

def LeadsTo (heap : Heap A) (self global : Nat) : Prop :=
  ∀ other : Heap A, (∀ mgr, (other.managers mgr).prev = (heap.managers mgr).prev) → firstMgr other self = .ok global

structure Quiet (heap heap' : Heap A) : Prop where
  caches : ∀ mgr, (heap'.managers mgr).caches = (heap.managers mgr).caches
  usedSlots : ∀ mgr, (heap'.managers mgr).usedSlots = (heap.managers mgr).usedSlots
  prev : ∀ mgr, (heap'.managers mgr).prev = (heap.managers mgr).prev
  next : ∀ mgr, (heap'.managers mgr).next = (heap.managers mgr).next
  nextFree : ∀ mgr, (heap'.managers mgr).nextFree = (heap.managers mgr).nextFree

theorem Quiet.refl (heap : Heap A) : Quiet heap heap := ⟨fun _ => rfl, fun _ => rfl, fun _ => rfl, fun _ => rfl, fun _ => rfl⟩

theorem Quiet.trans {heap'' : Heap A} (first : Quiet heap heap') (second : Quiet heap' heap'') : Quiet heap heap'' :=
  ⟨fun m => (second.caches m).trans (first.caches m), fun m => (second.usedSlots m).trans (first.usedSlots m),
    fun m => (second.prev m).trans (first.prev m), fun m => (second.next m).trans (first.next m),
    fun m => (second.nextFree m).trans (first.nextFree m)⟩

theorem field_modify {β : Type} (field : CacheManager → β) (heap : Heap A) (ptr : Nat)
    (change : CacheManager → CacheManager) (same : ∀ manager, field (change manager) = field manager) (mgr : Nat) :
    field ((heap.modify ptr change).managers mgr) = field (heap.managers mgr) := by
  rw [modify_managers, update_apply]
  split
  · rename_i here
    rw [here, same]
  · rfl

theorem Quiet.setPartialCount (heap : Heap A) (ptr idx count : Nat) :
    Quiet heap (heap.modify ptr (CacheManager.setPartialCount idx count)) := by
  constructor <;> exact field_modify _ heap ptr (CacheManager.setPartialCount idx count) fun _ => rfl

theorem Quiet.setPartialFree (heap : Heap A) (ptr idx : Nat) (next : Option Nat) :
    Quiet heap (heap.modify ptr (CacheManager.setPartialFree idx next)) := by
  constructor <;> exact field_modify _ heap ptr (CacheManager.setPartialFree idx next) fun _ => rfl

def Heap.counts (heap : Heap A) (mgr idx : Nat) : Nat := (heap.managers mgr).partialCounts idx

def Heap.nexts (heap : Heap A) (mgr idx : Nat) : Option Nat := (heap.managers mgr).nextPartialFree idx

theorem counts_setPartialCount (heap : Heap A) (ptr idx count mgr i : Nat) :
    (heap.modify ptr (CacheManager.setPartialCount idx count)).counts mgr i =
      if mgr = ptr ∧ i = idx then count else heap.counts mgr i := by
  simp only [counts, modify_managers, update_apply]
  by_cases here : mgr = ptr
  · simp [here, CacheManager.setPartialCount, update_apply]
  · simp [here]

theorem nexts_setPartialCount (heap : Heap A) (ptr idx count mgr i : Nat) :
    (heap.modify ptr (CacheManager.setPartialCount idx count)).nexts mgr i = heap.nexts mgr i :=
  congrFun (field_modify CacheManager.nextPartialFree heap ptr (CacheManager.setPartialCount idx count) (fun _ => rfl) mgr) i

theorem counts_setPartialFree (heap : Heap A) (ptr idx : Nat) (next : Option Nat) (mgr i : Nat) :
    (heap.modify ptr (CacheManager.setPartialFree idx next)).counts mgr i = heap.counts mgr i :=
  congrFun (field_modify CacheManager.partialCounts heap ptr (CacheManager.setPartialFree idx next) (fun _ => rfl) mgr) i

theorem nexts_setPartialFree (heap : Heap A) (ptr idx : Nat) (next : Option Nat) (mgr i : Nat) :
    (heap.modify ptr (CacheManager.setPartialFree idx next)).nexts mgr i =
      if mgr = ptr ∧ i = idx then next else heap.nexts mgr i := by
  simp only [Heap.nexts, modify_managers, update_apply]
  by_cases here : mgr = ptr
  · simp [here, CacheManager.setPartialFree, update_apply]
  · simp [here]

def Heap.leftPartial (heap : Heap A) (global self idx : Nat) : Heap A :=
  let count := (heap.managers self).partialCounts idx
  let heap := heap.modify self (CacheManager.setPartialCount idx (count - 1))
  if count - 1 = 0 then heap.modify global (CacheManager.setPartialFree idx ((heap.managers self).nextPartialFree idx))
  else heap

section

variable (heap : Heap A)

theorem Heap.leavePartial_eq (counted : heap.counts self idx ≠ 0) (first : LeadsTo heap self global) :
    heap.leavePartial self idx = .ok (heap.leftPartial global self idx) := by
  unfold Heap.leavePartial Heap.leftPartial
  simp only [if_neg (show (heap.managers self).partialCounts idx ≠ 0 from counted)]
  split
  · rw [first _ (Quiet.setPartialCount heap self idx _).prev]
    rfl
  · rfl

theorem Quiet.leftPartial (global self idx : Nat) : Quiet heap (heap.leftPartial global self idx) := by
  unfold Heap.leftPartial
  dsimp only
  split
  · exact (Quiet.setPartialCount heap self idx _).trans (Quiet.setPartialFree _ global idx _)
  · exact Quiet.setPartialCount heap self idx _

theorem counts_leftPartial (global self idx mgr i : Nat) :
    (heap.leftPartial global self idx).counts mgr i =
      if mgr = self ∧ i = idx then heap.counts self idx - 1 else heap.counts mgr i := by
  unfold Heap.leftPartial
  dsimp only
  split
  · rw [counts_setPartialFree, counts_setPartialCount]
    rfl
  · rw [counts_setPartialCount]
    rfl

theorem nexts_leftPartial (global self idx mgr i : Nat) :
    (heap.leftPartial global self idx).nexts mgr i =
      if heap.counts self idx - 1 = 0 ∧ mgr = global ∧ i = idx then heap.nexts self idx else heap.nexts mgr i := by
  have kept : ∀ count, ((heap.modify self (CacheManager.setPartialCount idx count)).managers self).nextPartialFree idx =
      heap.nexts self idx := fun count => nexts_setPartialCount heap self idx count self idx
  unfold Heap.leftPartial
  dsimp only
  split
  · rename_i last
    rw [nexts_setPartialFree, nexts_setPartialCount, kept]
    simp only [counts, last, true_and]
  · rename_i more
    rw [nexts_setPartialCount, if_neg fun both => more both.1]

theorem Quiet.enterPartial (self first idx : Nat) : Quiet heap (heap.enterPartial self first idx) :=
  (Quiet.setPartialFree heap self idx _).trans (Quiet.setPartialFree _ first idx _)

theorem counts_enterPartial (self first idx mgr i : Nat) :
    (heap.enterPartial self first idx).counts mgr i = heap.counts mgr i := by
  rw [Heap.enterPartial, counts_setPartialFree, counts_setPartialFree]

theorem nexts_enterPartial (self first idx mgr i : Nat) :
    (heap.enterPartial self first idx).nexts mgr i =
      if mgr = first ∧ i = idx then nonNull self
      else if mgr = self ∧ i = idx then heap.nexts first idx else heap.nexts mgr i := by
  rw [Heap.enterPartial, nexts_setPartialFree, nexts_setPartialFree]
  rfl

theorem joinPartial_cases (self global idx : Nat) :
    ((heap.managers self).prev ≠ none ∧ heap.counts self idx = 0 ∧
      heap.joinPartial self global idx = heap.enterPartial self global idx) ∨
    (¬ ((heap.managers self).prev ≠ none ∧ heap.counts self idx = 0) ∧ heap.joinPartial self global idx = heap) := by
  have condition : ((!(heap.managers self).isGlobalAllocator) = true ∧ (heap.managers self).partialCounts idx = 0) ↔
      ((heap.managers self).prev ≠ none ∧ heap.counts self idx = 0) := by
    simp [CacheManager.isGlobalAllocator, counts]
  unfold Heap.joinPartial
  by_cases enters : (heap.managers self).prev ≠ none ∧ heap.counts self idx = 0
  · exact .inl ⟨enters.1, enters.2, if_pos (condition.mpr enters)⟩
  · exact .inr ⟨enters, if_neg fun holds => enters (condition.mp holds)⟩

theorem Quiet.joinPartial (self global idx : Nat) : Quiet heap (heap.joinPartial self global idx) := by
  rcases joinPartial_cases heap self global idx with ⟨_, _, enters⟩ | ⟨_, stays⟩
  · rw [enters]
    exact Quiet.enterPartial heap self global idx
  · rw [stays]
    exact Quiet.refl heap

theorem counts_joinPartial (self global idx mgr i : Nat) :
    (heap.joinPartial self global idx).counts mgr i = heap.counts mgr i := by
  rcases joinPartial_cases heap self global idx with ⟨_, _, enters⟩ | ⟨_, stays⟩
  · rw [enters, counts_enterPartial]
  · rw [stays]

theorem nexts_joinPartial (self global idx mgr i : Nat) :
    (heap.joinPartial self global idx).nexts mgr i =
      if (heap.managers self).prev ≠ none ∧ heap.counts self idx = 0 then
        if mgr = global ∧ i = idx then nonNull self
        else if mgr = self ∧ i = idx then heap.nexts global idx else heap.nexts mgr i
      else heap.nexts mgr i := by
  rcases joinPartial_cases heap self global idx with ⟨later, zero, enters⟩ | ⟨not, stays⟩
  · rw [enters, nexts_enterPartial]
    exact (if_pos ⟨later, zero⟩).symm
  · rw [stays, if_neg not]

end

theorem Heap.allocObj_eq (some : (heap.caches ptr).freeCount ≠ 0) :
    heap.allocObj ptr = .some ((heap.caches ptr).freeListHead,
      heap.setCache ptr ((heap.caches ptr).taken (heap.head (heap.caches ptr).freeListHead))) := by
  rw [Heap.allocObj, if_neg some]
  rfl

def Heap.takeCell (heap : Heap A) (global self idx ptr : Nat) : Heap A :=
  let cell := (heap.caches ptr).freeListHead
  let heap := heap.setCache ptr ((heap.caches ptr).taken (heap.head cell))
  let heap := if (heap.caches ptr).freeCount = 0 then heap.leftPartial global self idx else heap
  heap.setHead cell self

theorem cacheAllocLoop_eq {caches : List Nat} (counted : heap.counts self idx ≠ 0) (first : LeadsTo heap self global) :
    cacheAllocLoop self cellSize idx padding caches heap =
      match caches.find? fun ptr => (heap.caches ptr).cellSize = cellSize ∧ (heap.caches ptr).freeCount ≠ 0 with
      | some ptr => .ok (some ((heap.caches ptr).freeListHead + (padding + ptrSize)), heap.takeCell global self idx ptr)
      | none => .ok (none, heap) := by
  induction caches with
  | nil => rfl
  | cons ptr rest ih =>
    rw [cacheAllocLoop, find?_cons]
    by_cases fits : (heap.caches ptr).cellSize = cellSize
    · rw [if_pos fits]
      by_cases full : (heap.caches ptr).freeCount = 0
      · rw [Heap.allocObj, if_pos full]
        simp only [full, ne_eq, not_true_eq_false, and_false, decide_false, ih]
      · rw [Heap.allocObj_eq full]
        simp only [fits, full, ne_eq, not_false_eq_true, and_self, decide_true, Heap.takeCell]
        split
        · rw [Heap.leavePartial_eq (heap.setCache ptr _) counted first]
          rfl
        · rfl
    · rw [if_neg fits, ih]
      simp only [fits, false_and, decide_false]

def Heap.partialCache (heap : Heap A) (self cellSize idx : Nat) : Option Nat :=
  if heap.counts self idx = 0 then none
  else (heap.cachesOf self).find? fun ptr => (heap.caches ptr).cellSize = cellSize ∧ (heap.caches ptr).freeCount ≠ 0

theorem partialCache_some (found : heap.partialCache self cellSize idx = some ptr) :
    heap.counts self idx ≠ 0 ∧ ptr ∈ heap.cachesOf self ∧ (heap.caches ptr).cellSize = cellSize ∧
      (heap.caches ptr).freeCount ≠ 0 := by
  unfold partialCache at found
  split at found
  · cases found
  · rename_i counted
    have fits := find?_some found
    simp only [decide_eq_true_eq] at fits
    exact ⟨counted, mem_of_find?_eq_some found, fits⟩

theorem cacheAlloc_eq (first : LeadsTo heap self global) :
    cacheAlloc self cellSize idx padding heap =
      match heap.partialCache self cellSize idx with
      | some ptr => .ok (some ((heap.caches ptr).freeListHead + (padding + ptrSize)), heap.takeCell global self idx ptr)
      | none => .ok (none, heap) := by
  unfold cacheAlloc partialCache
  by_cases zero : heap.counts self idx = 0
  · rw [if_pos (show (heap.managers self).partialCounts idx = 0 from zero), if_pos zero]
    rfl
  · rw [if_neg (show (heap.managers self).partialCounts idx ≠ 0 from zero), if_neg zero]
    exact cacheAllocLoop_eq zero first

end Kernel31.Mcache
