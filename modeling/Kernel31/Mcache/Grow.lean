import Kernel31.Mcache.Managers

namespace Kernel31.Mcache

open Page Checked Function CacheManager Heap
open CacheManager (addCache setPartialCount)

section Fields

variable {A : Type}

theorem field_modify_map {β : Type} (field : CacheManager → β) (heap : Heap A) (ptr : Nat)
    (change : CacheManager → CacheManager) (step : β → β) (steps : ∀ manager, field (change manager) = step (field manager))
    (mgr : Nat) :
    field ((heap.modify ptr change).managers mgr) =
      if mgr = ptr then step (field (heap.managers mgr)) else field (heap.managers mgr) := by
  rw [modify_managers, update_apply]
  split
  · rename_i here
    rw [here, steps]
  · rfl

def CacheManager.view (manager : CacheManager) : List (Option Nat) × Nat := (manager.caches, manager.usedSlots)

def addToView (ptr : Nat) (view : List (Option Nat) × Nat) : List (Option Nat) × Nat :=
  match view.1.findIdx? Option.isNone with
  | some slot => (view.1.set slot (nonNull ptr), view.2 + 1)
  | none => view

theorem CacheManager.view_addCache (ptr : Nat) (manager : CacheManager) :
    (manager.addCache ptr).view = addToView ptr manager.view := by
  unfold addCache addToView
  simp only [view]
  cases manager.caches.findIdx? Option.isNone <;> rfl

theorem view_addCache (heap : Heap A) (self ptr mgr : Nat) :
    ((heap.modify self (addCache ptr)).managers mgr).view =
      if mgr = self then addToView ptr (heap.managers mgr).view else (heap.managers mgr).view :=
  field_modify_map view heap self _ (addToView ptr) (CacheManager.view_addCache ptr) mgr

theorem CacheManager.addCache_fields (ptr : Nat) (manager : CacheManager) :
    (manager.addCache ptr).prev = manager.prev ∧ (manager.addCache ptr).next = manager.next ∧
      (manager.addCache ptr).nextFree = manager.nextFree ∧ (manager.addCache ptr).partialCounts = manager.partialCounts ∧
      (manager.addCache ptr).nextPartialFree = manager.nextPartialFree := by
  unfold addCache
  split <;> exact ⟨rfl, rfl, rfl, rfl, rfl⟩

end Fields

section Added

variable {A : Type} {heap heap' : Heap A} {global self idx ptr : Nat}

theorem addCacheAlloc_eq [PageAllocator A] {cellSize cellCount padding : Nat}
    (allocated : CachePage.allocate cellSize cellCount heap = .ok (ptr, heap'))
    (some : (heap'.caches ptr).freeCount ≠ 0) (first : LeadsTo heap' self global) :
    addCacheAlloc self cellSize cellCount idx padding heap =
      .ok ((heap'.caches ptr).freeListHead + (padding + ptrSize),
        ((heap'.setCache ptr ((heap'.caches ptr).taken (heap'.head (heap'.caches ptr).freeListHead))).listCache
          self global idx ptr).setHead (heap'.caches ptr).freeListHead self) := by
  rw [addCacheAlloc, allocated, ok_bind]
  simp only [allocObj_eq some]
  rw [first (heap'.setCache ptr _) fun _ => rfl]
  rfl

structure Listed (heap heap' : Heap A) (global owner idx ptr : Nat) : Prop where
  alloc : heap'.alloc = heap.alloc
  head : heap'.head = heap.head
  caches : heap'.caches = heap.caches
  view : ∀ mgr, (heap'.managers mgr).view = ((heap.modify owner (addCache ptr)).managers mgr).view
  prev : ∀ mgr, (heap'.managers mgr).prev = (heap.managers mgr).prev
  next : ∀ mgr, (heap'.managers mgr).next = (heap.managers mgr).next
  nextFree : ∀ mgr, (heap'.managers mgr).nextFree = (heap.managers mgr).nextFree
  counts : ∀ mgr i, heap'.counts mgr i = if mgr = owner ∧ i = idx then heap.counts owner idx + 1 else heap.counts mgr i
  nexts : ∀ mgr i, heap'.nexts mgr i =
    if (heap.managers owner).prev ≠ none ∧ heap.counts owner idx = 0 then
      if mgr = global ∧ i = idx then nonNull owner
      else if mgr = owner ∧ i = idx then heap.nexts global idx else heap.nexts mgr i
    else heap.nexts mgr i

theorem Heap.modify_eq_self {change : CacheManager → CacheManager}
    (same : change (heap.managers ptr) = heap.managers ptr) : heap.modify ptr change = heap := by
  rw [modify, setManager, same, update_eq_self]

def Heap.listed (heap : Heap A) (global self idx ptr : Nat) : Heap A :=
  ((heap.joinPartial self global idx).modify self (addCache ptr)).modify self
    (setPartialCount idx (heap.counts self idx + 1))

theorem view_listed (heap : Heap A) (global self idx ptr mgr : Nat) :
    ((heap.listed global self idx ptr).managers mgr).view =
      ((heap.modify self (addCache ptr)).managers mgr).view := by
  have same : ((heap.joinPartial self global idx).managers mgr).view = (heap.managers mgr).view := by
    have quiet := Quiet.joinPartial heap self global idx
    rw [view, quiet.caches, quiet.usedSlots, view]
  rw [listed, field_modify view _ self (setPartialCount idx _) fun _ => rfl,
    view_addCache, view_addCache, same]

theorem Heap.listCache_eq (heap : Heap A) (global self idx ptr : Nat)
    (roomy : self = global ∨ ((heap.managers self).addCache ptr).usedSlots ≠ slotNum) :
    heap.listCache self global idx ptr = heap.listed global self idx ptr := by
  have count : (((heap.joinPartial self global idx).modify self (addCache ptr)).managers
      self).partialCounts idx = heap.counts self idx := by
    rw [field_modify CacheManager.partialCounts _ self (addCache ptr)
      fun manager => (addCache_fields ptr manager).2.2.2.1]
    exact counts_joinPartial heap self global idx self idx
  have fills : ((heap.listed global self idx ptr).managers self).isSlotsFull = true → self = global := by
    intro full
    refine roomy.resolve_right fun room => room ?_
    have used := congrArg Prod.snd (view_listed heap global self idx ptr self)
    rw [modify_managers, update_self] at used
    exact used.symm.trans (of_decide_eq_true full)
  unfold listCache
  simp only [count]
  rw [← listed]
  split
  · rename_i full
    obtain rfl := fills full
    exact modify_eq_self rfl
  · rfl

theorem Heap.listed_spec (heap : Heap A) (global self idx ptr : Nat) :
    Listed heap (heap.listed global self idx ptr) global self idx ptr := by
  have quiet := Quiet.joinPartial heap self global idx
  have counted := Quiet.setPartialCount ((heap.joinPartial self global idx).modify self (addCache ptr))
    self idx (heap.counts self idx + 1)
  have kept {β : Type} (field : CacheManager → β) (same : ∀ manager, field (manager.addCache ptr) = field manager) :
      ∀ mgr, field (((heap.joinPartial self global idx).modify self (addCache ptr)).managers mgr) =
        field ((heap.joinPartial self global idx).managers mgr) :=
    field_modify field _ self (addCache ptr) same
  have fields := addCache_fields ptr
  have parts : (heap.joinPartial self global idx).alloc = heap.alloc ∧ (heap.joinPartial self global idx).head = heap.head ∧
      (heap.joinPartial self global idx).caches = heap.caches := by
    rcases joinPartial_cases heap self global idx with ⟨_, _, enters⟩ | ⟨_, stays⟩
    · rw [enters]
      exact ⟨rfl, rfl, rfl⟩
    · rw [stays]
      exact ⟨rfl, rfl, rfl⟩
  refine ⟨parts.1, parts.2.1, parts.2.2, view_listed heap global self idx ptr, ?_, ?_, ?_, ?_, ?_⟩
  · intro mgr
    rw [listed, counted.prev, kept _ fun manager => (fields manager).1, quiet.prev]
  · intro mgr
    rw [listed, counted.next, kept _ fun manager => (fields manager).2.1, quiet.next]
  · intro mgr
    rw [listed, counted.nextFree, kept _ fun manager => (fields manager).2.2.1, quiet.nextFree]
  · intro mgr i
    have counts : ((heap.joinPartial self global idx).modify self (addCache ptr)).counts mgr i =
        heap.counts mgr i :=
      (congrFun (kept _ (fun manager => (fields manager).2.2.2.1) mgr) i).trans
        (counts_joinPartial heap self global idx mgr i)
    rw [listed, counts_setPartialCount, counts]
  · intro mgr i
    rw [listed, nexts_setPartialCount, nexts, kept _ fun manager => (fields manager).2.2.2.2]
    exact nexts_joinPartial heap self global idx mgr i

end Added

end Kernel31.Mcache
