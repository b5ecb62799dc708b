import Kernel31.Buddy.Model

namespace Kernel31.Mcache

open Function

open Page

def slotNum : Nat := 1024
def sizeClassCount : Nat := 14

def ptrSize : Nat := 8
def cachePageSize : Nat := 6 * ptrSize
def managerSize : Nat := (slotNum + 2 * sizeClassCount + 4) * ptrSize

/-- An alignment that is a power of two, and a size that is not zero and does not overflow when rounded up to it. -/
structure Layout where
  size : Nat
  align : Nat
  positive : 0 < size
  power : ∃ exponent, align = 2 ^ exponent
  bounded : size + align ≤ 2 ^ 63
  deriving DecidableEq

def managerLayout : Layout := ⟨managerSize, ptrSize, by decide, ⟨3, rfl⟩, by decide⟩

/-- The cell size and the cell count of the size classes. -/
def cacheSize : List (Nat × Nat) :=
  [(64, 1024), (128, 512), (256, 256), (512, 128), (1024, 64), (2 * 1024, 32), (4 * 1024, 16), (8 * 1024, 8),
    (16 * 1024, 8), (32 * 1024, 8), (64 * 1024, 8), (128 * 1024, 8), (256 * 1024, 4), (512 * 1024, 2)]

def sizeToClass (size : Nat) : Option ((Nat × Nat) × Nat) :=
  cacheSize.zipIdx.find? fun entry => size ≤ entry.1.1

def calcHeaderPadding (align : Nat) : Nat := (align - ptrSize % align) % align

def headerSize (layout : Layout) : Nat := calcHeaderPadding layout.align + ptrSize

def nonNull (ptr : Nat) : Option Nat := if ptr = 0 then none else some ptr

structure CachePage where
  pageStart : Nat
  pageCount : Nat
  cellSize : Nat
  freeCount : Nat
  usedCount : Nat
  freeListHead : Nat
  deriving DecidableEq, Repr

structure CacheManager where
  caches : List (Option Nat)
  next : Option Nat
  prev : Option Nat
  nextPartialFree : Nat → Option Nat
  partialCounts : Nat → Nat
  nextFree : Option Nat
  usedSlots : Nat

def CacheManager.default : CacheManager where
  caches := List.replicate slotNum none
  next := none
  prev := none
  nextPartialFree _ := none
  partialCounts _ := 0
  nextFree := none
  usedSlots := 0

/-- Memory by what is kept in it: the first word of a cell (the next free cell, or the manager of an allocated one),
    the `CachePage`s and the `CacheManager`s. -/
structure Heap (A : Type) where
  alloc : A
  head : Nat → Nat
  caches : Nat → CachePage
  managers : Nat → CacheManager

section Heap

variable {A : Type}

def Heap.setHead (heap : Heap A) (cell word : Nat) : Heap A := { heap with head := update heap.head cell word }

def Heap.setCache (heap : Heap A) (ptr : Nat) (cache : CachePage) : Heap A :=
  { heap with caches := update heap.caches ptr cache }

def Heap.setManager (heap : Heap A) (ptr : Nat) (mgr : CacheManager) : Heap A :=
  { heap with managers := update heap.managers ptr mgr }

def Heap.modify (heap : Heap A) (ptr : Nat) (change : CacheManager → CacheManager) : Heap A :=
  heap.setManager ptr (change (heap.managers ptr))

@[simps]
def CacheManager.setNext (next : Option Nat) (mgr : CacheManager) : CacheManager := { mgr with next := next }

@[simps]
def CacheManager.setNextFree (next : Option Nat) (mgr : CacheManager) : CacheManager := { mgr with nextFree := next }

@[simps]
def CacheManager.setPartialFree (idx : Nat) (next : Option Nat) (mgr : CacheManager) : CacheManager :=
  { mgr with nextPartialFree := update mgr.nextPartialFree idx next }

@[simps]
def CacheManager.setPartialCount (idx count : Nat) (mgr : CacheManager) : CacheManager :=
  { mgr with partialCounts := update mgr.partialCounts idx count }

/-- `first_mgr` and `first_mgr_mut`; an address space holds fewer managers than the loop may take steps. -/
def firstMgrLoop (heap : Heap A) : Nat → Nat → Exec Nat
  | 0, _ => throw .recursion
  | fuel + 1, mgr =>
    match (heap.managers mgr).prev with
    | some prev => firstMgrLoop heap fuel prev
    | none => pure mgr

def loopLimit : Nat := 2 ^ 64

def firstMgr (heap : Heap A) (current : Nat) : Exec Nat := firstMgrLoop heap loopLimit current

def CachePage.init (cache : CachePage) (offset : Nat) (head : Nat → Nat) : Exec (Nat → Nat) :=
  if cache.freeCount = 0 then throw .overflow
  else
    let linked := (List.range (cache.freeCount - 1)).foldl (fun head i =>
      update head (cache.pageStart + (offset + i) * cache.cellSize)
        (cache.pageStart + (offset + i + 1) * cache.cellSize)) head
    pure (update linked (cache.pageStart + cache.pageCount * pageSize - cache.cellSize) 0)

def pageAddress (page : Nat) : Exec Nat := if pageSize * page < 2 ^ 64 then pure (pageSize * page) else throw .overflow

def CachePage.allocate [PageAllocator A] (cellSize cellCount : Nat) (heap : Heap A) : Exec (Nat × Heap A) := do
  let pageCount ← Buddy.ceilToPower2 (cellCount * cellSize / pageSize)
  let offset := (cachePageSize + cellSize - 1) / cellSize
  let (page, alloc) ← allocPages heap.alloc pageCount
  let cacheAddr ← pageAddress page
  let cache : CachePage :=
    { pageStart := cacheAddr
      pageCount := pageCount
      cellSize := cellSize
      usedCount := 0
      freeCount := pageCount * pageSize / cellSize - offset
      freeListHead := cacheAddr + offset * cellSize }
  let head ← cache.init offset heap.head
  pure (cacheAddr, { heap with alloc := alloc, head := head, caches := update heap.caches cacheAddr cache })

def CachePage.deallocate [PageAllocator A] (cache : CachePage) (heap : Heap A) : Exec (Heap A) := do
  let alloc ← PageAllocator.freePages heap.alloc (cache.pageStart >>> pageBits) cache.pageCount
  pure { heap with alloc := alloc }

def Heap.allocObj (heap : Heap A) (ptr : Nat) : Option (Nat × Heap A) :=
  let cache := heap.caches ptr
  if cache.freeCount = 0 then none
  else
    some (cache.freeListHead, heap.setCache ptr
      { cache with
        freeCount := cache.freeCount - 1
        usedCount := cache.usedCount + 1
        freeListHead := heap.head cache.freeListHead })

def Heap.freeObj (heap : Heap A) (ptr cell : Nat) : Exec (Heap A) :=
  let cache := heap.caches ptr
  if cache.usedCount = 0 then throw .overflow
  else
    pure ((heap.setHead cell cache.freeListHead).setCache ptr
      { cache with
        usedCount := cache.usedCount - 1
        freeCount := cache.freeCount + 1
        freeListHead := cell })

def CachePage.inRange (cache : CachePage) (ptr : Nat) : Bool :=
  cache.pageStart ≤ ptr ∧ ptr < cache.pageStart + cache.pageCount * pageSize

def CacheManager.addCache (cachePtr : Nat) (mgr : CacheManager) : CacheManager :=
  match mgr.caches.findIdx? Option.isNone with
  | some slot => { mgr with caches := mgr.caches.set slot (nonNull cachePtr), usedSlots := mgr.usedSlots + 1 }
  | none => mgr

def CacheManager.isSlotsFull (mgr : CacheManager) : Bool := mgr.usedSlots = slotNum

def CacheManager.isGlobalAllocator (mgr : CacheManager) : Bool := mgr.prev = none

/-- At a count of zero the next manager of the list becomes the first of it. -/
def Heap.leavePartial (heap : Heap A) (self idx : Nat) : Exec (Heap A) :=
  let count := (heap.managers self).partialCounts idx
  if count = 0 then throw .overflow
  else
    let heap := heap.modify self (CacheManager.setPartialCount idx (count - 1))
    if count - 1 = 0 then do
      let first ← firstMgr heap self
      pure (heap.modify first (CacheManager.setPartialFree idx ((heap.managers self).nextPartialFree idx)))
    else pure heap

/-- `for mut cache in self.caches.into_iter().flatten()` of `cache_alloc`. -/
def cacheAllocLoop (self cellSize idx padding : Nat) : List Nat → Heap A → Exec (Option Nat × Heap A)
  | [], heap => pure (none, heap)
  | cache :: rest, heap =>
    if (heap.caches cache).cellSize = cellSize then
      match heap.allocObj cache with
      | some (ptr, heap) => do
        let heap ← if (heap.caches cache).freeCount = 0 then heap.leavePartial self idx else pure heap
        pure (some (ptr + (padding + ptrSize)), heap.setHead ptr self)
      | none => cacheAllocLoop self cellSize idx padding rest heap
    else cacheAllocLoop self cellSize idx padding rest heap

def cacheAlloc (self cellSize idx padding : Nat) (heap : Heap A) : Exec (Option Nat × Heap A) :=
  if (heap.managers self).partialCounts idx = 0 then pure (none, heap)
  else cacheAllocLoop self cellSize idx padding (heap.managers self).caches.reduceOption heap

def Heap.enterPartial (heap : Heap A) (self first idx : Nat) : Heap A :=
  let heap := heap.modify self (CacheManager.setPartialFree idx ((heap.managers first).nextPartialFree idx))
  heap.modify first (CacheManager.setPartialFree idx (nonNull self))

/-- A manager other than the first one joins the list when it gets its first partial cache. -/
def Heap.joinPartial (heap : Heap A) (self first idx : Nat) : Heap A :=
  if !(heap.managers self).isGlobalAllocator ∧ (heap.managers self).partialCounts idx = 0 then
    heap.enterPartial self first idx
  else heap

/-- The manager joins the list of those with a partial cache, the cache gets a slot, and a manager without another
    empty slot leaves the list of those with one. -/
def Heap.listCache (heap : Heap A) (self first idx cacheAddr : Nat) : Heap A :=
  let heap := (heap.joinPartial self first idx).modify self (CacheManager.addCache cacheAddr)
  let heap := heap.modify self (CacheManager.setPartialCount idx ((heap.managers self).partialCounts idx + 1))
  if (heap.managers self).isSlotsFull then heap.modify first (CacheManager.setNextFree (heap.managers self).nextFree)
  else heap

variable [PageAllocator A]

/-- `new_cache_alloc` after `try_init_next`. -/
def addCacheAlloc (self cellSize cellCount idx padding : Nat) (heap : Heap A) : Exec (Nat × Heap A) := do
  let (cacheAddr, heap) ← CachePage.allocate cellSize cellCount heap
  match heap.allocObj cacheAddr with
  | none => throw .unwrapNone
  | some (ptr, heap) =>
    let first ← firstMgr heap self
    pure (ptr + (padding + ptrSize), (heap.listCache self first idx cacheAddr).setHead ptr self)

def dangling : Nat := ptrSize

/-- `try_init_next`, with `alloc` for the recursive call. -/
def tryInitNext (alloc : Nat → Layout → Heap A → Exec (Nat × Heap A)) (self : Nat) (heap : Heap A) : Exec (Heap A) :=
  if (heap.managers self).next = none then do
    let (next, heap) ← alloc self managerLayout (heap.modify self (CacheManager.setNext (some dangling)))
    let heap := heap.modify self (CacheManager.setNext (nonNull next))
    let first ← firstMgr heap self
    let heap := heap.setManager next
      { CacheManager.default with prev := nonNull self, nextFree := (heap.managers first).nextFree }
    pure (heap.modify first (CacheManager.setNextFree (nonNull next)))
  else pure heap

def newCacheAlloc (alloc : Nat → Layout → Heap A → Exec (Nat × Heap A)) (self cellSize cellCount idx padding : Nat)
    (heap : Heap A) : Exec (Nat × Heap A) := do
  let heap ← tryInitNext alloc self heap
  addCacheAlloc self cellSize cellCount idx padding heap

/-- `CacheManager::alloc`, which calls itself through `try_init_next`, up to a depth. -/
def alloc : Nat → Nat → Layout → Heap A → Exec (Nat × Heap A)
  | 0, _, _, _ => throw .recursion
  | depth + 1, self, layout, heap =>
    let padding := calcHeaderPadding layout.align
    match sizeToClass (layout.size + (padding + ptrSize)) with
    | some ((cellSize, cellCount), idx) => do
      let (found, heap) ← cacheAlloc self cellSize idx padding heap
      match found with
      | some ptr => pure (ptr, heap)
      | none =>
        if !(heap.managers self).isSlotsFull then newCacheAlloc (alloc depth) self cellSize cellCount idx padding heap
        else
          match (heap.managers self).nextPartialFree idx with
          | some next => do
            let (found, heap) ← cacheAlloc next cellSize idx padding heap
            match found with
            | some ptr => pure (ptr, heap)
            | none => throw .unwrapNone
          | none =>
            match (heap.managers self).nextFree with
            | some next => newCacheAlloc (alloc depth) next cellSize cellCount idx padding heap
            | none => throw .unwrapNone
    | none => do
      let (page, alloc) ← allocPages heap.alloc ((layout.size + pageSize - 1) / pageSize)
      pure (← pageAddress page, { heap with alloc := alloc })

def findSlot (heap : Heap A) (ptr : Nat) (caches : List (Option Nat)) : Option (Nat × Nat) :=
  caches.zipIdx.findSome? fun entry =>
    match entry.1 with
    | some cache => if (heap.caches cache).inRange ptr then some (entry.2, cache) else none
    | none => none

/-- The steps of `dealloc` for a full cache, which gets a free cell. -/
def Heap.gainPartial (heap : Heap A) (first mgr idx : Nat) : Heap A :=
  let heap := heap.joinPartial mgr first idx
  heap.modify mgr (CacheManager.setPartialCount idx ((heap.managers mgr).partialCounts idx + 1))

/-- `while let Some(next) = prev_free.as_ref().next_free && next.as_ptr() != mgr` -/
def prevFreeLoop (heap : Heap A) (mgr : Nat) : Nat → Nat → Exec Nat
  | 0, _ => throw .recursion
  | fuel + 1, prevFree =>
    match (heap.managers prevFree).nextFree with
    | some next => if next ≠ mgr then prevFreeLoop heap mgr fuel next else pure prevFree
    | none => pure prevFree

/-- The unlinking of a manager without caches. -/
def Heap.unlink (heap : Heap A) (first mgr prev : Nat) : Exec (Heap A) := do
  let heap := heap.modify prev (CacheManager.setNext (heap.managers mgr).next)
  match (heap.managers first).nextFree with
  | none => throw .unwrapNone
  | some prevFree =>
    let prevFree ← prevFreeLoop heap mgr loopLimit prevFree
    pure (heap.modify prevFree (CacheManager.setNextFree (heap.managers mgr).nextFree))

@[simps]
def CacheManager.clearSlot (slot : Nat) (mgr : CacheManager) : CacheManager :=
  { mgr with caches := mgr.caches.set slot none }

@[simps]
def CacheManager.setUsedSlots (count : Nat) (mgr : CacheManager) : CacheManager := { mgr with usedSlots := count }

/-- An empty cache is given back and leaves its slot. -/
def Heap.release (heap : Heap A) (first mgr idx slot cache : Nat) : Exec (Heap A) := do
  let heap ← (heap.caches cache).deallocate heap
  let heap := heap.modify mgr (CacheManager.clearSlot slot)
  let heap :=
    if !(heap.managers mgr).isGlobalAllocator ∧ (heap.managers mgr).isSlotsFull then
      let heap := heap.modify mgr (CacheManager.setNextFree (heap.managers first).nextFree)
      heap.modify first (CacheManager.setNextFree (nonNull mgr))
    else heap
  if (heap.managers mgr).usedSlots = 0 ∨ (heap.managers mgr).partialCounts idx = 0 then throw .overflow
  else
    let heap := heap.modify mgr (CacheManager.setUsedSlots ((heap.managers mgr).usedSlots - 1))
    pure (heap.modify mgr (CacheManager.setPartialCount idx ((heap.managers mgr).partialCounts idx - 1)))

/-- `CacheManager::dealloc`, which calls itself for a manager without caches, up to a depth. -/
def dealloc : Nat → Nat → Nat → Layout → Heap A → Exec (Heap A)
  | 0, _, _, _, _ => throw .recursion
  | depth + 1, self, ptr, layout, heap => do
    let header := headerSize layout
    let first ← firstMgr heap self
    match sizeToClass (layout.size + header) with
    | some (_, idx) =>
      let mgr := heap.head (ptr - header)
      match findSlot heap ptr (heap.managers mgr).caches with
      | none => pure heap
      | some (slot, cache) =>
        let heap := if (heap.caches cache).freeCount = 0 then heap.gainPartial first mgr idx else heap
        let heap ← heap.freeObj cache (ptr - header)
        if (heap.caches cache).usedCount = 0 then
          let heap ← heap.release first mgr idx slot cache
          match (heap.managers mgr).prev with
          | some prev =>
            if (heap.managers mgr).usedSlots = 0 then
              let heap ← heap.unlink first mgr prev
              dealloc depth self mgr managerLayout heap
            else pure heap
          | none => pure heap
        else pure heap
    | none => do
      let alloc ← PageAllocator.freePages heap.alloc (ptr >>> pageBits) ((layout.size + pageSize - 1) / pageSize)
      pure { heap with alloc := alloc }

end Heap

end Kernel31.Mcache
