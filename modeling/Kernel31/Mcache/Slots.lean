import Mathlib.Data.List.ReduceOption
import Kernel31.Mcache.Store
import Kernel31.Buddy.Loops

namespace Kernel31.Mcache

open Page Checked Function List Heap CachePage

variable {A : Type} {heap heap' : Heap A} {chain owned : List Nat} {others : List (Nat × Nat)}

variable {ptr mgr cellSize cellCount : Nat}

/-- The pages of a new block are not in use, and `free_pages` takes back the pages it names only. -/
structure SoundPages {A : Type} [PageAllocator A] (inUse : A → Nat → Prop) : Prop where
  fresh : ∀ alloc count page alloc', PageAllocator.allocPages alloc count = .ok (.ok page, alloc') →
    page + count ≤ 2 ^ 52 ∧ (∀ other, inUse alloc other → inUse alloc' other) ∧
      ∀ other, page ≤ other → other < page + count → ¬ inUse alloc other ∧ inUse alloc' other
  freed : ∀ alloc start count alloc', PageAllocator.freePages alloc start count = .ok alloc' →
    ∀ other, inUse alloc other → ¬ (start ≤ other ∧ other < start + count) → inUse alloc' other

section Slots

variable {inUse inUse' : Nat → Prop}

theorem Heap.modify_managers (heap : Heap A) (mgr : Nat) (change : CacheManager → CacheManager) :
    (heap.modify mgr change).managers = update heap.managers mgr (change (heap.managers mgr)) := rfl

theorem CacheManager.addCache_eq {manager : CacheManager} (slots : manager.caches.length = slotNum)
    (counted : manager.usedSlots = manager.caches.reduceOption.length) (room : manager.usedSlots ≠ slotNum)
    (positive : 0 < ptr) :
    ∃ slot, manager.caches[slot]? = some none ∧
      manager.addCache ptr =
        { manager with caches := manager.caches.set slot (some ptr), usedSlots := manager.usedSlots + 1 } := by
  have short : manager.caches.reduceOption.length < manager.caches.length := by
    have le := reduceOption_length_le manager.caches
    omega
  have empty := reduceOption_length_lt_iff.mp short
  obtain ⟨slot, found⟩ : ∃ slot, manager.caches.findIdx? Option.isNone = some slot := by
    rw [← Option.isSome_iff_exists, findIdx?_isSome, any_eq_true]
    exact ⟨none, empty, rfl⟩
  have here : manager.caches[slot]? = some none := by
    obtain ⟨bound, isNone, _⟩ := findIdx?_eq_some_iff_getElem.mp found
    rw [getElem?_eq_getElem bound]
    simpa using isNone
  refine ⟨slot, here, ?_⟩
  rw [CacheManager.addCache, found]
  simp only [nonNull, if_neg positive.ne']

theorem allCaches_perm_cons (nodup : chain.Nodup) (member : mgr ∈ chain)
    (here : (heap'.cachesOf mgr).Perm (ptr :: heap.cachesOf mgr))
    (other : ∀ m, m ≠ mgr → heap'.managers m = heap.managers m) :
    (heap'.allCaches chain).Perm (ptr :: heap.allCaches chain) :=
  Lists.flatMap_perm_cons nodup member here fun m different => by rw [cachesOf, other m different, cachesOf]

theorem Store.addCache (store : Store inUse heap chain owned ((heap.caches ptr).block :: others))
    (member : mgr ∈ chain) (room : (heap.managers mgr).usedSlots ≠ slotNum)
    (start : (heap.caches ptr).pageStart = ptr) (ok : CacheOk heap.head owned (heap.caches ptr)) :
    Store inUse (heap.modify mgr (CacheManager.addCache ptr)) chain owned others ∧
      ((heap.modify mgr (CacheManager.addCache ptr)).cachesOf mgr).Perm (ptr :: heap.cachesOf mgr) := by
  have positive : 0 < ptr := start ▸ ok.shaped.positive
  obtain ⟨slot, empty, added⟩ :=
    CacheManager.addCache_eq (store.slots mgr member) (store.counted mgr member) room positive
  have here : ((heap.modify mgr (CacheManager.addCache ptr)).cachesOf mgr).Perm (ptr :: heap.cachesOf mgr) := by
    rw [cachesOf, modify_managers, update_self, added]
    exact Lists.reduceOption_set_some empty ptr
  have other : ∀ m, m ≠ mgr → (heap.modify mgr (CacheManager.addCache ptr)).managers m = heap.managers m :=
    fun m different => update_of_ne different _ _
  have all := allCaches_perm_cons store.nodup member here other
  have blocks : ((heap.modify mgr (CacheManager.addCache ptr)).blocks chain ++ others).Perm
      (heap.blocks chain ++ (heap.caches ptr).block :: others) :=
    ((all.map fun c => (heap.caches c).block).append_right others).trans perm_middle.symm
  refine ⟨⟨store.nodup, ?_, ?_, ?_, ?_, ?_, ?_, ?_⟩, here⟩
  · intro m inside
    by_cases same : m = mgr
    · rw [same, modify_managers, update_self, added]
      exact length_set.trans (store.slots mgr member)
    · rw [other m same]
      exact store.slots m inside
  · intro m inside
    by_cases same : m = mgr
    · rw [same, here.length_eq, modify_managers, update_self, added, length_cons]
      exact congrArg (· + 1) (store.counted mgr member)
    · rw [other m same, cachesOf, other m same]
      exact store.counted m inside
  · intro c inside
    rcases mem_cons.mp (all.subset inside) with rfl | old
    · exact start
    · exact store.starts c old
  · intro c inside
    rcases mem_cons.mp (all.subset inside) with rfl | old
    · exact ok
    · exact store.caches c old
  · intro cell owns
    obtain ⟨c, inside, within⟩ := store.housed cell owns
    exact ⟨c, all.symm.subset (mem_cons_of_mem _ inside), within⟩
  · rw [blocks.pairwise_iff Apart.symm]
    exact store.apart
  · exact fun block inside => store.held block (blocks.subset inside)

theorem Store.addManager (store : Store inUse heap chain owned others) (new : mgr ∉ chain)
    (slots : (heap.managers mgr).caches = List.replicate slotNum none)
    (unused : (heap.managers mgr).usedSlots = 0) : Store inUse heap (mgr :: chain) owned others := by
  have none : heap.cachesOf mgr = [] := by
    rw [cachesOf, slots, reduceOption_replicate_none]
  have all : heap.allCaches (mgr :: chain) = heap.allCaches chain := by
    rw [allCaches, flatMap_cons, none, nil_append, allCaches]
  have blocks : heap.blocks (mgr :: chain) = heap.blocks chain := by
    rw [blocks, all, blocks]
  refine ⟨nodup_cons.mpr ⟨new, store.nodup⟩, ?_, ?_, ?_, ?_, ?_, ?_, ?_⟩
  · rw [forall_mem_cons, slots]
    exact ⟨length_replicate, store.slots⟩
  · rw [forall_mem_cons, none, unused]
    exact ⟨rfl, store.counted⟩
  · rw [all]
    exact store.starts
  · rw [all]
    exact store.caches
  · rw [all]
    exact store.housed
  · rw [blocks]
    exact store.apart
  · rw [blocks]
    exact store.held

theorem Store.release (store : Store inUse heap chain owned others) {slot : Nat} (member : mgr ∈ chain)
    (here : (heap.managers mgr).caches[slot]? = some (some ptr)) (empty : (heap.caches ptr).usedCount = 0)
    {manager : CacheManager} (slots : manager.caches = (heap.managers mgr).caches.set slot none)
    (count : manager.usedSlots = (heap.managers mgr).usedSlots - 1) (used : ∀ page, inUse page →
      ¬ ((heap.caches ptr).block.1 ≤ page ∧ page < (heap.caches ptr).block.1 + (heap.caches ptr).block.2) → inUse' page) :
    Store inUse' (heap.setManager mgr manager) chain owned others ∧
      (heap.cachesOf mgr).Perm (ptr :: (heap.setManager mgr manager).cachesOf mgr) := by
  have same : (heap.setManager mgr manager).managers mgr = manager := update_self _ _ _
  have other : ∀ m, m ≠ mgr → (heap.setManager mgr manager).managers m = heap.managers m :=
    fun m different => update_of_ne different _ _
  have gone : (heap.cachesOf mgr).Perm (ptr :: (heap.setManager mgr manager).cachesOf mgr) := by
    simp only [cachesOf, same, slots]
    exact Lists.reduceOption_set_none here
  have all : (heap.allCaches chain).Perm (ptr :: (heap.setManager mgr manager).allCaches chain) :=
    allCaches_perm_cons store.nodup member gone fun m different => (other m different).symm
  have inside : ptr ∈ heap.allCaches chain := all.symm.subset mem_cons_self
  -- No owned cell is in the range of the cache.
  have unowned : ∀ cell ∈ owned, (heap.caches ptr).inRange cell = false := by
    have none := (store.caches ptr inside).used
    rw [empty, eq_comm, length_eq_zero_iff, filter_eq_nil_iff] at none
    exact fun cell owns => Bool.eq_false_iff.mpr (none cell owns)
  have blocks : (heap.blocks chain ++ others).Perm
      ((heap.caches ptr).block :: ((heap.setManager mgr manager).blocks chain ++ others)) :=
    (all.map fun c => (heap.caches c).block).append_right others
  have apart := store.apart
  rw [blocks.pairwise_iff Apart.symm, pairwise_cons] at apart
  refine ⟨⟨store.nodup, ?_, ?_, ?_, ?_, ?_, apart.2, ?_⟩, gone⟩
  · intro m within
    by_cases at' : m = mgr
    · rw [at', same, slots, length_set]
      exact store.slots mgr member
    · rw [other m at']
      exact store.slots m within
  · intro m within
    by_cases at' : m = mgr
    · have length := gone.length_eq
      rw [length_cons] at length
      rw [at', same, count, store.counted mgr member]
      omega
    · rw [other m at', cachesOf, other m at']
      exact store.counted m within
  · exact fun c within => store.starts c (all.symm.subset (mem_cons_of_mem _ within))
  · exact fun c within => store.caches c (all.symm.subset (mem_cons_of_mem _ within))
  · intro cell owns
    obtain ⟨c, within, range⟩ := store.housed cell owns
    rcases mem_cons.mp (all.subset within) with rfl | rest
    · rw [unowned cell owns] at range
      cases range
    · exact ⟨c, rest, range⟩
  · intro block within page low high
    refine used page (store.held block (blocks.symm.subset (mem_cons_of_mem _ within)) page low high) ?_
    intro both
    exact apart.1 block within page both.1 both.2 ⟨low, high⟩

end Slots

section Allocate

variable [PageAllocator A] {used : A → Nat → Prop}
theorem pageAddress_ok {page address : Nat} (run : pageAddress page = .ok address) : pageSize * page = address := by
  unfold pageAddress at run
  split at run
  · exact pure_ok.mp run
  · simp [throw_ok] at run

theorem CachePage.allocate_ok (size : (cellSize, cellCount) ∈ cacheSize)
    (run : allocate cellSize cellCount heap = .ok (ptr, heap')) :
    ∃ page alloc head, PageAllocator.allocPages heap.alloc (cellCount * cellSize / pageSize) = .ok (.ok page, alloc) ∧
      ptr = pageSize * page ∧
      (freshCache ptr (cellCount * cellSize / pageSize) cellSize).init 1 heap.head = .ok head ∧
      heap' =
        { heap with
          alloc := alloc
          head := head
          caches := update heap.caches ptr (freshCache ptr (cellCount * cellSize / pageSize) cellSize) } := by
  obtain ⟨_, _, _, _, rounded, offset⟩ := cacheSize_facts _ size
  simp only [allocate, rounded, ok_bind, offset, bind_ok, pure_ok, Prod.exists] at run
  obtain ⟨page, alloc, taken, address, addressed, head, init, ⟨⟩⟩ := run
  have place := pageAddress_ok addressed
  simp only [Nat.one_mul] at init
  refine ⟨page, alloc, head, allocPages_ok.mp taken, place.symm, init, ?_⟩
  simp only [freshCache, Nat.one_mul]

theorem CachePage.allocate_alloc (size : (cellSize, cellCount) ∈ cacheSize)
    (run : allocate cellSize cellCount heap = .ok (ptr, heap')) :
    ∃ page, allocPages heap.alloc (cellCount * cellSize / pageSize) = .ok (page, heap'.alloc) := by
  obtain ⟨page, alloc, head, allocated, _, _, rfl⟩ := allocate_ok size run
  exact ⟨page, allocPages_ok.mpr allocated⟩

theorem Store.allocate (sound : SoundPages used) (store : Store (used heap.alloc) heap chain owned others)
    (null : (0, 1) ∈ others) (size : (cellSize, cellCount) ∈ cacheSize)
    (run : allocate cellSize cellCount heap = .ok (ptr, heap')) :
    heap'.managers = heap.managers ∧ heap'.caches ptr = freshCache ptr (cellCount * cellSize / pageSize) cellSize ∧
      ptr ∉ heap.allCaches chain ∧ (∀ other, other ≠ ptr → heap'.caches other = heap.caches other) ∧
      (∀ cell, (heap'.caches ptr).inRange cell = false → heap'.head cell = heap.head cell) ∧
      CacheOk heap'.head owned (heap'.caches ptr) ∧
      Store (used heap'.alloc) heap' chain owned ((heap'.caches ptr).block :: others) := by
  obtain ⟨page, alloc, head, allocated, rfl, init, rfl⟩ := allocate_ok size run
  obtain ⟨_, _, whole, some, _, _⟩ := cacheSize_facts _ size
  obtain ⟨below, grown, new⟩ := sound.fresh _ _ _ _ allocated
  dsimp only at whole some
  generalize counted : cellCount * cellSize / pageSize = pageCount at *
  have positive : page ≠ 0 := by
    rintro rfl
    exact (new 0 le_rfl (by omega)).1 (store.held (0, 1) (mem_append_right _ null) 0 le_rfl (by decide))
  have shaped : (freshCache (pageSize * page) pageCount cellSize).Shaped := by
    refine ⟨⟨cellCount, size, whole⟩, Nat.mul_mod_right _ _, ?_, ?_⟩
    · exact Nat.mul_pos (by decide) (Nat.pos_of_ne_zero positive)
    · simp only [freshCache, pageSize_eq]
      omega
  have block : (freshCache (pageSize * page) pageCount cellSize).block = (page, pageCount) := by
    simp only [block, freshCache, Nat.mul_div_cancel_left page (show 0 < pageSize by decide)]
  have held := store.hold (page, pageCount) new grown
  -- The ranges of the caches in use miss the new pages.
  have missed : ∀ c ∈ heap.allCaches chain, ∀ cell, (heap.caches c).inRange cell = true →
      (freshCache (pageSize * page) pageCount cellSize).inRange cell = false := by
    intro c member cell inside
    refine (store.caches c member).shaped.apart_range shaped ?_ inside
    rw [block]
    exact (pairwise_append.mp held.apart).2.2 _ (mem_map.mpr ⟨c, member, rfl⟩) _ mem_cons_self
  have notIn : pageSize * page ∉ heap.allCaches chain := by
    intro member
    have start := store.starts _ member
    have inside := (store.caches _ member).shaped.inRange_start
    rw [start] at inside
    have outside := missed _ member _ inside
    have self := shaped.inRange_start
    simp only [freshCache] at self outside
    rw [self] at outside
    cases outside
  obtain ⟨kept, _⟩ := freshCache_init shaped init
  have fresh : CacheOk head owned (freshCache (pageSize * page) pageCount cellSize) := by
    refine freshCache_ok shaped init fun cell owns => ?_
    obtain ⟨c, member, inside⟩ := store.housed cell owns
    exact missed c member cell inside
  have same : ∀ other ∈ heap.allCaches chain, other ≠ pageSize * page := by
    rintro other member rfl
    exact notIn member
  refine ⟨rfl, update_self _ _ _, notIn, fun other different => update_of_ne different _ _, ?_, ?_, ?_⟩
  · simp only [update_self]
    exact kept
  · simp only [update_self]
    exact fresh
  · simp only [update_self, block]
    refine held.update (fun _ _ => ⟨rfl, rfl⟩) ?_ ?_ store.housed fun _ inUse => inUse
    · intro other member
      simp only [update_of_ne (same other member)]
    · intro other member
      simp only [update_of_ne (same other member)]
      refine (store.caches other member).frame (fun cell inside => kept cell (missed other member cell inside)) ?_
      exact List.Perm.refl _

theorem pageAddress_fresh (sound : SoundPages used) {alloc alloc' : A} {count page : Nat} (positive : 0 < count)
    (allocated : allocPages alloc count = .ok (page, alloc')) : pageAddress page = .ok (pageSize * page) := by
  obtain ⟨below, _⟩ := sound.fresh _ _ _ _ (allocPages_ok.mp allocated)
  refine if_pos ?_
  rw [show pageSize = 2 ^ 12 from rfl]
  omega

theorem CachePage.allocate_error (sound : SoundPages used) {fault : Fault}
    (size : (cellSize, cellCount) ∈ cacheSize) (run : allocate cellSize cellCount heap = .error fault) :
    allocPages heap.alloc (cellCount * cellSize / pageSize) = .error fault := by
  obtain ⟨large, many, whole, some, rounded, offset⟩ := cacheSize_facts _ size
  dsimp only at large many whole some
  simp only [allocate, rounded, ok_bind, offset] at run
  rcases bind_error.mp run with failed | ⟨result, allocated, rest⟩
  · exact failed
  · have free : cellCount * cellSize / pageSize * pageSize / cellSize - 1 ≠ 0 := by
      rw [whole, Nat.mul_div_cancel _ (by omega)]
      omega
    simp only [pageAddress_fresh sound some allocated, ok_bind, init, if_neg free, pure_eq] at rest
    cases rest

end Allocate

end Kernel31.Mcache
