import Kernel31.Mcache.Cache

namespace Kernel31.Mcache

open Page Checked List Function Heap CachePage

variable {ptr other cell : Nat} {cache cache' : CachePage} {A : Type} {inUse inUse' : Nat → Prop} {heap heap' : Heap A}
  {chain owned owned' : List Nat} {others : List (Nat × Nat)}

def Apart (block other : Nat × Nat) : Prop :=
  ∀ page, block.1 ≤ page → page < block.1 + block.2 → ¬ (other.1 ≤ page ∧ page < other.1 + other.2)

theorem Apart.symm {block other : Nat × Nat} (apart : Apart block other) : Apart other block :=
  fun page low high inside => apart page inside.1 inside.2 ⟨low, high⟩

def CachePage.block (cache : CachePage) : Nat × Nat := (cache.pageStart / pageSize, cache.pageCount)

def CachePage.span (cache : CachePage) : Nat × Nat × Nat := (cache.pageStart, cache.pageCount, cache.cellSize)

theorem CachePage.Shaped.inRange_iff (shaped : cache.Shaped) (ptr : Nat) :
    cache.inRange ptr = true ↔ cache.block.1 ≤ ptr / pageSize ∧ ptr / pageSize < cache.block.1 + cache.block.2 := by
  have aligned := shaped.aligned
  simp only [inRange, block, Bool.decide_and, Bool.and_eq_true, decide_eq_true_eq, pageSize_eq] at *
  omega

theorem CachePage.Shaped.apart_range (shaped : cache.Shaped) (shaped' : cache'.Shaped)
    (apart : Apart cache.block cache'.block) (inside : cache.inRange ptr = true) : cache'.inRange ptr = false := by
  rw [Bool.eq_false_iff]
  intro inside'
  obtain ⟨low, high⟩ := (shaped.inRange_iff ptr).mp inside
  exact apart _ low high ((shaped'.inRange_iff ptr).mp inside')

theorem CachePage.span_block (same : cache'.span = cache.span) : cache'.block = cache.block := by
  simp only [span, Prod.mk.injEq] at same
  simp only [block, same]

theorem CachePage.span_inRange (same : cache'.span = cache.span) : cache'.inRange = cache.inRange := by
  simp only [span, Prod.mk.injEq] at same
  funext ptr
  simp only [inRange, same]

theorem CachePage.span_taken (next : Nat) : (cache.taken next).span = cache.span := rfl

theorem CachePage.span_given (cell : Nat) : (cache.given cell).span = cache.span := rfl

def Heap.cachesOf (heap : Heap A) (mgr : Nat) : List Nat := (heap.managers mgr).caches.reduceOption

def Heap.allCaches (heap : Heap A) (chain : List Nat) : List Nat := chain.flatMap heap.cachesOf

def Heap.blocks (heap : Heap A) (chain : List Nat) : List (Nat × Nat) :=
  (heap.allCaches chain).map fun ptr => (heap.caches ptr).block

/-- The caches of `chain` with the cells `owned` taken; their blocks and the `others` are in use and apart. -/
structure Store (inUse : Nat → Prop) (heap : Heap A) (chain owned : List Nat) (others : List (Nat × Nat)) : Prop where
  nodup : chain.Nodup
  slots : ∀ mgr ∈ chain, (heap.managers mgr).caches.length = slotNum
  counted : ∀ mgr ∈ chain, (heap.managers mgr).usedSlots = (heap.cachesOf mgr).length
  starts : ∀ ptr ∈ heap.allCaches chain, (heap.caches ptr).pageStart = ptr
  caches : ∀ ptr ∈ heap.allCaches chain, CacheOk heap.head owned (heap.caches ptr)
  housed : ∀ cell ∈ owned, ∃ ptr ∈ heap.allCaches chain, (heap.caches ptr).inRange cell = true
  apart : (heap.blocks chain ++ others).Pairwise Apart
  held : ∀ block ∈ heap.blocks chain ++ others, ∀ page, block.1 ≤ page → page < block.1 + block.2 → inUse page

theorem mem_allCaches : ptr ∈ heap.allCaches chain ↔ ∃ mgr ∈ chain, ptr ∈ heap.cachesOf mgr :=
  mem_flatMap

theorem Store.mem_blocks (member : ptr ∈ heap.allCaches chain) :
    (heap.caches ptr).block ∈ heap.blocks chain ++ others :=
  mem_append_left _ (mem_map.mpr ⟨ptr, member, rfl⟩)

variable (store : Store inUse heap chain owned others)
include store

theorem Store.caches_apart (member : ptr ∈ heap.allCaches chain) (member' : other ∈ heap.allCaches chain)
    (different : ptr ≠ other) : Apart (heap.caches ptr).block (heap.caches other).block := by
  have pairs := (pairwise_append.mp store.apart).1
  rw [blocks, pairwise_map] at pairs
  have symm : Std.Symm fun ptr other => Apart (heap.caches ptr).block (heap.caches other).block :=
    ⟨fun _ _ apart => Apart.symm apart⟩
  exact pairs.forall member member' different

theorem Store.range_unique (member : ptr ∈ heap.allCaches chain) (member' : other ∈ heap.allCaches chain)
    (inside : (heap.caches ptr).inRange cell = true) (inside' : (heap.caches other).inRange cell = true) : ptr = other := by
  by_contra different
  have outside := (store.caches ptr member).shaped.apart_range (store.caches other member').shaped
    (store.caches_apart member member' different) inside
  rw [inside'] at outside
  cases outside

section

variable (slots : ∀ mgr ∈ chain, (heap'.managers mgr).caches = (heap.managers mgr).caches ∧ (heap'.managers mgr).usedSlots = (heap.managers mgr).usedSlots)
include slots

theorem Store.update (spans : ∀ ptr ∈ heap.allCaches chain, (heap'.caches ptr).span = (heap.caches ptr).span)
    (caches : ∀ ptr ∈ heap.allCaches chain, CacheOk heap'.head owned' (heap'.caches ptr))
    (housed : ∀ cell ∈ owned', ∃ ptr ∈ heap.allCaches chain, (heap.caches ptr).inRange cell = true)
    (used : ∀ page, inUse page → inUse' page) : Store inUse' heap' chain owned' others := by
  have same : ∀ mgr ∈ chain, heap'.cachesOf mgr = heap.cachesOf mgr := by
    intro mgr member
    rw [cachesOf, (slots mgr member).1, cachesOf]
  have all : heap'.allCaches chain = heap.allCaches chain := flatMap_congr same
  have blocks : heap'.blocks chain = heap.blocks chain := by
    rw [blocks, all]
    exact map_congr_left fun ptr member => span_block (spans ptr member)
  refine ⟨store.nodup, ?_, ?_, ?_, ?_, ?_, ?_, ?_⟩
  · intro mgr member
    rw [(slots mgr member).1]
    exact store.slots mgr member
  · intro mgr member
    rw [(slots mgr member).2, same mgr member]
    exact store.counted mgr member
  · rw [all]
    intro ptr member
    have span := spans ptr member
    simp only [CachePage.span, Prod.mk.injEq] at span
    rw [span.1]
    exact store.starts ptr member
  · rw [all]
    exact caches
  · intro cell member
    obtain ⟨ptr, there, inside⟩ := housed cell member
    rw [all]
    exact ⟨ptr, there, by rwa [span_inRange (spans ptr there)]⟩
  · rw [blocks]
    exact store.apart
  · rw [blocks]
    exact fun block member page low high => used page (store.held block member page low high)

theorem Store.congr (head : heap'.head = heap.head) (caches : heap'.caches = heap.caches) :
    Store inUse heap' chain owned others := by
  refine store.update slots (fun ptr _ => by rw [caches]) ?_ store.housed fun _ used => used
  rw [head, caches]
  exact store.caches

end

theorem Store.other_ok (word : Nat) (member : ptr ∈ heap.allCaches chain) (inside : (heap.caches ptr).inRange cell = true)
    (member' : other ∈ heap.allCaches chain) (different : other ≠ ptr)
    (owns : ∀ within : Nat → Bool, within cell = false → (owned'.filter within).Perm (owned.filter within)) :
    CacheOk (Function.update heap.head cell word) owned' (heap.caches other) := by
  have outside := (store.caches ptr member).shaped.apart_range (store.caches other member').shaped
    (store.caches_apart member member' (Ne.symm different)) inside
  refine (store.caches other member').frame ?_ (owns _ outside)
  intro place within
  have elsewhere : place ≠ cell := by
    rintro rfl
    rw [within] at outside
    cases outside
  rw [update_of_ne elsewhere]

theorem Store.take (member : ptr ∈ heap.allCaches chain) (some : (heap.caches ptr).freeCount ≠ 0) (word : Nat) :
    let cell := (heap.caches ptr).freeListHead
    cell ∈ (heap.caches ptr).cells ∧ cell ∉ owned ∧
      Store inUse ((heap.setCache ptr ((heap.caches ptr).taken (heap.head cell))).setHead cell word) chain
        (cell :: owned) others := by
  intro cell
  have ok := store.caches ptr member
  obtain ⟨inCells, unowned, after⟩ := ok.take some word
  have inside := ok.shaped.inRange_of_mem inCells
  refine ⟨inCells, unowned, store.update (fun _ _ => ⟨rfl, rfl⟩) ?_ ?_ ?_ fun _ used => used⟩
  · intro other _
    by_cases same : other = ptr
    · rw [same]
      simp [setCache, setHead, span_taken]
    · simp [setCache, setHead, same]
  · intro other member'
    by_cases same : other = ptr
    · rw [same]
      simpa only [setCache, setHead, update_self] using after
    · simp only [setCache, setHead, update_of_ne same]
      refine store.other_ok word member inside member' same ?_
      intro within outside
      rw [filter_cons_of_neg (by simp [cell, outside])]
  · rw [forall_mem_cons]
    exact ⟨⟨ptr, member, inside⟩, store.housed⟩

theorem Store.give (member : ptr ∈ heap.allCaches chain) (inside : (heap.caches ptr).inRange cell = true)
    (owns : owned.Perm (cell :: owned')) :
    (heap.caches ptr).usedCount ≠ 0 ∧
      Store inUse ((heap.setHead cell (heap.caches ptr).freeListHead).setCache ptr ((heap.caches ptr).given cell)) chain
        owned' others := by
  have ok := store.caches ptr member
  obtain ⟨used, after⟩ := ok.give inside owns
  refine ⟨used, store.update (fun _ _ => ⟨rfl, rfl⟩) ?_ ?_ ?_ fun _ used => used⟩
  · intro other _
    by_cases same : other = ptr
    · rw [same]
      simp [setCache, setHead, span_given]
    · simp [setCache, setHead, same]
  · intro other member'
    by_cases same : other = ptr
    · rw [same]
      simpa only [setCache, setHead, update_self] using after
    · simp only [setCache, setHead, update_of_ne same]
      refine store.other_ok _ member inside member' same ?_
      intro within outside
      have perm := owns.filter within
      rw [filter_cons_of_neg (by simp [outside])] at perm
      exact perm.symm
  · intro place owned
    exact store.housed place (owns.symm.subset (mem_cons_of_mem _ owned))

theorem Store.hold (block : Nat × Nat)
    (new : ∀ page, block.1 ≤ page → page < block.1 + block.2 → ¬ inUse page ∧ inUse' page)
    (used : ∀ page, inUse page → inUse' page) : Store inUse' heap chain owned (block :: others) := by
  have perm : (heap.blocks chain ++ block :: others).Perm (block :: (heap.blocks chain ++ others)) := perm_middle
  refine ⟨store.nodup, store.slots, store.counted, store.starts, store.caches, store.housed, ?_, ?_⟩
  · rw [perm.pairwise_iff Apart.symm, pairwise_cons]
    refine ⟨fun other member page low high inside => ?_, store.apart⟩
    exact (new page low high).1 (store.held other member page inside.1 inside.2)
  · intro other member page low high
    rcases mem_cons.mp (perm.subset member) with rfl | old
    · exact (new page low high).2
    · exact used page (store.held other old page low high)

theorem Store.drop {block : Nat × Nat} {others' : List (Nat × Nat)} (owns : others.Perm (block :: others'))
    (used : ∀ page, inUse page → ¬ (block.1 ≤ page ∧ page < block.1 + block.2) → inUse' page) :
    Store inUse' heap chain owned others' := by
  have perm : (heap.blocks chain ++ others).Perm (block :: (heap.blocks chain ++ others')) :=
    (owns.append_left _).trans perm_middle
  have apart := store.apart
  rw [perm.pairwise_iff Apart.symm, pairwise_cons] at apart
  refine ⟨store.nodup, store.slots, store.counted, store.starts, store.caches, store.housed, apart.2, ?_⟩
  intro other member page low high
  refine used page (store.held other (perm.symm.subset (mem_cons_of_mem _ member)) page low high) ?_
  intro inside
  exact apart.1 other member page inside.1 inside.2 ⟨low, high⟩

end Kernel31.Mcache
