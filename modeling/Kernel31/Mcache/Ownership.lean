import Kernel31.Mcache.Grow

namespace Kernel31.Mcache

open Page Checked Function List CacheManager Heap CachePage

variable {A : Type} {used : A → Nat → Prop} {heap heap' : Heap A} {global self idx ptr : Nat} {mgrs : List Nat}
  {objs others : List (Nat × Nat)}

def managerCell : Nat := 16 * 1024

section Base

/-- The head of an allocated cell, given with its size, is the manager that has its cache. -/
def Heap.Home (heap : Heap A) (chain : List Nat) (obj : Nat × Nat) : Prop :=
  heap.head obj.1 ∈ chain ∧ ∃ ptr ∈ heap.cachesOf (heap.head obj.1),
    (heap.caches ptr).inRange obj.1 = true ∧ (heap.caches ptr).cellSize = obj.2

variable {obj : Nat × Nat} {mgr : Nat}

theorem Heap.Home.frame {chain chain' : List Nat} (home : heap.Home chain obj)
    (head : heap'.head obj.1 = heap.head obj.1) (wider : ∀ mgr ∈ chain, mgr ∈ chain')
    (kept : ∀ mgr ∈ chain, ∀ ptr ∈ heap.cachesOf mgr, (heap.caches ptr).inRange obj.1 = true →
      ptr ∈ heap'.cachesOf mgr ∧ (heap'.caches ptr).span = (heap.caches ptr).span) : heap'.Home chain' obj := by
  obtain ⟨inside, ptr, member, range, size⟩ := home
  obtain ⟨member', span⟩ := kept _ inside ptr member range
  refine ⟨?_, ptr, ?_, ?_, ?_⟩
  · rw [head]
    exact wider _ inside
  · rwa [head]
  · rwa [span_inRange span]
  · simp only [CachePage.span, Prod.mk.injEq] at span
    rw [span.2.2, size]

/-- What holds of the managers, newest first, between any two steps: the cells `objs` are taken, those of the
    managers among them. -/
structure Base (used : A → Nat → Prop) (heap : Heap A) (global : Nat) (mgrs : List Nat)
    (objs others : List (Nat × Nat)) : Prop where
  store : Store (used heap.alloc) heap (mgrs ++ [global]) (objs.map Prod.fst) others
  null : (0, 1) ∈ others
  static : ∃ count, 0 < count ∧ (global / pageSize, count) ∈ others
  address : 0 < global ∧ global < 2 ^ 64
  prevs : PrevLinked heap (mgrs ++ [global])
  homes : ∀ obj ∈ objs, heap.Home (mgrs ++ [global]) obj
  cells : ∀ mgr ∈ mgrs, ∃ cell, mgr = cell + ptrSize ∧ (cell, managerCell) ∈ objs ∧
    (heap.managers mgr).prev = some (heap.head cell)
  partials : ∀ mgr ∈ mgrs ++ [global], ∀ idx next, heap.nexts mgr idx = some next → next ∈ mgrs

variable (base : Base used heap global mgrs objs others)
include base

theorem Base.cell_of_obj (member : obj ∈ objs) :
    ∃ ptr ∈ heap.cachesOf (heap.head obj.1), ptr ∈ heap.allCaches (mgrs ++ [global]) ∧
      obj.1 ∈ (heap.caches ptr).cells ∧ (heap.caches ptr).cellSize = obj.2 := by
  obtain ⟨inside, ptr, slot, range, size⟩ := base.homes obj member
  have there : ptr ∈ heap.allCaches (mgrs ++ [global]) := mem_allCaches.mpr ⟨_, inside, slot⟩
  exact ⟨ptr, slot, there, (base.store.caches ptr there).mem_cells (mem_map.mpr ⟨obj, member, rfl⟩) range, size⟩

theorem Base.bounded (member : mgr ∈ mgrs ++ [global]) : 0 < mgr ∧ mgr < 2 ^ 64 := by
  rcases mem_append.mp member with inside | only
  · obtain ⟨cell, rfl, taken, _⟩ := base.cells mgr inside
    obtain ⟨ptr, _, there, cells, size⟩ := base.cell_of_obj taken
    have shaped := (base.store.caches ptr there).shaped
    have room := (shaped.mem_cells cells).2
    have below := shaped.below
    rw [size, show (cell, managerCell).2 = 16384 from rfl] at room
    rw [show ptrSize = 8 from rfl]
    omega
  · obtain rfl := mem_singleton.mp only
    exact base.address

theorem Base.leadsTo (member : mgr ∈ mgrs ++ [global]) : LeadsTo heap mgr global := by
  intro other same
  exact firstMgr_eq (base.prevs.congr fun m _ => same m) base.store.nodup (fun m inside => (base.bounded inside).2) member

theorem Base.prev_ne_none_iff (member : mgr ∈ mgrs ++ [global]) : (heap.managers mgr).prev ≠ none ↔ mgr ∈ mgrs := by
  constructor
  · intro later
    refine (mem_append.mp member).resolve_right fun only => later ?_
    rw [mem_singleton.mp only]
    exact (Linked.drop base.prevs).2
  · intro inside none
    obtain ⟨_, _, _, prev⟩ := base.cells mgr inside
    rw [none] at prev
    cases prev

theorem Base.join_partials {owner idx i next : Nat} (member : owner ∈ mgrs ++ [global])
    (inside : mgr ∈ mgrs ++ [global]) (some : (heap.joinPartial owner global idx).nexts mgr i = some next) :
    next ∈ mgrs := by
  have first : global ∈ mgrs ++ [global] := mem_concat_self
  rw [nexts_joinPartial] at some
  split at some
  · rename_i enters
    split at some
    · obtain ⟨rfl, _⟩ := nonNull_eq_some.mp some
      exact (base.prev_ne_none_iff member).mp enters.1
    · split at some
      · exact base.partials global first idx next some
      · exact base.partials mgr inside i next some
  · exact base.partials mgr inside i next some

theorem Base.global_apart {cell : Nat} (member : ptr ∈ heap.allCaches (mgrs ++ [global]))
    (inside : cell ∈ (heap.caches ptr).cells) : cell + ptrSize ≠ global := by
  intro same
  obtain ⟨count, positive, block⟩ := base.static
  have shaped := (base.store.caches ptr member).shaped
  have bounds := shaped.mem_cells inside
  have large := shaped.cellSize_pos
  have range : (heap.caches ptr).inRange global = true := by
    simp only [CachePage.inRange, Bool.decide_and, Bool.and_eq_true, decide_eq_true_eq, ← same,
      show ptrSize = 8 from rfl]
    omega
  obtain ⟨low, high⟩ := (shaped.inRange_iff global).mp range
  refine (pairwise_append.mp base.store.apart).2.2 _ (mem_map.mpr ⟨ptr, member, rfl⟩) _ block _ low high ?_
  exact ⟨le_rfl, Nat.lt_add_of_pos_right positive⟩

end Base

section Take

structure Taken (heap heap' : Heap A) (global owner idx ptr : Nat) : Prop extends Quiet heap heap' where
  alloc : heap'.alloc = heap.alloc
  head : heap'.head = update heap.head (heap.caches ptr).freeListHead owner
  page : heap'.caches =
    update heap.caches ptr ((heap.caches ptr).taken (heap.head (heap.caches ptr).freeListHead))
  counts : ∀ mgr i, heap'.counts mgr i =
    if (heap.caches ptr).freeCount - 1 = 0 ∧ mgr = owner ∧ i = idx then heap.counts owner idx - 1 else heap.counts mgr i
  nexts : ∀ mgr i, heap'.nexts mgr i =
    if (heap.caches ptr).freeCount - 1 = 0 ∧ heap.counts owner idx - 1 = 0 ∧ mgr = global ∧ i = idx then
      heap.nexts owner idx
    else heap.nexts mgr i

theorem Heap.takeCell_spec (heap : Heap A) (global self idx ptr : Nat) :
    Taken heap (heap.takeCell global self idx ptr) global self idx ptr := by
  have count : (((heap.setCache ptr ((heap.caches ptr).taken (heap.head (heap.caches ptr).freeListHead))).caches
      ptr).freeCount = 0) = ((heap.caches ptr).freeCount - 1 = 0) := by
    simp only [Heap.setCache, update_self]
    rfl
  unfold Heap.takeCell
  simp only [count]
  by_cases full : (heap.caches ptr).freeCount - 1 = 0
  · simp only [if_pos full]
    have quiet := Quiet.leftPartial
      (heap.setCache ptr ((heap.caches ptr).taken (heap.head (heap.caches ptr).freeListHead))) global self idx
    have parts : ∀ before : Heap A, (before.leftPartial global self idx).alloc = before.alloc ∧
        (before.leftPartial global self idx).head = before.head ∧
        (before.leftPartial global self idx).caches = before.caches := by
      intro before
      unfold Heap.leftPartial
      dsimp only
      split <;> exact ⟨rfl, rfl, rfl⟩
    refine ⟨⟨quiet.caches, quiet.usedSlots, quiet.prev, quiet.next, quiet.nextFree⟩, (parts _).1, ?_, (parts _).2.2, ?_, ?_⟩
    · simp only [Heap.setHead, (parts _).2.1]
      rfl
    · intro mgr i
      simp only [full, true_and]
      exact counts_leftPartial _ global self idx mgr i
    · intro mgr i
      simp only [full, true_and]
      exact nexts_leftPartial _ global self idx mgr i
  · simp only [if_neg full]
    exact ⟨⟨fun _ => rfl, fun _ => rfl, fun _ => rfl, fun _ => rfl, fun _ => rfl⟩, rfl, rfl, rfl,
      fun _ _ => (if_neg fun both => full both.1).symm, fun _ _ => (if_neg fun both => full both.1).symm⟩

theorem Quiet.cachesOf (quiet : Quiet heap heap') (mgr : Nat) : heap'.cachesOf mgr = heap.cachesOf mgr := by
  rw [Heap.cachesOf, quiet.caches, Heap.cachesOf]

theorem Base.take (base : Base used heap global mgrs objs others) (member : self ∈ mgrs ++ [global])
    (slot : ptr ∈ heap.cachesOf self) (some : (heap.caches ptr).freeCount ≠ 0)
    (taken : Taken heap heap' global self idx ptr) :
    Base used heap' global mgrs (((heap.caches ptr).freeListHead, (heap.caches ptr).cellSize) :: objs) others ∧
      (heap.caches ptr).freeListHead ∈ (heap.caches ptr).cells ∧
      (heap.caches ptr).freeListHead ∉ objs.map Prod.fst := by
  have there : ptr ∈ heap.allCaches (mgrs ++ [global]) := mem_allCaches.mpr ⟨self, member, slot⟩
  obtain ⟨inCells, unowned, store⟩ := base.store.take there some self
  have span : ∀ c, (heap'.caches c).span = (heap.caches c).span := by
    intro c
    rw [taken.page, update_apply]
    split
    · rename_i same
      rw [same, CachePage.span_taken]
    · rfl
  have heads : ∀ obj ∈ objs, heap'.head obj.1 = heap.head obj.1 := by
    intro obj owns
    rw [taken.head, update_of_ne]
    rintro same
    exact unowned (mem_map.mpr ⟨obj, owns, same⟩)
  refine ⟨⟨?_, base.null, base.static, base.address, base.prevs.congr fun m _ => taken.prev m, ?_, ?_, ?_⟩, inCells, unowned⟩
  · rw [taken.alloc]
    exact store.congr (fun m _ => ⟨taken.caches m, taken.usedSlots m⟩) taken.head taken.page
  · rw [forall_mem_cons]
    constructor
    · have range := (base.store.caches ptr there).shaped.inRange_of_mem inCells
      simp only [Heap.Home, taken.head, update_self, taken.cachesOf]
      refine ⟨member, ptr, slot, ?_, ?_⟩
      · rwa [span_inRange (span ptr)]
      · have same := span ptr
        simp only [CachePage.span, Prod.mk.injEq] at same
        exact same.2.2
    · intro obj owns
      refine (base.homes obj owns).frame (heads obj owns) (fun _ inside => inside) fun m _ c slot' _ => ⟨?_, span c⟩
      rwa [taken.cachesOf]
  · intro mgr inside
    obtain ⟨cell, place, owns, prev⟩ := base.cells mgr inside
    exact ⟨cell, place, mem_cons_of_mem _ owns, by rw [taken.prev, prev, heads _ owns]⟩
  · intro mgr inside i next
    rw [taken.nexts]
    split
    · exact base.partials self member idx next
    · exact base.partials mgr inside i next

end Take

section Grow

variable [PageAllocator A]
structure Grown (heap heap' : Heap A) (global owner idx ptr cellSize cellCount : Nat) : Prop where
  slot : (heap'.cachesOf owner).Perm (ptr :: heap.cachesOf owner)
  slots : ∀ mgr, mgr ≠ owner → heap'.cachesOf mgr = heap.cachesOf mgr
  page : (heap'.caches ptr).cellSize = cellSize ∧ (heap'.caches ptr).freeCount = cellCount - 2
  pages : ∀ other, other ≠ ptr → heap'.caches other = heap.caches other
  prev : ∀ mgr, (heap'.managers mgr).prev = (heap.managers mgr).prev
  next : ∀ mgr, (heap'.managers mgr).next = (heap.managers mgr).next
  nextFree : ∀ mgr, (heap'.managers mgr).nextFree = (heap.managers mgr).nextFree
  counts : ∀ mgr i, heap'.counts mgr i = if mgr = owner ∧ i = idx then heap.counts owner idx + 1 else heap.counts mgr i
  nexts : ∀ mgr i, heap'.nexts mgr i =
    if (heap.managers owner).prev ≠ none ∧ heap.counts owner idx = 0 then
      if mgr = global ∧ i = idx then nonNull owner
      else if mgr = owner ∧ i = idx then heap.nexts global idx else heap.nexts mgr i
    else heap.nexts mgr i

def Heap.grown (heap : Heap A) (global self idx ptr : Nat) : Heap A :=
  let cell := (heap.caches ptr).freeListHead
  ((heap.setCache ptr ((heap.caches ptr).taken (heap.head cell))).listed global self idx ptr).setHead cell self

omit [PageAllocator A] in
theorem Heap.grown_alloc (heap : Heap A) (global self idx ptr : Nat) :
    (heap.grown global self idx ptr).alloc = heap.alloc :=
  (listed_spec (heap.setCache ptr ((heap.caches ptr).taken (heap.head (heap.caches ptr).freeListHead))) global self
    idx ptr).alloc

section Allocated

variable {after : Heap A} {cellSize cellCount : Nat} (sound : SoundPages used)
  (base : Base used heap global mgrs objs others) (member : self ∈ mgrs ++ [global])
  (room : (heap.managers self).usedSlots ≠ slotNum) (size : (cellSize, cellCount) ∈ cacheSize)
  (allocated : CachePage.allocate cellSize cellCount heap = .ok (ptr, after))
include sound base size allocated

theorem Base.freshCache_of_allocate : after.caches ptr = freshCache ptr (cellCount * cellSize / pageSize) cellSize ∧
    (after.caches ptr).freeCount = cellCount - 1 ∧ (after.caches ptr).freeCount ≠ 0 ∧ 0 < ptr := by
  obtain ⟨_, fresh, _, _, _, ok, _⟩ := base.store.allocate sound base.null size allocated
  obtain ⟨_, many, whole, _, _, _⟩ := cacheSize_facts _ size
  have large := ok.shaped.cellSize_pos
  have positive := ok.shaped.positive
  rw [fresh] at large positive
  have count : (freshCache ptr (cellCount * cellSize / pageSize) cellSize).freeCount = cellCount - 1 := by
    dsimp only [freshCache] at whole large ⊢
    rw [whole, Nat.mul_div_cancel _ (by omega)]
  rw [fresh, count]
  exact ⟨rfl, rfl, by dsimp only at many; omega, positive⟩

include member room
variable (idx)

theorem Base.addCacheAlloc_eq (roomy : self = global ∨ (heap.managers self).usedSlots + 1 ≠ slotNum) (padding : Nat) :
    addCacheAlloc self cellSize cellCount idx padding heap =
      .ok (ptr + cellSize + (padding + ptrSize), after.grown global self idx ptr) := by
  obtain ⟨same, fresh, _⟩ := base.store.allocate sound base.null size allocated
  obtain ⟨_, _, some, positive⟩ := base.freshCache_of_allocate sound size allocated
  have first : LeadsTo after self global := fun other prevs =>
    base.leadsTo member other fun m => by rw [prevs, same]
  rw [Mcache.addCacheAlloc_eq allocated some first, Heap.listCache_eq, Heap.grown, fresh]
  · rfl
  · refine roomy.imp_right fun more => ?_
    obtain ⟨slot, _, added⟩ := addCache_eq (base.store.slots self member)
      (base.store.counted self member) room positive
    simp only [Heap.setCache, same]
    rw [added]
    exact more

theorem Base.grown_spec : Grown heap (after.grown global self idx ptr) global self idx ptr cellSize cellCount := by
  obtain ⟨same, fresh, _, kept, _, ok, set⟩ := base.store.allocate sound base.null size allocated
  obtain ⟨_, count, _, _⟩ := base.freshCache_of_allocate sound size allocated
  have start : (after.caches ptr).pageStart = ptr := by
    rw [fresh]
    rfl
  obtain ⟨_, slot⟩ := set.addCache member (by rwa [same]) start ok
  have listed := listed_spec
    (after.setCache ptr ((after.caches ptr).taken (after.head (after.caches ptr).freeListHead))) global self idx ptr
  have views : ∀ m, (after.grown global self idx ptr).cachesOf m =
      (after.modify self (addCache ptr)).cachesOf m := by
    intro m
    have view := congrArg Prod.fst (listed.view m)
    exact congrArg List.reduceOption view
  have before : ∀ m, after.managers m = heap.managers m := fun m => congrFun same m
  have sameCaches : ∀ m, after.cachesOf m = heap.cachesOf m := fun m => by rw [Heap.cachesOf, before, Heap.cachesOf]
  have sameCounts : ∀ m i, after.counts m i = heap.counts m i := fun m i => by rw [Heap.counts, before, Heap.counts]
  have sameNexts : ∀ m i, after.nexts m i = heap.nexts m i := fun m i => by rw [Heap.nexts, before, Heap.nexts]
  have pages : (after.grown global self idx ptr).caches =
      update after.caches ptr ((after.caches ptr).taken (after.head (after.caches ptr).freeListHead)) := listed.caches
  refine ⟨?_, ?_, ?_, ?_, ?_, ?_, ?_, ?_, ?_⟩
  · rw [views, ← sameCaches]
    exact slot
  · intro m different
    rw [views, ← sameCaches, Heap.cachesOf, Heap.modify_managers, update_of_ne different, Heap.cachesOf]
  · rw [pages, update_self]
    refine ⟨by rw [fresh]; rfl, ?_⟩
    change (after.caches ptr).freeCount - 1 = _
    rw [count]
    rfl
  · intro other different
    rw [pages, update_of_ne different, kept other different]
  · exact fun m => (listed.prev m).trans (by rw [← before]; rfl)
  · exact fun m => (listed.next m).trans (by rw [← before]; rfl)
  · exact fun m => (listed.nextFree m).trans (by rw [← before]; rfl)
  · intro m i
    rw [← sameCounts, ← sameCounts]
    exact listed.counts m i
  · intro m i
    rw [← before self, ← sameCounts, ← sameNexts, ← sameNexts]
    exact listed.nexts m i

theorem Base.grown_store :
    Store (used (after.grown global self idx ptr).alloc) (after.grown global self idx ptr) (mgrs ++ [global])
      ((ptr + cellSize) :: objs.map Prod.fst) others ∧
    ptr + cellSize ∉ objs.map Prod.fst ∧ ptr + cellSize ∈ ((after.grown global self idx ptr).caches ptr).cells ∧
    (after.grown global self idx ptr).head = update after.head (ptr + cellSize) self := by
  obtain ⟨same, fresh, _, _, _, ok, set⟩ := base.store.allocate sound base.null size allocated
  obtain ⟨_, _, some, _⟩ := base.freshCache_of_allocate sound size allocated
  have cell : (after.caches ptr).freeListHead = ptr + cellSize := by
    rw [fresh]
    rfl
  have start : (after.caches ptr).pageStart = ptr := by
    rw [fresh]
    rfl
  obtain ⟨added, slot⟩ := set.addCache member (by rwa [same]) start ok
  have there : ptr ∈ (after.modify self (addCache ptr)).allCaches (mgrs ++ [global]) :=
    mem_allCaches.mpr ⟨self, member, slot.symm.subset mem_cons_self⟩
  obtain ⟨inCells, unowned, store⟩ := added.take there some self
  have listed := listed_spec
    (after.setCache ptr ((after.caches ptr).taken (after.head (after.caches ptr).freeListHead))) global self idx ptr
  have head : (after.grown global self idx ptr).head = update after.head (after.caches ptr).freeListHead self :=
    congrArg (update · _ _) listed.head
  have pages : (after.grown global self idx ptr).caches =
      update after.caches ptr ((after.caches ptr).taken (after.head (after.caches ptr).freeListHead)) := listed.caches
  rw [← cell]
  refine ⟨?_, unowned, ?_, head⟩
  · rw [Heap.grown_alloc]
    exact store.congr (fun m _ => Prod.mk.inj (listed.view m)) head pages
  · rw [pages, update_self]
    exact inCells

theorem Base.grow : Base used (after.grown global self idx ptr) global mgrs ((ptr + cellSize, cellSize) :: objs) others ∧
    (after.grown global self idx ptr).head (ptr + cellSize) = self ∧
    (∀ obj ∈ objs, (after.grown global self idx ptr).head obj.1 = heap.head obj.1) := by
  have grown : Grown heap (after.grown global self idx ptr) global self idx ptr cellSize cellCount :=
    base.grown_spec idx sound member room size allocated
  obtain ⟨store, unowned, inCells, head⟩ : _ ∧ _ ∧ _ ∧ (after.grown global self idx ptr).head = _ :=
    base.grown_store idx sound member room size allocated
  obtain ⟨_, fresh, notIn, _, heads, ok, _⟩ := base.store.allocate sound base.null size allocated
  -- The new cache holds none of the cells that are taken already.
  have outside : ∀ obj ∈ objs, (after.caches ptr).inRange obj.1 = false := by
    have none := ok.used
    rw [show (after.caches ptr).usedCount = 0 by rw [fresh]; rfl, eq_comm, length_eq_zero_iff,
      filter_eq_nil_iff] at none
    exact fun obj owns => Bool.eq_false_iff.mpr (none obj.1 (mem_map.mpr ⟨obj, owns, rfl⟩))
  have old : ∀ obj ∈ objs, (after.grown global self idx ptr).head obj.1 = heap.head obj.1 := by
    intro obj owns
    rw [head, update_of_ne, heads _ (outside obj owns)]
    rintro same
    exact unowned (mem_map.mpr ⟨obj, owns, same⟩)
  have here : (after.grown global self idx ptr).head (ptr + cellSize) = self := by
    rw [head, update_self]
  have slot := grown.slot.symm.subset mem_cons_self
  refine ⟨⟨store, base.null, base.static, base.address, base.prevs.congr fun m _ => grown.prev m, ?_, ?_, ?_⟩, here, old⟩
  · rw [forall_mem_cons]
    constructor
    · have there := mem_allCaches.mpr ⟨self, member, slot⟩
      refine ⟨by rwa [here], ptr, by rwa [here], ?_, grown.page.1⟩
      exact (store.caches ptr there).shaped.inRange_of_mem inCells
    · intro obj owns
      refine (base.homes obj owns).frame (old obj owns) (fun _ inside => inside) fun m inside c slot' _ => ?_
      have different : c ≠ ptr := by
        rintro rfl
        exact notIn (mem_allCaches.mpr ⟨m, inside, slot'⟩)
      rw [grown.pages c different]
      refine ⟨?_, rfl⟩
      by_cases at' : m = self
      · rw [at'] at slot' ⊢
        exact grown.slot.symm.subset (mem_cons_of_mem _ slot')
      · rwa [grown.slots m at']
  · intro mgr inside
    obtain ⟨cell, place, owns, prev⟩ := base.cells mgr inside
    exact ⟨cell, place, mem_cons_of_mem _ owns, by rw [grown.prev, prev, old _ owns]⟩
  · intro mgr inside i next
    rw [grown.nexts, ← nexts_joinPartial]
    exact base.join_partials member inside

end Allocated

end Grow

end Kernel31.Mcache
