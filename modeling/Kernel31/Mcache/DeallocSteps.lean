import Kernel31.Mcache.AllocSteps

namespace Kernel31.Mcache

open Page Checked Function List Heap CachePage
open PageAllocator (freePages)

variable {A : Type} {heap heap' : Heap A} {global self idx ptr cell slot size addr : Nat} {used : A → Nat → Prop}
  {mgrs : List Nat} {objs objs' others : List (Nat × Nat)} {caches : List (Option Nat)}

theorem Quiet.gainPartial (heap : Heap A) (global self idx : Nat) : Quiet heap (heap.gainPartial global self idx) :=
  (Quiet.joinPartial heap self global idx).trans (Quiet.setPartialCount _ self idx _)

theorem counts_gainPartial (heap : Heap A) (global self idx mgr i : Nat) :
    (heap.gainPartial global self idx).counts mgr i =
      if mgr = self ∧ i = idx then heap.counts self idx + 1 else heap.counts mgr i := by
  rw [gainPartial, counts_setPartialCount, counts_joinPartial, ← counts_joinPartial heap self global idx self idx]
  rfl

theorem nexts_gainPartial (heap : Heap A) (global self idx mgr i : Nat) :
    (heap.gainPartial global self idx).nexts mgr i = (heap.joinPartial self global idx).nexts mgr i := by
  rw [gainPartial, nexts_setPartialCount]

def Heap.freedCell (heap : Heap A) (global self idx ptr cell : Nat) : Heap A :=
  ((if (heap.caches ptr).freeCount = 0 then heap.gainPartial global self idx else heap).setHead cell
    (heap.caches ptr).freeListHead).setCache ptr ((heap.caches ptr).given cell)

structure Freed (heap heap' : Heap A) (global owner idx ptr cell : Nat) : Prop extends Quiet heap heap' where
  alloc : heap'.alloc = heap.alloc
  head : heap'.head = update heap.head cell (heap.caches ptr).freeListHead
  page : heap'.caches = update heap.caches ptr ((heap.caches ptr).given cell)
  counts : ∀ mgr i, heap'.counts mgr i =
    if (heap.caches ptr).freeCount = 0 ∧ mgr = owner ∧ i = idx then heap.counts owner idx + 1 else heap.counts mgr i
  nexts : ∀ mgr i, heap'.nexts mgr i =
    if (heap.caches ptr).freeCount = 0 then (heap.joinPartial owner global idx).nexts mgr i else heap.nexts mgr i

theorem gainPartial_parts (heap : Heap A) (global self idx : Nat) :
    (heap.gainPartial global self idx).alloc = heap.alloc ∧ (heap.gainPartial global self idx).head = heap.head ∧
      (heap.gainPartial global self idx).caches = heap.caches := by
  unfold gainPartial
  rcases joinPartial_cases heap self global idx with ⟨_, _, enters⟩ | ⟨_, stays⟩
  · rw [enters]
    exact ⟨rfl, rfl, rfl⟩
  · rw [stays]
    exact ⟨rfl, rfl, rfl⟩

theorem Heap.freedCell_spec (heap : Heap A) (global self idx ptr cell : Nat) :
    Freed heap (heap.freedCell global self idx ptr cell) global self idx ptr cell := by
  unfold freedCell
  by_cases full : (heap.caches ptr).freeCount = 0
  · simp only [if_pos full]
    have quiet := Quiet.gainPartial heap global self idx
    obtain ⟨alloc, head, caches⟩ := gainPartial_parts heap global self idx
    refine ⟨⟨quiet.caches, quiet.usedSlots, quiet.prev, quiet.next, quiet.nextFree⟩, alloc, ?_, ?_, ?_, ?_⟩
    · exact congrArg (update · _ _) head
    · exact congrArg (update · _ _) caches
    · intro mgr i
      simp only [full, true_and]
      exact counts_gainPartial heap global self idx mgr i
    · intro mgr i
      rw [if_pos full]
      exact nexts_gainPartial heap global self idx mgr i
  · simp only [if_neg full]
    exact ⟨⟨fun _ => rfl, fun _ => rfl, fun _ => rfl, fun _ => rfl, fun _ => rfl⟩, rfl, rfl, rfl,
      fun _ _ => (if_neg fun both => full both.1).symm, fun _ _ => (if_neg full).symm⟩

theorem Base.unowned (base : Base used heap global mgrs objs others) (member : ptr ∈ heap.allCaches (mgrs ++ [global]))
    (inside : (heap.caches ptr).inRange cell = true) (owns : objs.Perm ((cell, size) :: objs')) :
    ∀ obj ∈ objs', obj.1 ≠ cell := by
  rintro obj owned rfl
  have nodup := (base.store.caches ptr member).nodup
  have perm := (owns.map Prod.fst).filter (heap.caches ptr).inRange
  rw [map_cons, filter_cons_of_pos inside] at perm
  rw [perm.nodup_iff, nodup_cons] at nodup
  exact nodup.1 (mem_filter.mpr ⟨mem_map.mpr ⟨obj, owned, rfl⟩, inside⟩)

theorem Base.give (base : Base used heap global mgrs objs others) (member : self ∈ mgrs ++ [global])
    (slot : ptr ∈ heap.cachesOf self) (inside : (heap.caches ptr).inRange cell = true)
    (owns : objs.Perm ((cell, size) :: objs')) (kept : ∀ mgr ∈ mgrs, managerObj mgr ∈ objs')
    (freed : Freed heap heap' global self idx ptr cell) : Base used heap' global mgrs objs' others := by
  have there : ptr ∈ heap.allCaches (mgrs ++ [global]) := mem_allCaches.mpr ⟨self, member, slot⟩
  obtain ⟨_, store⟩ := base.store.give there inside (owns.map Prod.fst)
  have heads : ∀ obj ∈ objs', heap'.head obj.1 = heap.head obj.1 := by
    intro obj owned
    rw [freed.head, update_of_ne (base.unowned there inside owns obj owned)]
  refine ⟨?_, base.null, base.static, base.address, base.prevs.congr fun m _ => freed.prev m, ?_, ?_, ?_⟩
  · rw [freed.alloc]
    exact store.congr (fun m _ => ⟨freed.caches m, freed.usedSlots m⟩) freed.head freed.page
  · intro obj owned
    refine (base.homes obj (owns.symm.subset (mem_cons_of_mem _ owned))).frame (heads obj owned)
      (fun _ inside => inside) fun m _ c slot' _ => ⟨?_, ?_⟩
    · rwa [freed.cachesOf]
    · rw [freed.page, update_apply]
      split
      · rename_i same
        rw [same, span_given]
      · rfl
  · intro mgr inside
    obtain ⟨place, rfl, _, prev⟩ := base.cells mgr inside
    have owned : (place, managerCell) ∈ objs' := kept _ inside
    exact ⟨place, rfl, owned, by rw [freed.prev, prev, heads _ owned]⟩
  · intro mgr inside i next some
    rw [freed.nexts] at some
    split at some
    · exact base.join_partials member inside some
    · exact base.partials mgr inside i next some

theorem findSlot_some (found : findSlot heap addr caches = some (slot, ptr)) :
    caches[slot]? = some (some ptr) ∧ (heap.caches ptr).inRange addr = true := by
  obtain ⟨⟨entry, place⟩, member, here⟩ := exists_of_findSome?_eq_some found
  rw [mk_mem_zipIdx_iff_getElem?] at member
  cases entry with
  | none => cases here
  | some cache =>
    dsimp only at here
    split at here
    · rename_i inside
      obtain ⟨rfl, rfl⟩ := Prod.mk.inj (Option.some.inj here)
      exact ⟨member, inside⟩
    · cases here

theorem findSlot_ne_none (member : some ptr ∈ caches) (inside : (heap.caches ptr).inRange addr = true) :
    findSlot heap addr caches ≠ none := by
  intro none
  obtain ⟨place, here⟩ := getElem?_of_mem member
  have absent := findSome?_eq_none_iff.mp none (some ptr, place) (mk_mem_zipIdx_iff_getElem?.mpr here)
  simp only [inside, if_true, reduceCtorEq] at absent

def CacheManager.released (slot idx : Nat) (manager : CacheManager) : CacheManager :=
  ((manager.clearSlot slot).setUsedSlots (manager.usedSlots - 1)).setPartialCount idx (manager.partialCounts idx - 1)

def Heap.released (heap : Heap A) (alloc : A) (self idx slot : Nat) : Heap A :=
  { heap with alloc := alloc }.modify self (CacheManager.released slot idx)

theorem Heap.release_eq [PageAllocator A] (heap : Heap A) (global self idx slot ptr : Nat)
    (roomy : (heap.managers self).prev = none ∨ (heap.managers self).usedSlots ≠ slotNum) :
    heap.release global self idx slot ptr =
      freePages heap.alloc (heap.caches ptr).block.1 (heap.caches ptr).block.2 >>= fun alloc =>
        if (heap.managers self).usedSlots = 0 ∨ heap.counts self idx = 0 then .error .overflow
        else .ok (heap.released alloc self idx slot) := by
  have stays : ¬ ((!((heap.managers self).clearSlot slot).isGlobalAllocator) = true ∧
      ((heap.managers self).clearSlot slot).isSlotsFull = true) := by
    simp only [CacheManager.isGlobalAllocator, CacheManager.isSlotsFull, Bool.not_eq_true', decide_eq_false_iff_not,
      decide_eq_true_eq, not_and]
    intro later
    exact roomy.resolve_left later
  unfold release deallocate
  rw [Nat.shiftRight_eq_div_pow, block]
  change freePages _ ((heap.caches ptr).pageStart / pageSize) _ >>= _ >>= _ = _
  cases freePages heap.alloc ((heap.caches ptr).pageStart / pageSize) (heap.caches ptr).pageCount with
  | error fault => rfl
  | ok alloc =>
    simp only [ok_bind, pure_eq]
    simp only [if_neg stays, released, modify, setManager, update_self, update_idem]
    rfl

structure Released (heap heap' : Heap A) (owner idx ptr : Nat) : Prop where
  slot : (heap.cachesOf owner).Perm (ptr :: heap'.cachesOf owner)
  slots : ∀ mgr, mgr ≠ owner → heap'.cachesOf mgr = heap.cachesOf mgr
  head : heap'.head = heap.head
  caches : heap'.caches = heap.caches
  prev : ∀ mgr, (heap'.managers mgr).prev = (heap.managers mgr).prev
  next : ∀ mgr, (heap'.managers mgr).next = (heap.managers mgr).next
  nextFree : ∀ mgr, (heap'.managers mgr).nextFree = (heap.managers mgr).nextFree
  counts : ∀ mgr i, heap'.counts mgr i = if mgr = owner ∧ i = idx then heap.counts owner idx - 1 else heap.counts mgr i
  nexts : ∀ mgr i, heap'.nexts mgr i = heap.nexts mgr i

theorem Heap.released_spec (heap : Heap A) (alloc : A) (self idx : Nat)
    (here : (heap.managers self).caches[slot]? = some (some ptr)) :
    Released heap (heap.released alloc self idx slot) self idx ptr := by
  have kept {β : Type} (field : CacheManager → β) (same : ∀ manager, field (manager.released slot idx) = field manager) :
      ∀ mgr, field ((heap.released alloc self idx slot).managers mgr) = field (heap.managers mgr) :=
    field_modify field { heap with alloc := alloc } self (CacheManager.released slot idx) same
  have atSelf : (heap.released alloc self idx slot).managers self = (heap.managers self).released slot idx :=
    update_self _ _ _
  have atOther : ∀ mgr, mgr ≠ self → (heap.released alloc self idx slot).managers mgr = heap.managers mgr :=
    fun mgr other => update_of_ne other _ _
  refine ⟨?_, ?_, rfl, rfl, kept _ fun _ => rfl, kept _ fun _ => rfl, kept _ fun _ => rfl, ?_,
    fun mgr i => congrFun (kept CacheManager.nextPartialFree (fun _ => rfl) mgr) i⟩
  · rw [cachesOf, cachesOf, atSelf]
    exact Lists.reduceOption_set_none here
  · intro mgr other
    rw [cachesOf, atOther mgr other, cachesOf]
  · intro mgr i
    by_cases at' : mgr = self
    · rw [at', counts, atSelf]
      simp only [true_and]
      exact update_apply _ _ _ _
    · rw [counts, atOther mgr at', if_neg fun both => at' both.1, counts]

theorem Base.release [PageAllocator A] (idx : Nat) (sound : SoundPages used)
    (base : Base used heap global mgrs objs others)
    (member : self ∈ mgrs ++ [global]) (here : (heap.managers self).caches[slot]? = some (some ptr))
    (empty : (heap.caches ptr).usedCount = 0) {alloc : A}
    (freed : freePages heap.alloc (heap.caches ptr).block.1 (heap.caches ptr).block.2 = .ok alloc) :
    Base used (heap.released alloc self idx slot) global mgrs objs others := by
  have released := heap.released_spec alloc self idx here
  have there : ptr ∈ heap.allCaches (mgrs ++ [global]) :=
    mem_allCaches.mpr ⟨self, member, released.slot.symm.subset mem_cons_self⟩
  obtain ⟨store, _⟩ : Store (used alloc) (heap.setManager self ((heap.managers self).released slot idx)) (mgrs ++ [global])
      (objs.map Prod.fst) others ∧ _ :=
    base.store.release member here empty rfl rfl fun page inUse outside => sound.freed _ _ _ _ freed page inUse outside
  -- No taken cell is in the cache.
  have outside : ∀ obj ∈ objs, (heap.caches ptr).inRange obj.1 = false := by
    have none := (base.store.caches ptr there).used
    rw [empty, eq_comm, length_eq_zero_iff, filter_eq_nil_iff] at none
    exact fun obj owns => Bool.eq_false_iff.mpr (none obj.1 (mem_map.mpr ⟨obj, owns, rfl⟩))
  refine ⟨store.congr (fun _ _ => ⟨rfl, rfl⟩) rfl rfl, base.null, base.static, base.address,
    base.prevs.congr fun m _ => released.prev m, ?_, ?_, ?_⟩
  · intro obj owns
    refine (base.homes obj owns).frame rfl (fun _ inside => inside) fun m _ c slot' range => ⟨?_, rfl⟩
    by_cases at' : m = self
    · rw [at'] at slot' ⊢
      refine (mem_cons.mp (released.slot.subset slot')).resolve_left ?_
      rintro rfl
      rw [outside obj owns] at range
      cases range
    · rwa [released.slots m at']
  · intro mgr inside
    obtain ⟨cell, place, owns, prev⟩ := base.cells mgr inside
    exact ⟨cell, place, owns, by rw [released.prev, prev, released.head]⟩
  · intro mgr inside i next
    rw [released.nexts]
    exact base.partials mgr inside i next

theorem Base.busy (base : Base used heap global mgrs objs others) (member : self ∈ mgrs ++ [global])
    (older : (mgrs ++ [global]).head? ≠ some self) : (heap.managers self).usedSlots ≠ 0 := by
  obtain ⟨after, inside, prev⟩ := Linked.exists_before base.prevs member older
  have later : after ∈ mgrs := (base.prev_ne_none_iff inside).mp (by rw [prev]; exact Option.some_ne_none _)
  obtain ⟨place, _, owns, owner⟩ := base.cells after later
  rw [prev, Option.some.injEq] at owner
  obtain ⟨c, slot, _⟩ := base.cell_of_obj owns
  rw [← owner] at slot
  rw [base.store.counted self member]
  exact (length_pos_of_mem slot).ne'

theorem freeObj_eq (heap : Heap A) (global self idx ptr cell : Nat) (some : (heap.caches ptr).usedCount ≠ 0) :
    (if (heap.caches ptr).freeCount = 0 then heap.gainPartial global self idx else heap).freeObj ptr cell =
      .ok (heap.freedCell global self idx ptr cell) := by
  have same : (if (heap.caches ptr).freeCount = 0 then heap.gainPartial global self idx else heap).caches = heap.caches := by
    split
    · exact (gainPartial_parts heap global self idx).2.2
    · rfl
  rw [freeObj, same, if_neg some]
  rfl

variable {cellSize cellCount : Nat} {layout : Layout}

theorem Base.findSlot_eq (base : Base used heap global mgrs objs others) {header : Nat}
    (owns : (addr - header, cellSize) ∈ objs) (low : header ≤ addr) (fits : header + size ≤ cellSize)
    (positive : 0 < size) :
    ∃ slot ptr, findSlot heap addr (heap.managers (heap.head (addr - header))).caches = some (slot, ptr) ∧
      (heap.managers (heap.head (addr - header))).caches[slot]? = some (some ptr) ∧
      ptr ∈ heap.cachesOf (heap.head (addr - header)) ∧ (heap.caches ptr).inRange (addr - header) = true ∧
      (heap.caches ptr).cellSize = cellSize := by
  obtain ⟨ptr, slot, there, cells, same⟩ := base.cell_of_obj owns
  have shaped := (base.store.caches ptr there).shaped
  have inside : (heap.caches ptr).inRange addr = true := by
    have bounds := shaped.mem_cells cells
    have size := same
    simp only [inRange, Bool.decide_and, Bool.and_eq_true, decide_eq_true_eq] at bounds size ⊢
    omega
  have member : some ptr ∈ (heap.managers (heap.head (addr - header))).caches := reduceOption_mem_iff.mp slot
  obtain ⟨⟨place, other⟩, found⟩ := Option.ne_none_iff_exists'.mp (findSlot_ne_none member inside)
  obtain ⟨here, inside'⟩ := findSlot_some found
  have slot' : other ∈ heap.cachesOf (heap.head (addr - header)) :=
    reduceOption_mem_iff.mpr (mem_of_getElem? here)
  have there' := mem_allCaches.mpr ⟨_, (base.homes _ owns).1, slot'⟩
  obtain rfl := base.store.range_unique there there' inside inside'
  exact ⟨place, ptr, found, here, slot, shaped.inRange_of_mem cells, same⟩

/-- A manager with caches keeps the one with its successor's cell, so that the branch that frees it is not taken. -/
theorem Inv.dealloc_eq [PageAllocator A] (sound : SoundPages used) (inv : Inv used heap global mgrs objs others)
    (cls : sizeToClass (layout.size + headerSize layout) = some ((cellSize, cellCount), idx))
    (low : headerSize layout ≤ addr) (owns : objs.Perm ((addr - headerSize layout, cellSize) :: objs'))
    (kept : ∀ mgr ∈ mgrs, managerObj mgr ∈ objs') (depth : Nat) :
    ∃ owner ∈ mgrs ++ [global], owner = heap.head (addr - headerSize layout) ∧ ∃ slot ptr,
      (heap.managers owner).caches[slot]? = some (some ptr) ∧
      (heap.caches ptr).inRange (addr - headerSize layout) = true ∧ (heap.caches ptr).cellSize = cellSize ∧
      dealloc (depth + 1) global addr layout heap =
        if (heap.caches ptr).usedCount = 1 then
          freePages heap.alloc (heap.caches ptr).block.1 (heap.caches ptr).block.2 >>= fun alloc =>
            if (heap.freedCell global owner idx ptr (addr - headerSize layout)).counts owner idx = 0 then .error .overflow
            else .ok ((heap.freedCell global owner idx ptr (addr - headerSize layout)).released alloc owner idx slot)
        else .ok (heap.freedCell global owner idx ptr (addr - headerSize layout)) := by
  have first : global ∈ mgrs ++ [global] := mem_concat_self
  have mem := owns.symm.subset mem_cons_self
  obtain ⟨slot, ptr, found, here, inSlot, inside, size⟩ := inv.toBase.findSlot_eq mem low
    (by have large := (sizeToClass_some cls).2; omega) layout.positive
  have member := (inv.homes _ mem).1
  have there := mem_allCaches.mpr ⟨_, member, inSlot⟩
  obtain ⟨some, _⟩ := inv.store.give there inside (owns.map Prod.fst)
  have spec := heap.freedCell_spec global (heap.head (addr - headerSize layout)) idx ptr (addr - headerSize layout)
  have base := inv.toBase.give member inSlot inside owns kept spec
  refine ⟨_, member, rfl, slot, ptr, here, inside, size, ?_⟩
  rw [dealloc]
  simp only [inv.leadsTo first heap fun _ => rfl, ok_bind, cls, found, freeObj_eq heap _ _ _ _ _ some]
  have older := inv.older_of_slot inSlot
  have few := inv.few (heap.head (addr - headerSize layout))
  generalize heap.head (addr - headerSize layout) = owner at *
  have left : ((heap.freedCell global owner idx ptr (addr - headerSize layout)).caches ptr).usedCount =
      (heap.caches ptr).usedCount - 1 := by
    rw [spec.page, update_self]
    rfl
  by_cases last : (heap.caches ptr).usedCount = 1
  · have empty : ((heap.freedCell global owner idx ptr (addr - headerSize layout)).caches ptr).usedCount = 0 := by omega
    have same : ((heap.freedCell global owner idx ptr (addr - headerSize layout)).caches ptr).block =
        (heap.caches ptr).block := by
      rw [spec.page, update_self]
      rfl
    have roomy : ((heap.freedCell global owner idx ptr (addr - headerSize layout)).managers owner).prev = none ∨
        ((heap.freedCell global owner idx ptr (addr - headerSize layout)).managers owner).usedSlots ≠ slotNum := by
      rw [spec.prev, spec.usedSlots, inv.store.counted owner member]
      by_cases later : (heap.managers owner).prev = none
      · exact .inl later
      · right
        have bound := few ((inv.prev_ne_none_iff member).mp later)
        rw [show slotNum = 1024 from rfl]
        omega
    have slots : ((heap.freedCell global owner idx ptr (addr - headerSize layout)).managers owner).usedSlots ≠ 0 := by
      rw [spec.usedSlots, inv.store.counted owner member]
      exact (length_pos_of_mem inSlot).ne'
    rw [if_pos empty, if_pos last, release_eq _ _ _ _ _ _ roomy, same, spec.alloc]
    simp only [slots, false_or]
    cases freed : freePages heap.alloc (heap.caches ptr).block.1 (heap.caches ptr).block.2 with
    | error fault => rfl
    | ok alloc =>
      rw [ok_bind]
      split
      · rfl
      · -- The cache with the successor's cell is still there: the manager is not freed.
        have after := base.release idx sound member (by rwa [spec.caches]) empty (by rwa [same, spec.alloc])
        have busy := after.busy member older
        rw [ok_bind]
        split
        · exact if_neg busy
        · rfl
  · have more : ((heap.freedCell global owner idx ptr (addr - headerSize layout)).caches ptr).usedCount ≠ 0 := by omega
    rw [if_neg more, if_neg last, pure_eq]

/-- The ways `dealloc` ends for a cell of the cache `ptr` in a slot of the manager `owner`. -/
inductive DeallocOutcome [PageAllocator A] (heap : Heap A) (global owner idx slot ptr cell : Nat) : Heap A → Prop
  | kept (more : (heap.caches ptr).usedCount ≠ 1) :
      DeallocOutcome heap global owner idx slot ptr cell (heap.freedCell global owner idx ptr cell)
  | released (last : (heap.caches ptr).usedCount = 1)
      (counted : (heap.freedCell global owner idx ptr cell).counts owner idx ≠ 0) (alloc : A)
      (freed : freePages heap.alloc (heap.caches ptr).block.1 (heap.caches ptr).block.2 = .ok alloc) :
      DeallocOutcome heap global owner idx slot ptr cell
        ((heap.freedCell global owner idx ptr cell).released alloc owner idx slot)

theorem Inv.dealloc_outcome [PageAllocator A] (sound : SoundPages used)
    (inv : Inv used heap global mgrs objs others) {depth : Nat}
    (cls : sizeToClass (layout.size + headerSize layout) = some ((cellSize, cellCount), idx))
    (low : headerSize layout ≤ addr) (owns : objs.Perm ((addr - headerSize layout, cellSize) :: objs'))
    (kept : ∀ mgr ∈ mgrs, managerObj mgr ∈ objs')
    (run : dealloc (depth + 1) global addr layout heap = .ok heap') :
    ∃ owner ∈ mgrs ++ [global], owner = heap.head (addr - headerSize layout) ∧ ∃ slot ptr,
      (heap.managers owner).caches[slot]? = some (some ptr) ∧
      (heap.caches ptr).inRange (addr - headerSize layout) = true ∧ (heap.caches ptr).cellSize = cellSize ∧
      DeallocOutcome heap global owner idx slot ptr (addr - headerSize layout) heap' := by
  obtain ⟨owner, member, place, slot, ptr, here, inside, size, same⟩ := inv.dealloc_eq sound cls low owns kept depth
  refine ⟨owner, member, place, slot, ptr, here, inside, size, ?_⟩
  rw [same] at run
  split at run
  · rename_i last
    obtain ⟨alloc, freed, next⟩ := bind_ok.mp run
    split at next
    · cases next
    · rename_i counted
      obtain rfl := Except.ok.inj next
      exact .released last counted alloc freed
  · rename_i more
    obtain rfl := Except.ok.inj run
    exact .kept more

theorem DeallocOutcome.inv [PageAllocator A] (sound : SoundPages used)
    (inv : Inv used heap global mgrs objs others) (member : self ∈ mgrs ++ [global])
    (here : (heap.managers self).caches[slot]? = some (some ptr))
    (inside : (heap.caches ptr).inRange cell = true) (owns : objs.Perm ((cell, size) :: objs'))
    (kept : ∀ mgr ∈ mgrs, managerObj mgr ∈ objs')
    (outcome : DeallocOutcome heap global self idx slot ptr cell heap') :
    Inv used heap' global mgrs objs' others := by
  have spec := heap.freedCell_spec global self idx ptr cell
  have inSlot : ptr ∈ heap.cachesOf self := reduceOption_mem_iff.mpr (mem_of_getElem? here)
  have base := inv.toBase.give member inSlot inside owns kept spec
  have older := inv.older_of_slot inSlot
  have freed : Inv used (heap.freedCell global self idx ptr cell) global mgrs objs' others := by
    refine inv.keep base spec.next spec.nextFree older (fun mgr _ => spec.cachesOf mgr) ?_ ?_
    · intro mgr i other
      rw [spec.counts, if_neg fun both => other both.2.1]
    · intro later
      rw [spec.cachesOf]
      exact inv.few self later
  cases outcome with
  | kept more => exact freed
  | released last counted alloc given =>
    have page : (heap.freedCell global self idx ptr cell).caches ptr = (heap.caches ptr).given cell := by
      rw [spec.page, update_self]
    have here' : ((heap.freedCell global self idx ptr cell).managers self).caches[slot]? = some (some ptr) := by
      rwa [spec.caches]
    have released := (heap.freedCell global self idx ptr cell).released_spec alloc self idx here'
    have empty : ((heap.freedCell global self idx ptr cell).caches ptr).usedCount = 0 := by
      rw [page]
      exact Nat.sub_eq_zero_of_le last.le
    have after := base.release idx sound member here' empty (by rw [page, spec.alloc]; exact given)
    refine freed.keep after released.next released.nextFree older released.slots ?_ ?_
    · intro mgr i other
      rw [released.counts, if_neg fun both => other both.1]
    · intro later
      have length := released.slot.length_eq
      have few := freed.few self later
      rw [length_cons] at length
      omega

end Kernel31.Mcache
