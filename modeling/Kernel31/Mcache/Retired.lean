import Kernel31.Mcache.Growth

namespace Kernel31.Mcache

open Page Checked Function Relation List Heap CachePage

variable {A : Type} {used : A → Nat → Prop} {heap heap' : Heap A} {global ptr owner new idx c depth : Nat}
  {mgrs mgrs' : List Nat} {objs objs' others others' : List (Nat × Nat)} {live live' : List (Nat × Layout)}
  {layout : Layout} {world world' : World A} {call : Call}

def Heap.placedIn (heap : Heap A) (mgr : Nat) (object : Nat × Layout) : Bool :=
  (objectClass object.2).isSome ∧ heap.head (object.1 - headerSize object.2) = mgr

def World.objectsIn (world : World A) (mgr : Nat) : List (Nat × Layout) := world.live.filter (world.heap.placedIn mgr)

theorem Inv.head_eq (inv : Inv used heap global mgrs objs others) (inv' : Inv used heap' global mgrs' objs' others')
    (wider : ∀ mgr ∈ mgrs ++ [global], mgr ∈ mgrs' ++ [global])
    (kept : ∀ mgr ∈ mgrs ++ [global], ∀ c ∈ heap.cachesOf mgr,
      c ∈ heap'.cachesOf mgr ∧ (heap'.caches c).span = (heap.caches c).span)
    {obj : Nat × Nat} (owns : obj ∈ objs) (owns' : obj ∈ objs') : heap'.head obj.1 = heap.head obj.1 := by
  obtain ⟨inside, c, slot, range, _⟩ := inv.homes obj owns
  obtain ⟨inside', c', slot', range', _⟩ := inv'.homes obj owns'
  obtain ⟨stays, span⟩ := kept _ inside c slot
  rw [← span_inRange span] at range
  have member := wider _ inside
  obtain rfl := inv'.store.range_unique (mem_allCaches.mpr ⟨_, member, stays⟩) (mem_allCaches.mpr ⟨_, inside', slot'⟩)
    range range'
  by_contra different
  exact inv'.store.not_mem_cachesOf member stays inside' different slot'

theorem cellOf_small (object : Nat × Layout) (small : (objectClass object.2).isSome = true) :
    ∃ size, cellOf object = some (object.1 - headerSize object.2, size) := by
  obtain ⟨entry, cls⟩ := Option.isSome_iff_exists.mp small
  exact ⟨entry.1.1, by rw [cellOf, cls]; rfl⟩

theorem filter_placedIn_congr {objects : List (Nat × Layout)} (mgr : Nat)
    (same : ∀ object ∈ objects, ∀ cell, cellOf object = some cell → heap'.head cell.1 = heap.head cell.1) :
    objects.filter (heap'.placedIn mgr) = objects.filter (heap.placedIn mgr) := by
  refine filter_congr fun object member => ?_
  rw [placedIn, placedIn, decide_eq_decide]
  refine and_congr_right fun small => ?_
  obtain ⟨size, cell⟩ := cellOf_small object small
  rw [same object member _ cell]

section Busy

def Heap.Busy (heap : Heap A) (chain : List Nat) : Prop := ∀ c ∈ heap.allCaches chain, (heap.caches c).usedCount ≠ 0

theorem Base.used_ne_zero_iff (base : Base used heap global mgrs objs others) (member : c ∈ heap.allCaches (mgrs ++ [global])) :
    (heap.caches c).usedCount ≠ 0 ↔ ∃ obj ∈ objs, (heap.caches c).inRange obj.1 = true := by
  rw [(base.store.caches c member).used, ← Nat.pos_iff_ne_zero, length_pos_iff_exists_mem]
  simp only [mem_filter, mem_map]
  constructor
  · rintro ⟨_, ⟨obj, owns, rfl⟩, inside⟩
    exact ⟨obj, owns, inside⟩
  · rintro ⟨obj, owns, inside⟩
    exact ⟨obj.1, ⟨obj, owns, rfl⟩, inside⟩

theorem Taken.busy (taken : Taken heap heap' global owner idx c) {chain : List Nat} (busy : heap.Busy chain) :
    heap'.Busy chain := by
  intro other member
  obtain ⟨mgr, inside, slot⟩ := mem_allCaches.mp member
  rw [taken.cachesOf] at slot
  rw [taken.page, update_apply]
  split
  · exact Nat.succ_ne_zero _
  · exact busy other (mem_allCaches.mpr ⟨mgr, inside, slot⟩)

theorem Extended.busy (inv : Inv used heap' global (new :: mgrs) objs others)
    (newest : (mgrs ++ [global]).head? = some owner) (extended : Extended heap heap' global owner new c)
    (busy : heap.Busy (mgrs ++ [global])) : heap'.Busy (new :: mgrs ++ [global]) := by
  have member : owner ∈ new :: mgrs ++ [global] := mem_cons_of_mem _ (mem_of_mem_head? newest)
  have slot : c ∈ heap'.cachesOf owner := by
    rw [extended.slot]
    exact mem_singleton_self c
  intro other there
  obtain ⟨mgr, inside, slot'⟩ := mem_allCaches.mp there
  have different : mgr ≠ new := by
    rintro rfl
    rw [(inv.spare mgr rfl).1] at slot'
    cases slot'
  have inside' : mgr ∈ mgrs ++ [global] := (mem_cons.mp inside).resolve_left different
  by_cases at' : mgr = owner
  · rw [at', extended.slot, mem_singleton] at slot'
    rw [slot', inv.toBase.used_ne_zero_iff (slot' ▸ there)]
    obtain ⟨cell, _, owns, prev⟩ := inv.cells new mem_cons_self
    have next : (heap'.managers new).prev = some owner := (inv.prevs.2.start_eq).trans newest
    rw [next, Option.some.injEq] at prev
    obtain ⟨_, ptr, place, range, _⟩ := inv.homes _ owns
    rw [← prev, extended.slot, mem_singleton] at place
    exact ⟨_, owns, place ▸ range⟩
  · rw [extended.pages other]
    · rw [extended.slots mgr at' different] at slot'
      exact busy other (mem_allCaches.mpr ⟨mgr, inside', slot'⟩)
    · rintro rfl
      exact inv.store.not_mem_cachesOf member slot inside at' slot'

variable [PageAllocator A]

theorem Base.grow_busy (sound : SoundPages used) (base : Base used heap global mgrs objs others) {cellSize cellCount : Nat}
    {after : Heap A} (member : owner ∈ mgrs ++ [global]) (room : (heap.managers owner).usedSlots ≠ slotNum)
    (size : (cellSize, cellCount) ∈ cacheSize) (idx : Nat)
    (allocated : allocate cellSize cellCount heap = .ok (c, after)) (busy : heap.Busy (mgrs ++ [global])) :
    (after.grown global owner idx c).Busy (mgrs ++ [global]) := by
  have grown := base.grown_spec idx sound member room size allocated
  obtain ⟨grownBase, _⟩ := base.grow idx sound member room size allocated
  obtain ⟨_, _, inCells, _⟩ := base.grown_store idx sound member room size allocated
  intro other there
  obtain ⟨mgr, inside, slot⟩ := mem_allCaches.mp there
  by_cases new : other = c
  · rw [new] at there ⊢
    rw [grownBase.used_ne_zero_iff there]
    exact ⟨_, mem_cons_self, (grownBase.store.caches c there).shaped.inRange_of_mem inCells⟩
  · rw [grown.pages other new]
    refine busy other (mem_allCaches.mpr ⟨mgr, inside, ?_⟩)
    by_cases at' : mgr = owner
    · rw [at'] at slot ⊢
      exact (mem_cons.mp (grown.slot.subset slot)).resolve_left new
    · rwa [← grown.slots mgr at']

theorem DeallocOutcome.busy {slot cell : Nat} (base : Base used heap global mgrs objs others)
    (member : owner ∈ mgrs ++ [global]) (here : (heap.managers owner).caches[slot]? = some (some ptr))
    (outcome : DeallocOutcome heap global owner idx slot ptr cell heap') (busy : heap.Busy (mgrs ++ [global])) :
    heap'.Busy (mgrs ++ [global]) := by
  have spec := heap.freedCell_spec global owner idx ptr cell
  have others : ∀ c, c ≠ ptr → (heap.freedCell global owner idx ptr cell).caches c = heap.caches c := fun c different => by
    rw [spec.page, update_of_ne different]
  cases outcome with
  | kept more =>
    intro c there
    obtain ⟨mgr, inside, slot'⟩ := mem_allCaches.mp there
    rw [spec.cachesOf] at slot'
    have before := busy c (mem_allCaches.mpr ⟨mgr, inside, slot'⟩)
    by_cases same : c = ptr
    · rw [same] at before ⊢
      rw [spec.page, update_self]
      change (heap.caches ptr).usedCount - 1 ≠ 0
      omega
    · rwa [others c same]
  | released last counted alloc freed =>
    have here' : ((heap.freedCell global owner idx ptr cell).managers owner).caches[slot]? = some (some ptr) := by
      rwa [spec.caches]
    have released := (heap.freedCell global owner idx ptr cell).released_spec alloc owner idx here'
    have inSlot : ptr ∈ heap.cachesOf owner := reduceOption_mem_iff.mpr (mem_of_getElem? here)
    have nodup := base.store.cachesOf_nodup member
    rw [← spec.cachesOf, released.slot.nodup_iff, nodup_cons] at nodup
    intro c there
    obtain ⟨mgr, inside, slot'⟩ := mem_allCaches.mp there
    by_cases at' : mgr = owner
    · rw [at'] at slot'
      have different : c ≠ ptr := by
        rintro rfl
        exact nodup.1 slot'
      rw [released.caches, others c different]
      refine busy c (mem_allCaches.mpr ⟨owner, member, ?_⟩)
      rw [← spec.cachesOf]
      exact released.slot.symm.subset (mem_cons_of_mem _ slot')
    · rw [released.slots mgr at', spec.cachesOf] at slot'
      have different : c ≠ ptr := by
        rintro rfl
        exact base.store.not_mem_cachesOf member inSlot inside at' slot'
      rw [released.caches, others c different]
      exact busy c (mem_allCaches.mpr ⟨mgr, inside, slot'⟩)

end Busy

section Counts

variable [PageAllocator A]
omit [PageAllocator A] in
theorem WorldOk.cell_mem (ok : WorldOk used global ⟨heap, live⟩ mgrs objs others) {object : Nat × Layout} {cell : Nat × Nat}
    (member : object ∈ live) (here : cellOf object = some cell) : cell ∈ objs :=
  ok.owned.symm.subset (mem_append_left _ (mem_filterMap.mpr ⟨object, member, here⟩))

theorem AllocOutcome.places (sound : SoundPages used) (inv : Inv used heap global mgrs objs others)
    {cellSize cellCount header : Nat} (size : (cellSize, cellCount) ∈ cacheSize)
    (outcome : AllocOutcome used heap global mgrs objs others cellSize cellCount idx header (.ok (ptr, heap'))) :
    ∃ news objs', Inv used heap' global (news ++ mgrs) objs' others ∧
      (heap.Busy (mgrs ++ [global]) → heap'.Busy (news ++ mgrs ++ [global])) ∧
      (news = [] ∨ ∃ new, news = [new] ∧ (mgrs ++ [global]).head? = some (heap'.head (ptr - header))) := by
  cases outcome with
  | taken mgr c member found which =>
    obtain ⟨_, slot, _, free⟩ := partialCache_some found
    have spec := heap.takeCell_spec global mgr idx c
    exact ⟨[], _, inv.take member slot free spec, spec.busy, .inl rfl⟩
  | grown mgr news prepared c after which grower prep allocated =>
    obtain ⟨_, here, _⟩ : _ ∧ (after.grown global mgr idx c).head (c + cellSize) = mgr ∧ _ :=
      prep.inv.toBase.grow idx sound prep.member prep.room size allocated
    refine ⟨news, _, prep.inv.grow sound prep.member prep.older prep.room prep.few size idx allocated, fun busy => ?_, ?_⟩
    · refine prep.inv.toBase.grow_busy sound prep.member prep.room size idx allocated ?_
      have inv' := prep.inv
      rcases prep.how with ⟨rfl, rfl⟩ | ⟨new, _, rfl, newest, extended⟩
      · exact busy
      · exact extended.busy inv' newest busy
    · rw [Nat.add_sub_cancel, here]
      rcases prep.how with ⟨_, none⟩ | ⟨new, _, one, newest, _⟩
      · exact .inl none
      · exact .inr ⟨new, one, newest⟩

theorem WorldOk.objectsIn_alloc (sound : SoundPages used) (ok : WorldOk used global ⟨heap, live⟩ mgrs objs others)
    {entry : (Nat × Nat) × Nat} (cls : objectClass layout = some entry)
    (run : alloc (depth + 2) global layout heap = .ok (ptr, heap')) (mgr : Nat) :
    ((⟨heap', (ptr, layout) :: live⟩ : World A).objectsIn mgr).length =
      ((⟨heap, live⟩ : World A).objectsIn mgr).length + if heap'.head (ptr - headerSize layout) = mgr then 1 else 0 := by
  obtain ⟨mgrs', objs', after⟩ := ok.alloc_small sound cls run
  have outcome := ok.toInv.alloc_outcome sound cls depth
  rw [run] at outcome
  have size := mem_of_getElem? (sizeToClass_some cls).1
  have same : live.filter (heap'.placedIn mgr) = live.filter (heap.placedIn mgr) := by
    refine filter_placedIn_congr mgr fun object member cell here => ?_
    refine ok.toInv.head_eq after.toInv (fun m inside => ?_)
      (fun m inside c slot => outcome.keeps sound ok.toInv size inside slot)
      (ok.cell_mem member here) (after.cell_mem (mem_cons_of_mem _ member) here)
    obtain ⟨news, _, inv, _, _⟩ := outcome.places sound ok.toInv size
    obtain rfl := inv.mgrs_unique after.toInv
    rw [append_assoc]
    exact mem_append_right _ inside
  simp only [World.objectsIn, filter_cons, placedIn, cls, Option.isSome_some, true_and, decide_eq_true_eq] at same ⊢
  split
  · rw [length_cons, same]
  · rw [same, Nat.add_zero]

theorem WorldOk.objectsIn_dealloc (sound : SoundPages used) (ok : WorldOk used global ⟨heap, live⟩ mgrs objs others)
    (owns : live.Perm ((ptr, layout) :: live')) {entry : (Nat × Nat) × Nat} (cls : objectClass layout = some entry)
    (run : dealloc (depth + 1) global ptr layout heap = .ok heap') (mgr : Nat) :
    ((⟨heap, live⟩ : World A).objectsIn mgr).length =
      ((⟨heap', live'⟩ : World A).objectsIn mgr).length + if heap.head (ptr - headerSize layout) = mgr then 1 else 0 := by
  obtain ⟨taken, owner, member, _, slot, c, here, inside, _, outcome⟩ := ok.dealloc_outcome sound owns cls run
  have inSlot : c ∈ heap.cachesOf owner := reduceOption_mem_iff.mpr (mem_of_getElem? here)
  have there := mem_allCaches.mpr ⟨owner, member, inSlot⟩
  have spec := heap.freedCell_spec global owner entry.2 c (ptr - headerSize layout)
  have head : heap'.head = update heap.head (ptr - headerSize layout) (heap.caches c).freeListHead := by
    cases outcome with
    | kept more => exact spec.head
    | released last counted alloc freed =>
      exact ((heap.freedCell global owner entry.2 c (ptr - headerSize layout)).released_spec alloc owner entry.2
        (by rwa [spec.caches])).head.trans spec.head
  have same : live'.filter (heap'.placedIn mgr) = live'.filter (heap.placedIn mgr) := by
    refine filter_placedIn_congr mgr fun object stays cell at' => ?_
    have owned : cell ∈ live'.filterMap cellOf ++ mgrs.map managerObj :=
      mem_append_left _ (mem_filterMap.mpr ⟨object, stays, at'⟩)
    rw [head, update_of_ne (ok.toBase.unowned there inside taken cell owned)]
  have perm := (owns.filter (heap.placedIn mgr)).length_eq
  simp only [World.objectsIn, filter_cons, placedIn, cls, Option.isSome_some, true_and, decide_eq_true_eq] at perm same ⊢
  rw [perm, same]
  split <;> rfl

end Counts

section Calls

variable [PageAllocator A]
structure Kept (world : World A) (global : Nat) (mgrs : List Nat) : Prop where
  occupied : ∀ mgr ∈ mgrs.tail, world.objectsIn mgr ≠ []
  busy : world.heap.Busy (mgrs ++ [global])

/-- An object that is freed is one of the first manager, or its manager has another one. -/
def KeepsOne (global : Nat) (world : World A) : Call → Prop
  | .alloc _ => True
  | .dealloc ptr layout =>
      let mgr := world.heap.head (ptr - headerSize layout)
      objectClass layout ≠ none → mgr ≠ global → 2 ≤ (world.objectsIn mgr).length

omit [PageAllocator A] in
theorem kept_nil (world : World A) (none : world.heap.cachesOf global = []) : Kept world global [] := by
  refine ⟨nofun, fun c member => ?_⟩
  rw [nil_append, allCaches, flatMap_singleton, none] at member
  cases member

omit [PageAllocator A] in
theorem objectsIn_cons_large (heap : Heap A) (live : List (Nat × Layout)) (ptr : Nat)
    (large : objectClass layout = none) (mgr : Nat) :
    (⟨heap, (ptr, layout) :: live⟩ : World A).objectsIn mgr = (⟨heap, live⟩ : World A).objectsIn mgr := by
  have outside : heap.placedIn mgr (ptr, layout) = false := by
    rw [placedIn, large]
    simp
  exact filter_cons_of_neg (by simp [outside])

theorem WorldOk.objectsIn_step (sound : SoundPages used) (ok : WorldOk used global world mgrs objs others)
    (keeps : KeepsOne global world call) (step : Step global world call world') {mgr : Nat} (other : mgr ≠ global)
    (some : world.objectsIn mgr ≠ []) : world'.objectsIn mgr ≠ [] := by
  rw [← length_pos_iff] at some ⊢
  cases step with
  | @alloc heap heap' live layout ptr depth run =>
    cases cls : objectClass layout with
    | some entry =>
      rw [ok.objectsIn_alloc sound cls run]
      omega
    | none =>
      obtain ⟨pages, rfl⟩ := alloc_large_heap cls run
      rw [objectsIn_cons_large _ _ _ cls]
      exact some
  | @dealloc heap heap' live live' layout ptr depth owns run =>
    cases cls : objectClass layout with
    | some entry =>
      have count := ok.objectsIn_dealloc sound owns cls run mgr
      by_cases here : heap.head (ptr - headerSize layout) = mgr
      · have two := keeps (by rw [cls]; exact Option.some_ne_none _) (here ▸ other)
        rw [here, count, if_pos here] at two
        omega
      · rw [if_neg here] at count
        omega
    | none =>
      obtain ⟨alloc, _, rfl⟩ := ok.dealloc_large_eq cls run
      have same := (owns.filter (heap.placedIn mgr)).length_eq
      change 0 < (live.filter (heap.placedIn mgr)).length at some
      change 0 < (live'.filter (heap.placedIn mgr)).length
      have large := objectsIn_cons_large heap live' ptr cls mgr
      simp only [World.objectsIn] at large
      rwa [same, large] at some

theorem Kept.step (sound : SoundPages used) (ok : WorldOk used global world mgrs objs others) (kept : Kept world global mgrs)
    (keeps : KeepsOne global world call) (step : Step global world call world') :
    ∃ mgrs' objs' others', WorldOk used global world' mgrs' objs' others' ∧ Kept world' global mgrs' := by
  have stay {mgr : Nat} (inside : mgr ∈ mgrs) (some : world.objectsIn mgr ≠ []) : world'.objectsIn mgr ≠ [] := by
    refine ok.objectsIn_step sound keeps step ?_ some
    rintro rfl
    exact ok.toBase.global_not_mem inside
  have occupied : ∀ mgr ∈ mgrs.tail, world'.objectsIn mgr ≠ [] :=
    fun mgr inside => stay (mem_of_mem_tail inside) (kept.occupied mgr inside)
  cases step with
  | @alloc heap heap' live layout ptr depth run =>
    cases cls : objectClass layout with
    | some entry =>
      obtain ⟨mgrs', objs', after⟩ := ok.alloc_small sound cls run
      have count := ok.objectsIn_alloc sound cls run
      have outcome := ok.toInv.alloc_outcome sound cls depth
      rw [run] at outcome
      obtain ⟨news, _, inv, busy, how⟩ := outcome.places sound ok.toInv (mem_of_getElem? (sizeToClass_some cls).1)
      obtain rfl := inv.mgrs_unique after.toInv
      refine ⟨_, objs', others, after, fun mgr inside => ?_, busy kept.busy⟩
      rcases how with rfl | ⟨new, rfl, newest⟩
      · exact occupied mgr inside
      · -- The new manager's predecessor is the one that got the object.
        obtain ⟨head, rest, rfl⟩ := exists_cons_of_ne_nil (ne_nil_of_mem inside)
        rcases mem_cons.mp inside with rfl | later
        · have here := Option.some.inj newest
          rw [← length_pos_iff, count, if_pos here.symm]
          exact Nat.succ_pos _
        · exact occupied mgr later
    | none =>
      obtain ⟨others', after⟩ := ok.alloc_large sound cls run
      have busy := kept.busy
      obtain ⟨pages, rfl⟩ := alloc_large_heap cls run
      exact ⟨mgrs, objs, others', after, occupied, busy⟩
  | @dealloc heap heap' live live' layout ptr depth owns run =>
    cases cls : objectClass layout with
    | some entry =>
      obtain ⟨_, owner, member, _, slot, c, here, _, _, outcome⟩ := ok.dealloc_outcome sound owns cls run
      exact ⟨mgrs, _, others, ok.dealloc_small sound owns cls run, occupied, outcome.busy ok.toBase member here kept.busy⟩
    | none =>
      have after := ok.dealloc_large sound owns cls run
      have busy := kept.busy
      obtain ⟨alloc, _, rfl⟩ := ok.dealloc_large_eq cls run
      exact ⟨mgrs, objs, _, after, occupied, busy⟩

structure Gone (heap : Heap A) (global mgr : Nat) : Prop where
  unlinked : ∃ chain, Linked (fun mgr => (heap.managers mgr).next) (some global) chain ∧ mgr ∉ chain ∧
    ∀ c ∈ heap.allCaches chain, (heap.caches c).inRange (mgr - ptrSize) = true →
      ∃ free, Linked (fun cell => nonNull (heap.head cell)) (nonNull (heap.caches c).freeListHead) free ∧
        mgr - ptrSize ∈ free
  unlisted : ∃ free, Linked (fun mgr => (heap.managers mgr).nextFree) (heap.managers global).nextFree free ∧ mgr ∉ free

def OneSpare (heap : Heap A) (global : Nat) : Prop :=
  ∃ chain, Linked (fun mgr => (heap.managers mgr).next) (some global) chain ∧ chain.length ≤ 2 ∧
    ∀ c ∈ heap.allCaches chain, ∃ mgr ∈ chain, mgr ≠ global ∧ (heap.caches c).inRange (mgr - ptrSize) = true

/-- A manager that loses its last object is freed, and with the last object of all the managers in between. -/
def Retires (global : Nat) (world world' : World A) : Prop :=
  (∀ mgr, mgr ≠ global → world.objectsIn mgr ≠ [] → world'.objectsIn mgr = [] → Gone world'.heap global mgr) ∧
    (world'.live = [] → OneSpare world'.heap global)

omit [PageAllocator A] in
theorem Kept.oneSpare (ok : WorldOk used global world mgrs objs others) (kept : Kept world global mgrs)
    (none : world.live = []) : OneSpare world.heap global := by
  have single : mgrs.tail = [] := by
    rw [eq_nil_iff_forall_not_mem]
    intro mgr inside
    refine kept.occupied mgr inside ?_
    rw [World.objectsIn, none]
    rfl
  refine ⟨_, ok.forward, ?_, fun c member => ?_⟩
  · have length := congrArg List.length single
    rw [length_tail, length_nil] at length
    simp only [length_reverse, length_append, length_singleton]
    omega
  · obtain ⟨owner, inside, slot⟩ := mem_allCaches.mp member
    have there := mem_allCaches.mpr ⟨owner, mem_reverse.mp inside, slot⟩
    obtain ⟨obj, owns, range⟩ := (ok.toBase.used_ne_zero_iff there).mp (kept.busy c there)
    have perm := ok.owned
    rw [none] at perm
    obtain ⟨mgr, spare, rfl⟩ := mem_map.mp (perm.subset owns)
    refine ⟨mgr, mem_reverse.mpr (mem_append_left _ spare), ?_, range⟩
    rintro rfl
    exact ok.toBase.global_not_mem spare

theorem WorldOk.owner_linked (sound : SoundPages used) {entry : (Nat × Nat) × Nat}
    (ok : WorldOk used global ⟨heap, live⟩ mgrs objs others) (owns : live.Perm ((ptr, layout) :: live'))
    (cls : objectClass layout = some entry) (run : dealloc (depth + 1) global ptr layout heap = .ok heap')
    {chain : List Nat} (linked : Linked (fun mgr => (heap'.managers mgr).next) (some global) chain) :
    heap.head (ptr - headerSize layout) ∈ chain := by
  obtain ⟨_, owner, member, rfl, _⟩ := ok.dealloc_outcome sound owns cls run
  obtain rfl := linked.unique (ok.dealloc_small sound owns cls run).forward
  exact mem_reverse.mpr member

omit [PageAllocator A] in
theorem objectsIn_pos (heap : Heap A) {object : Nat × Layout} (member : object ∈ live)
    (small : objectClass object.2 ≠ none) :
    0 < ((⟨heap, live⟩ : World A).objectsIn (heap.head (object.1 - headerSize object.2))).length := by
  refine length_pos_of_mem (mem_filter.mpr ⟨member, ?_⟩)
  rw [placedIn, decide_eq_true_eq]
  exact ⟨Option.isSome_iff_ne_none.mpr small, rfl⟩

/-- No manager is left over in runs of such calls; after any other call one is, as the manager of a last object is
    never unlinked. -/
theorem managers_retired_iff {A : Type} [PageAllocator A] {used : A → Nat → Prop} {global : Nat} (sound : SoundPages used)
    {boot world : World A} (start : Boot used global boot)
    (run : ReflTransGen (Steps global (KeepsOne global)) boot world) :
    (world.live = [] → OneSpare world.heap global) ∧ ∀ call world', Step global world call world' →
      (Retires global world world' ↔ KeepsOne global world call) := by
  obtain ⟨mgrs, objs, others, ok, kept⟩ := Runs.preserved
    (fun world => ∃ mgrs objs others, WorldOk used global world mgrs objs others ∧ Kept world global mgrs)
    (by
      rintro before after ⟨mgrs, objs, others, ok, kept⟩ ⟨call, keeps, step⟩
      exact kept.step sound ok keeps step)
    ⟨_, _, _, start.ok, kept_nil _ (start.ok.spare global rfl).1⟩ run
  refine ⟨kept.oneSpare ok, fun call world' step => ⟨fun retires => ?_, fun keeps => ⟨?_, ?_⟩⟩⟩
  · cases step with
    | alloc depth run => exact trivial
    | @dealloc heap heap' live live' layout ptr depth owns freed =>
      intro small other
      obtain ⟨entry, cls⟩ := Option.ne_none_iff_exists'.mp small
      have count := ok.objectsIn_dealloc sound owns cls freed (heap.head (ptr - headerSize layout))
      have positive := objectsIn_pos heap (owns.symm.subset mem_cons_self) small
      rw [if_pos rfl] at count
      by_contra few
      have last : (⟨heap', live'⟩ : World A).objectsIn (heap.head (ptr - headerSize layout)) = [] := by
        rw [← length_eq_zero_iff]
        dsimp only at few
        omega
      obtain ⟨chain, linked, outside, _⟩ := (retires.1 _ other (length_pos_iff.mp positive) last).unlinked
      exact outside (ok.owner_linked sound owns cls freed linked)
  · intro mgr other some none
    exact absurd none (ok.objectsIn_step sound keeps step other some)
  · obtain ⟨_, _, _, ok', kept'⟩ := kept.step sound ok keeps step
    exact kept'.oneSpare ok'

end Calls

def bufferFreed : Exec Bool := do
  let (ptr, heap) ← alloc 2 bootAddress bufferLayout bootWorld.heap
  let _ ← dealloc 1 bootAddress ptr bufferLayout heap
  pure (heap.head (ptr - headerSize bufferLayout) = bootAddress)

theorem buffer_managers_retired : ∃ world world' : World Bump,
    ReflTransGen (Steps bootAddress (KeepsOne bootAddress)) bootWorld world ∧ world.live.length = 1 ∧
      Steps bootAddress (KeepsOne bootAddress) world world' ∧ Retires bootAddress world world' := by
  have returns : bufferFreed.toOption = some true := by decide +kernel
  cases called : bufferFreed with
  | error fault =>
    rw [called] at returns
    cases returns
  | ok inFirst =>
    rw [called] at returns
    simp only [bufferFreed, bind_ok, pure_ok, Prod.exists] at called
    obtain ⟨ptr, heap, allocated, heap', freed, same⟩ := called
    have first : heap.head (ptr - headerSize bufferLayout) = bootAddress :=
      of_decide_eq_true (same.trans (Option.some.inj returns))
    have one : Step bootAddress bootWorld (.alloc bufferLayout) ⟨heap, [(ptr, bufferLayout)]⟩ := .alloc 0 allocated
    have two : Step bootAddress ⟨heap, [(ptr, bufferLayout)]⟩ (.dealloc ptr bufferLayout) ⟨heap', []⟩ :=
      .dealloc 0 (.refl _) freed
    have keeps : KeepsOne bootAddress ⟨heap, [(ptr, bufferLayout)]⟩ (.dealloc ptr bufferLayout) :=
      fun _ other => absurd first other
    have run := ReflTransGen.single (r := Steps bootAddress (KeepsOne bootAddress))
      ⟨.alloc bufferLayout, trivial, one⟩
    have retires := ((managers_retired_iff soundPages_bump boot_bootWorld run).2 _ _ two).mpr keeps
    exact ⟨_, _, run, rfl, ⟨_, keeps, two⟩, retires⟩

theorem WorldOk.objectsIn_newest {mgr : Nat} (ok : WorldOk used global world mgrs objs others)
    (newest : (mgrs ++ [global]).head? = some mgr) : world.objectsIn mgr = [] := by
  rw [World.objectsIn, filter_eq_nil_iff]
  intro object member placed
  rw [placedIn, decide_eq_true_eq] at placed
  obtain ⟨size, cell⟩ := cellOf_small object placed.1
  obtain ⟨_, c, slot, _⟩ := ok.homes _ (ok.cell_mem member cell)
  rw [placed.2, (ok.spare mgr newest).1] at slot
  cases slot

theorem bump_dealloc {heap : Heap Bump} {size : Nat × Nat}
    (ok : WorldOk bumpUsed global ⟨heap, (ptr, layout) :: live⟩ mgrs objs others)
    (cls : objectClass layout = some (size, idx))
    (counted : heap.counts (heap.head (ptr - headerSize layout)) idx ≠ 0) :
    ∃ heap', dealloc 1 global ptr layout heap = .ok heap' := by
  have cell : cellOf (ptr, layout) = some (ptr - headerSize layout, size.1) := by rw [cellOf, cls]; rfl
  have low : headerSize layout ≤ ptr := by
    have placed := ok.placed (ptr, layout) mem_cons_self
    simpa [Placed, cls] using placed
  obtain ⟨owner, _, rfl, slot, c, _, _, _, same⟩ := ok.toInv.dealloc_eq soundPages_bump cls low
    (ok.owned_of_perm (.refl _) cell) (managerObj_mem live) 0
  rw [same]
  split
  · have freed : ∀ (alloc : Bump) start count, ∃ alloc', PageAllocator.freePages alloc start count = .ok alloc' :=
      fun _ _ _ => ⟨_, rfl⟩
    obtain ⟨alloc, given⟩ := freed heap.alloc (heap.caches c).block.1 (heap.caches c).block.2
    rw [given, ok_bind, if_neg]
    · exact ⟨_, rfl⟩
    · rw [(heap.freedCell_spec global _ idx c _).counts]
      split
      · exact Nat.succ_ne_zero _
      · exact counted
  · exact ⟨_, rfl⟩

/-- A buffer goes to the second manager; when it is freed that manager has no object left and is still linked. -/
theorem manager_not_retired : ∃ (world world' : World Bump) (ptr mgr : Nat),
    ReflTransGen (Steps bootAddress fun _ _ => True) bootWorld world ∧
      Step bootAddress world (.dealloc ptr bufferLayout) world' ∧ mgr ≠ bootAddress ∧ world.objectsIn mgr ≠ [] ∧
      world'.objectsIn mgr = [] ∧
      ∃ chain, Linked (fun mgr => (world'.heap.managers mgr).next) (some bootAddress) chain ∧ mgr ∈ chain := by
  obtain ⟨⟨heap, live⟩, mgrs, objs, run, crowded, full, kept⟩ := crowded_bootWorld.fill
  have untouched := kept 9 (by decide) (by decide) ⟨rfl, rfl⟩
  obtain ⟨mgr, news, prepared, c, after, other, newest, prep, allocated, called, _, _⟩ :=
    crowded.overflow full bufferLayout_class (untouched.idle (32 * 1024) bootAddress (.inl rfl)) untouched.2
  have size : (32 * 1024, 8) ∈ cacheSize := by decide
  have grown := prep.inv.toBase.grown_spec 9 soundPages_bump prep.member prep.room size allocated
  obtain ⟨_, here, _⟩ : _ ∧ (after.grown bootAddress mgr 9 c).head (c + 32 * 1024) = mgr ∧ _ :=
    prep.inv.toBase.grow 9 soundPages_bump prep.member prep.room size allocated
  obtain ⟨mgrs', objs', ok⟩ := crowded.toWorldOk.alloc_small soundPages_bump bufferLayout_class called
  have before := crowded.toWorldOk.objectsIn_alloc soundPages_bump bufferLayout_class called mgr
  rw [Nat.add_sub_cancel, if_pos here, crowded.toWorldOk.objectsIn_newest newest] at before
  obtain ⟨heap', freed⟩ := bump_dealloc ok bufferLayout_class (by
    rw [Nat.add_sub_cancel, here, grown.counts, if_pos ⟨rfl, rfl⟩]
    exact Nat.succ_ne_zero _)
  have last := ok.objectsIn_dealloc soundPages_bump (.refl _) bufferLayout_class freed mgr
  rw [before, Nat.add_sub_cancel, if_pos here] at last
  have after' := ok.dealloc_small soundPages_bump (.refl _) bufferLayout_class freed
  have linked := ok.owner_linked soundPages_bump (.refl _) bufferLayout_class freed after'.forward
  rw [Nat.add_sub_cancel, here] at linked
  have steps : ReflTransGen (Steps bootAddress fun _ _ => True) bootWorld ⟨heap, live⟩ :=
    Steps.weaken (fun _ _ _ => trivial) run
  refine ⟨_, _, _, mgr, steps.tail ⟨_, trivial, .alloc 0 called⟩, .dealloc 0 (.refl _) freed, other, ?_, ?_, _,
    after'.forward, linked⟩
  · rw [← length_pos_iff, before]
    exact Nat.succ_pos _
  · rw [← length_eq_zero_iff]
    simpa using last.symm

end Kernel31.Mcache
