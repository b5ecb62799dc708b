import Kernel31.Mcache.Crowded

namespace Kernel31.Mcache

open Page Checked Relation List Heap

section Outcomes

variable {A : Type} [PageAllocator A] {used : A → Nat → Prop} {heap heap' : Heap A} {global : Nat} {mgrs : List Nat}
variable {objs objs' others : List (Nat × Nat)} {cellSize cellCount idx header : Nat}

def Counted (heap : Heap A) (global : Nat) (mgrs : List Nat) : Prop := ∀ mgr ∈ mgrs ++ [global], heap.CountsPartials mgr

theorem Prepared.counted {owner : Nat} {news : List Nat} (inv : Inv used heap global mgrs objs others)
    (prep : Prepared used heap heap' global owner mgrs news objs others) (counted : Counted heap global mgrs) :
    Counted heap' global (news ++ mgrs) := by
  have after := prep.inv
  rcases prep.how with ⟨rfl, rfl⟩ | ⟨new, ptr, rfl, newest, extended⟩
  · exact counted
  · -- The new manager has no caches and counts none.
    obtain ⟨none, zero⟩ := after.spare new rfl
    refine forall_mem_cons.mpr ⟨fun i => ?_, fun mgr inside => ?_⟩
    · rw [zero, partialsOf, none]
      rfl
    · exact inv.counts_extend after newest extended inside (counted mgr inside)

theorem AllocOutcome.counted (sound : SoundPages used) (inv : Inv used heap global mgrs objs others)
    (counted : Counted heap global mgrs) (cls : cacheSize[idx]? = some (cellSize, cellCount)) (spare : 2 < cellCount)
    {ptr : Nat} (outcome : AllocOutcome used heap global mgrs objs others cellSize cellCount idx header (.ok (ptr, heap'))) :
    ∃ mgrs' objs', Inv used heap' global mgrs' objs' others ∧ Counted heap' global mgrs' := by
  have size : cacheSize[idx]?.map Prod.fst = some cellSize := by rw [cls]; rfl
  have listed := mem_of_getElem? cls
  cases outcome with
  | taken owner c member found which =>
    obtain ⟨_, slot, same, free⟩ := partialCache_some found
    have spec := heap.takeCell_spec global owner idx c
    refine ⟨mgrs, _, inv.take member slot free spec, fun mgr inside => ?_⟩
    exact inv.counts_take member slot free (by rw [same]; exact size) spec inside (counted mgr inside)
  | grown owner news prepared c after which grower prep allocated =>
    have grown := prep.inv.toBase.grown_spec idx sound prep.member prep.room listed allocated
    obtain ⟨_, _, fresh, _⟩ := prep.inv.store.allocate sound prep.inv.null listed allocated
    refine ⟨news ++ mgrs, _, prep.inv.grow sound prep.member prep.older prep.room prep.few listed idx allocated,
      fun mgr inside => ?_⟩
    exact grown.counts_grow fresh size inside (fun _ => spare) (prep.counted inv counted mgr inside)

theorem DeallocOutcome.counted (inv : Inv used heap global mgrs objs others) (counted : Counted heap global mgrs)
    {owner slot ptr cell : Nat} (member : owner ∈ mgrs ++ [global])
    (here : (heap.managers owner).caches[slot]? = some (some ptr))
    (cls : cacheSize[idx]?.map Prod.fst = some (heap.caches ptr).cellSize)
    (outcome : DeallocOutcome heap global owner idx slot ptr cell heap') : Counted heap' global mgrs := by
  have spec := heap.freedCell_spec global owner idx ptr cell
  have inSlot : ptr ∈ heap.cachesOf owner := reduceOption_mem_iff.mpr (mem_of_getElem? here)
  have freed : Counted (heap.freedCell global owner idx ptr cell) global mgrs := fun mgr inside =>
    inv.counts_give member inSlot cls spec inside (counted mgr inside)
  cases outcome with
  | kept more => exact freed
  | released last some alloc given =>
    have released := (heap.freedCell global owner idx ptr cell).released_spec alloc owner idx (by rwa [spec.caches])
    have page : (heap.freedCell global owner idx ptr cell).caches ptr = (heap.caches ptr).given cell := by
      rw [spec.page, Function.update_self]
    refine fun mgr inside => released.counts_release ?_ ?_ (freed mgr inside)
    · rw [page]
      exact cls
    · rw [page]
      exact Nat.succ_ne_zero _

end Outcomes

section Runs

variable {A : Type} [PageAllocator A] {used : A → Nat → Prop} {global : Nat} {mgrs : List Nat}
variable {objs others : List (Nat × Nat)}

/-- No object of the largest class is allocated, whose caches are full from the start. -/
def CountedCall : Call → Prop
  | .alloc layout => ∀ entry, objectClass layout = some entry → 2 < entry.1.2
  | .dealloc _ _ => True

theorem Counted.step (sound : SoundPages used) {world world' : World A} {call : Call}
    (ok : WorldOk used global world mgrs objs others) (counted : Counted world.heap global mgrs) (spare : CountedCall call)
    (step : Step global world call world') :
    ∃ mgrs' objs' others', WorldOk used global world' mgrs' objs' others' ∧ Counted world'.heap global mgrs' := by
  cases step with
  | @alloc heap heap' live layout ptr depth run =>
    cases cls : objectClass layout with
    | some entry =>
      obtain ⟨mgrs', objs', after⟩ := ok.alloc_small sound cls run
      have outcome := ok.toInv.alloc_outcome sound cls depth
      rw [run] at outcome
      obtain ⟨mgrs'', objs'', inv, kept⟩ := outcome.counted sound ok.toInv counted (sizeToClass_some cls).1 (spare entry cls)
      obtain rfl := inv.mgrs_unique after.toInv
      exact ⟨mgrs'', objs', others, after, kept⟩
    | none =>
      obtain ⟨others', after⟩ := ok.alloc_large sound cls run
      obtain ⟨pages, rfl⟩ := alloc_large_heap cls run
      exact ⟨mgrs, objs, others', after, counted⟩
  | @dealloc heap heap' live live' layout ptr depth owns run =>
    cases cls : objectClass layout with
    | some entry =>
      have after := ok.dealloc_small sound owns cls run
      obtain ⟨_, owner, member, _, slot, c, here, _, size, outcome⟩ := ok.dealloc_outcome sound owns cls run
      refine ⟨mgrs, _, others, after, outcome.counted ok.toInv counted member here ?_⟩
      rw [(sizeToClass_some cls).1, size]
      rfl
    | none =>
      have after := ok.dealloc_large sound owns cls run
      obtain ⟨alloc, _, rfl⟩ := ok.dealloc_large_eq cls run
      exact ⟨mgrs, objs, _, after, counted⟩

theorem Counted.run (sound : SoundPages used) {boot world : World A} (start : Boot used global boot)
    (run : ReflTransGen (Steps global fun _ => CountedCall) boot world) :
    ∃ mgrs objs others, WorldOk used global world mgrs objs others ∧ Counted world.heap global mgrs := by
  have none : Counted boot.heap global [] := by
    refine forall_mem_singleton.mpr fun i => ?_
    rw [counts, partialsOf, start.cachesOf, start.manager]
    rfl
  refine Runs.preserved
    (fun world => ∃ mgrs objs others, WorldOk used global world mgrs objs others ∧ Counted world.heap global mgrs) ?_
    ⟨_, _, _, start.ok, none⟩ run
  rintro before after ⟨mgrs, objs, others, ok, counted⟩ ⟨call, spare, step⟩
  exact counted.step sound ok spare step

/-- Each manager counts its occupied slots, and without objects of the largest class also its caches with a free
    cell. -/
theorem manager_counts_exact (sound : SoundPages used) {boot world : World A} {guard : World A → Call → Prop}
    (start : Boot used global boot) (run : ReflTransGen (Steps global guard) boot world) :
    ∃ mgrs, Linked (fun mgr => (world.heap.managers mgr).next) (world.heap.managers global).next mgrs ∧
      ∀ mgr ∈ global :: mgrs,
        (world.heap.managers mgr).usedSlots = (world.heap.managers mgr).caches.countP Option.isSome ∧
        ((∀ before call, guard before call → CountedCall call) → ∀ idx, (world.heap.managers mgr).partialCounts idx =
          (world.heap.cachesOf mgr).countP fun ptr =>
            cacheSize[idx]?.map Prod.fst = some (world.heap.caches ptr).cellSize ∧ 0 < (world.heap.caches ptr).freeCount) := by
  obtain ⟨mgrs, objs, others, ok⟩ := WorldOk.run sound start run
  refine ⟨mgrs.reverse, ok.linked, fun mgr member => ⟨?_, fun spare idx => ?_⟩⟩
  · have inside : mgr ∈ mgrs ++ [global] := by simpa [or_comm] using member
    rw [ok.store.counted mgr inside, cachesOf, reduceOption_length_eq, countP_eq_length_filter]
  · obtain ⟨mgrs', objs', others', ok', counted⟩ := Counted.run sound start (Steps.weaken spare run)
    obtain rfl := ok.toInv.mgrs_unique ok'.toInv
    have inside : mgr ∈ mgrs ++ [global] := by simpa [or_comm] using member
    refine (counted mgr inside idx).trans (countP_congr fun ptr _ => ?_)
    rw [isPartial_iff, decide_eq_true_iff, Nat.pos_iff_ne_zero]

end Runs

theorem buffer_counted : ∃ world : World Bump,
    ReflTransGen (Steps bootAddress fun _ => CountedCall) bootWorld world ∧ world.live.length = 1 ∧
      (world.heap.managers bootAddress).usedSlots = (world.heap.managers bootAddress).caches.countP Option.isSome ∧
      ∀ idx, (world.heap.managers bootAddress).partialCounts idx = (world.heap.cachesOf bootAddress).countP fun ptr =>
        cacheSize[idx]?.map Prod.fst = some (world.heap.caches ptr).cellSize ∧ 0 < (world.heap.caches ptr).freeCount := by
  obtain ⟨ptr, heap, step⟩ := buffer_step
  have several : CountedCall (.alloc bufferLayout) := fun entry cls => by
    obtain rfl := Option.some.inj (cls.symm.trans (show objectClass bufferLayout = some ((32 * 1024, 8), 9) by decide))
    decide
  have run := ReflTransGen.single (r := Steps bootAddress fun _ => CountedCall) ⟨_, several, step⟩
  obtain ⟨mgrs, _, exact⟩ := manager_counts_exact soundPages_bump boot_bootWorld run
  obtain ⟨slots, counts⟩ := exact bootAddress mem_cons_self
  exact ⟨_, run, rfl, slots, counts fun _ _ met => met⟩

/-- The cache of a large object is counted with those that have a free cell, and has none. -/
theorem large_object_miscounted : ∃ world : World Bump,
    ReflTransGen (Steps bootAddress fun _ _ => True) bootWorld world ∧
      (world.heap.managers bootAddress).partialCounts 13 = 1 ∧
      (world.heap.cachesOf bootAddress).countP (fun ptr =>
        cacheSize[13]?.map Prod.fst = some (world.heap.caches ptr).cellSize ∧ 0 < (world.heap.caches ptr).freeCount) = 0 := by
  have returns : passes (alloc 2 bootAddress largeLayout bootWorld.heap) (fun result =>
      (result.2.managers bootAddress).partialCounts 13 = 1 ∧
      (result.2.cachesOf bootAddress).countP (fun ptr => cacheSize[13]?.map Prod.fst = some (result.2.caches ptr).cellSize ∧
        0 < (result.2.caches ptr).freeCount) = 0) = true := by decide +kernel
  obtain ⟨⟨ptr, heap⟩, called, test⟩ := exists_of_passes returns
  exact ⟨_, .single ⟨_, trivial, .alloc 0 called⟩, of_decide_eq_true test⟩

end Kernel31.Mcache
