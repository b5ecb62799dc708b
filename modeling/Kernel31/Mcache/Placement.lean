import Kernel31.Mcache.Crowded

namespace Kernel31.Mcache

open Page Checked List

section Homes

variable {A : Type} {used : A → Nat → Prop} {heap : Heap A} {global : Nat} {mgrs : List Nat}
variable {objs others : List (Nat × Nat)}

theorem Base.head_unique (base : Base used heap global mgrs objs others) {obj : Nat × Nat} (owns : obj ∈ objs) {mgr c : Nat}
    (member : mgr ∈ mgrs ++ [global]) (slot : c ∈ heap.cachesOf mgr) (inside : (heap.caches c).inRange obj.1 = true) :
    heap.head obj.1 = mgr := by
  obtain ⟨first, c', slot', inside', _⟩ := base.homes obj owns
  obtain rfl := base.store.range_unique (mem_allCaches.mpr ⟨_, member, slot⟩) (mem_allCaches.mpr ⟨_, first, slot'⟩)
    inside inside'
  by_contra different
  exact base.store.not_mem_cachesOf member slot first different slot'

theorem Store.slot_unique {inUse : Nat → Prop} {chain owned : List Nat} (store : Store inUse heap chain owned others)
    {mgr addr slot slot' c c' : Nat} (member : mgr ∈ chain) (here : (heap.managers mgr).caches[slot]? = some (some c))
    (inside : (heap.caches c).inRange addr = true) (there : (heap.managers mgr).caches[slot']? = some (some c'))
    (inside' : (heap.caches c').inRange addr = true) : slot' = slot ∧ c' = c := by
  have first : c ∈ heap.cachesOf mgr := reduceOption_mem_iff.mpr (mem_of_getElem? here)
  have second : c' ∈ heap.cachesOf mgr := reduceOption_mem_iff.mpr (mem_of_getElem? there)
  obtain rfl := store.range_unique (mem_allCaches.mpr ⟨_, member, first⟩) (mem_allCaches.mpr ⟨_, member, second⟩)
    inside inside'
  exact ⟨Lists.getElem?_some_unique (store.cachesOf_nodup member) there here, rfl⟩

end Homes

section Kept

variable {A : Type} [PageAllocator A] {used : A → Nat → Prop} {heap heap' : Heap A} {global : Nat} {mgrs : List Nat}
variable {objs others : List (Nat × Nat)} {world world' : World A} {layout : Layout} {ptr cellSize cellCount idx : Nat}

theorem AllocOutcome.head_kept (sound : SoundPages used) (inv : Inv used heap global mgrs objs others)
    (size : (cellSize, cellCount) ∈ cacheSize) {header : Nat}
    (outcome : AllocOutcome used heap global mgrs objs others cellSize cellCount idx header (.ok (ptr, heap')))
    {obj : Nat × Nat} (owns : obj ∈ objs) : heap'.head obj.1 = heap.head obj.1 := by
  obtain ⟨first, c, slot, inside, _⟩ := inv.homes obj owns
  obtain ⟨slot', span⟩ := outcome.keeps sound inv size first slot
  have inside' : (heap'.caches c).inRange obj.1 = true := by rwa [CachePage.span_inRange span]
  cases outcome with
  | taken mgr c' member found which =>
    obtain ⟨_, there, _, free⟩ := partialCache_some found
    have after := inv.take member there free (heap.takeCell_spec global mgr idx c')
    exact after.head_unique (mem_cons_of_mem _ owns) first slot' inside'
  | grown mgr news prepared c' filled which grower prep allocated =>
    have after := prep.inv.grow sound prep.member prep.older prep.room prep.few size idx allocated
    have wider : heap.head obj.1 ∈ news ++ mgrs ++ [global] := by
      rw [append_assoc]
      exact mem_append_right _ first
    exact after.head_unique (mem_cons_of_mem _ (mem_append_right _ owns)) wider slot' inside'

theorem DeallocOutcome.head_kept {owner slot c cell : Nat} (here : (heap.managers owner).caches[slot]? = some (some c))
    (outcome : DeallocOutcome heap global owner idx slot c cell heap') {place : Nat} (other : place ≠ cell) :
    heap'.head place = heap.head place := by
  have spec := heap.freedCell_spec global owner idx c cell
  have freed : (heap.freedCell global owner idx c cell).head place = heap.head place := by
    rw [spec.head, Function.update_of_ne other]
  cases outcome with
  | kept more => exact freed
  | released last counted alloc given =>
    have released := (heap.freedCell global owner idx c cell).released_spec alloc owner idx (by rwa [spec.caches])
    rw [released.head, freed]

omit [PageAllocator A] in
theorem WorldOk.cell_owned (ok : WorldOk used global world mgrs objs others) (live : (ptr, layout) ∈ world.live)
    (cls : objectClass layout = some ((cellSize, cellCount), idx)) :
    headerSize layout ≤ ptr ∧ (ptr - headerSize layout, cellSize) ∈ objs := by
  have placed := ok.placed (ptr, layout) live
  rw [Placed, if_neg (by rw [cls]; exact Option.some_ne_none _)] at placed
  refine ⟨placed, ok.owned.symm.subset (mem_append_left _ (mem_filterMap.mpr ⟨_, live, ?_⟩))⟩
  simp [cellOf, cls]

theorem Step.keeps {call : Call} (step : Step global world call world') (live : (ptr, layout) ∈ world.live)
    (other : call ≠ .dealloc ptr layout) : (ptr, layout) ∈ world'.live := by
  cases step with
  | alloc depth run => exact mem_cons_of_mem _ live
  | dealloc depth owns run =>
    refine (mem_cons.mp (owns.subset live)).resolve_left fun same => other ?_
    obtain ⟨rfl, rfl⟩ := Prod.mk.inj same
    rfl

theorem WorldOk.head_step (sound : SoundPages used) {call : Call} (ok : WorldOk used global world mgrs objs others)
    (step : Step global world call world') (live : (ptr, layout) ∈ world.live) (other : call ≠ .dealloc ptr layout)
    (cls : objectClass layout = some ((cellSize, cellCount), idx)) :
    world'.heap.head (ptr - headerSize layout) = world.heap.head (ptr - headerSize layout) := by
  have stays := step.keeps live other
  cases step with
  | @alloc heap heap' live' layout' ptr' depth run =>
    cases cls' : objectClass layout' with
    | some entry =>
      have outcome := ok.toInv.alloc_outcome sound cls' depth
      rw [run] at outcome
      exact outcome.head_kept sound ok.toInv (mem_of_getElem? (sizeToClass_some cls').1) (ok.cell_owned live cls).2
    | none =>
      obtain ⟨pages, rfl⟩ := alloc_large_heap cls' run
      rfl
  | @dealloc heap heap' live' rest layout' ptr' depth owns run =>
    cases cls' : objectClass layout' with
    | some entry =>
      obtain ⟨taken, owner, _, _, slot, c, here, _, _, outcome⟩ := ok.dealloc_outcome sound owns cls' run
      refine outcome.head_kept here ?_
      -- No cell is taken twice, so that the freed one is another.
      have nodup := (taken.map Prod.fst).nodup_iff.mp ok.toBase.nodup
      rw [map_cons, nodup_cons] at nodup
      intro same
      refine nodup.1 (mem_map.mpr ⟨(ptr - headerSize layout, cellSize), mem_append_left _ ?_, same⟩)
      exact mem_filterMap.mpr ⟨_, stays, by simp [cellOf, cls]⟩
    | none =>
      obtain ⟨alloc, _, rfl⟩ := ok.dealloc_large_eq cls' run
      rfl

theorem WorldOk.head_run (sound : SoundPages used) (ok : ∃ mgrs objs others, WorldOk used global world mgrs objs others)
    (live : (ptr, layout) ∈ world.live) (cls : objectClass layout = some ((cellSize, cellCount), idx))
    (run : Relation.ReflTransGen (Steps global fun _ call => call ≠ .dealloc ptr layout) world world') :
    (∃ mgrs objs others, WorldOk used global world' mgrs objs others) ∧ (ptr, layout) ∈ world'.live ∧
      world'.heap.head (ptr - headerSize layout) = world.heap.head (ptr - headerSize layout) := by
  refine Runs.preserved (fun after => (∃ mgrs objs others, WorldOk used global after mgrs objs others) ∧
    (ptr, layout) ∈ after.live ∧ after.heap.head (ptr - headerSize layout) = world.heap.head (ptr - headerSize layout))
    ?_ ⟨ok, live, rfl⟩ run
  rintro before after ⟨⟨mgrs, objs, others, ok⟩, live, same⟩ ⟨call, other, step⟩
  exact ⟨WorldOk.step sound ⟨mgrs, objs, others, ok⟩ step, step.keeps live other,
    (ok.head_step sound step live other cls).trans same⟩

omit [PageAllocator A] in
theorem WorldOk.header_apart (ok : WorldOk used global world mgrs objs others) (live : (ptr, layout) ∈ world.live)
    (cls : objectClass layout = some ((cellSize, cellCount), idx)) {object : Nat × Layout} (inside : object ∈ world.live) :
    Apart (object.1, object.2.size) (ptr - headerSize layout, ptrSize) := by
  have low := (ok.cell_owned live cls).1
  have header : ptrSize ≤ headerSize layout := Nat.le_add_left _ _
  by_cases same : object = (ptr, layout)
  · subst same
    intro addr from' _ there
    dsimp only at from' there
    omega
  · have regions := (pairwise_append.mp ok.regions_apart).1
    rw [pairwise_map] at regions
    have symm : Std.Symm fun left right => Apart (liveRegion left) (liveRegion right) := ⟨fun _ _ apart => apart.symm⟩
    refine (regions.forall inside live same).within ?_ ?_
    · unfold liveRegion
      split
      · exact ⟨le_rfl, le_rfl⟩
      · rename_i small
        have placed := ok.placed object inside
        rw [Placed, if_neg small] at placed
        exact ⟨by dsimp only; omega, by dsimp only; omega⟩
    · rw [liveRegion, if_neg (by rw [cls]; exact Option.some_ne_none _)]
      exact ⟨le_rfl, by dsimp only; omega⟩

/-- As long as an object lives, `dealloc` of it reads the manager that `alloc` wrote, and the cell goes back to the
    one cache around it. -/
theorem object_found_again (sound : SoundPages used) {boot before after : World A} (start : Boot used global boot)
    (run : Relation.ReflTransGen (Steps global fun _ _ => True) boot before)
    (cls : objectClass layout = some ((cellSize, cellCount), idx)) (allocated : Step global before (.alloc layout) after)
    (returned : after.live = (ptr, layout) :: before.live)
    (rest : Relation.ReflTransGen (Steps global fun _ call => call ≠ .dealloc ptr layout) after world) :
    let cell := ptr - headerSize layout
    let mgr := after.heap.head cell
    (cell + ptrSize ≤ ptr ∧ ptr + layout.size ≤ cell + cellSize) ∧
      (∀ object ∈ world.live, Apart (object.1, object.2.size) (cell, ptrSize)) ∧ world.heap.head cell = mgr ∧
      ∃ slot cache, (∀ slot' cache', ((world.heap.managers mgr).caches[slot']? = some (some cache') ∧
          (world.heap.caches cache').inRange cell = true) ↔ slot' = slot ∧ cache' = cache) ∧
        findSlot world.heap ptr (world.heap.managers mgr).caches = some (slot, cache) ∧
        (world.heap.caches cache).cellSize = cellSize ∧ cell ∈ (world.heap.caches cache).cells ∧
        ∀ depth heap', dealloc (depth + 1) global ptr layout world.heap = .ok heap' →
          DeallocOutcome world.heap global mgr idx slot cache cell heap' := by
  intro cell mgr
  have reached := WorldOk.step sound (WorldOk.run sound start run) allocated
  have there : (ptr, layout) ∈ after.live := by
    rw [returned]
    exact mem_cons_self
  obtain ⟨⟨mgrs, objs, others, ok⟩, live, same⟩ := WorldOk.head_run sound reached there cls rest
  obtain ⟨low, owns⟩ := ok.cell_owned live cls
  have fits := (sizeToClass_some cls).2
  have header : ptrSize ≤ headerSize layout := Nat.le_add_left _ _
  have member := (ok.homes _ owns).1
  obtain ⟨slot, cache, found, here, inSlot, inside, size⟩ := ok.toBase.findSlot_eq owns low (by omega) layout.positive
  rw [same] at found here inSlot member
  have cells := (ok.store.caches cache (mem_allCaches.mpr ⟨_, member, inSlot⟩)).mem_cells
    (mem_map.mpr ⟨_, owns, rfl⟩) inside
  refine ⟨by omega, fun object => ok.header_apart live cls, same, slot, cache, fun slot' cache' => ⟨?_, ?_⟩, found, size,
    cells, fun depth heap' freed => ?_⟩
  · exact fun ⟨here', inside'⟩ => ok.store.slot_unique member here inside here' inside'
  · rintro ⟨rfl, rfl⟩
    exact ⟨here, inside⟩
  · have owned := perm_cons_erase live
    obtain ⟨_, owner, _, place, slot', cache', here', inside', _, outcome⟩ := ok.dealloc_outcome sound owned cls freed
    rw [same] at place
    subst place
    obtain ⟨rfl, rfl⟩ := ok.store.slot_unique member here inside here' inside'
    exact outcome

end Kept

theorem buffer_found_again : ∃ (ptr : Nat) (heap : Heap Bump),
    Step bootAddress bootWorld (.alloc bufferLayout) ⟨heap, [(ptr, bufferLayout)]⟩ ∧
      ptr + bufferLayout.size ≤ ptr - headerSize bufferLayout + 32 * 1024 ∧
      ∃ slot cache, findSlot heap ptr (heap.managers (heap.head (ptr - headerSize bufferLayout))).caches =
        some (slot, cache) := by
  obtain ⟨ptr, heap, step⟩ := buffer_step
  obtain ⟨⟨_, room⟩, _, _, slot, cache, _, found, _⟩ := object_found_again soundPages_bump boot_bootWorld .refl
    (show objectClass bufferLayout = some ((32 * 1024, 8), 9) by decide) step rfl .refl
  exact ⟨ptr, heap, step, room, slot, cache, found⟩

end Kernel31.Mcache
