import Kernel31.Mcache.DeallocSteps
import Kernel31.Library.Runs

namespace Kernel31.Mcache

open Page Checked List

section Blocks

variable {A : Type} {used : A → Nat → Prop} {heap : Heap A} {global : Nat} {mgrs : List Nat}
variable {objs others others' : List (Nat × Nat)} {alloc : A}

theorem Inv.setBlocks (inv : Inv used heap global mgrs objs others)
    (store : Store (used alloc) heap (mgrs ++ [global]) (objs.map Prod.fst) others') (null : (0, 1) ∈ others')
    (static : ∃ count, 0 < count ∧ (global / pageSize, count) ∈ others') :
    Inv used { heap with alloc := alloc } global mgrs objs others' :=
  ⟨⟨store.congr (fun _ _ => ⟨rfl, rfl⟩) rfl rfl, null, static, inv.address, inv.prevs, inv.homes, inv.cells, inv.partials⟩,
    inv.forward, inv.free, inv.spare, inv.few⟩

end Blocks

section World

variable {A : Type}

inductive Call where
  | alloc (layout : Layout)
  | dealloc (ptr : Nat) (layout : Layout)

structure World (A : Type) where
  heap : Heap A
  live : List (Nat × Layout)

/-- A call that returns, from the global manager; an object is freed with the layout of its allocation. -/
inductive Step [PageAllocator A] (global : Nat) : World A → Call → World A → Prop
  | alloc {heap heap' : Heap A} {live : List (Nat × Layout)} {layout : Layout} {ptr : Nat} (depth : Nat)
      (run : Mcache.alloc (depth + 2) global layout heap = .ok (ptr, heap')) :
      Step global ⟨heap, live⟩ (.alloc layout) ⟨heap', (ptr, layout) :: live⟩
  | dealloc {heap heap' : Heap A} {live live' : List (Nat × Layout)} {layout : Layout} {ptr : Nat} (depth : Nat)
      (owns : live.Perm ((ptr, layout) :: live'))
      (run : Mcache.dealloc (depth + 1) global ptr layout heap = .ok heap') :
      Step global ⟨heap, live⟩ (.dealloc ptr layout) ⟨heap', live'⟩

def objectClass (layout : Layout) : Option ((Nat × Nat) × Nat) := sizeToClass (layout.size + headerSize layout)

def cellOf (object : Nat × Layout) : Option (Nat × Nat) :=
  (objectClass object.2).map fun entry => (object.1 - headerSize object.2, entry.1.1)

def pagesOf (object : Nat × Layout) : Option (Nat × Nat) :=
  if objectClass object.2 = none then some (object.1 / pageSize, (object.2.size + pageSize - 1) / pageSize) else none

def Placed (object : Nat × Layout) : Prop :=
  if objectClass object.2 = none then object.1 % pageSize = 0 else headerSize object.2 ≤ object.1

def staticPages (global : Nat) : Nat × Nat :=
  (global / pageSize, (global + managerSize - 1) / pageSize - global / pageSize + 1)

/-- The live objects and the managers own the cells and the blocks of pages. -/
structure WorldOk (used : A → Nat → Prop) (global : Nat) (world : World A) (mgrs : List Nat)
    (objs others : List (Nat × Nat)) : Prop extends Inv used world.heap global mgrs objs others where
  owned : objs.Perm (world.live.filterMap cellOf ++ mgrs.map managerObj)
  set : others.Perm (world.live.filterMap pagesOf ++ [(0, 1), staticPages global])
  placed : ∀ object ∈ world.live, Placed object

variable [PageAllocator A] {used : A → Nat → Prop} {global : Nat} {heap heap' : Heap A}
variable {live live' : List (Nat × Layout)} {layout : Layout} {mgrs : List Nat} {objs others : List (Nat × Nat)}
variable {depth ptr : Nat}

variable {cellSize cellCount idx : Nat} {world : World A}

theorem WorldOk.alloc_small (sound : SoundPages used) (ok : WorldOk used global ⟨heap, live⟩ mgrs objs others)
    (cls : objectClass layout = some ((cellSize, cellCount), idx))
    (run : alloc (depth + 2) global layout heap = .ok (ptr, heap')) :
    ∃ mgrs' objs', WorldOk used global ⟨heap', (ptr, layout) :: live⟩ mgrs' objs' others := by
  have outcome := ok.toInv.alloc_outcome sound cls depth
  rw [run] at outcome
  have blocks : ((ptr, layout) :: live).filterMap pagesOf = live.filterMap pagesOf :=
    filterMap_cons_none (by simp [pagesOf, cls])
  have cell : ∀ place, ptr = place + headerSize layout →
      ((ptr, layout) :: live).filterMap cellOf = (place, cellSize) :: live.filterMap cellOf := by
    rintro place rfl
    exact filterMap_cons_some (by simp [cellOf, cls])
  have placed : ∀ place, ptr = place + headerSize layout → ∀ object ∈ (ptr, layout) :: live, Placed object := by
    rintro place rfl
    rw [forall_mem_cons]
    exact ⟨by simp [Placed, cls], ok.placed⟩
  have size := mem_of_getElem? (sizeToClass_some cls).1
  cases outcome with
  | taken mgr c member found which =>
    obtain ⟨_, slot, same, some⟩ := partialCache_some found
    have inv := ok.toInv.take member slot some (heap.takeCell_spec global mgr idx c)
    refine ⟨mgrs, _, inv, ?_, ?_, placed _ rfl⟩
    · rw [cell _ rfl, same]
      exact ok.owned.cons _
    · rw [blocks]
      exact ok.set
  | grown mgr news prepared c after which grower prep allocated =>
    have inv := prep.inv.grow sound prep.member prep.older prep.room prep.few size idx allocated
    refine ⟨news ++ mgrs, _, inv, ?_, ?_, placed _ rfl⟩
    · rw [cell _ rfl, map_append]
      exact .cons _ ((ok.owned.append_left _).trans (perm_append_comm_assoc _ _ _))
    · rw [blocks]
      exact ok.set

theorem static_mem (live : List (Nat × Layout)) : (0, 1) ∈ live.filterMap pagesOf ++ [(0, 1), staticPages global] ∧
    ∃ count, 0 < count ∧ (global / pageSize, count) ∈ live.filterMap pagesOf ++ [(0, 1), staticPages global] :=
  ⟨mem_append_right _ mem_cons_self, _, Nat.succ_pos _,
    mem_append_right _ (mem_cons_of_mem _ mem_cons_self)⟩

theorem alloc_large_eq (large : objectClass layout = none) (heap : Heap A) (depth : Nat) :
    alloc (depth + 1) global layout heap =
      allocPages heap.alloc ((layout.size + pageSize - 1) / pageSize) >>= fun result =>
        pageAddress result.1 >>= fun address => .ok (address, { heap with alloc := result.2 }) := by
  rw [objectClass, headerSize] at large
  rw [alloc]
  simp only [large]
  rfl

theorem alloc_large_heap (large : objectClass layout = none)
    (run : alloc (depth + 1) global layout heap = .ok (ptr, heap')) : ∃ pages, heap' = { heap with alloc := pages } := by
  simp only [alloc_large_eq large, bind_ok] at run
  obtain ⟨⟨_, pages⟩, _, _, _, done⟩ := run
  obtain ⟨_, rfl⟩ := Prod.mk.inj (Except.ok.inj done)
  exact ⟨pages, rfl⟩

theorem WorldOk.alloc_large (sound : SoundPages used) (ok : WorldOk used global ⟨heap, live⟩ mgrs objs others)
    (large : objectClass layout = none) (run : alloc (depth + 2) global layout heap = .ok (ptr, heap')) :
    ∃ others', WorldOk used global ⟨heap', (ptr, layout) :: live⟩ mgrs objs others' := by
  simp only [alloc_large_eq large, bind_ok, Prod.exists] at run
  obtain ⟨page, alloc, allocated, address, addressed, done⟩ := run
  obtain ⟨⟩ := done
  obtain rfl := pageAddress_ok addressed
  rw [objectClass, headerSize] at large
  obtain ⟨_, grown, new⟩ := sound.fresh _ _ _ _ (allocPages_ok.mp allocated)
  have block : ((pageSize * page, layout) :: live).filterMap pagesOf =
      (page, (layout.size + pageSize - 1) / pageSize) :: live.filterMap pagesOf := by
    apply filterMap_cons_some
    rw [pagesOf, objectClass, headerSize, if_pos large, Nat.mul_div_cancel_left page (by decide)]
  have none : ((pageSize * page, layout) :: live).filterMap cellOf = live.filterMap cellOf := by
    apply filterMap_cons_none
    rw [cellOf, objectClass, headerSize, large]
    rfl
  have store := ok.store.hold (page, (layout.size + pageSize - 1) / pageSize) new grown
  obtain ⟨count, positive, static⟩ := ok.static
  refine ⟨_, ok.toInv.setBlocks store (mem_cons_of_mem _ ok.null) ⟨count, positive, mem_cons_of_mem _ static⟩,
    ?_, ?_, ?_⟩
  · rw [none]
    exact ok.owned
  · rw [block]
    exact ok.set.cons _
  · rw [forall_mem_cons]
    refine ⟨?_, ok.placed⟩
    rw [Placed, objectClass, headerSize, if_pos large]
    exact Nat.mul_mod_right _ _

omit [PageAllocator A] in
theorem WorldOk.owned_of_perm (ok : WorldOk used global ⟨heap, live⟩ mgrs objs others)
    (owns : live.Perm ((ptr, layout) :: live')) {cell : Nat × Nat} (small : cellOf (ptr, layout) = some cell) :
    objs.Perm (cell :: (live'.filterMap cellOf ++ mgrs.map managerObj)) := by
  have perm := owns.filterMap cellOf
  rw [filterMap_cons_some small] at perm
  exact ok.owned.trans (perm.append_right _)

theorem managerObj_mem (live : List (Nat × Layout)) :
    ∀ mgr ∈ mgrs, managerObj mgr ∈ live.filterMap cellOf ++ mgrs.map managerObj :=
  fun mgr member => mem_append_right _ (mem_map.mpr ⟨mgr, member, rfl⟩)

section

variable (ok : WorldOk used global ⟨heap, live⟩ mgrs objs others)
include ok

theorem WorldOk.dealloc_outcome (sound : SoundPages used) (owns : live.Perm ((ptr, layout) :: live'))
    (cls : objectClass layout = some ((cellSize, cellCount), idx))
    (run : dealloc (depth + 1) global ptr layout heap = .ok heap') :
    objs.Perm ((ptr - headerSize layout, cellSize) :: (live'.filterMap cellOf ++ mgrs.map managerObj)) ∧
    ∃ owner ∈ mgrs ++ [global], owner = heap.head (ptr - headerSize layout) ∧ ∃ slot c,
      (heap.managers owner).caches[slot]? = some (some c) ∧
      (heap.caches c).inRange (ptr - headerSize layout) = true ∧ (heap.caches c).cellSize = cellSize ∧
      DeallocOutcome heap global owner idx slot c (ptr - headerSize layout) heap' := by
  have taken := ok.owned_of_perm owns (show cellOf (ptr, layout) = some (ptr - headerSize layout, cellSize) by
    simp [cellOf, cls])
  have low : headerSize layout ≤ ptr := by
    have placed := ok.placed (ptr, layout) (owns.symm.subset mem_cons_self)
    simpa [Placed, cls] using placed
  exact ⟨taken, ok.toInv.dealloc_outcome sound cls low taken (managerObj_mem live') run⟩

theorem WorldOk.dealloc_small (sound : SoundPages used) (owns : live.Perm ((ptr, layout) :: live'))
    (cls : objectClass layout = some ((cellSize, cellCount), idx))
    (run : dealloc (depth + 1) global ptr layout heap = .ok heap') :
    WorldOk used global ⟨heap', live'⟩ mgrs (live'.filterMap cellOf ++ mgrs.map managerObj) others := by
  obtain ⟨taken, owner, member, _, slot, c, here, inside, _, outcome⟩ := ok.dealloc_outcome sound owns cls run
  refine ⟨outcome.inv sound ok.toInv member here inside taken (managerObj_mem live'), .refl _, ?_, ?_⟩
  · have perm := owns.filterMap pagesOf
    rw [filterMap_cons_none (by simp [pagesOf, cls])] at perm
    exact ok.set.trans (perm.append_right _)
  · exact fun object stays => ok.placed object (owns.symm.subset (mem_cons_of_mem _ stays))

theorem WorldOk.dealloc_large_eq (large : objectClass layout = none)
    (run : dealloc (depth + 1) global ptr layout heap = .ok heap') :
    ∃ alloc, PageAllocator.freePages heap.alloc (ptr / pageSize) ((layout.size + pageSize - 1) / pageSize) = .ok alloc ∧
      heap' = { heap with alloc := alloc } := by
  have first : global ∈ mgrs ++ [global] := mem_concat_self
  rw [objectClass] at large
  rw [dealloc] at run
  simp only [ok.leadsTo first heap fun _ => rfl, ok_bind, large, bind_ok, Nat.shiftRight_eq_div_pow] at run
  obtain ⟨alloc, freed, done⟩ := run
  exact ⟨alloc, freed, (pure_ok.mp done).symm⟩

theorem WorldOk.dealloc_large (sound : SoundPages used) (owns : live.Perm ((ptr, layout) :: live'))
    (large : objectClass layout = none) (run : dealloc (depth + 1) global ptr layout heap = .ok heap') :
    WorldOk used global ⟨heap', live'⟩ mgrs objs (live'.filterMap pagesOf ++ [(0, 1), staticPages global]) := by
  obtain ⟨alloc, freed, rfl⟩ := ok.dealloc_large_eq large run
  have blocks := owns.filterMap pagesOf
  rw [filterMap_cons_some (show pagesOf (ptr, layout) =
    some (ptr / pageSize, (layout.size + pageSize - 1) / pageSize) from if_pos large)] at blocks
  have cells := owns.filterMap cellOf
  rw [filterMap_cons_none (by simp [cellOf, large])] at cells
  have store := ok.store.drop (ok.set.trans (blocks.append_right _)) fun page inUse outside =>
    sound.freed _ _ _ _ freed page inUse outside
  obtain ⟨null, static⟩ := static_mem live'
  refine ⟨ok.toInv.setBlocks store null static, ok.owned.trans (cells.append_right _), .refl _, ?_⟩
  exact fun object stays => ok.placed object (owns.symm.subset (mem_cons_of_mem _ stays))

end

/-- The static manager is empty; its pages and page 0 are not for the page allocator. -/
structure Boot (used : A → Nat → Prop) (global : Nat) (world : World A) : Prop where
  manager : world.heap.managers global = CacheManager.default
  live : world.live = []
  address : pageSize ≤ global ∧ global < 2 ^ 64
  null : used world.heap.alloc 0
  pages : ∀ page, (staticPages global).1 ≤ page → page < (staticPages global).1 + (staticPages global).2 →
    used world.heap.alloc page

omit [PageAllocator A] in
theorem Boot.cachesOf (boot : Boot used global world) : world.heap.cachesOf global = [] := by
  rw [Heap.cachesOf, boot.manager]
  exact reduceOption_replicate_none

omit [PageAllocator A] in
theorem Boot.ok (boot : Boot used global world) : WorldOk used global world [] [] [(0, 1), staticPages global] := by
  have empty := boot.cachesOf
  have none : world.heap.allCaches [global] = [] := by
    rw [Heap.allCaches, flatMap_singleton, empty]
  have blocks : world.heap.blocks [global] = [] := by
    rw [Heap.blocks, none, map_nil]
  have positive : 0 < global := Nat.lt_of_lt_of_le (by decide) boot.address.1
  have apart : Apart (0, 1) (staticPages global) := by
    intro page _ high inside
    have low : 1 ≤ global / pageSize := (Nat.one_le_div_iff (by decide)).mpr boot.address.1
    simp only [staticPages] at inside
    omega
  have store : Store (used world.heap.alloc) world.heap [global] [] [(0, 1), staticPages global] := by
    refine ⟨nodup_singleton _, ?_, ?_, ?_, ?_, ?_, ?_, ?_⟩
    · rw [forall_mem_singleton, boot.manager]
      exact length_replicate
    · rw [forall_mem_singleton, empty, boot.manager]
      rfl
    · simp [none]
    · simp [none]
    · simp
    · simpa [blocks] using apart
    · rw [blocks]
      simp only [nil_append, forall_mem_cons]
      refine ⟨fun page _ high => ?_, boot.pages, by simp⟩
      rw [show page = 0 by omega]
      exact boot.null
  refine ⟨⟨⟨store, mem_cons_self, ?_, ⟨positive, boot.address.2⟩, ?_, by simp, by simp, ?_⟩, ?_, ?_, ?_, by simp⟩, ?_, ?_, ?_⟩
  · exact ⟨_, Nat.succ_pos _, mem_cons_of_mem _ mem_cons_self⟩
  · refine ⟨rfl, ?_⟩
    change (world.heap.managers global).prev = Option.none
    rw [boot.manager]
    rfl
  · intro mgr inside idx next some
    rw [mem_singleton.mp inside, Heap.nexts, boot.manager] at some
    cases some
  · refine ⟨rfl, ?_⟩
    change (world.heap.managers global).next = Option.none
    rw [boot.manager]
    rfl
  · rw [boot.manager]
    rfl
  · rintro mgr ⟨⟩
    refine ⟨empty, fun idx => ?_⟩
    rw [Heap.counts, boot.manager]
    rfl
  · rw [boot.live]
    exact .refl _
  · rw [boot.live]
    exact .refl _
  · rw [boot.live]
    simp

theorem WorldOk.step (sound : SoundPages used) {world' : World A} {call : Call}
    (ok : ∃ mgrs objs others, WorldOk used global world mgrs objs others) (step : Step global world call world') :
    ∃ mgrs objs others, WorldOk used global world' mgrs objs others := by
  obtain ⟨mgrs, objs, others, ok⟩ := ok
  cases step with
  | @alloc heap heap' live layout ptr depth run =>
    cases cls : objectClass layout with
    | some entry =>
      obtain ⟨mgrs', objs', after⟩ := ok.alloc_small sound cls run
      exact ⟨mgrs', objs', others, after⟩
    | none =>
      obtain ⟨others', after⟩ := ok.alloc_large sound cls run
      exact ⟨mgrs, objs, others', after⟩
  | @dealloc heap heap' live live' layout ptr depth owns run =>
    cases cls : objectClass layout with
    | some entry => exact ⟨mgrs, _, others, ok.dealloc_small sound owns cls run⟩
    | none => exact ⟨mgrs, objs, _, ok.dealloc_large sound owns cls run⟩

def Steps (global : Nat) (guard : World A → Call → Prop) (world world' : World A) : Prop :=
  ∃ call, guard world call ∧ Step global world call world'

theorem Steps.weaken {guard guard' : World A → Call → Prop}
    (weaker : ∀ world call, guard world call → guard' world call) {world' : World A}
    (run : Relation.ReflTransGen (Steps global guard) world world') :
    Relation.ReflTransGen (Steps global guard') world world' :=
  run.lift id fun _ _ ⟨call, met, step⟩ => ⟨call, weaker _ _ met, step⟩

theorem WorldOk.run (sound : SoundPages used) {boot : World A} {guard : World A → Call → Prop}
    (start : Boot used global boot) (run : Relation.ReflTransGen (Steps global guard) boot world) :
    ∃ mgrs objs others, WorldOk used global world mgrs objs others := by
  refine Runs.preserved (fun world => ∃ mgrs objs others, WorldOk used global world mgrs objs others) ?_
    ⟨_, _, _, start.ok⟩ run
  rintro before after ok ⟨call, _, step⟩
  exact WorldOk.step sound ok step

end World

end Kernel31.Mcache
