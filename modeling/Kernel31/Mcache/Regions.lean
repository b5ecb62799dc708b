import Kernel31.Mcache.World
import Kernel31.Page.Bump

namespace Kernel31.Mcache

open Page Checked List CachePage

variable {A : Type} {used : A → Nat → Prop} {heap : Heap A} {global : Nat} {mgrs : List Nat}
  {objs others : List (Nat × Nat)}

section Within

def Within (inner outer : Nat × Nat) : Prop := outer.1 ≤ inner.1 ∧ inner.1 + inner.2 ≤ outer.1 + outer.2

theorem Apart.within {left right left' right' : Nat × Nat} (apart : Apart left right) (inLeft : Within left' left)
    (inRight : Within right' right) : Apart left' right' := by
  intro addr low high inside
  obtain ⟨leftLow, leftHigh⟩ := inLeft
  obtain ⟨rightLow, rightHigh⟩ := inRight
  exact apart addr (by omega) (by omega) ⟨by omega, by omega⟩

def bytes (block : Nat × Nat) : Nat × Nat := (block.1 * pageSize, block.2 * pageSize)

theorem mem_bytes {block : Nat × Nat} {addr : Nat} :
    ((bytes block).1 ≤ addr ∧ addr < (bytes block).1 + (bytes block).2) ↔
      block.1 ≤ addr / pageSize ∧ addr / pageSize < block.1 + block.2 := by
  rw [bytes, ← Nat.add_mul, Nat.le_div_iff_mul_le (by decide), Nat.div_lt_iff_lt_mul (by decide)]

theorem Apart.bytes {left right : Nat × Nat} (apart : Apart left right) : Apart (bytes left) (bytes right) := by
  intro addr low high inside
  obtain ⟨pageLow, pageHigh⟩ := mem_bytes.mp ⟨low, high⟩
  exact apart _ pageLow pageHigh (mem_bytes.mp inside)

theorem CachePage.Shaped.bytes_block {cache : CachePage} (shaped : cache.Shaped) :
    bytes cache.block = (cache.pageStart, cache.pageCount * pageSize) := by
  rw [bytes, block, Nat.div_mul_cancel (Nat.dvd_of_mod_eq_zero shaped.aligned)]

theorem CachePage.Shaped.within_block {cache : CachePage} (shaped : cache.Shaped) :
    Within (cache.pageStart, cache.cellSize) (bytes cache.block) ∧
      ∀ cell ∈ cache.cells, Within (cell, cache.cellSize) (bytes cache.block) := by
  rw [shaped.bytes_block]
  refine ⟨⟨le_rfl, ?_⟩, fun cell member => ?_⟩
  · obtain ⟨whole, many⟩ := shaped.cellCount_mul
    have one : 1 * cache.cellSize ≤ cache.cellCount * cache.cellSize := Nat.mul_le_mul_right _ (by omega)
    dsimp only
    omega
  · have bounds := shaped.mem_cells member
    exact ⟨by dsimp only; omega, bounds.2⟩

end Within

section Cells

def Heap.firstCell {A : Type} (heap : Heap A) (ptr : Nat) : Nat × Nat := (ptr, (heap.caches ptr).cellSize)

variable (base : Base used heap global mgrs objs others)
include base

theorem Base.nodup : (objs.map Prod.fst).Nodup := by
  rw [nodup_iff_count_le_one]
  intro cell
  by_cases owned : cell ∈ objs.map Prod.fst
  · obtain ⟨ptr, there, inside⟩ := base.store.housed cell owned
    have once := nodup_iff_count_le_one.mp (base.store.caches ptr there).nodup cell
    rwa [count_filter inside] at once
  · rw [count_eq_zero_of_not_mem owned]
    exact Nat.zero_le 1

theorem Base.obj_within {obj : Nat × Nat} (owns : obj ∈ objs) :
    ∃ ptr ∈ heap.allCaches (mgrs ++ [global]), obj.1 ∈ (heap.caches ptr).cells ∧ (heap.caches ptr).cellSize = obj.2 ∧
      Within obj (bytes (heap.caches ptr).block) := by
  obtain ⟨ptr, _, there, cells, size⟩ := base.cell_of_obj owns
  have within := (base.store.caches ptr there).shaped.within_block.2 _ cells
  rw [size] at within
  exact ⟨ptr, there, cells, size, within⟩

theorem Base.objs_apart : objs.Pairwise Apart := by
  refine List.Nodup.pairwise_of_forall_ne base.nodup.of_map ?_
  intro obj owns other owns' different
  obtain ⟨ptr, there, cells, size, within⟩ := base.obj_within owns
  obtain ⟨ptr', there', cells', size', within'⟩ := base.obj_within owns'
  by_cases same : ptr = ptr'
  · subst same
    have apart : obj.1 ≠ other.1 := fun equal => different (inj_on_of_nodup_map base.nodup owns owns' equal)
    have cases := cells_apart cells cells' apart
    intro addr low high inside
    omega
  · exact (base.store.caches_apart there there' same).bytes.within within within'

theorem Base.firstCell_within {ptr : Nat} (there : ptr ∈ heap.allCaches (mgrs ++ [global])) :
    Within (heap.firstCell ptr) (bytes (heap.caches ptr).block) := by
  have within := (base.store.caches ptr there).shaped.within_block.1
  rwa [base.store.starts ptr there] at within

theorem Base.obj_firstCell_apart {obj : Nat × Nat} {ptr : Nat} (owns : obj ∈ objs)
    (there : ptr ∈ heap.allCaches (mgrs ++ [global])) : Apart obj (heap.firstCell ptr) := by
  obtain ⟨ptr', there', cells, _, within⟩ := base.obj_within owns
  by_cases same : ptr' = ptr
  · subst same
    have bounds := (base.store.caches ptr' there).shaped.mem_cells cells
    rw [base.store.starts ptr' there] at bounds
    intro addr low high inside
    simp only [Heap.firstCell] at inside
    omega
  · exact (base.store.caches_apart there' there same).bytes.within within (base.firstCell_within there)

theorem Base.parts_apart :
    (objs ++ ((heap.allCaches (mgrs ++ [global])).map heap.firstCell ++ others.map bytes)).Pairwise Apart := by
  obtain ⟨caches, blocks, between⟩ := pairwise_append.mp base.store.apart
  rw [Heap.blocks, pairwise_map] at caches
  have member {ptr : Nat} (there : ptr ∈ heap.allCaches (mgrs ++ [global])) :
      (heap.caches ptr).block ∈ heap.blocks (mgrs ++ [global]) := mem_map.mpr ⟨ptr, there, rfl⟩
  refine pairwise_append.mpr ⟨base.objs_apart, pairwise_append.mpr ⟨?_, ?_, ?_⟩, ?_⟩
  · rw [pairwise_map]
    refine caches.imp_of_mem fun there there' apart => ?_
    exact apart.bytes.within (base.firstCell_within there) (base.firstCell_within there')
  · rw [pairwise_map]
    exact blocks.imp fun apart => apart.bytes
  · simp only [forall_mem_map]
    intro ptr there block set
    exact (between _ (member there) block set).bytes.within (base.firstCell_within there) ⟨le_rfl, le_rfl⟩
  · intro obj owns other inside
    rcases mem_append.mp inside with first | set
    · obtain ⟨ptr, there, rfl⟩ := mem_map.mp first
      exact base.obj_firstCell_apart owns there
    · obtain ⟨block, held, rfl⟩ := mem_map.mp set
      obtain ⟨ptr, there, _, _, within⟩ := base.obj_within owns
      exact (between _ (member there) block held).bytes.within within ⟨le_rfl, le_rfl⟩

theorem Base.parts_used {part : Nat × Nat}
    (inside : part ∈ objs ++ ((heap.allCaches (mgrs ++ [global])).map heap.firstCell ++ others.map bytes)) :
    ∃ block ∈ heap.blocks (mgrs ++ [global]) ++ others, Within part (bytes block) := by
  rcases mem_append.mp inside with owns | rest
  · obtain ⟨ptr, there, _, _, within⟩ := base.obj_within owns
    exact ⟨_, Store.mem_blocks there, within⟩
  · rcases mem_append.mp rest with first | set
    · obtain ⟨ptr, there, rfl⟩ := mem_map.mp first
      exact ⟨_, Store.mem_blocks there, base.firstCell_within there⟩
    · obtain ⟨block, held, rfl⟩ := mem_map.mp set
      exact ⟨block, mem_append_right _ held, le_rfl, le_rfl⟩

end Cells

section Regions

variable {world : World A}
def liveRegion (object : Nat × Layout) : Nat × Nat :=
  if objectClass object.2 = none then (object.1, object.2.size)
  else (object.1 - headerSize object.2, headerSize object.2 + object.2.size)

def World.regions (world : World A) (global : Nat) (mgrs : List Nat) : List (Nat × Nat) :=
  world.live.map liveRegion ++ (mgrs.map managerObj ++
    ((world.heap.allCaches (global :: mgrs)).map (fun ptr => (ptr, cachePageSize)) ++ [(global, managerSize)]))

def enclosing (object : Nat × Layout) : Nat × Nat :=
  match objectClass object.2 with
  | some entry => (object.1 - headerSize object.2, entry.1.1)
  | none => bytes (object.1 / pageSize, (object.2.size + pageSize - 1) / pageSize)

theorem liveRegion_within {object : Nat × Layout} (placed : Placed object) :
    Within (liveRegion object) (enclosing object) := by
  unfold liveRegion enclosing
  cases cls : objectClass object.2 with
  | some entry =>
    obtain ⟨⟨cellSize, cellCount⟩, idx⟩ := entry
    have large := (sizeToClass_some cls).2
    rw [if_neg (Option.some_ne_none _)]
    exact ⟨le_rfl, by dsimp only; omega⟩
  | none =>
    rw [Placed, if_pos cls] at placed
    rw [if_pos rfl, Within, bytes]
    simp only [pageSize_eq] at placed ⊢
    omega

theorem enclosing_perm (live : List (Nat × Layout)) :
    (live.map enclosing).Perm (live.filterMap cellOf ++ (live.filterMap pagesOf).map bytes) := by
  induction live with
  | nil => exact .refl _
  | cons object rest ih =>
    cases cls : objectClass object.2 with
    | some entry =>
      rw [filterMap_cons_some (show cellOf object = _ by rw [cellOf, cls]; rfl),
        filterMap_cons_none (show pagesOf object = none by rw [pagesOf, if_neg (by simp [cls])]),
        map_cons, enclosing, cls]
      exact ih.cons _
    | none =>
      rw [filterMap_cons_none (show cellOf object = none by rw [cellOf, cls]; rfl),
        filterMap_cons_some (show pagesOf object = _ from if_pos cls), map_cons, map_cons, enclosing, cls]
      exact (ih.cons _).trans perm_middle.symm

def World.covers (world : World A) (global : Nat) (mgrs : List Nat) : List (Nat × Nat) :=
  world.live.map enclosing ++ (mgrs.map managerObj ++
    ((world.heap.allCaches (global :: mgrs)).map world.heap.firstCell ++ [bytes (staticPages global)]))

theorem static_within (global : Nat) : Within (global, managerSize) (bytes (staticPages global)) := by
  simp only [Within, bytes, staticPages, pageSize_eq, show managerSize = 8448 from rfl]
  omega

theorem allCaches_reverse (heap : Heap A) (global : Nat) (mgrs : List Nat) :
    (heap.allCaches (global :: mgrs.reverse)).Perm (heap.allCaches (mgrs ++ [global])) := by
  refine List.Perm.flatMap_right _ ?_
  rw [← reverse_reverse (global :: mgrs.reverse), reverse_cons, reverse_reverse]
  exact reverse_perm _

variable (ok : WorldOk used global world mgrs objs others)
include ok

theorem WorldOk.covers_perm :
    (objs ++ ((world.heap.allCaches (mgrs ++ [global])).map world.heap.firstCell ++ others.map bytes)).Perm
      (bytes (0, 1) :: world.covers global mgrs.reverse) := by
  rw [perm_iff_count]
  intro part
  have live := (enclosing_perm world.live).count_eq part
  have owned := ok.owned.count_eq part
  have set := (ok.set.map bytes).count_eq part
  have caches := ((allCaches_reverse world.heap global mgrs).map world.heap.firstCell).count_eq part
  have managers := (reverse_perm (mgrs.map managerObj)).count_eq part
  simp only [World.covers, count_append, count_cons, map_append, map_cons, map_nil, count_nil,
    map_reverse] at *
  omega

theorem WorldOk.regions_within :
    List.Forall₂ Within (world.regions global mgrs.reverse) (world.covers global mgrs.reverse) := by
  unfold World.regions World.covers
  refine rel_append ?_ (rel_append ?_ (rel_append ?_ ?_))
  · rw [forall₂_map_left_iff, forall₂_map_right_iff, forall₂_same]
    exact fun object member => liveRegion_within (ok.placed object member)
  · rw [forall₂_same]
    exact fun _ _ => ⟨le_rfl, le_rfl⟩
  · rw [forall₂_map_left_iff, forall₂_map_right_iff, forall₂_same]
    intro ptr member
    have there := (allCaches_reverse world.heap global mgrs).subset member
    have large := (ok.store.caches ptr there).shaped.cellSize_pos
    refine ⟨le_rfl, Nat.add_le_add_left ?_ _⟩
    exact le_trans (show cachePageSize ≤ 64 by decide) large
  · exact .cons (static_within global) .nil

theorem WorldOk.regions_apart : (world.regions global mgrs.reverse).Pairwise Apart := by
  have parts := ok.toBase.parts_apart
  rw [ok.covers_perm.pairwise_iff Apart.symm, pairwise_cons] at parts
  exact Lists.pairwise_of_forall₂ (fun _ _ _ _ left right apart => apart.within left right) ok.regions_within parts.2

theorem WorldOk.region_block {region : Nat × Nat} (member : region ∈ world.regions global mgrs.reverse) :
    ∃ block ∈ world.heap.blocks (mgrs ++ [global]) ++ others, Within region (bytes block) := by
  obtain ⟨cover, inside, low, high⟩ := Lists.exists_of_forall₂ ok.regions_within member
  obtain ⟨block, held, low', high'⟩ := ok.toBase.parts_used (ok.covers_perm.symm.subset (mem_cons_of_mem _ inside))
  exact ⟨block, held, low'.trans low, high.trans high'⟩

theorem WorldOk.region_used {region : Nat × Nat} (member : region ∈ world.regions global mgrs.reverse) {addr : Nat}
    (low : region.1 ≤ addr) (high : addr < region.1 + region.2) : used world.heap.alloc (addr / pageSize) := by
  obtain ⟨block, held, low', high'⟩ := ok.region_block member
  obtain ⟨pageLow, pageHigh⟩ := mem_bytes.mp ⟨low'.trans low, high.trans_le high'⟩
  exact ok.store.held block held _ pageLow pageHigh

end Regions

section Dealloc

variable [PageAllocator A] {heap' : Heap A}
theorem DeallocOutcome.pages (base : Base used heap global mgrs objs others) {owner idx slot ptr cell : Nat}
    (member : owner ∈ mgrs ++ [global]) (here : (heap.managers owner).caches[slot]? = some (some ptr))
    (outcome : DeallocOutcome heap global owner idx slot ptr cell heap') :
    heap'.alloc = heap.alloc ∨ ∃ block : Nat × Nat, PageAllocator.freePages heap.alloc block.1 block.2 = .ok heap'.alloc ∧
      (heap.blocks (mgrs ++ [global])).Perm (block :: heap'.blocks (mgrs ++ [global])) := by
  have spec := heap.freedCell_spec global owner idx ptr cell
  cases outcome with
  | kept more => exact .inl spec.alloc
  | released last counted alloc freed =>
    refine .inr ⟨_, freed, ?_⟩
    have released := (heap.freedCell global owner idx ptr cell).released_spec alloc owner idx (by rwa [spec.caches])
    have all := Lists.flatMap_perm_cons base.store.nodup member released.slot fun m other => (released.slots m other).symm
    have blocks : ∀ c, ((heap.freedCell global owner idx ptr cell).caches c).block = (heap.caches c).block := by
      intro c
      rw [spec.page, Function.update_apply]
      split
      · rename_i same
        rw [same]
        rfl
      · rfl
    have before : heap.allCaches (mgrs ++ [global]) = (heap.freedCell global owner idx ptr cell).allCaches (mgrs ++ [global]) :=
      flatMap_congr fun m _ => (spec.cachesOf m).symm
    rw [Heap.blocks, before]
    refine (all.map fun c => (heap.caches c).block).trans ?_
    rw [map_cons]
    refine .cons _ (List.Perm.of_eq ?_)
    exact map_congr_left fun c _ => (blocks c).symm

theorem WorldOk.dealloc_pages (sound : SoundPages used) {live live' : List (Nat × Layout)} {layout : Layout}
    {depth ptr : Nat} (ok : WorldOk used global ⟨heap, live⟩ mgrs objs others) (owns : live.Perm ((ptr, layout) :: live'))
    (run : dealloc (depth + 1) global ptr layout heap = .ok heap') :
    ∃ objs' others', WorldOk used global ⟨heap', live'⟩ mgrs objs' others' ∧
      (heap'.alloc = heap.alloc ∨ ∃ block : Nat × Nat, PageAllocator.freePages heap.alloc block.1 block.2 = .ok heap'.alloc ∧
        (heap.blocks (mgrs ++ [global]) ++ others).Perm (block :: (heap'.blocks (mgrs ++ [global]) ++ others'))) := by
  cases cls : objectClass layout with
  | some entry =>
    obtain ⟨_, owner, member, _, slot, c, here, _, _, outcome⟩ := ok.dealloc_outcome sound owns cls run
    refine ⟨_, others, ok.dealloc_small sound owns cls run, ?_⟩
    refine (outcome.pages ok.toBase member here).imp_right ?_
    rintro ⟨block, freed, perm⟩
    exact ⟨block, freed, perm.append_right others⟩
  | none =>
    obtain ⟨alloc, freed, rfl⟩ := ok.dealloc_large_eq cls run
    refine ⟨objs, _, ok.dealloc_large sound owns cls run, .inr ⟨(ptr / pageSize, _), freed, ?_⟩⟩
    have blocks := owns.filterMap pagesOf
    rw [filterMap_cons_some (show pagesOf (ptr, layout) = some (ptr / pageSize, _) from if_pos cls)] at blocks
    exact ((ok.set.trans (blocks.append_right _)).append_left _).trans perm_middle

end Dealloc

section Safety

variable [PageAllocator A]

/-- Live objects, `CachePage`s and managers do not meet and lie on pages in use; `dealloc` gives back pages that
    hold none of them. -/
theorem live_regions_apart {A : Type} [PageAllocator A] {used : A → Nat → Prop} {global : Nat} (sound : SoundPages used)
    {boot world : World A} (start : Boot used global boot)
    (run : Relation.ReflTransGen (Steps global fun _ _ => True) boot world) :
    ∃ mgrs, Linked (fun mgr => (world.heap.managers mgr).next) (world.heap.managers global).next mgrs ∧
      (world.regions global mgrs).Pairwise Apart ∧
      (∀ region ∈ world.regions global mgrs, ∀ addr, region.1 ≤ addr → addr < region.1 + region.2 →
        used world.heap.alloc (addr / pageSize)) ∧
      ∀ ptr layout world', Step global world (.dealloc ptr layout) world' →
        world'.heap.alloc = world.heap.alloc ∨
        ∃ block : Nat × Nat, PageAllocator.freePages world.heap.alloc block.1 block.2 = .ok world'.heap.alloc ∧
          Linked (fun mgr => (world'.heap.managers mgr).next) (world'.heap.managers global).next mgrs ∧
          ∀ region ∈ world'.regions global mgrs, Apart region (bytes block) := by
  obtain ⟨mgrs, objs, others, ok⟩ := WorldOk.run sound start run
  refine ⟨mgrs.reverse, ok.linked, ok.regions_apart, fun region member addr => ok.region_used member, ?_⟩
  intro ptr layout world' step
  cases step with
  | dealloc depth owns run =>
    obtain ⟨objs', others', after, pages⟩ := ok.dealloc_pages sound owns run
    refine pages.imp_right ?_
    rintro ⟨block, freed, perm⟩
    refine ⟨block, freed, after.linked, fun region member => ?_⟩
    obtain ⟨other, held, within⟩ := after.region_block member
    have apart := ok.store.apart
    rw [perm.pairwise_iff Apart.symm, pairwise_cons] at apart
    exact (apart.1 other held).symm.bytes.within within ⟨le_rfl, le_rfl⟩

theorem soundPages_bump : SoundPages fun (alloc : Bump) page => page ∈ alloc.used where
  fresh alloc count page alloc' run := by
    change Bump.allocPages alloc count = _ at run
    unfold Bump.allocPages at run
    split at run
    · rename_i small
      obtain ⟨⟩ := pure_ok.mp run
      refine ⟨small, fun other old => mem_append_right _ old, fun other low high => ⟨fun old => ?_, ?_⟩⟩
      · have below := alloc.below other old
        omega
      · exact mem_append_left _ (mem_range'_1.mpr ⟨low, high⟩)
    · simp [pure_ok] at run
  freed alloc start count alloc' run other old outside := by
    obtain rfl := pure_ok.mp run
    exact mem_filter.mpr ⟨old, decide_eq_true outside⟩

def bootWorld : World Bump where
  heap :=
    { alloc := ⟨256, [0, 16, 17, 18], by decide⟩
      head := fun _ => 0
      caches := fun ptr => freshCache ptr 0 0
      managers := fun _ => CacheManager.default }
  live := []

def bootAddress : Nat := 16 * pageSize

theorem boot_bootWorld : Boot (fun (alloc : Bump) page => page ∈ alloc.used) bootAddress bootWorld := by
  refine ⟨rfl, rfl, by decide, by decide, ?_⟩
  intro page low high
  have first : (staticPages bootAddress).1 = 16 := by decide
  have count : (staticPages bootAddress).2 = 3 := by decide
  rw [first] at low high
  rw [count] at high
  have three : page = 16 ∨ page = 17 ∨ page = 18 := by omega
  rcases three with rfl | rfl | rfl <;> decide

theorem eight_power : ∃ exponent, 8 = 2 ^ exponent := ⟨3, rfl⟩

def bufferLayout : Layout := ⟨20000, 8, by decide, eight_power, by decide⟩

theorem buffer_step : ∃ ptr heap, Step bootAddress bootWorld (.alloc bufferLayout) ⟨heap, [(ptr, bufferLayout)]⟩ := by
  have returns : passes (alloc 2 bootAddress bufferLayout bootWorld.heap) (fun _ => true) = true := by decide +kernel
  obtain ⟨⟨ptr, heap⟩, called, _⟩ := exists_of_passes returns
  exact ⟨ptr, heap, .alloc 0 called⟩

def threeCalls : Exec (Heap Bump) := do
  let (first, heap) ← alloc 2 bootAddress bufferLayout bootWorld.heap
  let (_, heap) ← alloc 2 bootAddress bufferLayout heap
  dealloc 1 bootAddress first bufferLayout heap

theorem buffers_apart : ∃ (world : World Bump) (mgrs : List Nat),
    Relation.ReflTransGen (Steps bootAddress fun _ _ => True) bootWorld world ∧ world.live.length = 1 ∧
      Linked (fun mgr => (world.heap.managers mgr).next) (world.heap.managers bootAddress).next mgrs ∧
      (world.regions bootAddress mgrs).Pairwise Apart := by
  have returns : threeCalls.isOk = true := by decide +kernel
  cases called : threeCalls with
  | error fault =>
    rw [called] at returns
    cases returns
  | ok last =>
    simp only [threeCalls, bind_ok, Prod.exists] at called
    obtain ⟨first, heap, allocated, second, heap', allocated', freed⟩ := called
    have one : Step bootAddress bootWorld (.alloc bufferLayout) ⟨heap, [(first, bufferLayout)]⟩ := .alloc 0 allocated
    have two : Step bootAddress ⟨heap, [(first, bufferLayout)]⟩ (.alloc bufferLayout)
        ⟨heap', [(second, bufferLayout), (first, bufferLayout)]⟩ := .alloc 0 allocated'
    have three : Step bootAddress ⟨heap', [(second, bufferLayout), (first, bufferLayout)]⟩ (.dealloc first bufferLayout)
        ⟨last, [(second, bufferLayout)]⟩ := .dealloc 0 (List.Perm.swap _ _ _) freed
    have run : Relation.ReflTransGen (Steps bootAddress fun _ _ => True) bootWorld ⟨last, [(second, bufferLayout)]⟩ :=
      ((Relation.ReflTransGen.single ⟨_, trivial, one⟩).tail ⟨_, trivial, two⟩).tail ⟨_, trivial, three⟩
    obtain ⟨mgrs, linked, apart, _⟩ := live_regions_apart soundPages_bump boot_bootWorld run
    exact ⟨_, mgrs, run, rfl, linked, apart⟩

end Safety

end Kernel31.Mcache
