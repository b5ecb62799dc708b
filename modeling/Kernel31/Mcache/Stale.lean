import Kernel31.Mcache.Crowded

namespace Kernel31.Mcache

open Page Checked List

section Clean

variable {A : Type} {used : A → Nat → Prop} {global : Nat} {heap heap' : Heap A} {mgrs : List Nat}
variable {objs others : List (Nat × Nat)}

/-- With the first manager full no object of the largest class is allocated; the last object of a cache of another
    manager is freed only if that manager has a free cell of the class elsewhere. -/
def CleanCall (global : Nat) (world : World A) : Call → Prop
  | .alloc layout => ∀ entry, objectClass layout = some entry → (world.heap.managers global).usedSlots = slotNum →
      2 < entry.1.2
  | .dealloc ptr layout =>
      let mgr := world.heap.head (ptr - headerSize layout)
      objectClass layout ≠ none → mgr ≠ global → ∀ cache ∈ world.heap.cachesOf mgr,
        (world.heap.caches cache).inRange (ptr - headerSize layout) = true → (world.heap.caches cache).usedCount = 1 →
        ∃ other ∈ world.heap.cachesOf mgr, other ≠ cache ∧
          (world.heap.caches other).cellSize = (world.heap.caches cache).cellSize ∧
          (world.heap.caches other).freeCount ≠ 0

variable [PageAllocator A]

theorem PartialLists.step (sound : SoundPages used) {world world' : World A} {call : Call}
    (ok : WorldOk used global world mgrs objs others) (lists : PartialLists world.heap global mgrs)
    (clean : CleanCall global world call) (step : Step global world call world') :
    ∃ mgrs' objs' others', WorldOk used global world' mgrs' objs' others' ∧ PartialLists world'.heap global mgrs' := by
  cases step with
  | @alloc heap heap' live layout ptr depth run =>
    cases cls : objectClass layout with
    | some entry =>
      obtain ⟨mgrs', objs', after⟩ := ok.alloc_small sound cls run
      have outcome := ok.toInv.alloc_outcome sound cls depth
      rw [run] at outcome
      obtain ⟨mgrs'', objs'', inv, kept⟩ := outcome.lists sound ok.toInv lists (sizeToClass_some cls).1 (clean entry cls)
      obtain rfl := inv.mgrs_unique after.toInv
      exact ⟨mgrs'', objs', others, after, kept⟩
    | none =>
      obtain ⟨others', after⟩ := ok.alloc_large sound cls run
      obtain ⟨pages, rfl⟩ := alloc_large_heap cls run
      exact ⟨mgrs, objs, others', after, lists.counted, lists.enrolled⟩
  | @dealloc heap heap' live live' layout ptr depth owns run =>
    cases cls : objectClass layout with
    | some entry =>
      have after := ok.dealloc_small sound owns cls run
      obtain ⟨taken, owner, member, place, slot, c, here, inside, size, outcome⟩ := ok.dealloc_outcome sound owns cls run
      have inSlot : c ∈ heap.cachesOf owner := reduceOption_mem_iff.mpr (mem_of_getElem? here)
      have spec := heap.freedCell_spec global owner entry.2 c (ptr - headerSize layout)
      have base := ok.toBase.give member inSlot inside taken (managerObj_mem live') spec
      refine ⟨mgrs, _, others, after, outcome.lists ok.toInv lists member here ?_ ?_ base⟩
      · rw [(sizeToClass_some cls).1, size]
        rfl
      · by_cases first : owner = global
        · exact .inl first
        · by_cases last : (heap.caches c).usedCount = 1
          · rw [place] at first inSlot ⊢
            exact .inr (.inr (clean (by rw [cls]; exact Option.some_ne_none _) first c inSlot inside last))
          · exact .inr (.inl last)
    | none =>
      have after := ok.dealloc_large sound owns cls run
      obtain ⟨alloc, _, rfl⟩ := ok.dealloc_large_eq cls run
      exact ⟨mgrs, objs, _, after, lists.counted, lists.enrolled⟩

omit [PageAllocator A] in
theorem Boot.lists {world : World A} (boot : Boot used global world) : PartialLists world.heap global [] := by
  refine ⟨by simp, fun idx => ⟨[], ?_, .nil, by simp⟩⟩
  change (world.heap.managers global).nextPartialFree idx = none
  rw [boot.manager]
  rfl

def PagesFail (alloc : A) (fault : Fault) : Prop :=
  ∃ before count, OneCall alloc before ∧ allocPages before count = .error fault

omit [PageAllocator A] in
theorem partialCache_ne_none {mgr cellSize idx ptr : Nat} (counted : heap.counts mgr idx ≠ 0)
    (slot : ptr ∈ heap.cachesOf mgr) (size : (heap.caches ptr).cellSize = cellSize) (free : (heap.caches ptr).freeCount ≠ 0) :
    heap.partialCache mgr cellSize idx ≠ none := by
  rw [Heap.partialCache, if_neg counted, Ne, find?_eq_none]
  intro nothing
  exact nothing ptr slot (decide_eq_true ⟨size, free⟩)

theorem PartialLists.alloc_error (sound : SoundPages used) (inv : Inv used heap global mgrs objs others)
    (lists : PartialLists heap global mgrs) {layout : Layout} {depth : Nat} {fault : Fault}
    (run : alloc (depth + 2) global layout heap = .error fault) : PagesFail heap.alloc fault := by
  cases cls : objectClass layout with
  | some entry =>
    have outcome := inv.alloc_outcome sound cls depth
    rw [run] at outcome
    cases outcome with
    | failed _ before entry' pages member failure =>
      exact ⟨before.alloc, _, pages, CachePage.allocate_error sound member failure⟩
    | stale next full listed nothing =>
      -- The first manager of the list has a cache with a free cell.
      obtain ⟨inside, counted⟩ := (lists.enrolled entry.2).start_has listed
      have some := counted
      rw [lists.counted next inside, partialsOf_ne_zero] at some
      obtain ⟨c, slot, isPartial⟩ := some
      obtain ⟨size, free⟩ := isPartial_iff.mp isPartial
      rw [(sizeToClass_some cls).1] at size
      exact absurd nothing (partialCache_ne_none counted slot (Option.some.inj size).symm free)
  | none =>
    have positive : 0 < (layout.size + pageSize - 1) / pageSize := by
      have size := layout.positive
      rw [pageSize_eq]
      omega
    rw [alloc_large_eq cls] at run
    rcases bind_error.mp run with failed | ⟨result, allocated, rest⟩
    · exact ⟨heap.alloc, _, .inl rfl, failed⟩
    · rw [pageAddress_fresh sound positive allocated] at rest
      cases rest

/-- The list of a size class holds each manager with a free cell of the class once and no other, and an allocation
    fails only where the page allocator does. -/
theorem partial_lists_exact (sound : SoundPages used) {boot world : World A} (start : Boot used global boot)
    (run : Relation.ReflTransGen (Steps global (CleanCall global)) boot world) :
    ∃ mgrs, Linked (fun mgr => (world.heap.managers mgr).next) (world.heap.managers global).next mgrs ∧
      (∀ idx, Enrolled (fun mgr => (world.heap.managers mgr).nextPartialFree idx)
        ((world.heap.managers global).nextPartialFree idx) fun mgr =>
          mgr ∈ mgrs ∧ ∃ ptr ∈ world.heap.cachesOf mgr, world.heap.isPartial idx ptr = true) ∧
      ∀ depth layout fault, alloc (depth + 2) global layout world.heap = .error fault →
        PagesFail world.heap.alloc fault := by
  obtain ⟨mgrs, objs, others, ok, lists⟩ := Runs.preserved
    (fun world => ∃ mgrs objs others, WorldOk used global world mgrs objs others ∧ PartialLists world.heap global mgrs)
    (by
      rintro before after ⟨mgrs, objs, others, ok, lists⟩ ⟨call, clean, step⟩
      exact lists.step sound ok clean step)
    ⟨_, _, _, start.ok, start.lists⟩ run
  refine ⟨mgrs.reverse, ok.linked, fun idx => ?_, fun depth layout fault => lists.alloc_error sound ok.toInv⟩
  refine (lists.enrolled idx).congr rfl (fun _ _ => rfl) fun mgr => ?_
  rw [mem_reverse]
  refine and_congr_right fun inside => ?_
  rw [lists.counted mgr inside, partialsOf_ne_zero]

end Clean

theorem buffer_lists_exact : ∃ world : World Bump,
    Relation.ReflTransGen (Steps bootAddress (CleanCall bootAddress)) bootWorld world ∧ world.live.length = 1 ∧
      ∃ mgrs, Linked (fun mgr => (world.heap.managers mgr).next) (world.heap.managers bootAddress).next mgrs ∧
        ∀ idx, Enrolled (fun mgr => (world.heap.managers mgr).nextPartialFree idx)
          ((world.heap.managers bootAddress).nextPartialFree idx) fun mgr =>
            mgr ∈ mgrs ∧ ∃ ptr ∈ world.heap.cachesOf mgr, world.heap.isPartial idx ptr = true := by
  obtain ⟨ptr, heap, step⟩ := buffer_step
  have clean : CleanCall bootAddress bootWorld (.alloc bufferLayout) := fun _ _ full => absurd full (by decide)
  have run := Relation.ReflTransGen.single (r := Steps bootAddress (CleanCall bootAddress)) ⟨_, clean, step⟩
  obtain ⟨mgrs, linked, enrolled, _⟩ := partial_lists_exact soundPages_bump boot_bootWorld run
  exact ⟨_, run, rfl, mgrs, linked, enrolled⟩

section Panic

variable {global : Nat} {mgrs : List Nat} {objs others : List (Nat × Nat)}

theorem Crowded.panics {world : World Bump} (crowded : Crowded world global mgrs objs others)
    (full : (world.heap.managers global).usedSlots = slotNum) :
    ∃ world', Steps global (fun _ _ => True) world world' ∧
      alloc 2 global largeLayout world'.heap = .error .unwrapNone ∧ world'.heap.alloc.next + 288 ≤ 2 ^ 52 := by
  obtain ⟨heap, live⟩ := world
  have first : ∀ {mgrs : List Nat}, global ∈ mgrs ++ [global] := mem_concat_self
  obtain ⟨mgr, news, prepared, c, after, other, newest, prep, allocated, run, full', next⟩ :=
    crowded.overflow full largeLayout_class crowded.full.partialCache crowded.unlisted
  have inside : mgr ∈ news ++ mgrs :=
    (mem_append.mp prep.member).resolve_right fun only => other (mem_singleton.mp only)
  obtain ⟨empty, zero⟩ := crowded.spare mgr newest
  have size : (largeCell, 2) ∈ cacheSize := by decide
  have grown := prep.inv.toBase.grown_spec 13 soundPages_bump prep.member prep.room size allocated
  obtain ⟨mgrs', objs', ok⟩ := crowded.toWorldOk.alloc_small soundPages_bump largeLayout_class run
  have listed : (after.grown global mgr 13 c).nexts global 13 = some mgr := by
    have counts : prepared.counts mgr 13 = 0 := by
      have older := prep.older
      have nodup := prep.inv.store.nodup
      rcases prep.how with ⟨_, rfl⟩ | ⟨new, ptr, rfl, _, extended⟩
      · exact absurd newest older
      · have different : mgr ≠ new := by
          rintro rfl
          exact (nodup_cons.mp nodup).1 (mem_of_mem_head? newest)
        rw [extended.counts mgr 13 different, if_neg fun both => absurd both.2 (by decide), zero]
    rw [grown.nexts, if_pos ⟨(prep.inv.prev_ne_none_iff prep.member).mpr inside, counts⟩, if_pos ⟨rfl, rfl⟩, nonNull,
      if_neg (prep.inv.bounded prep.member).1.ne']
  refine ⟨_, ⟨_, trivial, .alloc 0 run⟩, ?_, next⟩
  have none : NoLargeCell heap mgr := fun c slot => by
    rw [empty] at slot
    cases slot
  have kept : ∀ other ∈ mgrs ++ [global], NoLargeCell heap other → NoLargeCell (after.grown global mgr 13 c) other :=
    fun other inside full => (full.prepared crowded.toInv prep inside).grown prep.inv prep.member prep.room size 13 allocated
  have idle : ∀ mgr', mgr' = global ∨ (after.grown global mgr 13 c).nexts global 13 = some mgr' →
      (after.grown global mgr 13 c).partialCache mgr' largeCell 13 = Option.none := by
    rintro mgr' (rfl | there)
    · exact (kept _ first crowded.full).partialCache
    · obtain rfl := Option.mem_unique listed there
      exact (kept _ (mem_of_mem_head? newest) none).partialCache
  rcases bump_alloc ok.toInv next largeLayout_class idle with ⟨mgr', _, _, _, _, which, _, prep', _⟩ | ⟨_, panics⟩
  · rcases which with same | ⟨_, nothing⟩
    · exact absurd same (prep'.ne_global ok.toInv full')
    · rw [listed] at nothing
      cases nothing
  · exact panics

/-- The list of a class leads to a manager without a free cell, and `alloc` panics although 256 pages are free. -/
theorem large_objects_unwrap_none : ∃ world : World Bump,
    Relation.ReflTransGen (Steps bootAddress fun _ _ => True) bootWorld world ∧
      alloc 2 bootAddress largeLayout world.heap = .error .unwrapNone ∧
      ∃ result, allocPages world.heap.alloc 256 = .ok result := by
  obtain ⟨filled, mgrs, objs, run, crowded, full, _⟩ := crowded_bootWorld.fill
  obtain ⟨world, step, panics, room⟩ := crowded.panics full
  exact ⟨world, (Steps.weaken (fun _ _ _ => trivial) run).tail step, panics, bump_room (by omega)⟩

end Panic

end Kernel31.Mcache
