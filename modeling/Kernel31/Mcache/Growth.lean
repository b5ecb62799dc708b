import Kernel31.Mcache.Crowded

namespace Kernel31.Mcache

open Page Checked Relation List Heap

variable {A : Type} {used : A → Nat → Prop} {heap heap' : Heap A}
  {global owner idx c cellSize cellCount depth ptr : Nat} {mgrs : List Nat} {objs others : List (Nat × Nat)}
  {layout : Layout} {live : List (Nat × Layout)}

structure Filled (heap : Heap A) (global : Nat) (mgrs : List Nat) : Prop where
  double : ∀ mgr ∈ mgrs.tail, (heap.cachesOf mgr).length = 2
  full : mgrs.tail ≠ [] → (heap.managers global).usedSlots = slotNum

/-- The number of managers is at most the one of slots full of caches, rounded up, and one more. -/
def ManagersBounded (heap : Heap A) (global : Nat) : Prop :=
  ∃ chain, Linked (fun mgr => (heap.managers mgr).next) (some global) chain ∧
    chain.length ≤ ((heap.allCaches chain).length + slotNum - 1) / slotNum + 1

theorem allCaches_reverse_length (heap : Heap A) (chain : List Nat) :
    (heap.allCaches chain.reverse).length = (heap.allCaches chain).length := by
  rw [allCaches, allCaches, length_flatMap, length_flatMap, map_reverse, sum_reverse]

theorem filled_nil (heap : Heap A) (global : Nat) : Filled heap global [] :=
  ⟨nofun, fun some => absurd rfl some⟩

section

variable (filled : Filled heap global mgrs)
include filled

theorem Filled.count (inv : Inv used heap global mgrs objs others) :
    (heap.allCaches (mgrs ++ [global])).length = 2 * mgrs.tail.length + (heap.managers global).usedSlots := by
  rw [inv.store.counted global mem_concat_self, allCaches,
    flatMap_append, flatMap_singleton, length_append, Nat.add_right_cancel_iff]
  cases mgrs with
  | nil => rfl
  | cons newest older =>
    have two : older.map (fun mgr => (heap.cachesOf mgr).length) = older.map fun _ => 2 :=
      map_congr_left filled.double
    rw [flatMap_cons, (inv.spare newest rfl).1, nil_append, length_flatMap, two, map_const',
      sum_replicate, tail_cons, smul_eq_mul, Nat.mul_comm]

theorem Filled.bounded_iff (inv : Inv used heap global mgrs objs others) : ManagersBounded heap global ↔ mgrs.length ≤ 2 := by
  have count := filled.count inv
  have chain : ManagersBounded heap global ↔
      mgrs.length + 1 ≤ ((heap.allCaches (mgrs ++ [global])).length + slotNum - 1) / slotNum + 1 := by
    have length : (mgrs ++ [global]).reverse.length = mgrs.length + 1 := by simp
    constructor
    · rintro ⟨chain, linked, bound⟩
      obtain rfl := linked.unique inv.forward
      rwa [allCaches_reverse_length, length] at bound
    · intro bound
      exact ⟨_, inv.forward, by rwa [allCaches_reverse_length, length]⟩
  have full := filled.full
  rw [chain, count]
  match mgrs with
  | [] => simp [slotNum]
  | [spare] =>
    have busy := inv.busy (mem_append_right [spare] (mem_singleton_self global)) fun same =>
      inv.toBase.global_not_mem (Option.some.inj same ▸ mem_singleton_self _)
    simp only [tail_cons, length_nil, length_cons, slotNum]
    omega
  | newest :: second :: others =>
    rw [full (cons_ne_nil _ _)]
    simp only [tail_cons, length_cons, slotNum]
    omega

theorem Filled.take (taken : Taken heap heap' global owner idx c) : Filled heap' global mgrs :=
  ⟨fun mgr inside => by rw [taken.cachesOf, filled.double mgr inside],
    fun some => by rw [taken.usedSlots, filled.full some]⟩

theorem Filled.grow (base : Base used heap global mgrs objs others) (first : owner = global)
    (room : (heap.managers global).usedSlots ≠ slotNum) (grown : Grown heap heap' global owner idx c cellSize cellCount) :
    Filled heap' global mgrs := by
  refine ⟨fun mgr inside => ?_, fun some => absurd (filled.full some) room⟩
  have other : mgr ≠ owner := by
    rintro rfl
    exact base.global_not_mem (first ▸ mem_of_mem_tail inside)
  rw [grown.slots mgr other, filled.double mgr inside]

theorem Filled.extend {prepared : Heap A} {new c' : Nat} {objs' objs'' : List (Nat × Nat)}
    (inv : Inv used prepared global (new :: mgrs) objs others) (after : Inv used heap' global (new :: mgrs) objs' others)
    (before : Inv used heap global mgrs objs'' others) (newest : (mgrs ++ [global]).head? = some owner)
    (which : owner = global ∨ (heap.managers global).usedSlots = slotNum)
    (extended : Extended heap prepared global owner new c)
    (grown : Grown prepared heap' global owner idx c' cellSize cellCount) : Filled heap' global (new :: mgrs) := by
  have first : ∀ {mgrs : List Nat}, global ∈ mgrs ++ [global] := mem_concat_self
  have fresh : ∀ mgr ∈ mgrs ++ [global], mgr ≠ new := by
    rintro mgr inside rfl
    exact (nodup_cons.mp inv.store.nodup).1 inside
  have slots : ∀ mgr ∈ mgrs ++ [global], mgr ≠ owner → heap'.cachesOf mgr = heap.cachesOf mgr := fun mgr inside other => by
    rw [grown.slots mgr other, extended.slots mgr other (fresh mgr inside)]
  have notFirst (some : mgrs ≠ []) : owner ≠ global := by
    obtain ⟨head, rest, rfl⟩ := exists_cons_of_ne_nil some
    rintro rfl
    exact before.toBase.global_not_mem (Option.some.inj newest ▸ mem_cons_self)
  constructor
  · intro mgr inside
    rw [tail_cons] at inside
    by_cases at' : mgr = owner
    · rw [at', grown.slot.length_eq, extended.slot]
      rfl
    · rw [slots mgr (mem_append_left _ inside) at']
      refine filled.double mgr ?_
      obtain ⟨head, rest, rfl⟩ := exists_cons_of_ne_nil (ne_nil_of_mem inside)
      exact (mem_cons.mp inside).resolve_left fun same => at' (same.trans (Option.some.inj newest))
  · intro some
    rw [tail_cons] at some
    have full := which.resolve_left (notFirst some)
    rw [after.store.counted global first, slots global first (notFirst some).symm, ← before.store.counted global first, full]

end

def Overflows (heap : Heap A) (global : Nat) (layout : Layout) : Prop :=
  ∃ entry, objectClass layout = some entry ∧ (heap.managers global).usedSlots = slotNum ∧
    heap.partialCache global entry.1.1 entry.2 = none ∧ heap.nexts global entry.2 = none

/-- A new manager after the first cache, and one for each call that the first manager has no slot for. -/
def Adds (heap : Heap A) (global : Nat) (layout : Layout) (mgrs mgrs' : List Nat) : Prop :=
  (mgrs' = mgrs ∧ ¬ Overflows heap global layout) ∨
    ∃ new, mgrs' = new :: mgrs ∧ (mgrs = [] ∨ Overflows heap global layout)

theorem Inv.nextFree_eq_next_iff (inv : Inv used heap global mgrs objs others) (some : mgrs ≠ []) (few : mgrs.length ≤ 2) :
    (heap.managers global).nextFree = (heap.managers global).next ↔ mgrs.length ≤ 1 := by
  have next : (heap.managers global).next = mgrs.reverse.head? := inv.linked.start_eq
  rw [inv.free, next]
  match mgrs with
  | [] => exact absurd rfl some
  | [only] => simp
  | [newest, oldest] =>
    have different : newest ≠ oldest := by
      rintro rfl
      exact (nodup_cons.mp inv.store.nodup).1 mem_cons_self
    simp [different]

theorem Adds.length_le_iff (inv : Inv used heap global mgrs objs others) (few : mgrs.length ≤ 2) {mgrs' : List Nat}
    (adds : Adds heap global layout mgrs mgrs') : mgrs'.length ≤ 2 ↔
      (Overflows heap global layout → (heap.managers global).nextFree = (heap.managers global).next) := by
  rcases adds with ⟨rfl, stays⟩ | ⟨new, rfl, which⟩
  · exact ⟨fun _ overflows => absurd overflows stays, fun _ => few⟩
  · by_cases none : mgrs = []
    · subst none
      refine ⟨fun _ overflows => ?_, fun _ => Nat.le_succ 1⟩
      obtain ⟨_, _, full, _⟩ := overflows
      have unused : (heap.managers global).usedSlots = 0 := (inv.newest_slots rfl).2
      rw [full] at unused
      cases unused
    · have overflows := which.resolve_left none
      rw [length_cons, Nat.succ_le_succ_iff, ← inv.nextFree_eq_next_iff none few]
      exact ⟨fun same _ => same, fun holds => holds overflows⟩

section Calls

variable [PageAllocator A]
theorem Inv.alloc_first (inv : Inv used heap global mgrs objs others)
    (cls : objectClass layout = some ((cellSize, cellCount), idx))
    (found : heap.partialCache global cellSize idx = some c) (depth : Nat) :
    alloc (depth + 2) global layout heap =
      .ok ((heap.caches c).freeListHead + headerSize layout, heap.takeCell global global idx c) := by
  have first : global ∈ mgrs ++ [global] := mem_concat_self
  rw [objectClass, headerSize] at cls
  rw [alloc, headerSize]
  simp only [cls, cacheAlloc_eq (inv.leadsTo first), found]
  rfl

theorem AllocOutcome.filled (sound : SoundPages used) (inv : Inv used heap global mgrs objs others)
    (filled : Filled heap global mgrs) (cls : objectClass layout = some ((cellSize, cellCount), idx))
    (idle : heap.partialCache global cellSize idx = none)
    (outcome : AllocOutcome used heap global mgrs objs others cellSize cellCount idx (headerSize layout) (.ok (ptr, heap'))) :
    ∃ mgrs' objs', Inv used heap' global mgrs' objs' others ∧ Filled heap' global mgrs' ∧ Adds heap global layout mgrs mgrs' := by
  have size := mem_of_getElem? (sizeToClass_some cls).1
  have same {entry} (found : objectClass layout = some entry) : entry = ((cellSize, cellCount), idx) :=
    Option.mem_unique found cls
  cases outcome with
  | taken mgr c member found which =>
    obtain ⟨_, slot, _, free⟩ := partialCache_some found
    have spec := heap.takeCell_spec global mgr idx c
    refine ⟨mgrs, _, inv.take member slot free spec, filled.take spec, .inl ⟨rfl, ?_⟩⟩
    rintro ⟨entry, found', _, _, unlisted⟩
    rw [same found'] at unlisted
    rcases which with rfl | listed
    · rw [idle] at found
      cases found
    · rw [listed] at unlisted
      cases unlisted
  | grown mgr news prepared c after which grower prep allocated =>
    have grown := prep.inv.toBase.grown_spec idx sound prep.member prep.room size allocated
    have after' := prep.inv.grow sound prep.member prep.older prep.room prep.few size idx allocated
    have inv' := prep.inv
    have older := prep.older
    rcases prep.how with ⟨rfl, rfl⟩ | ⟨new, c', rfl, newest, extended⟩
    · have first : mgr = global ∧ (prepared.managers global).usedSlots ≠ slotNum := by
        refine grower.resolve_right fun head => older ?_
        rw [nil_append, head?_append, head]
        rfl
      refine ⟨mgrs, _, after', filled.grow inv.toBase first.1 first.2 grown, .inl ⟨rfl, ?_⟩⟩
      rintro ⟨_, _, full, _⟩
      exact first.2 full
    · refine ⟨new :: mgrs, _, after',
        filled.extend inv' after' inv newest (which.imp_right And.left) extended grown, .inr ⟨new, rfl, ?_⟩⟩
      rcases which with first | ⟨full, unlisted⟩
      · left
        by_contra some
        obtain ⟨head, rest, rfl⟩ := exists_cons_of_ne_nil some
        exact inv.toBase.global_not_mem (first ▸ Option.some.inj newest ▸ mem_cons_self)
      · exact .inr ⟨_, cls, full, idle, unlisted⟩

theorem Filled.step (sound : SoundPages used) {world world' : World A} (ok : WorldOk used global world mgrs objs others)
    (filled : Filled world.heap global mgrs) (step : Step global world (.alloc layout) world') :
    ∃ mgrs' objs' others', WorldOk used global world' mgrs' objs' others' ∧ Filled world'.heap global mgrs' ∧
      Adds world.heap global layout mgrs mgrs' := by
  cases step with
  | @alloc heap heap' live layout ptr depth run =>
    cases cls : objectClass layout with
    | some entry =>
      obtain ⟨mgrs', objs', after⟩ := ok.alloc_small sound cls run
      cases found : heap.partialCache global entry.1.1 entry.2 with
      | some c =>
        obtain ⟨_, slot, _, free⟩ := partialCache_some found
        have member : global ∈ mgrs ++ [global] := mem_concat_self
        have spec := heap.takeCell_spec global global entry.2 c
        rw [ok.toInv.alloc_first cls found depth] at run
        obtain ⟨_, rfl⟩ := Prod.mk.inj (Except.ok.inj run)
        obtain rfl := (ok.toInv.take member slot free spec).mgrs_unique after.toInv
        refine ⟨mgrs, objs', others, after, filled.take spec, .inl ⟨rfl, ?_⟩⟩
        rintro ⟨entry', found', _, idle, _⟩
        obtain rfl := Option.mem_unique found' cls
        rw [found] at idle
        cases idle
      | none =>
        have outcome := ok.toInv.alloc_outcome sound cls depth
        rw [run] at outcome
        obtain ⟨mgrs'', objs'', inv, kept, adds⟩ := outcome.filled sound ok.toInv filled cls found
        obtain rfl := inv.mgrs_unique after.toInv
        exact ⟨mgrs'', objs', others, after, kept, adds⟩
    | none =>
      obtain ⟨others', after⟩ := ok.alloc_large sound cls run
      obtain ⟨pages, rfl⟩ := alloc_large_heap cls run
      refine ⟨mgrs, objs, others', after, ⟨filled.double, filled.full⟩, .inl ⟨rfl, ?_⟩⟩
      rintro ⟨entry, found, _⟩
      rw [cls] at found
      cases found

theorem WorldOk.keeps_caches (sound : SoundPages used) {world world' : World A}
    (ok : WorldOk used global world mgrs objs others) (step : Step global world (.alloc layout) world')
    {mgr : Nat} (member : mgr ∈ mgrs ++ [global]) (slot : c ∈ world.heap.cachesOf mgr) :
    c ∈ world'.heap.cachesOf mgr := by
  cases step with
  | @alloc heap heap' live layout ptr depth run =>
    cases cls : objectClass layout with
    | some entry =>
      have outcome := ok.toInv.alloc_outcome sound cls depth
      rw [run] at outcome
      exact (outcome.keeps sound ok.toInv (mem_of_getElem? (sizeToClass_some cls).1) member slot).1
    | none =>
      obtain ⟨pages, rfl⟩ := alloc_large_heap cls run
      exact slot

/-- Nothing is freed, and a call that the first manager has no slot for finds its own successor at the head of the
    list of those with one. -/
def SpareCall (global : Nat) (world : World A) : Call → Prop
  | .alloc layout => Overflows world.heap global layout →
      (world.heap.managers global).nextFree = (world.heap.managers global).next
  | .dealloc _ _ => False

/-- A further allocation keeps to the bound exactly if it is another such call. No allocation takes a cache out of
    its slot. -/
theorem managers_bounded_iff {A : Type} [PageAllocator A] {used : A → Nat → Prop} {global : Nat} (sound : SoundPages used)
    {boot world : World A} (start : Boot used global boot)
    (run : ReflTransGen (Steps global (SpareCall global)) boot world) :
    ManagersBounded world.heap global ∧ ∀ layout world', Step global world (.alloc layout) world' →
      (ManagersBounded world'.heap global ↔ SpareCall global world (.alloc layout)) ∧
      ∀ chain, Linked (fun mgr => (world.heap.managers mgr).next) (some global) chain →
        ∀ mgr ∈ chain, ∀ cache ∈ world.heap.cachesOf mgr, cache ∈ world'.heap.cachesOf mgr := by
  obtain ⟨mgrs, objs, others, ok, filled, few⟩ := Runs.preserved
    (fun world => ∃ mgrs objs others, WorldOk used global world mgrs objs others ∧ Filled world.heap global mgrs ∧
      mgrs.length ≤ 2)
    (by
      rintro before after ⟨mgrs, objs, others, ok, filled, few⟩ ⟨call, spare, step⟩
      cases call with
      | alloc layout =>
        obtain ⟨mgrs', objs', others', ok', filled', adds⟩ := filled.step sound ok step
        exact ⟨mgrs', objs', others', ok', filled', (adds.length_le_iff ok.toInv few).mpr spare⟩
      | dealloc ptr layout => exact spare.elim)
    ⟨_, _, _, start.ok, filled_nil _ _, Nat.zero_le 2⟩ run
  refine ⟨(filled.bounded_iff ok.toInv).mpr few, fun layout world' step => ?_⟩
  obtain ⟨mgrs', objs', others', ok', filled', adds⟩ := filled.step sound ok step
  refine ⟨?_, fun chain linked mgr inside cache => ?_⟩
  · rw [filled'.bounded_iff ok'.toInv]
    exact adds.length_le_iff ok.toInv few
  · obtain rfl := linked.unique ok.forward
    exact ok.keeps_caches sound step (mem_reverse.mp inside)

end Calls

theorem buffer_managers_bounded : ∃ world : World Bump,
    ReflTransGen (Steps bootAddress (SpareCall bootAddress)) bootWorld world ∧ world.live.length = 1 ∧
      ManagersBounded world.heap bootAddress := by
  obtain ⟨ptr, heap, step⟩ := buffer_step
  have spare : SpareCall bootAddress bootWorld (.alloc bufferLayout) := by
    rintro ⟨_, _, full, _⟩
    exact absurd full (by decide)
  have run := ReflTransGen.single (r := Steps bootAddress (SpareCall bootAddress)) ⟨_, spare, step⟩
  exact ⟨_, run, rfl, (managers_bounded_iff soundPages_bump boot_bootWorld run).1⟩

def AllocCall (_ : World Bump) (call : Call) : Prop := ∃ layout, call = .alloc layout

theorem bufferLayout_class : objectClass bufferLayout = some ((32 * 1024, 8), 9) := by decide

theorem Crowded.twice {world : World Bump} (crowded : Crowded world global mgrs objs others)
    (full : (world.heap.managers global).usedSlots = slotNum) (untouched : Untouched world.heap global 9) :
    ∃ middle last, Overflows world.heap global bufferLayout ∧ Step global world (.alloc bufferLayout) middle ∧
      Overflows middle.heap global largeLayout ∧ Step global middle (.alloc largeLayout) last := by
  obtain ⟨heap, live⟩ := world
  have idle := untouched.idle (32 * 1024) global (.inl rfl)
  obtain ⟨mgr, news, prepared, c, after, other, newest, prep, allocated, run, full', next⟩ :=
    crowded.overflow full bufferLayout_class idle untouched.2
  have size : (32 * 1024, 8) ∈ cacheSize := by decide
  have first : global ∈ mgrs ++ [global] := mem_concat_self
  have grown := prep.inv.toBase.grown_spec 9 soundPages_bump prep.member prep.room size allocated
  obtain ⟨mgrs', objs', ok⟩ := crowded.toWorldOk.alloc_small soundPages_bump bufferLayout_class run
  have none := (crowded.full.prepared crowded.toInv prep first).grown prep.inv prep.member prep.room size 9 allocated
  have unlisted : (after.grown global mgr 9 c).nexts global 13 = Option.none := by
    have before := prep.nexts_large.trans crowded.unlisted
    rw [grown.nexts]
    simp [before]
  have nothing : ∀ mgr', mgr' = global ∨ (after.grown global mgr 9 c).nexts global 13 = some mgr' →
      (after.grown global mgr 9 c).partialCache mgr' largeCell 13 = Option.none := by
    rintro mgr' (rfl | listed)
    · exact none.partialCache
    · exact absurd (unlisted.symm.trans listed) (Option.some_ne_none mgr').symm
  rcases bump_alloc ok.toInv next largeLayout_class nothing with ⟨_, _, _, _, _, _, _, _, _, run'⟩ | ⟨listed, _⟩
  · exact ⟨_, _, ⟨_, bufferLayout_class, full, idle, untouched.2⟩, .alloc 0 run,
      ⟨_, largeLayout_class, full', none.partialCache, unlisted⟩, .alloc 0 run'⟩
  · exact absurd unlisted listed

theorem filled_of_allocs {world : World Bump} (run : ReflTransGen (Steps bootAddress AllocCall) bootWorld world) :
    ∃ mgrs objs others, WorldOk bumpUsed bootAddress world mgrs objs others ∧ Filled world.heap bootAddress mgrs := by
  refine Runs.preserved (fun world => ∃ mgrs objs others, WorldOk bumpUsed bootAddress world mgrs objs others ∧
    Filled world.heap bootAddress mgrs) ?_ ⟨_, _, _, boot_bootWorld.ok, filled_nil _ _⟩ run
  rintro before after ⟨mgrs, objs, others, ok, filled⟩ ⟨call, ⟨layout, rfl⟩, step⟩
  obtain ⟨mgrs', objs', others', ok', filled', _⟩ := filled.step soundPages_bump ok step
  exact ⟨mgrs', objs', others', ok', filled'⟩

/-- With the first manager full, a buffer and a large object each make a manager: four for little more than 1024
    caches. -/
theorem managers_exceed_bound : ∃ world : World Bump,
    ReflTransGen (Steps bootAddress AllocCall) bootWorld world ∧
      ∃ chain, Linked (fun mgr => (world.heap.managers mgr).next) (some bootAddress) chain ∧
        ((world.heap.allCaches chain).length + slotNum - 1) / slotNum + 1 < chain.length := by
  obtain ⟨full, mgrs, objs, run, crowded, slots, kept⟩ := crowded_bootWorld.fill
  obtain ⟨middle, last, overflows, step, overflows', step'⟩ :=
    crowded.twice slots (kept 9 (by decide) (by decide) ⟨rfl, rfl⟩)
  have allocs : ReflTransGen (Steps bootAddress AllocCall) bootWorld full :=
    Steps.weaken (fun _ _ large => ⟨_, large⟩) run
  have run' := (allocs.tail ⟨_, ⟨_, rfl⟩, step⟩).tail ⟨_, ⟨_, rfl⟩, step'⟩
  obtain ⟨mgrs, objs, others, ok, filled⟩ := filled_of_allocs allocs
  obtain ⟨mgrs', objs', others', ok', filled', adds⟩ := filled.step soundPages_bump ok step
  obtain ⟨mgrs'', objs'', others'', ok'', filled'', adds'⟩ := filled'.step soundPages_bump ok' step'
  have many : ¬ mgrs''.length ≤ 2 := by
    obtain ⟨new, rfl, _⟩ := adds.resolve_left fun stays => stays.2 overflows
    obtain ⟨new', rfl, _⟩ := adds'.resolve_left fun stays => stays.2 overflows'
    have some : mgrs ≠ [] := by
      rintro rfl
      have unused : (full.heap.managers bootAddress).usedSlots = 0 := (ok.toInv.newest_slots rfl).2
      rw [slots] at unused
      cases unused
    have positive := length_pos_iff.mpr some
    simp only [length_cons]
    omega
  refine ⟨last, run', _, ok''.forward, Nat.lt_of_not_le fun bound => many ?_⟩
  exact (filled''.bounded_iff ok''.toInv).mp ⟨_, ok''.forward, bound⟩

end Kernel31.Mcache
