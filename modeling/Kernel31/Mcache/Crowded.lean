import Kernel31.Mcache.PartialLists
import Kernel31.Mcache.Regions

namespace Kernel31.Mcache

open Page Checked List CachePage

variable {mgr cellSize cellCount idx : Nat} {news : List Nat} {world : World Bump}

theorem Store.usedSlots_le {A : Type} {inUse : Nat → Prop} {heap : Heap A} {chain owned : List Nat}
    {others : List (Nat × Nat)} (store : Store inUse heap chain owned others) (member : mgr ∈ chain) :
    (heap.managers mgr).usedSlots ≤ slotNum := by
  rw [store.counted mgr member, ← store.slots mgr member]
  exact reduceOption_length_le _

section Crowded

def largeLayout : Layout := ⟨500000, 8, by decide, eight_power, by decide⟩

def largeCell : Nat := 512 * 1024

theorem largeLayout_class : objectClass largeLayout = some ((largeCell, 2), 13) := by decide

variable {heap heap' : Heap Bump} {global : Nat} {mgrs : List Nat} {objs others : List (Nat × Nat)} {live : List (Nat × Layout)}

abbrev bumpUsed (alloc : Bump) (page : Nat) : Prop := page ∈ alloc.used

theorem bump_allocPages {alloc alloc' : Bump} {count page : Nat} (run : allocPages alloc count = .ok (page, alloc')) :
    alloc'.next = alloc.next + count := by
  have given : Bump.allocPages alloc count = .ok (.ok page, alloc') := allocPages_ok.mp run
  unfold Bump.allocPages at given
  split at given
  · obtain ⟨_, rfl⟩ := Prod.mk.inj (pure_ok.mp given)
    rfl
  · simp [pure_ok] at given

theorem bump_room {alloc : Bump} {count : Nat} (room : alloc.next + count ≤ 2 ^ 52) :
    ∃ result, allocPages alloc count = .ok result := by
  have given : ∃ after, Bump.allocPages alloc count = .ok (.ok alloc.next, after) :=
    ⟨_, by rw [Bump.allocPages, if_pos room]; rfl⟩
  obtain ⟨after, given⟩ := given
  exact ⟨_, allocPages_ok.mpr given⟩

theorem OneCall.next_le {alloc before : Bump} (pages : OneCall alloc before) : before.next ≤ alloc.next + 32 := by
  rcases pages with rfl | ⟨page, run⟩
  · omega
  · rw [bump_allocPages run]
    exact le_rfl

theorem bump_alloc (inv : Inv bumpUsed heap global mgrs objs others) (room : heap.alloc.next + 288 ≤ 2 ^ 52)
    {layout : Layout} (cls : objectClass layout = some ((cellSize, cellCount), idx))
    (idle : ∀ mgr, mgr = global ∨ heap.nexts global idx = some mgr → heap.partialCache mgr cellSize idx = none) :
    (∃ mgr news prepared c after,
      (mgr = global ∨ ((heap.managers global).usedSlots = slotNum ∧ heap.nexts global idx = none)) ∧
      Grower heap global mgrs mgr ∧ Prepared bumpUsed heap prepared global mgr mgrs news objs others ∧
      allocate cellSize cellCount prepared = .ok (c, after) ∧
      alloc 2 global layout heap = .ok (c + cellSize + headerSize layout, after.grown global mgr idx c)) ∨
    (heap.nexts global idx ≠ none ∧ alloc 2 global layout heap = .error .unwrapNone) := by
  have outcome := inv.alloc_outcome soundPages_bump cls 0
  generalize alloc (0 + 2) global layout heap = result at outcome ⊢
  cases outcome with
  | taken mgr ptr member found which =>
    rw [idle mgr which] at found
    cases found
  | grown mgr news prepared c after which grower prep allocated =>
    exact .inl ⟨mgr, news, prepared, c, after, which, grower, prep, allocated, rfl⟩
  | failed fault before entry pages member failure =>
    have failed := allocate_error soundPages_bump member failure
    have small : ∀ entry ∈ cacheSize, entry.2 * entry.1 / pageSize ≤ 256 := by decide
    have bound := pages.next_le
    have fits : before.alloc.next + entry.2 * entry.1 / pageSize ≤ 2 ^ 52 := by
      have count := small entry member
      omega
    obtain ⟨result, given⟩ := bump_room fits
    rw [given] at failed
    cases failed
  | stale next full listed nothing =>
    refine .inr ⟨?_, rfl⟩
    rw [listed]
    exact Option.some_ne_none next

def NoLargeCell (heap : Heap Bump) (mgr : Nat) : Prop :=
  ∀ c ∈ heap.cachesOf mgr, (heap.caches c).cellSize = largeCell → (heap.caches c).freeCount = 0

theorem NoLargeCell.partialCache (full : NoLargeCell heap mgr) : heap.partialCache mgr largeCell 13 = none := by
  cases found : heap.partialCache mgr largeCell 13 with
  | none => rfl
  | some c =>
    obtain ⟨_, slot, size, free⟩ := partialCache_some found
    exact absurd (full c slot size) free

theorem NoLargeCell.grown {prepared after : Heap Bump} {c : Nat}
    (inv : Inv bumpUsed prepared global mgrs objs others) (member : mgr ∈ mgrs ++ [global])
    (room : (prepared.managers mgr).usedSlots ≠ slotNum) (size : (cellSize, cellCount) ∈ cacheSize) (idx : Nat)
    (allocated : allocate cellSize cellCount prepared = .ok (c, after)) {other : Nat}
    (full : NoLargeCell prepared other) : NoLargeCell (after.grown global mgr idx c) other := by
  have grown := inv.toBase.grown_spec idx soundPages_bump member room size allocated
  obtain ⟨_, _, fresh, _⟩ := inv.store.allocate soundPages_bump inv.null size allocated
  intro c' slot same
  by_cases new : c' = c
  · have two : ∀ entry ∈ cacheSize, entry.1 = largeCell → entry.2 - 2 = 0 := by decide
    rw [new] at same ⊢
    rw [grown.page.1] at same
    rw [grown.page.2]
    exact two _ size same
  · rw [grown.pages c' new] at same ⊢
    refine full c' ?_ same
    by_cases at' : other = mgr
    · rw [at'] at slot ⊢
      exact (mem_cons.mp (grown.slot.subset slot)).resolve_left new
    · rwa [← grown.slots other at']

theorem NoLargeCell.prepared {prepared : Heap Bump} (inv : Inv bumpUsed heap global mgrs objs others)
    (prep : Prepared bumpUsed heap prepared global mgr mgrs news objs others) {other : Nat}
    (inside : other ∈ mgrs ++ [global]) (full : NoLargeCell heap other) : NoLargeCell prepared other := by
  have after := prep.inv
  rcases prep.how with ⟨rfl, _⟩ | ⟨new, ptr, rfl, newest, extended⟩
  · exact full
  · have member := mem_of_mem_head? newest
    have different : other ≠ new := by
      rintro rfl
      exact (nodup_cons.mp after.store.nodup).1 inside
    intro c slot same
    by_cases at' : other = mgr
    · rw [at', extended.slot, mem_singleton] at slot
      rw [slot, extended.page.1] at same
      exact absurd same (by decide)
    · have old : c ≠ ptr := by
        rintro rfl
        refine after.store.not_mem_cachesOf (mem_cons_of_mem _ member) ?_ (mem_cons_of_mem _ inside) at' slot
        rw [extended.slot]
        exact mem_singleton_self c
      rw [extended.slots other at' different] at slot
      rw [extended.pages c old] at same ⊢
      exact full c slot same

theorem Prepared.nexts_large {prepared : Heap Bump}
    (prep : Prepared bumpUsed heap prepared global mgr mgrs news objs others) :
    prepared.nexts global 13 = heap.nexts global 13 := by
  have after := prep.inv
  rcases prep.how with ⟨rfl, _⟩ | ⟨new, ptr, rfl, newest, extended⟩
  · rfl
  · have different : global ≠ new := by
      rintro rfl
      exact (nodup_cons.mp after.store.nodup).1 (mem_append_right _ (mem_singleton_self _))
    rw [extended.nexts global 13 different]
    simp

theorem Prepared.slots_le {prepared : Heap Bump} (inv : Inv bumpUsed heap global mgrs objs others)
    (prep : Prepared bumpUsed heap prepared global mgr mgrs news objs others) :
    (heap.managers global).usedSlots ≤ (prepared.managers global).usedSlots := by
  have first : global ∈ mgrs ++ [global] := mem_concat_self
  have first' : global ∈ news ++ mgrs ++ [global] := mem_concat_self
  have after := prep.inv
  rw [inv.store.counted global first, after.store.counted global first']
  rcases prep.how with ⟨rfl, _⟩ | ⟨new, ptr, rfl, newest, extended⟩
  · exact le_rfl
  · have different : global ≠ new := by
      rintro rfl
      exact (nodup_cons.mp after.store.nodup).1 first
    by_cases at' : global = mgr
    · rw [at', (inv.spare mgr newest).1]
      exact Nat.zero_le _
    · rw [extended.slots global at' different]

structure Crowded (world : World Bump) (global : Nat) (mgrs : List Nat) (objs others : List (Nat × Nat)) : Prop
    extends WorldOk bumpUsed global world mgrs objs others where
  full : NoLargeCell world.heap global
  unlisted : world.heap.nexts global 13 = none
  pages : world.heap.alloc.next + 288 * (slotNum + 2 - (world.heap.managers global).usedSlots) ≤ 2 ^ 52

theorem Crowded.idle (crowded : Crowded world global mgrs objs others) :
    ∀ mgr, mgr = global ∨ world.heap.nexts global 13 = some mgr → world.heap.partialCache mgr largeCell 13 = none := by
  rintro mgr (rfl | listed)
  · exact crowded.full.partialCache
  · exact absurd (crowded.unlisted.symm.trans listed) (Option.some_ne_none mgr).symm

def Untouched (heap : Heap Bump) (global idx : Nat) : Prop := heap.counts global idx = 0 ∧ heap.nexts global idx = none

theorem Untouched.idle (untouched : Untouched heap global idx) (cellSize : Nat) :
    ∀ mgr, mgr = global ∨ heap.nexts global idx = some mgr → heap.partialCache mgr cellSize idx = none := by
  rintro mgr (rfl | listed)
  · rw [Heap.partialCache, if_pos untouched.1]
  · exact absurd (untouched.2.symm.trans listed) (Option.some_ne_none mgr).symm

theorem Untouched.prepared {prepared : Heap Bump} (untouched : Untouched heap global idx)
    (prep : Prepared bumpUsed heap prepared global mgr mgrs news objs others) (other : idx ≠ 8) :
    Untouched prepared global idx := by
  have after := prep.inv
  rcases prep.how with ⟨rfl, _⟩ | ⟨new, ptr, rfl, newest, extended⟩
  · exact untouched
  · have different : global ≠ new := by
      rintro rfl
      exact (nodup_cons.mp after.store.nodup).1 (mem_append_right _ (mem_singleton_self _))
    constructor
    · rw [extended.counts global idx different, if_neg fun both => other both.2, untouched.1]
    · rw [extended.nexts global idx different]
      simp only [other, and_false, if_false, untouched.2, ite_self]

theorem Untouched.grown {owner i ptr : Nat} (untouched : Untouched heap global i) (other : i ≠ idx)
    (grown : Grown heap heap' global owner idx ptr cellSize cellCount) : Untouched heap' global i := by
  constructor
  · rw [grown.counts, if_neg fun both => other both.2, untouched.1]
  · rw [grown.nexts]
    simp only [other, and_false, if_false, untouched.2, ite_self]

def LargeCall (_ : World Bump) (call : Call) : Prop := call = .alloc largeLayout

theorem crowded_bootWorld : Crowded bootWorld bootAddress [] [] [(0, 1), staticPages bootAddress] := by
  refine ⟨boot_bootWorld.ok, ?_, rfl, by decide⟩
  have empty : bootWorld.heap.cachesOf bootAddress = [] := reduceOption_replicate_none
  intro c slot
  rw [empty] at slot
  cases slot

theorem Prepared.ne_global {prepared : Heap Bump} (inv : Inv bumpUsed heap global mgrs objs others)
    (full : (heap.managers global).usedSlots = slotNum)
    (prep : Prepared bumpUsed heap prepared global mgr mgrs news objs others) : mgr ≠ global := by
  rintro rfl
  have more := prep.slots_le inv
  have few := prep.inv.store.usedSlots_le (mem_append_right _ (mem_singleton_self mgr))
  exact prep.room (le_antisymm few (full ▸ more))

variable (crowded : Crowded world global mgrs objs others)
include crowded

theorem Crowded.step (unused : (world.heap.managers global).usedSlots ≠ slotNum) :
    ∃ world' mgrs' objs', Steps global LargeCall world world' ∧ Crowded world' global mgrs' objs' others ∧
      (world.heap.managers global).usedSlots < (world'.heap.managers global).usedSlots ∧
      ∀ idx, idx ≠ 8 → idx ≠ 13 → Untouched world.heap global idx → Untouched world'.heap global idx := by
  obtain ⟨heap, live⟩ := world
  have first : ∀ {mgrs : List Nat}, global ∈ mgrs ++ [global] := mem_concat_self
  have few := crowded.store.usedSlots_le first
  have pages := crowded.pages
  dsimp only at unused few pages
  have room : heap.alloc.next + 288 ≤ 2 ^ 52 := by omega
  rcases bump_alloc crowded.toInv room largeLayout_class crowded.idle with
    ⟨mgr, news, prepared, c, after, which, _, prep, allocated, run⟩ | ⟨some, _⟩
  · obtain rfl : mgr = global := which.resolve_right fun full => unused full.1
    have size : (largeCell, 2) ∈ cacheSize := by decide
    have grown := prep.inv.toBase.grown_spec 13 soundPages_bump prep.member prep.room size allocated
    obtain ⟨mgrs', objs', ok⟩ := crowded.toWorldOk.alloc_small soundPages_bump largeLayout_class run
    have more : (prepared.managers mgr).usedSlots + 1 = ((after.grown mgr mgr 13 c).managers mgr).usedSlots := by
      rw [ok.store.counted mgr first, prep.inv.store.counted mgr first, grown.slot.length_eq, length_cons]
    have grows := prep.slots_le crowded.toInv
    obtain ⟨page, given⟩ := allocate_alloc size allocated
    have next := bump_allocPages given
    have before := prep.pages.next_le
    dsimp only at grows before
    refine ⟨_, mgrs', objs', ⟨_, rfl, .alloc 0 run⟩, ⟨ok, ?_, ?_, ?_⟩, ?_, ?_⟩
    · exact (crowded.full.prepared crowded.toInv prep first).grown prep.inv prep.member prep.room size 13 allocated
    · have none : (prepared.managers mgr).prev = none := by
        by_contra later
        exact prep.inv.toBase.global_not_mem ((prep.inv.prev_ne_none_iff first).mp later)
      change (after.grown mgr mgr 13 c).nexts mgr 13 = Option.none
      rw [grown.nexts, if_neg fun both => both.1 none, prep.nexts_large]
      exact crowded.unlisted
    · have small := ok.store.usedSlots_le first
      dsimp only at small ⊢
      rw [Heap.grown_alloc, next, ← more]
      have count : 2 * largeCell / pageSize = 256 := by decide
      rw [← more] at small
      rw [count]
      omega
    · dsimp only
      omega
    · exact fun idx notManager notLarge untouched => (untouched.prepared prep notManager).grown notLarge grown
  · exact absurd crowded.unlisted some

theorem Crowded.fill :
    ∃ world' mgrs' objs', Relation.ReflTransGen (Steps global LargeCall) world world' ∧
      Crowded world' global mgrs' objs' others ∧ (world'.heap.managers global).usedSlots = slotNum ∧
      ∀ idx, idx ≠ 8 → idx ≠ 13 → Untouched world.heap global idx → Untouched world'.heap global idx := by
  generalize missing : slotNum - (world.heap.managers global).usedSlots = count
  induction count using Nat.strong_induction_on generalizing world mgrs objs with
  | _ count ih =>
    by_cases full : (world.heap.managers global).usedSlots = slotNum
    · exact ⟨world, mgrs, objs, .refl, crowded, full, fun _ _ _ untouched => untouched⟩
    · obtain ⟨next, mgrs', objs', step, crowded', more, kept⟩ := crowded.step full
      have few := crowded.store.usedSlots_le mem_concat_self
      obtain ⟨last, mgrs'', objs'', run, done, filled, kept'⟩ := ih _ (by omega) crowded' rfl
      refine ⟨last, mgrs'', objs'', .head step run, done, filled, fun idx notManager notLarge untouched => ?_⟩
      exact kept' idx notManager notLarge (kept idx notManager notLarge untouched)

theorem Crowded.overflow (full : (world.heap.managers global).usedSlots = slotNum) {layout : Layout}
    (cls : objectClass layout = some ((cellSize, cellCount), idx))
    (idle : world.heap.partialCache global cellSize idx = none) (unlisted : world.heap.nexts global idx = none) :
    ∃ mgr news prepared c after, mgr ≠ global ∧ (mgrs ++ [global]).head? = some mgr ∧
      Prepared bumpUsed world.heap prepared global mgr mgrs news objs others ∧
      allocate cellSize cellCount prepared = .ok (c, after) ∧
      alloc 2 global layout world.heap = .ok (c + cellSize + headerSize layout, after.grown global mgr idx c) ∧
      ((after.grown global mgr idx c).managers global).usedSlots = slotNum ∧
      (after.grown global mgr idx c).alloc.next + 288 ≤ 2 ^ 52 := by
  have first : ∀ {mgrs : List Nat}, global ∈ mgrs ++ [global] := mem_concat_self
  have size := mem_of_getElem? (sizeToClass_some cls).1
  have pages := crowded.pages
  rw [full] at pages
  have nothing : ∀ mgr, mgr = global ∨ world.heap.nexts global idx = some mgr →
      world.heap.partialCache mgr cellSize idx = none := by
    rintro mgr (rfl | listed)
    · exact idle
    · exact absurd (unlisted.symm.trans listed) (Option.some_ne_none mgr).symm
  rcases bump_alloc crowded.toInv (by omega) cls nothing with
    ⟨mgr, news, prepared, c, after, _, grower, prep, allocated, run⟩ | ⟨some, _⟩
  · have other := prep.ne_global crowded.toInv full
    have grown := prep.inv.toBase.grown_spec idx soundPages_bump prep.member prep.room size allocated
    have inv := prep.inv.grow soundPages_bump prep.member prep.older prep.room prep.few size idx allocated
    refine ⟨mgr, news, prepared, c, after, other, ?_, prep, allocated, run, ?_, ?_⟩
    · rw [head?_append, grower.resolve_left fun both => other both.1]
      rfl
    · have more := prep.slots_le crowded.toInv
      have few := prep.inv.store.usedSlots_le first
      rw [inv.store.counted global first, grown.slots global other.symm, ← prep.inv.store.counted global first]
      exact le_antisymm few (full ▸ more)
    · obtain ⟨page, given⟩ := allocate_alloc size allocated
      have before := prep.pages.next_le
      have small : ∀ entry ∈ cacheSize, entry.2 * entry.1 / pageSize ≤ 256 := by decide
      have count := small _ size
      rw [Heap.grown_alloc, bump_allocPages given]
      dsimp only at count
      omega
  · exact absurd unlisted some

end Crowded

end Kernel31.Mcache
