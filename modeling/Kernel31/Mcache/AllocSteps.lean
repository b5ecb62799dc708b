import Kernel31.Mcache.Chain

namespace Kernel31.Mcache

open Page Checked List CacheManager Heap
open CacheManager (isSlotsFull setNext usedSlots)
open CachePage (allocate)

variable {A : Type} {used : A → Nat → Prop} {heap heap' after : Heap A} {global self cellSize cellCount ptr idx : Nat}
  {mgrs : List Nat} {objs others objs' : List (Nat × Nat)}

section

variable (inv : Inv used heap global mgrs objs others)
include inv

theorem Inv.keep (base : Base used heap' global mgrs objs' others)
    (next : ∀ mgr, (heap'.managers mgr).next = (heap.managers mgr).next)
    (nextFree : ∀ mgr, (heap'.managers mgr).nextFree = (heap.managers mgr).nextFree)
    (older : (mgrs ++ [global]).head? ≠ some self) (slots : ∀ mgr, mgr ≠ self → heap'.cachesOf mgr = heap.cachesOf mgr)
    (counts : ∀ mgr i, mgr ≠ self → heap'.counts mgr i = heap.counts mgr i)
    (few : self ∈ mgrs → (heap'.cachesOf self).length ≤ 2) : Inv used heap' global mgrs objs' others := by
  refine ⟨base, inv.forward.frame fun mgr _ => next mgr, ?_, ?_, ?_⟩
  · rw [nextFree]
    exact inv.free
  · intro mgr newest
    have other : mgr ≠ self := by
      rintro rfl
      exact older newest
    obtain ⟨none, zero⟩ := inv.spare mgr newest
    exact ⟨(slots mgr other).trans none, fun idx => (counts mgr idx other).trans (zero idx)⟩
  · intro mgr inside
    by_cases same : mgr = self
    · rw [same] at inside ⊢
      exact few inside
    · rw [slots mgr same]
      exact inv.few mgr inside

theorem Inv.older_of_slot (slot : ptr ∈ heap.cachesOf self) : (mgrs ++ [global]).head? ≠ some self := by
  intro newest
  rw [(inv.spare self newest).1] at slot
  cases slot

theorem Inv.take (member : self ∈ mgrs ++ [global]) (slot : ptr ∈ heap.cachesOf self)
    (some : (heap.caches ptr).freeCount ≠ 0) (taken : Taken heap heap' global self idx ptr) :
    Inv used heap' global mgrs (((heap.caches ptr).freeListHead, (heap.caches ptr).cellSize) :: objs) others := by
  obtain ⟨base, _⟩ := inv.toBase.take member slot some taken
  refine inv.keep base taken.next taken.nextFree (inv.older_of_slot slot) (fun mgr _ => taken.cachesOf mgr) ?_ ?_
  · intro mgr i other
    rw [taken.counts, if_neg fun both => other both.2.1]
  · intro inside
    rw [taken.cachesOf]
    exact inv.few self inside

end

section Grow

variable [PageAllocator A]
theorem Inv.grow (sound : SoundPages used) (inv : Inv used heap global mgrs objs others)
    (member : self ∈ mgrs ++ [global]) (older : (mgrs ++ [global]).head? ≠ some self)
    (room : (heap.managers self).usedSlots ≠ slotNum) (few : self ∈ mgrs → (heap.cachesOf self).length ≤ 1)
    (size : (cellSize, cellCount) ∈ cacheSize) (idx : Nat)
    (allocated : allocate cellSize cellCount heap = .ok (ptr, after)) :
    Inv used (after.grown global self idx ptr) global mgrs ((ptr + cellSize, cellSize) :: objs) others := by
  obtain ⟨base, _⟩ := inv.toBase.grow idx sound member room size allocated
  have grown := inv.toBase.grown_spec idx sound member room size allocated
  refine inv.keep base grown.next grown.nextFree older grown.slots ?_ ?_
  · intro mgr i other
    rw [grown.counts, if_neg fun both => other both.1]
  · intro inside
    rw [grown.slot.length_eq, length_cons]
    exact Nat.succ_le_succ (few inside)

theorem Base.addCacheAlloc_bind (sound : SoundPages used) (base : Base used heap global mgrs objs others)
    (member : self ∈ mgrs ++ [global]) (room : (heap.managers self).usedSlots ≠ slotNum)
    (roomy : self = global ∨ (heap.managers self).usedSlots + 1 ≠ slotNum) (size : (cellSize, cellCount) ∈ cacheSize)
    (idx padding : Nat) :
    addCacheAlloc self cellSize cellCount idx padding heap =
      allocate cellSize cellCount heap >>= fun result =>
        .ok (result.1 + cellSize + (padding + ptrSize), result.2.grown global self idx result.1) := by
  cases allocated : allocate cellSize cellCount heap with
  | error fault =>
    rw [addCacheAlloc, allocated]
    rfl
  | ok result =>
    rw [base.addCacheAlloc_eq idx sound member room size allocated roomy, ok_bind]

end Grow

section Prepare

variable [PageAllocator A]
theorem Inv.alloc_manager (inv : Inv used heap global mgrs objs others) (newest : (mgrs ++ [global]).head? = some self)
    (depth : Nat) :
    alloc (depth + 1) self managerLayout (heap.modify self (setNext (some dangling))) =
      addCacheAlloc self managerCell 8 8 0 (heap.modify self (setNext (some dangling))) := by
  obtain ⟨member, none⟩ := inv.newest_slots newest
  have base := inv.toBase.setNext self (some dangling)
  have count : (heap.modify self (setNext (some dangling))).counts self 8 = 0 := by
    rw [counts, field_modify partialCounts heap self (setNext (some dangling)) fun _ => rfl]
    exact (inv.spare self newest).2 8
  have room : ((heap.modify self (setNext (some dangling))).managers self).isSlotsFull = false := by
    rw [isSlotsFull,
      field_modify usedSlots heap self (setNext (some dangling)) fun _ => rfl, none]
    rfl
  have next : ((heap.modify self (setNext (some dangling))).managers self).next ≠ Option.none := by
    rw [modify_managers, Function.update_self]
    exact Option.some_ne_none _
  have padding : calcHeaderPadding managerLayout.align = 0 := rfl
  have cls : sizeToClass (managerLayout.size + (0 + ptrSize)) = some ((managerCell, 8), 8) := by decide
  rw [alloc]
  simp only [padding, cls, cacheAlloc_eq (base.leadsTo member), partialCache, if_pos count, ok_bind, room,
    Bool.not_false, if_true, newCacheAlloc, tryInitNext, if_neg next, pure_eq]

theorem Inv.tryInitNext_newest (sound : SoundPages used) (inv : Inv used heap global mgrs objs others)
    (newest : (mgrs ++ [global]).head? = some self) (depth : Nat) :
    tryInitNext (alloc (depth + 1)) self heap =
      allocate managerCell 8 (heap.modify self (setNext (some dangling))) >>= fun result =>
        .ok ((result.2.grown global self 8 result.1).linkNext global self (result.1 + managerCell + ptrSize)) := by
  obtain ⟨member, none⟩ := inv.newest_slots newest
  have base := inv.toBase.setNext self (some dangling)
  have slots : ((heap.modify self (setNext (some dangling))).managers self).usedSlots = 0 :=
    (field_modify usedSlots heap self (setNext (some dangling)) (fun _ => rfl) self).trans none
  have added := base.addCacheAlloc_bind sound member (by rw [slots]; decide) (.inr (by rw [slots]; decide))
    (show (managerCell, 8) ∈ cacheSize by decide) 8 0
  rw [tryInitNext, if_pos (inv.newest_next newest), inv.alloc_manager newest, added]
  cases allocated : allocate managerCell 8 (heap.modify self (setNext (some dangling))) with
  | error fault => rfl
  | ok result =>
    obtain ⟨grownBase, _⟩ := inv.extend_base sound newest allocated
    have first := grownBase.leadsTo member
      ((result.2.grown global self 8 result.1).modify self (setNext (nonNull (result.1 + managerCell + ptrSize))))
      (field_modify prev _ self (setNext (nonNull (result.1 + managerCell + ptrSize))) fun _ => rfl)
    simp only [ok_bind, Nat.zero_add, first]
    rfl

def managerObj (mgr : Nat) : Nat × Nat := (mgr - ptrSize, managerCell)

/-- The first manager while it has an unused slot, or the newest. -/
def Grower (heap : Heap A) (global : Nat) (mgrs : List Nat) (self : Nat) : Prop :=
  (self = global ∧ (heap.managers global).usedSlots ≠ slotNum) ∨ mgrs.head? = some self

def OneCall (alloc alloc' : A) : Prop :=
  alloc' = alloc ∨ ∃ page, Page.allocPages alloc (8 * managerCell / pageSize) = .ok (page, alloc')

structure Prepared (used : A → Nat → Prop) (heap heap' : Heap A) (global owner : Nat) (mgrs news : List Nat)
    (objs others : List (Nat × Nat)) : Prop where
  inv : Inv used heap' global (news ++ mgrs) (news.map managerObj ++ objs) others
  member : owner ∈ news ++ mgrs ++ [global]
  older : (news ++ mgrs ++ [global]).head? ≠ some owner
  room : (heap'.managers owner).usedSlots ≠ slotNum
  few : owner ∈ news ++ mgrs → (heap'.cachesOf owner).length ≤ 1
  pages : OneCall heap.alloc heap'.alloc
  how : (heap' = heap ∧ news = []) ∨
    ∃ new ptr, news = [new] ∧ (mgrs ++ [global]).head? = some owner ∧ Extended heap heap' global owner new ptr

variable (inv : Inv used heap global mgrs objs others)
include inv

theorem Inv.prepared_of_newest (sound : SoundPages used) (newest : (mgrs ++ [global]).head? = some self)
    (allocated : allocate managerCell 8 (heap.modify self (setNext (some dangling))) = .ok (ptr, after)) :
    Prepared used heap ((after.grown global self 8 ptr).linkNext global self (ptr + managerCell + ptrSize)) global self
      mgrs [ptr + managerCell + ptrSize] objs others := by
  have next := inv.extend sound newest allocated
  have extended := inv.extended sound newest allocated
  have member := mem_of_mem_head? newest
  have inside : self ∈ [ptr + managerCell + ptrSize] ++ mgrs ++ [global] := mem_cons_of_mem _ member
  refine ⟨?_, inside, ?_, ?_, ?_, .inr ?_, .inr ⟨_, ptr, rfl, newest, extended⟩⟩
  · exact next
  · intro head
    have same := Option.some.inj head
    exact (inv.extend_base sound newest allocated).2.2.2 (same ▸ member)
  · rw [next.store.counted self inside, extended.slot]
    exact (by decide : 1 ≠ slotNum)
  · intro _
    rw [extended.slot]
    exact le_rfl
  · have one := CachePage.allocate_alloc (by decide) allocated
    exact (grown_alloc after global self 8 ptr).symm ▸ one

theorem Inv.tryInitNext_cases (sound : SoundPages used) (grower : Grower heap global mgrs self) (depth : Nat) :
    (∃ heap' news, tryInitNext (alloc (depth + 1)) self heap = .ok heap' ∧
      Prepared used heap heap' global self mgrs news objs others) ∨
    ∃ fault, tryInitNext (alloc (depth + 1)) self heap = .error fault ∧
      allocate managerCell 8 (heap.modify self (setNext (some dangling))) = .error fault := by
  by_cases newest : (mgrs ++ [global]).head? = some self
  · rw [inv.tryInitNext_newest sound newest]
    cases allocated : allocate managerCell 8 (heap.modify self (setNext (some dangling))) with
    | error fault => exact .inr ⟨fault, rfl, rfl⟩
    | ok result => exact .inl ⟨_, _, rfl, inv.prepared_of_newest sound newest allocated⟩
  · have first : self = global ∧ (heap.managers global).usedSlots ≠ slotNum := by
      refine grower.resolve_right fun head => newest ?_
      rw [head?_append, head]
      rfl
    obtain ⟨rfl, room⟩ := first
    have next : (heap.managers self).next ≠ none := by
      have head : (heap.managers self).next = mgrs.reverse.head? := inv.linked.start_eq
      rw [head, Ne, head?_eq_none_iff, reverse_eq_nil_iff]
      rintro rfl
      exact newest rfl
    refine .inl ⟨heap, [], ?_, ?_⟩
    · rw [tryInitNext, if_neg next, pure_eq]
    · refine ⟨inv, mem_append_right _ (mem_singleton_self self), newest, room, fun inside => ?_, .inl rfl,
        .inl ⟨rfl, rfl⟩⟩
      exact absurd rfl ((nodup_append.mp inv.store.nodup).2.2 self inside self (mem_singleton_self self))

theorem Inv.newCacheAlloc_cases (sound : SoundPages used) (grower : Grower heap global mgrs self)
    (size : (cellSize, cellCount) ∈ cacheSize) (depth idx padding : Nat) :
    (∃ news prepared ptr after, Prepared used heap prepared global self mgrs news objs others ∧
      allocate cellSize cellCount prepared = .ok (ptr, after) ∧
      newCacheAlloc (alloc (depth + 1)) self cellSize cellCount idx padding heap =
        .ok (ptr + cellSize + (padding + ptrSize), after.grown global self idx ptr)) ∨
    ∃ fault before entry, newCacheAlloc (alloc (depth + 1)) self cellSize cellCount idx padding heap = .error fault ∧
      OneCall heap.alloc (before : Heap A).alloc ∧ entry ∈ cacheSize ∧
      allocate entry.1 entry.2 before = .error fault := by
  rcases inv.tryInitNext_cases sound grower depth with ⟨prepared, news, run, prep⟩ | ⟨fault, run, failed⟩
  · have added := prep.inv.toBase.addCacheAlloc_bind sound prep.member prep.room ?_ size idx padding
    · rw [newCacheAlloc, run, ok_bind, added]
      cases allocated : allocate cellSize cellCount prepared with
      | error fault => exact .inr ⟨fault, prepared, _, rfl, prep.pages, size, allocated⟩
      | ok result => exact .inl ⟨news, prepared, _, _, prep, allocated, rfl⟩
    · rcases mem_append.mp prep.member with later | only
      · right
        have few := prep.few later
        rw [prep.inv.store.counted self prep.member, show slotNum = 1024 from rfl]
        omega
      · exact .inl (mem_singleton.mp only)
  · refine .inr ⟨fault, heap.modify self (setNext (some dangling)), (managerCell, 8), ?_, .inl rfl, by decide,
      failed⟩
    rw [newCacheAlloc, run]
    rfl

end Prepare

section Outcome

variable [PageAllocator A]
/-- The ways a call of `alloc` for an object of a size class can end. -/
inductive AllocOutcome (used : A → Nat → Prop) (heap : Heap A) (global : Nat) (mgrs : List Nat)
    (objs others : List (Nat × Nat)) (cellSize cellCount idx header : Nat) : Exec (Nat × Heap A) → Prop
  | taken (mgr ptr : Nat) (member : mgr ∈ mgrs ++ [global]) (found : heap.partialCache mgr cellSize idx = some ptr)
      (which : mgr = global ∨ heap.nexts global idx = some mgr) :
      AllocOutcome used heap global mgrs objs others cellSize cellCount idx header
        (.ok ((heap.caches ptr).freeListHead + header, heap.takeCell global mgr idx ptr))
  | grown (mgr : Nat) (news : List Nat) (prepared : Heap A) (ptr : Nat) (after : Heap A)
      (which : mgr = global ∨ ((heap.managers global).usedSlots = slotNum ∧ heap.nexts global idx = none))
      (grower : Grower heap global mgrs mgr) (prep : Prepared used heap prepared global mgr mgrs news objs others)
      (allocated : allocate cellSize cellCount prepared = .ok (ptr, after)) :
      AllocOutcome used heap global mgrs objs others cellSize cellCount idx header
        (.ok (ptr + cellSize + header, after.grown global mgr idx ptr))
  | failed (fault : Fault) (before : Heap A) (entry : Nat × Nat) (pages : OneCall heap.alloc before.alloc)
      (member : entry ∈ cacheSize)
      (failure : allocate entry.1 entry.2 before = .error fault) :
      AllocOutcome used heap global mgrs objs others cellSize cellCount idx header (.error fault)
  | stale (next : Nat) (full : (heap.managers global).usedSlots = slotNum) (listed : heap.nexts global idx = some next)
      (nothing : heap.partialCache next cellSize idx = none) :
      AllocOutcome used heap global mgrs objs others cellSize cellCount idx header (.error .unwrapNone)

theorem Inv.newCacheAlloc_outcome (sound : SoundPages used) (inv : Inv used heap global mgrs objs others)
    {padding : Nat} (grower : Grower heap global mgrs self) (size : (cellSize, cellCount) ∈ cacheSize)
    (which : self = global ∨ ((heap.managers global).usedSlots = slotNum ∧ heap.nexts global idx = none))
    (depth : Nat) :
    AllocOutcome used heap global mgrs objs others cellSize cellCount idx (padding + ptrSize)
      (newCacheAlloc (alloc (depth + 1)) self cellSize cellCount idx padding heap) := by
  rcases inv.newCacheAlloc_cases sound grower size depth idx padding with
    ⟨news, prepared, ptr, after, prep, allocated, run⟩ | ⟨fault, before, entry, run, pages, member, failed⟩
  · rw [run]
    exact .grown self news prepared ptr after which grower prep allocated
  · rw [run]
    exact .failed fault before entry pages member failed

theorem Inv.alloc_outcome (sound : SoundPages used) (inv : Inv used heap global mgrs objs others) {layout : Layout}
    (cls : sizeToClass (layout.size + headerSize layout) = some ((cellSize, cellCount), idx)) (depth : Nat) :
    AllocOutcome used heap global mgrs objs others cellSize cellCount idx (headerSize layout)
      (alloc (depth + 2) global layout heap) := by
  have size := mem_of_getElem? (sizeToClass_some cls).1
  have first : global ∈ mgrs ++ [global] := mem_concat_self
  rw [headerSize] at cls ⊢
  rw [alloc]
  simp only [cls, cacheAlloc_eq (inv.leadsTo first)]
  cases found : heap.partialCache global cellSize idx with
  | some ptr => exact .taken global ptr first found (.inl rfl)
  | none =>
    simp only [ok_bind]
    by_cases full : (heap.managers global).usedSlots = slotNum
    · simp only [isSlotsFull, full, decide_true, Bool.not_true, Bool.false_eq_true, if_false]
      cases listed : (heap.managers global).nextPartialFree idx with
      | some next =>
        have later := inv.partials global first idx next listed
        have member : next ∈ mgrs ++ [global] := mem_append_left _ later
        simp only [cacheAlloc_eq (inv.leadsTo member)]
        cases there : heap.partialCache next cellSize idx with
        | some ptr => exact .taken next ptr member there (.inr listed)
        | none => exact .stale next full listed there
      | none =>
        cases free : (heap.managers global).nextFree with
        | some next =>
          rw [inv.free] at free
          exact inv.newCacheAlloc_outcome sound (.inr free) size (.inr ⟨full, listed⟩) depth
        | none =>
          -- Without another manager the first one has no cache, so its slots are not full.
          rw [inv.free, head?_eq_none_iff] at free
          have newest : (mgrs ++ [global]).head? = some global := by
            rw [free]
            rfl
          have unused := inv.newest_slots newest
          rw [full] at unused
          exact absurd unused.2 (by decide)
    · simp only [isSlotsFull, full, decide_false, Bool.not_false, if_true]
      exact inv.newCacheAlloc_outcome sound (.inl ⟨rfl, full⟩) size (.inl rfl) depth

end Outcome

end Kernel31.Mcache
