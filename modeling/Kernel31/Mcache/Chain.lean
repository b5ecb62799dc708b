import Kernel31.Mcache.Ownership

namespace Kernel31.Mcache

open Page Checked Function List CacheManager Heap
open CacheManager (nextPartialFree setNext)

variable {A : Type} {used : A → Nat → Prop} {heap heap' after : Heap A} {global self new ptr : Nat} {mgrs : List Nat}
  {objs others : List (Nat × Nat)}

theorem Base.congr (base : Base used heap global mgrs objs others) (alloc : heap'.alloc = heap.alloc)
    (head : heap'.head = heap.head) (caches : heap'.caches = heap.caches)
    (same : ∀ mgr ∈ mgrs ++ [global], (heap'.managers mgr).caches = (heap.managers mgr).caches ∧
      (heap'.managers mgr).usedSlots = (heap.managers mgr).usedSlots ∧
      (heap'.managers mgr).prev = (heap.managers mgr).prev ∧
      ∀ idx next, heap'.nexts mgr idx = some next → next ∈ mgrs) : Base used heap' global mgrs objs others := by
  refine ⟨?_, base.null, base.static, base.address, base.prevs.congr fun m inside => (same m inside).2.2.1, ?_, ?_,
    fun m inside => (same m inside).2.2.2⟩
  · rw [alloc]
    exact base.store.congr (fun m inside => ⟨(same m inside).1, (same m inside).2.1⟩) head caches
  · intro obj owns
    refine (base.homes obj owns).frame (by rw [head]) (fun _ inside => inside) fun m inside c slot _ => ⟨?_, by rw [caches]⟩
    rwa [Heap.cachesOf, (same m inside).1]
  · intro mgr inside
    obtain ⟨cell, place, owns, prev⟩ := base.cells mgr inside
    exact ⟨cell, place, owns, by rw [(same mgr (mem_append_left _ inside)).2.2.1, prev, head]⟩

theorem Base.addManager (base : Base used heap global mgrs objs others) {cell : Nat}
    (owns : (cell, managerCell) ∈ objs) (owner : (mgrs ++ [global]).head? = some (heap.head cell))
    (fresh : cell + ptrSize ∉ mgrs ++ [global])
    (empty : ∃ nextFree, heap.managers (cell + ptrSize) =
      { default with prev := some (heap.head cell), nextFree := nextFree }) :
    Base used heap global ((cell + ptrSize) :: mgrs) objs others := by
  obtain ⟨nextFree, default⟩ := empty
  have prev : (heap.managers (cell + ptrSize)).prev = some (heap.head cell) := by rw [default]
  refine ⟨?_, base.null, base.static, base.address, ?_, ?_, ?_, ?_⟩
  · exact base.store.addManager fresh (by rw [default]; rfl) (by rw [default]; rfl)
  · refine ⟨rfl, ?_⟩
    change Linked _ (heap.managers (cell + ptrSize)).prev (mgrs ++ [global])
    rw [prev, ← owner]
    exact base.prevs
  · intro obj member
    exact (base.homes obj member).frame rfl (fun _ inside => mem_cons_of_mem _ inside) fun _ _ _ slot _ => ⟨slot, rfl⟩
  · rw [forall_mem_cons]
    exact ⟨⟨cell, rfl, owns, prev⟩, base.cells⟩
  · rw [cons_append, forall_mem_cons]
    constructor
    · intro idx next some
      rw [Heap.nexts, default] at some
      cases some
    · exact fun mgr inside idx next some => mem_cons_of_mem _ (base.partials mgr inside idx next some)

def Heap.linkNext (heap : Heap A) (global self next : Nat) : Heap A :=
  let heap := heap.modify self (setNext (nonNull next))
  let heap := heap.setManager next
    { default with prev := nonNull self, nextFree := (heap.managers global).nextFree }
  heap.modify global (CacheManager.setNextFree (nonNull next))

theorem Heap.linkNext_managers (heap : Heap A) (here : 0 < self) (positive : 0 < new)
    (apart : new ≠ global) :
    (heap.linkNext global self new).managers new =
        { default with prev := some self, nextFree := (heap.managers global).nextFree } ∧
      ∀ mgr, mgr ≠ new → (heap.linkNext global self new).managers mgr =
        { heap.managers mgr with
          next := if mgr = self then some new else (heap.managers mgr).next
          nextFree := if mgr = global then some new else (heap.managers mgr).nextFree } := by
  have some : nonNull new = .some new := if_neg positive.ne'
  have someSelf : nonNull self = .some self := if_neg here.ne'
  have free := field_modify CacheManager.nextFree heap self (setNext (nonNull new)) (fun _ => rfl) global
  rw [modify_managers, some] at free
  unfold Heap.linkNext
  simp only [modify_managers, Heap.setManager, some, someSelf]
  constructor
  · rw [update_of_ne apart, update_self, free]
  · intro mgr different
    by_cases first : mgr = global
    · rw [first, update_self, if_pos rfl, update_of_ne apart.symm]
      by_cases same : global = self
      · rw [same, update_self, if_pos rfl]
        rfl
      · rw [update_of_ne same, if_neg same]
        rfl
    · rw [update_of_ne first, if_neg first, update_of_ne different]
      by_cases same : mgr = self
      · rw [same, update_self, if_pos rfl]
        rfl
      · rw [update_of_ne same, if_neg same]

/-- Only the newest manager has no successor; it has no cache yet, and the first manager refers to it for an unused
    slot. -/
structure Inv (used : A → Nat → Prop) (heap : Heap A) (global : Nat) (mgrs : List Nat)
    (objs others : List (Nat × Nat)) : Prop extends Base used heap global mgrs objs others where
  forward : Linked (fun mgr => (heap.managers mgr).next) (some global) (mgrs ++ [global]).reverse
  free : (heap.managers global).nextFree = mgrs.head?
  spare : ∀ mgr, (mgrs ++ [global]).head? = some mgr → heap.cachesOf mgr = [] ∧ ∀ idx, heap.counts mgr idx = 0
  few : ∀ mgr ∈ mgrs, (heap.cachesOf mgr).length ≤ 2

section

variable (inv : Inv used heap global mgrs objs others)
include inv

theorem Inv.linked : Linked (fun mgr => (heap.managers mgr).next) (heap.managers global).next mgrs.reverse := by
  have forward := inv.forward
  rw [reverse_append] at forward
  exact forward.2

theorem Inv.newest_next (newest : (mgrs ++ [global]).head? = some self) : (heap.managers self).next = none := by
  have forward := inv.forward
  obtain ⟨rest, chain⟩ : ∃ rest, mgrs ++ [global] = self :: rest := ⟨_, eq_cons_of_mem_head? newest⟩
  rw [chain, reverse_cons] at forward
  exact forward.drop.2

theorem Inv.newest_slots (newest : (mgrs ++ [global]).head? = some self) :
    self ∈ mgrs ++ [global] ∧ (heap.managers self).usedSlots = 0 := by
  have member := mem_of_mem_head? newest
  refine ⟨member, ?_⟩
  rw [inv.store.counted self member, (inv.spare self newest).1]
  rfl

end

structure Extended (heap heap' : Heap A) (global owner new ptr : Nat) : Prop where
  slot : heap'.cachesOf owner = [ptr]
  slots : ∀ mgr, mgr ≠ owner → mgr ≠ new → heap'.cachesOf mgr = heap.cachesOf mgr
  page : (heap'.caches ptr).cellSize = managerCell ∧ (heap'.caches ptr).freeCount = 6
  pages : ∀ other, other ≠ ptr → heap'.caches other = heap.caches other
  counts : ∀ mgr i, mgr ≠ new → heap'.counts mgr i = if mgr = owner ∧ i = 8 then 1 else heap.counts mgr i
  nexts : ∀ mgr i, mgr ≠ new → heap'.nexts mgr i =
    if (heap.managers owner).prev ≠ none then
      if mgr = global ∧ i = 8 then some owner
      else if mgr = owner ∧ i = 8 then heap.nexts global 8 else heap.nexts mgr i
    else heap.nexts mgr i

theorem Base.setNext (base : Base used heap global mgrs objs others) (self : Nat) (next : Option Nat) :
    Base used (heap.modify self (CacheManager.setNext next)) global mgrs objs others := by
  have kept {β : Type} (field : CacheManager → β) (same : ∀ manager, field (manager.setNext next) = field manager) :
      ∀ mgr, field ((heap.modify self (CacheManager.setNext next)).managers mgr) = field (heap.managers mgr) :=
    field_modify field heap self (CacheManager.setNext next) same
  refine base.congr rfl rfl rfl fun mgr inside => ⟨kept _ (fun _ => rfl) mgr, kept _ (fun _ => rfl) mgr,
    kept _ (fun _ => rfl) mgr, fun idx target => ?_⟩
  rw [Heap.nexts, kept nextPartialFree fun _ => rfl]
  exact base.partials mgr inside idx target

section Allocated

variable [PageAllocator A] (sound : SoundPages used) (inv : Inv used heap global mgrs objs others)
  (newest : (mgrs ++ [global]).head? = some self)
  (allocated : CachePage.allocate managerCell 8 (heap.modify self (setNext (some dangling))) = .ok (ptr, after))
include sound inv newest allocated

theorem Inv.extend_base :
    Base used (after.grown global self 8 ptr) global mgrs ((ptr + managerCell, managerCell) :: objs) others ∧
    Grown (heap.modify self (setNext (some dangling))) (after.grown global self 8 ptr) global self 8 ptr
      managerCell 8 ∧
    (after.grown global self 8 ptr).head (ptr + managerCell) = self ∧
    ptr + managerCell + ptrSize ∉ mgrs ++ [global] := by
  have base := inv.toBase.setNext self (some dangling)
  obtain ⟨member, none⟩ := inv.newest_slots newest
  have size : (managerCell, 8) ∈ cacheSize := by decide
  have room : ((heap.modify self (setNext (some dangling))).managers self).usedSlots ≠ slotNum := by
    rw [field_modify CacheManager.usedSlots heap self (setNext (some dangling)) fun _ => rfl, none]
    decide
  obtain ⟨grownBase, here, _⟩ := base.grow 8 sound member room size allocated
  have grown := base.grown_spec 8 sound member room size allocated
  obtain ⟨store, unowned, inCells, _⟩ := base.grown_store 8 sound member room size allocated
  refine ⟨grownBase, grown, here, fun inside => ?_⟩
  rcases mem_append.mp inside with old | only
  · obtain ⟨cell, place, owns, _⟩ := inv.cells _ old
    have same : cell = ptr + managerCell := by omega
    rw [same] at owns
    exact unowned (mem_map.mpr ⟨_, owns, rfl⟩)
  · have there := mem_allCaches.mpr ⟨self, member, grown.slot.symm.subset mem_cons_self⟩
    exact grownBase.global_apart there inCells (mem_singleton.mp only)

theorem Inv.extended : Extended heap
    ((after.grown global self 8 ptr).linkNext global self (ptr + managerCell + ptrSize)) global self
    (ptr + managerCell + ptrSize) ptr := by
  obtain ⟨_, grown, _, fresh⟩ := inv.extend_base sound newest allocated
  obtain ⟨none, zero⟩ := inv.spare self newest
  obtain ⟨positive, _⟩ := inv.bounded (mem_of_mem_head? newest)
  have apart : ptr + managerCell + ptrSize ≠ global := fun same =>
    fresh (mem_append_right _ (mem_singleton.mpr same))
  obtain ⟨_, atOld⟩ := (after.grown global self 8 ptr).linkNext_managers positive (Nat.add_pos_right _ (by decide)) apart
  have dangled {β : Type} (field : CacheManager → β) (same : ∀ manager next, field (manager.setNext next) = field manager) :
      ∀ mgr, field ((heap.modify self (setNext (some dangling))).managers mgr) = field (heap.managers mgr) :=
    field_modify field heap self (setNext (some dangling)) fun manager => same manager _
  have cachesOf : ∀ mgr, (heap.modify self (setNext (some dangling))).cachesOf mgr = heap.cachesOf mgr :=
    fun mgr => congrArg List.reduceOption (dangled CacheManager.caches (fun _ _ => rfl) mgr)
  have counts : ∀ mgr i, (heap.modify self (setNext (some dangling))).counts mgr i = heap.counts mgr i :=
    fun mgr i => congrFun (dangled CacheManager.partialCounts (fun _ _ => rfl) mgr) i
  have nexts : ∀ mgr i, (heap.modify self (setNext (some dangling))).nexts mgr i = heap.nexts mgr i :=
    fun mgr i => congrFun (dangled nextPartialFree (fun _ _ => rfl) mgr) i
  refine ⟨?_, ?_, grown.page, grown.pages, ?_, ?_⟩
  · have slot := grown.slot
    rw [cachesOf, none] at slot
    have other : self ≠ ptr + managerCell + ptrSize := fun same => fresh (same ▸ mem_of_mem_head? newest)
    rw [Heap.cachesOf, atOld self other]
    exact perm_singleton.mp slot
  · intro mgr other different
    rw [Heap.cachesOf, atOld mgr different]
    exact (grown.slots mgr other).trans (cachesOf mgr)
  · intro mgr i different
    have count := grown.counts mgr i
    rw [counts, counts, zero] at count
    rw [Heap.counts, atOld mgr different]
    exact count
  · intro mgr i different
    have next := grown.nexts mgr i
    rw [dangled CacheManager.prev fun _ _ => rfl, counts, nexts, nexts, nonNull, if_neg positive.ne'] at next
    simp only [zero, and_true] at next
    rw [Heap.nexts, atOld mgr different]
    exact next

theorem Inv.extend : Inv used ((after.grown global self 8 ptr).linkNext global self (ptr + managerCell + ptrSize)) global
    ((ptr + managerCell + ptrSize) :: mgrs) ((ptr + managerCell, managerCell) :: objs) others := by
  have extended := inv.extended sound newest allocated
  obtain ⟨base, grown, here, fresh⟩ := inv.extend_base sound newest allocated
  obtain ⟨positive, _⟩ := inv.bounded (mem_of_mem_head? newest)
  have apart : ptr + managerCell + ptrSize ≠ global := fun same =>
    fresh (mem_append_right _ (mem_singleton.mpr same))
  have different : ∀ mgr ∈ mgrs ++ [global], mgr ≠ ptr + managerCell + ptrSize := by
    rintro mgr inside rfl
    exact fresh inside
  obtain ⟨atNew, atOld⟩ := (after.grown global self 8 ptr).linkNext_managers positive (Nat.add_pos_right _ (by decide)) apart
  have empty : ((after.grown global self 8 ptr).linkNext global self (ptr + managerCell + ptrSize)).cachesOf
      (ptr + managerCell + ptrSize) = [] := by
    rw [Heap.cachesOf, atNew]
    exact reduceOption_replicate_none
  refine ⟨?_, ?_, ?_, ?_, ?_⟩
  · have linked : Base used ((after.grown global self 8 ptr).linkNext global self (ptr + managerCell + ptrSize)) global mgrs
        ((ptr + managerCell, managerCell) :: objs) others := by
      refine base.congr rfl rfl rfl fun mgr inside => ?_
      simp only [Heap.nexts, atOld mgr (different mgr inside)]
      exact ⟨trivial, trivial, trivial, base.partials mgr inside⟩
    refine linked.addManager mem_cons_self (newest.trans (congrArg some here.symm)) fresh ?_
    rw [show ((after.grown global self 8 ptr).linkNext global self (ptr + managerCell + ptrSize)).head (ptr + managerCell) =
      self from here]
    exact ⟨_, atNew⟩
  · obtain ⟨rest, chain⟩ : ∃ rest, mgrs ++ [global] = self :: rest := ⟨_, eq_cons_of_mem_head? newest⟩
    have forward := inv.forward
    have nodup := inv.store.nodup
    rw [chain] at different nodup
    rw [chain, reverse_cons] at forward
    rw [cons_append, chain, reverse_cons, reverse_cons, append_assoc]
    refine forward.snoc (fun mgr inside => ?_) ?_ ?_
    · have old := mem_reverse.mp inside
      have other : mgr ≠ self := by
        rintro rfl
        exact (nodup_cons.mp nodup).1 old
      simp only [atOld mgr (different mgr (mem_cons_of_mem _ old)), if_neg other, grown.next]
      rw [modify_managers, update_of_ne other]
    · simp only [atOld self (different self mem_cons_self), if_true]
    · simp only [atNew]
      rfl
  · rw [atOld global apart.symm, if_pos rfl]
    rfl
  · rintro mgr ⟨⟩
    refine ⟨empty, fun idx => ?_⟩
    rw [Heap.counts, atNew]
    rfl
  · rw [forall_mem_cons, empty]
    refine ⟨Nat.zero_le 2, fun mgr inside => ?_⟩
    by_cases same : mgr = self
    · rw [same, extended.slot]
      exact Nat.le_succ 1
    · rw [extended.slots mgr same (different mgr (mem_append_left _ inside))]
      exact inv.few mgr inside

end Allocated

end Kernel31.Mcache
