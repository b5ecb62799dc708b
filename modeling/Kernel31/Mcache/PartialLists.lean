import Kernel31.Mcache.World

namespace Kernel31.Mcache

open Page Checked Function List Heap

variable {A : Type} {heap heap' : Heap A} {others objs objs' others' : List (Nat × Nat)} {used : A → Nat → Prop}
  {global idx owner ptr size mgr cellSize cellCount header : Nat} {mgrs chain owned mgrs' : List Nat}
  {inUse : Nat → Prop}

section

variable (store : Store inUse heap chain owned others)
include store

theorem Store.allCaches_nodup : (heap.allCaches chain).Nodup := by
  have pairs := (pairwise_append.mp store.apart).1
  rw [blocks, pairwise_map] at pairs
  refine List.Pairwise.imp_of_mem (fun {first second} member _ apart same => ?_) pairs
  subst same
  have shaped := (store.caches first member).shaped
  have inside := (shaped.inRange_iff _).mp shaped.inRange_start
  exact apart _ inside.1 inside.2 inside

theorem Store.cachesOf_nodup (member : mgr ∈ chain) : (heap.cachesOf mgr).Nodup :=
  (nodup_flatMap.mp store.allCaches_nodup).1 mgr member

theorem Store.not_mem_cachesOf {other : Nat} (member : mgr ∈ chain) (slot : ptr ∈ heap.cachesOf mgr)
    (member' : other ∈ chain) (different : other ≠ mgr) : ptr ∉ heap.cachesOf other := by
  have pairs := (nodup_flatMap.mp store.allCaches_nodup).2
  have symm : Std.Symm (onFun List.Disjoint heap.cachesOf) := ⟨fun _ _ apart => apart.symm⟩
  exact fun slot' => pairs.forall member' member different slot' slot

end

def Heap.isPartial (heap : Heap A) (idx ptr : Nat) : Bool :=
  cacheSize[idx]?.map Prod.fst = some (heap.caches ptr).cellSize ∧ (heap.caches ptr).freeCount ≠ 0

def Heap.partialsOf (heap : Heap A) (mgr idx : Nat) : Nat := (heap.cachesOf mgr).countP (heap.isPartial idx)

theorem isPartial_iff : heap.isPartial idx ptr = true ↔
    cacheSize[idx]?.map Prod.fst = some (heap.caches ptr).cellSize ∧ (heap.caches ptr).freeCount ≠ 0 :=
  decide_eq_true_iff

theorem class_unique {other : Nat} (here : cacheSize[idx]?.map Prod.fst = some size)
    (there : cacheSize[other]?.map Prod.fst = some size) : other = idx := by
  rw [← getElem?_map] at here there
  have nodup : (cacheSize.map Prod.fst).Nodup := by decide
  obtain ⟨low, first⟩ := List.getElem?_eq_some_iff.mp here
  obtain ⟨low', second⟩ := List.getElem?_eq_some_iff.mp there
  exact (nodup.getElem_inj_iff).mp (second.trans first.symm)

theorem bit_toNat (bit : Bool) : (if bit = true then 1 else 0) = bit.toNat := by
  cases bit <;> rfl

theorem isPartial_toNat {i : Nat} (cls : cacheSize[idx]?.map Prod.fst = some size)
    (same : (heap.caches ptr).cellSize = size) :
    (heap.isPartial i ptr).toNat = if i = idx ∧ (heap.caches ptr).freeCount ≠ 0 then 1 else 0 := by
  rw [← same] at cls
  by_cases here : i = idx ∧ (heap.caches ptr).freeCount ≠ 0
  · rw [if_pos here, here.1, isPartial_iff.mpr ⟨cls, here.2⟩]
    rfl
  · rw [if_neg here, Bool.toNat_eq_zero, Bool.eq_false_iff]
    intro holds
    obtain ⟨there, some⟩ := isPartial_iff.mp holds
    exact here ⟨class_unique cls there, some⟩

theorem isPartial_congr (same : heap'.caches ptr = heap.caches ptr) :
    heap'.isPartial idx ptr = heap.isPartial idx ptr := by
  rw [isPartial, same, isPartial]

theorem partialsOf_congr (slots : heap'.cachesOf mgr = heap.cachesOf mgr)
    (same : ∀ ptr ∈ heap.cachesOf mgr, heap'.caches ptr = heap.caches ptr) :
    heap'.partialsOf mgr idx = heap.partialsOf mgr idx := by
  rw [partialsOf, slots, partialsOf]
  exact countP_congr fun ptr member => by rw [isPartial_congr (same ptr member)]

theorem partialsOf_ne_zero :
    heap.partialsOf mgr idx ≠ 0 ↔ ∃ ptr ∈ heap.cachesOf mgr, heap.isPartial idx ptr = true := by
  rw [partialsOf, ← Nat.pos_iff_ne_zero, countP_pos_iff]

/-- Managers other than the first one count their caches with a free cell; the lists hold exactly those that have
    one. -/
structure PartialLists (heap : Heap A) (global : Nat) (mgrs : List Nat) : Prop where
  counted : ∀ mgr ∈ mgrs, ∀ idx, heap.counts mgr idx = heap.partialsOf mgr idx
  enrolled : ∀ idx, Enrolled (fun mgr => heap.nexts mgr idx) (heap.nexts global idx) fun mgr =>
    mgr ∈ mgrs ∧ heap.counts mgr idx ≠ 0

section

variable (base : Base used heap global mgrs objs others)
include base

theorem Base.global_not_mem : global ∉ mgrs :=
  fun inside => (nodup_append.mp base.store.nodup).2.2 global inside global (mem_singleton_self global) rfl

theorem Base.partialsOf_one (member : owner ∈ mgrs ++ [global]) (slot : ptr ∈ heap.cachesOf owner)
    (cls : cacheSize[idx]?.map Prod.fst = some size) (here : (heap.caches ptr).cellSize = size)
    (here' : (heap'.caches ptr).cellSize = size) (slots : heap'.cachesOf owner = heap.cachesOf owner)
    (pages : ∀ c, c ≠ ptr → heap'.caches c = heap.caches c) (i : Nat) :
    heap'.partialsOf owner i + (if i = idx ∧ (heap.caches ptr).freeCount ≠ 0 then 1 else 0) =
      heap.partialsOf owner i + if i = idx ∧ (heap'.caches ptr).freeCount ≠ 0 then 1 else 0 := by
  rw [← isPartial_toNat cls here, ← isPartial_toNat cls here', partialsOf, slots, partialsOf]
  exact Lists.countP_of_one (base.store.cachesOf_nodup member) slot fun c _ different => isPartial_congr (pages c different)

theorem Base.partialsOf_other (member : owner ∈ mgrs ++ [global]) (slot : ptr ∈ heap.cachesOf owner)
    (pages : ∀ c, c ≠ ptr → heap'.caches c = heap.caches c) (inside : mgr ∈ mgrs ++ [global]) (different : mgr ≠ owner)
    (slots : heap'.cachesOf mgr = heap.cachesOf mgr) (i : Nat) : heap'.partialsOf mgr i = heap.partialsOf mgr i := by
  refine partialsOf_congr slots fun c slot' => pages c ?_
  rintro rfl
  exact base.store.not_mem_cachesOf member slot inside different slot'

end

def Heap.CountsPartials (heap : Heap A) (mgr : Nat) : Prop := ∀ idx, heap.counts mgr idx = heap.partialsOf mgr idx

theorem Base.counts_take (base : Base used heap global mgrs objs others) (member : owner ∈ mgrs ++ [global])
    (slot : ptr ∈ heap.cachesOf owner) (some : (heap.caches ptr).freeCount ≠ 0)
    (cls : cacheSize[idx]?.map Prod.fst = .some (heap.caches ptr).cellSize) (taken : Taken heap heap' global owner idx ptr)
    (inside : mgr ∈ mgrs ++ [global]) (counted : heap.CountsPartials mgr) : heap'.CountsPartials mgr := by
  have pages : ∀ c, c ≠ ptr → heap'.caches c = heap.caches c := fun c different => by
    rw [taken.page, update_of_ne different]
  have page : heap'.caches ptr = (heap.caches ptr).taken (heap.head (heap.caches ptr).freeListHead) := by
    rw [taken.page, update_self]
  have left : (heap'.caches ptr).freeCount = (heap.caches ptr).freeCount - 1 := by
    rw [page]
    rfl
  intro i
  rw [taken.counts]
  by_cases at' : mgr = owner
  · rw [at'] at counted ⊢
    have one := base.partialsOf_one member slot cls rfl (by rw [page]; rfl) (taken.cachesOf owner) pages i
    have before := counted i
    rw [left] at one
    by_cases same : i = idx
    · subst same
      by_cases full : (heap.caches ptr).freeCount - 1 = 0
      · simp only [full, some, ne_eq, not_true, not_false_eq_true, and_true, and_false, if_true, if_false] at one ⊢
        omega
      · simp only [full, some, ne_eq, not_false_eq_true, and_true, if_true, if_false] at one ⊢
        omega
    · simp only [same, false_and, and_false, if_false] at one ⊢
      omega
  · rw [if_neg fun both => at' both.2.1, counted i,
      base.partialsOf_other member slot pages inside at' (taken.cachesOf mgr)]

theorem Grown.counts_grow (grown : Grown heap heap' global owner idx ptr size cellCount)
    (fresh : ptr ∉ heap.allCaches (mgrs ++ [global])) (cls : cacheSize[idx]?.map Prod.fst = some size)
    (inside : mgr ∈ mgrs ++ [global]) (spare : mgr = owner → 2 < cellCount) (counted : heap.CountsPartials mgr) :
    heap'.CountsPartials mgr := by
  have pages : ∀ c ∈ heap.cachesOf mgr, heap'.caches c = heap.caches c := by
    intro c slot
    refine grown.pages c ?_
    rintro rfl
    exact fresh (mem_allCaches.mpr ⟨mgr, inside, slot⟩)
  intro i
  rw [grown.counts]
  by_cases at' : mgr = owner
  · have more := spare at'
    subst at'
    have free : (heap'.caches ptr).freeCount ≠ 0 := by
      rw [grown.page.2]
      omega
    have old : (heap.cachesOf mgr).countP (heap'.isPartial i) = heap.partialsOf mgr i :=
      countP_congr fun c slot => by rw [isPartial_congr (pages c slot)]
    have new := isPartial_toNat (i := i) cls grown.page.1
    rw [partialsOf, grown.slot.countP_eq, countP_cons, old, bit_toNat, new]
    have before := counted i
    by_cases same : i = idx
    · subst same
      simp [free, before]
    · simp [same, before]
  · rw [if_neg fun both => at' both.1, counted i]
    exact (partialsOf_congr (grown.slots mgr at') pages).symm

theorem Inv.counts_extend {new : Nat} (inv : Inv used heap global mgrs objs others)
    (inv' : Inv used heap' global (new :: mgrs) objs' others) (newest : (mgrs ++ [global]).head? = some owner)
    (extended : Extended heap heap' global owner new ptr) (inside : mgr ∈ mgrs ++ [global])
    (counted : heap.CountsPartials mgr) : heap'.CountsPartials mgr := by
  have member := mem_of_mem_head? newest
  obtain ⟨none, zero⟩ := inv.spare owner newest
  have different : mgr ≠ new := by
    rintro rfl
    exact (nodup_cons.mp inv'.store.nodup).1 inside
  have slot : ptr ∈ heap'.cachesOf owner := by
    rw [extended.slot]
    exact mem_singleton_self ptr
  intro i
  rw [extended.counts mgr i different]
  by_cases at' : mgr = owner
  · have counted : (heap'.isPartial i ptr).toNat = if i = 8 ∧ (heap'.caches ptr).freeCount ≠ 0 then 1 else 0 :=
      isPartial_toNat rfl extended.page.1
    rw [at', zero, partialsOf, extended.slot, countP_singleton, bit_toNat, counted, extended.page.2]
    simp
  · rw [if_neg fun both => at' both.1, counted i]
    refine (partialsOf_congr (extended.slots mgr at' different) fun c slot' => extended.pages c ?_).symm
    rintro rfl
    rw [← extended.slots mgr at' different] at slot'
    exact inv'.store.not_mem_cachesOf (mem_cons_of_mem _ member) slot (mem_cons_of_mem _ inside) at' slot'

theorem Base.counts_give (base : Base used heap global mgrs objs others) {cell : Nat} (member : owner ∈ mgrs ++ [global])
    (slot : ptr ∈ heap.cachesOf owner) (cls : cacheSize[idx]?.map Prod.fst = some (heap.caches ptr).cellSize)
    (freed : Freed heap heap' global owner idx ptr cell) (inside : mgr ∈ mgrs ++ [global])
    (counted : heap.CountsPartials mgr) : heap'.CountsPartials mgr := by
  have pages : ∀ c, c ≠ ptr → heap'.caches c = heap.caches c := fun c different => by
    rw [freed.page, update_of_ne different]
  have page : heap'.caches ptr = (heap.caches ptr).given cell := by
    rw [freed.page, update_self]
  have more : (heap'.caches ptr).freeCount ≠ 0 := by
    rw [page]
    exact Nat.succ_ne_zero _
  intro i
  rw [freed.counts]
  by_cases at' : mgr = owner
  · rw [at'] at counted ⊢
    have one := base.partialsOf_one member slot cls rfl (by rw [page]; rfl) (freed.cachesOf owner) pages i
    have before := counted i
    by_cases same : i = idx
    · subst same
      by_cases full : (heap.caches ptr).freeCount = 0
      · simp only [full, more, ne_eq, not_true, not_false_eq_true, and_true, and_false, if_true, if_false] at one ⊢
        omega
      · simp only [full, more, ne_eq, not_false_eq_true, and_true, if_true, if_false] at one ⊢
        omega
    · simp only [same, false_and, and_false, if_false] at one ⊢
      omega
  · rw [if_neg fun both => at' both.2.1, counted i,
      base.partialsOf_other member slot pages inside at' (freed.cachesOf mgr)]

theorem Released.counts_release (released : Released heap heap' owner idx ptr)
    (cls : cacheSize[idx]?.map Prod.fst = some (heap.caches ptr).cellSize) (free : (heap.caches ptr).freeCount ≠ 0)
    (counted : heap.CountsPartials mgr) : heap'.CountsPartials mgr := by
  intro i
  rw [released.counts]
  by_cases at' : mgr = owner
  · subst at'
    have before := counted i
    have one := isPartial_toNat (i := i) cls rfl
    have same : heap'.isPartial i = heap.isPartial i := funext fun c => isPartial_congr (by rw [released.caches])
    rw [partialsOf, released.slot.countP_eq, countP_cons, bit_toNat, one, ← same] at before
    simp only [true_and, free, ne_eq, not_false_eq_true, and_true] at before ⊢
    rw [partialsOf]
    split at before
    · rename_i here
      subst here
      rw [if_pos rfl, before, Nat.add_sub_cancel]
    · rename_i other
      rw [if_neg other, before, Nat.add_zero]
  · rw [if_neg fun both => at' both.1, counted i]
    exact (partialsOf_congr (released.slots mgr at') fun c _ => by rw [released.caches]).symm

section

variable (lists : PartialLists heap global mgrs)
include lists

section

variable (base : Base used heap global mgrs objs others)
include base

variable (member : owner ∈ mgrs ++ [global])
include member

theorem PartialLists.take (slot : ptr ∈ heap.cachesOf owner) (some : (heap.caches ptr).freeCount ≠ 0)
    (cls : cacheSize[idx]?.map Prod.fst = .some (heap.caches ptr).cellSize)
    (which : owner = global ∨ heap.nexts global idx = .some owner) (taken : Taken heap heap' global owner idx ptr) :
    PartialLists heap' global mgrs := by
  constructor
  · exact fun mgr inside =>
      base.counts_take member slot some cls taken (mem_append_left _ inside) (lists.counted mgr inside)
  · intro i
    have first : ∀ mgr ∈ mgrs, mgr ≠ global := by
      rintro mgr inside rfl
      exact base.global_not_mem inside
    have links : ∀ mgr, mgr ∈ mgrs ∧ heap.counts mgr i ≠ 0 → heap'.nexts mgr i = heap.nexts mgr i := fun mgr inside => by
      rw [taken.nexts, if_neg fun all => first mgr inside.1 all.2.2.1]
    by_cases leaves : ((heap.caches ptr).freeCount - 1 = 0 ∧ heap.counts owner idx - 1 = 0 ∧ i = idx) ∧ owner ≠ global
    · obtain ⟨⟨full, last, rfl⟩, other⟩ := leaves
      have listed := which.resolve_left other
      have enrolled := lists.enrolled i
      have start : heap'.nexts global i = heap.nexts owner i := by
        rw [taken.nexts, if_pos ⟨full, last, rfl, rfl⟩]
      rw [listed] at enrolled
      refine enrolled.leave start links fun mgr => ?_
      rw [taken.counts]
      by_cases at' : mgr = owner
      · simp [at', full, last]
      · simp [at']
    · refine (lists.enrolled i).congr ?_ links fun mgr => ?_
      · rw [taken.nexts]
        split
        · rename_i all
          obtain ⟨full, last, _, rfl⟩ := all
          by_contra different
          refine leaves ⟨⟨full, last, rfl⟩, ?_⟩
          rintro rfl
          exact different rfl
        · rfl
      · refine and_congr_right fun inside => ?_
        rw [taken.counts]
        split
        · rename_i all
          obtain ⟨full, rfl, rfl⟩ := all
          have counted := (lists.enrolled i).start_has (which.resolve_left (first mgr inside))
          have more : heap.counts mgr i - 1 ≠ 0 := fun last => leaves ⟨⟨full, last, rfl⟩, first mgr inside⟩
          exact ⟨fun _ => counted.2, fun _ => more⟩
        · rfl

theorem PartialLists.enrolled_gain (counts : ∀ mgr ∈ mgrs, ∀ i, heap'.counts mgr i =
      if mgr = owner ∧ i = idx then heap.counts owner idx + 1 else heap.counts mgr i)
    (nexts : ∀ mgr ∈ mgrs ++ [global], ∀ i, heap'.nexts mgr i = (heap.joinPartial owner global idx).nexts mgr i) (i : Nat) :
    Enrolled (fun mgr => heap'.nexts mgr i) (heap'.nexts global i) fun mgr => mgr ∈ mgrs ∧ heap'.counts mgr i ≠ 0 := by
  have first : global ∈ mgrs ++ [global] := mem_concat_self
  have apart : ∀ mgr ∈ mgrs, mgr ≠ global := by
    rintro mgr inside rfl
    exact base.global_not_mem inside
  simp only [nexts_joinPartial] at nexts
  by_cases joins : ((heap.managers owner).prev ≠ none ∧ heap.counts owner idx = 0) ∧ i = idx
  · obtain ⟨enters, rfl⟩ := joins
    have inside : owner ∈ mgrs := (base.prev_ne_none_iff member).mp enters.1
    refine (lists.enrolled i).join (fun listed => listed.2 enters.2) ?_ ?_ ?_ fun mgr => ?_
    · rw [nexts global first, if_pos enters, if_pos ⟨rfl, rfl⟩, nonNull, if_neg (base.bounded member).1.ne']
    · rw [nexts owner member, if_pos enters, if_neg fun both => apart owner inside both.1, if_pos ⟨rfl, rfl⟩]
    · rintro mgr ⟨old, some⟩
      have different : mgr ≠ owner := by
        rintro rfl
        exact some enters.2
      rw [nexts mgr (mem_append_left _ old), if_pos enters, if_neg fun both => apart mgr old both.1,
        if_neg fun both => different both.1]
    · by_cases at' : mgr = owner
      · simp [at', inside, counts owner inside]
      · constructor
        · rintro ⟨old, counted⟩
          rw [counts mgr old, if_neg fun both => at' both.1] at counted
          exact .inr ⟨old, counted⟩
        · intro old
          obtain ⟨old, counted⟩ := old.resolve_left at'
          refine ⟨old, ?_⟩
          rwa [counts mgr old, if_neg fun both => at' both.1]
  · have same : ∀ mgr ∈ mgrs ++ [global], heap'.nexts mgr i = heap.nexts mgr i := by
      intro mgr inside
      rw [nexts mgr inside]
      split
      · rename_i enters
        rw [if_neg fun both => joins ⟨enters, both.2⟩, if_neg fun both => joins ⟨enters, both.2⟩]
      · rfl
    refine (lists.enrolled i).congr (same global first) (fun mgr inside => same mgr (mem_append_left _ inside.1))
      fun mgr => and_congr_right fun inside => ?_
    rw [counts mgr inside]
    split
    · rename_i here
      obtain ⟨rfl, rfl⟩ := here
      have later := (base.prev_ne_none_iff member).mpr inside
      exact ⟨fun _ zero => joins ⟨⟨later, zero⟩, rfl⟩, fun _ => Nat.succ_ne_zero _⟩
    · rfl

theorem PartialLists.grow (fresh : ptr ∉ heap.allCaches (mgrs ++ [global])) (cls : cacheSize[idx]?.map Prod.fst = some size)
    (spare : owner = global ∨ 2 < cellCount) (grown : Grown heap heap' global owner idx ptr size cellCount) :
    PartialLists heap' global mgrs := by
  refine ⟨fun mgr inside => ?_, lists.enrolled_gain base member (fun mgr _ => grown.counts mgr) fun mgr _ i => ?_⟩
  · refine grown.counts_grow fresh cls (mem_append_left _ inside) ?_ (lists.counted mgr inside)
    rintro rfl
    exact spare.resolve_left fun same => base.global_not_mem (same ▸ inside)
  · rw [grown.nexts, nexts_joinPartial]

end

theorem PartialLists.extend {new : Nat} (inv : Inv used heap global mgrs objs others)
    (inv' : Inv used heap' global (new :: mgrs) objs' others) (newest : (mgrs ++ [global]).head? = some owner)
    (extended : Extended heap heap' global owner new ptr) : PartialLists heap' global (new :: mgrs) := by
  have member := mem_of_mem_head? newest
  obtain ⟨none, zero⟩ := inv.spare owner newest
  obtain ⟨none', zero'⟩ := inv'.spare new rfl
  have different : ∀ mgr ∈ mgrs ++ [global], mgr ≠ new := by
    rintro mgr inside rfl
    exact (nodup_cons.mp inv'.store.nodup).1 inside
  refine ⟨?_, fun i => ?_⟩
  · rw [forall_mem_cons]
    refine ⟨fun i => ?_, fun mgr inside => ?_⟩
    · rw [zero', partialsOf, none']
      rfl
    · exact inv.counts_extend inv' newest extended (mem_append_left _ inside) (lists.counted mgr inside)
  · have counts : ∀ mgr ∈ mgrs, ∀ i, heap'.counts mgr i =
        if mgr = owner ∧ i = 8 then heap.counts owner 8 + 1 else heap.counts mgr i := by
      intro mgr inside i
      rw [extended.counts mgr i (different mgr (mem_append_left _ inside)), zero]
    have nexts : ∀ mgr ∈ mgrs ++ [global], ∀ i, heap'.nexts mgr i = (heap.joinPartial owner global 8).nexts mgr i := by
      intro mgr inside i
      rw [extended.nexts mgr i (different mgr inside), nexts_joinPartial, nonNull, if_neg (inv.bounded member).1.ne']
      simp only [zero, and_true]
    refine (lists.enrolled_gain inv.toBase member counts nexts i).congr rfl (fun _ _ => rfl) fun mgr => ?_
    rw [mem_cons]
    constructor
    · rintro ⟨inside, counted⟩
      refine ⟨inside.resolve_left ?_, counted⟩
      rintro rfl
      exact counted (zero' i)
    · rintro ⟨inside, counted⟩
      exact ⟨.inr inside, counted⟩

theorem PartialLists.give (base : Base used heap global mgrs objs others) {cell : Nat} (member : owner ∈ mgrs ++ [global])
    (slot : ptr ∈ heap.cachesOf owner) (cls : cacheSize[idx]?.map Prod.fst = some (heap.caches ptr).cellSize)
    (freed : Freed heap heap' global owner idx ptr cell) : PartialLists heap' global mgrs := by
  constructor
  · exact fun mgr inside => base.counts_give member slot cls freed (mem_append_left _ inside) (lists.counted mgr inside)
  · intro i
    by_cases full : (heap.caches ptr).freeCount = 0
    · have nexts : ∀ mgr ∈ mgrs ++ [global], ∀ i, heap'.nexts mgr i = (heap.joinPartial owner global idx).nexts mgr i :=
        fun mgr _ i => by rw [freed.nexts, if_pos full]
      refine lists.enrolled_gain base member (fun mgr _ i => ?_) nexts i
      rw [freed.counts]
      simp only [full, true_and]
    · refine (lists.enrolled i).congr ?_ (fun mgr _ => ?_) fun mgr => ?_
      · rw [freed.nexts, if_neg full]
      · rw [freed.nexts, if_neg full]
      · rw [freed.counts, if_neg fun both => full both.1]

theorem PartialLists.release (base : Base used heap global mgrs objs others) (member : owner ∈ mgrs ++ [global])
    (cls : cacheSize[idx]?.map Prod.fst = some (heap.caches ptr).cellSize) (free : (heap.caches ptr).freeCount ≠ 0)
    (more : owner = global ∨ 2 ≤ heap.counts owner idx) (released : Released heap heap' owner idx ptr) :
    PartialLists heap' global mgrs := by
  constructor
  · exact fun mgr inside => released.counts_release cls free (lists.counted mgr inside)
  · intro i
    refine (lists.enrolled i).congr (released.nexts global i) (fun mgr _ => released.nexts mgr i) fun mgr =>
      and_congr_right fun inside => ?_
    rw [released.counts]
    split
    · rename_i here
      obtain ⟨rfl, rfl⟩ := here
      have two := more.resolve_left fun same => base.global_not_mem (same ▸ inside)
      omega
    · rfl

end

section Outcomes

variable [PageAllocator A]
omit [PageAllocator A] in
theorem Inv.mgrs_unique (inv : Inv used heap global mgrs objs others) (inv' : Inv used heap global mgrs' objs' others') :
    mgrs = mgrs' :=
  append_cancel_right (reverse_injective (inv.forward.unique inv'.forward))

theorem Prepared.lists {news : List Nat} (inv : Inv used heap global mgrs objs others)
    (prep : Prepared used heap heap' global owner mgrs news objs others) (lists : PartialLists heap global mgrs) :
    PartialLists heap' global (news ++ mgrs) := by
  have after := prep.inv
  rcases prep.how with ⟨rfl, rfl⟩ | ⟨new, ptr, rfl, newest, extended⟩
  · exact lists
  · exact lists.extend inv after newest extended

theorem AllocOutcome.keeps (sound : SoundPages used) (inv : Inv used heap global mgrs objs others)
    (size : (cellSize, cellCount) ∈ cacheSize) {c : Nat}
    (outcome : AllocOutcome used heap global mgrs objs others cellSize cellCount idx header (.ok (ptr, heap')))
    (member : mgr ∈ mgrs ++ [global]) (slot : c ∈ heap.cachesOf mgr) :
    c ∈ heap'.cachesOf mgr ∧ (heap'.caches c).span = (heap.caches c).span := by
  cases outcome with
  | taken owner c' inside found which =>
    have spec := heap.takeCell_spec global owner idx c'
    refine ⟨by rwa [spec.cachesOf], ?_⟩
    rw [spec.page, update_apply]
    split
    · rename_i same
      rw [same, CachePage.span_taken]
    · rfl
  | grown owner news prepared c' after which grower prep allocated =>
    have grown := prep.inv.toBase.grown_spec idx sound prep.member prep.room size allocated
    obtain ⟨_, _, fresh, _⟩ := prep.inv.store.allocate sound prep.inv.null size allocated
    have before : mgr ∈ news ++ mgrs ++ [global] ∧ c ∈ prepared.cachesOf mgr ∧ prepared.caches c = heap.caches c := by
      have inv' := prep.inv
      rcases prep.how with ⟨rfl, rfl⟩ | ⟨new, first, rfl, newest, extended⟩
      · exact ⟨member, slot, rfl⟩
      · have other : mgr ≠ owner := by
          rintro rfl
          exact inv.older_of_slot slot newest
        have different : mgr ≠ new := by
          rintro rfl
          exact (nodup_cons.mp inv'.store.nodup).1 member
        have member' : mgr ∈ [new] ++ mgrs ++ [global] := mem_cons_of_mem _ member
        rw [← extended.slots mgr other different] at slot
        refine ⟨member', slot, extended.pages c ?_⟩
        rintro rfl
        refine inv'.store.not_mem_cachesOf prep.member ?_ member' other slot
        rw [extended.slot]
        exact mem_singleton_self c
    obtain ⟨member, slot, same⟩ := before
    have old : c ≠ c' := by
      rintro rfl
      exact fresh (mem_allCaches.mpr ⟨mgr, member, slot⟩)
    rw [grown.pages c old, same]
    refine ⟨?_, rfl⟩
    by_cases at' : mgr = owner
    · rw [at'] at slot ⊢
      exact grown.slot.symm.subset (mem_cons_of_mem _ slot)
    · rwa [grown.slots mgr at']

theorem AllocOutcome.lists (sound : SoundPages used) (inv : Inv used heap global mgrs objs others)
    (lists : PartialLists heap global mgrs) (cls : cacheSize[idx]? = some (cellSize, cellCount))
    (clean : (heap.managers global).usedSlots = slotNum → 2 < cellCount)
    (outcome : AllocOutcome used heap global mgrs objs others cellSize cellCount idx header (.ok (ptr, heap'))) :
    ∃ mgrs' objs', Inv used heap' global mgrs' objs' others ∧ PartialLists heap' global mgrs' := by
  have size : cacheSize[idx]?.map Prod.fst = some cellSize := by rw [cls]; rfl
  have listed := mem_of_getElem? cls
  cases outcome with
  | taken mgr c member found which =>
    obtain ⟨_, slot, same, free⟩ := partialCache_some found
    have spec := heap.takeCell_spec global mgr idx c
    exact ⟨mgrs, _, inv.take member slot free spec,
      lists.take inv.toBase member slot free (by rw [same]; exact size) which spec⟩
  | grown mgr news prepared c after which grower prep allocated =>
    have grown := prep.inv.toBase.grown_spec idx sound prep.member prep.room listed allocated
    obtain ⟨_, _, fresh, _⟩ := prep.inv.store.allocate sound prep.inv.null listed allocated
    refine ⟨news ++ mgrs, _, prep.inv.grow sound prep.member prep.older prep.room prep.few listed idx allocated, ?_⟩
    exact (prep.lists inv lists).grow prep.inv.toBase prep.member fresh size (which.imp_right fun full => clean full.1) grown

theorem DeallocOutcome.lists (inv : Inv used heap global mgrs objs others)
    (lists : PartialLists heap global mgrs) {slot cell : Nat} (member : owner ∈ mgrs ++ [global])
    (here : (heap.managers owner).caches[slot]? = some (some ptr))
    (cls : cacheSize[idx]?.map Prod.fst = some (heap.caches ptr).cellSize)
    (clean : owner = global ∨ (heap.caches ptr).usedCount ≠ 1 ∨ ∃ other ∈ heap.cachesOf owner, other ≠ ptr ∧
      (heap.caches other).cellSize = (heap.caches ptr).cellSize ∧ (heap.caches other).freeCount ≠ 0)
    (base : Base used (heap.freedCell global owner idx ptr cell) global mgrs objs' others)
    (outcome : DeallocOutcome heap global owner idx slot ptr cell heap') : PartialLists heap' global mgrs := by
  have spec := heap.freedCell_spec global owner idx ptr cell
  have inSlot : ptr ∈ heap.cachesOf owner := reduceOption_mem_iff.mpr (mem_of_getElem? here)
  have freed := lists.give inv.toBase member inSlot cls spec
  cases outcome with
  | kept more => exact freed
  | released last counted alloc given =>
    have released := (heap.freedCell global owner idx ptr cell).released_spec alloc owner idx (by rwa [spec.caches])
    have page : (heap.freedCell global owner idx ptr cell).caches ptr = (heap.caches ptr).given cell := by
      rw [spec.page, update_self]
    refine freed.release base member ?_ ?_ ?_ released
    · rw [page]
      exact cls
    · rw [page]
      exact Nat.succ_ne_zero _
    · rcases clean with first | more | ⟨other, slot', different, same, free⟩
      · exact .inl first
      · exact absurd last more
      · by_cases first : owner = global
        · exact .inl first
        right
        have inside : owner ∈ mgrs := (mem_append.mp member).resolve_right fun only => first (mem_singleton.mp only)
        have rest : other ∈ ((heap.freedCell global owner idx ptr cell).released alloc owner idx slot).cachesOf owner := by
          rw [← spec.cachesOf] at slot'
          exact (mem_cons.mp (released.slot.subset slot')).resolve_left different
        have both : (heap.freedCell global owner idx ptr cell).isPartial idx ptr = true ∧
            (heap.freedCell global owner idx ptr cell).isPartial idx other = true := by
          rw [isPartial_iff, isPartial_iff, page, spec.page, update_of_ne different, same]
          exact ⟨⟨cls, Nat.succ_ne_zero _⟩, cls, free⟩
        rw [freed.counted owner inside, partialsOf, released.slot.countP_eq, countP_cons_of_pos both.1]
        exact Nat.succ_le_succ (countP_pos_iff.mpr ⟨other, rest, both.2⟩)

end Outcomes

end Kernel31.Mcache
