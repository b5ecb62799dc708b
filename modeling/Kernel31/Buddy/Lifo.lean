import Kernel31.Buddy.ZoneAlloc

namespace Kernel31.Buddy

open Checked Function Relation MemoryZone List FreeNodePool Runs

def Tidy (levels : Nat → List Nat) : Prop :=
  ∀ pow, pow < buddyAllocMaxPow → levels pow = [] ∨ ∃ start, 2 ^ pow ∣ start ∧ levels pow = [start]

structure Pick (levels : Nat → List Nat) (order level start : Nat) : Prop where
  fits : order ≤ level
  bound : level < buddyAllocMaxPow
  block : levels level = [start]
  aligned : 2 ^ level ∣ start
  empty : ∀ pow, order ≤ pow → pow < level → levels pow = []

def carve (levels : Nat → List Nat) (order level start : Nat) : Nat → List Nat := fun pow =>
  if pow = level then [] else if order ≤ pow ∧ pow < level then [start + 2 ^ pow] else levels pow

section Pick

variable {levels : Nat → List Nat} {order level start : Nat}

theorem carve_at (levels : Nat → List Nat) (start : Nat) (above : order < level) :
    carve levels order level start order = [start + 2 ^ order] := by
  rw [carve, if_neg (by omega), if_pos ⟨le_rfl, above⟩]

section

variable (pick : Pick levels order level start)
include pick

theorem Pick.aligned_at {pow : Nat} (below : pow ≤ level) : 2 ^ pow ∣ start :=
  dvd_trans (pow_dvd_pow 2 below) pick.aligned

theorem Pick.carve_whole : update (carve levels level level start) level [start] = levels := by
  funext pow
  rcases eq_or_ne pow level with rfl | other
  · rw [update_self, pick.block]
  · rw [update_of_ne other, carve, if_neg other, if_neg (by omega)]

theorem Pick.carve_next (above : order < level) :
    update (carve levels order level start) order [] = carve levels (order + 1) level start := by
  funext pow
  rcases eq_or_ne pow order with rfl | other
  · rw [update_self, carve, if_neg (by omega), if_neg (by omega), pick.empty pow le_rfl above]
  · rw [update_of_ne other, carve, carve]
    have same : (order ≤ pow ∧ pow < level) ↔ (order + 1 ≤ pow ∧ pow < level) := by omega
    simp only [same]

theorem Pick.next (above : order < level) : Pick levels (order + 1) level start :=
  ⟨above, pick.bound, pick.block, pick.aligned, fun pow low high => pick.empty pow (by omega) high⟩

end

theorem Tidy.carve (tidy : Tidy levels) (pick : Pick levels order level start) :
    Tidy (Buddy.carve levels order level start) := by
  intro pow bound
  unfold Buddy.carve
  split
  · exact Or.inl rfl
  · split
    · rename_i inside
      exact Or.inr ⟨_, dvd_add (pick.aligned_at inside.2.le) dvd_rfl, rfl⟩
    · exact tidy pow bound

end Pick

theorem MemoryZone.level_setPow (zone : MemoryZone) (pow : Nat) (nodes : List FreeNode) :
    (zone.setPow pow nodes).level = update zone.level pow (nodes.map FreeNode.pageNumber) := by
  funext other
  rcases eq_or_ne other pow with rfl | different
  · simp [MemoryZone.level]
  · simp [MemoryZone.level, different]

variable {zone : MemoryZone} {pool pool' : FreeNodePool} {base : Nat}

theorem MemoryZone.level_addNode {zone' : MemoryZone} {pow page : Nat}
    (added : zone.addNode pool pow page = .ok (zone', pool')) :
    zone'.level = update zone.level pow (page :: zone.level pow) := by
  obtain ⟨_, node, _, rfl⟩ := addNode_ok.mp added
  exact zone.level_setPow pow _

theorem binaryLevel_tidy (pages : Nat) : Tidy (binaryLevel pages) := by
  intro pow _
  unfold binaryLevel
  split
  · refine Or.inr ⟨_, ?_, rfl⟩
    exact dvd_trans (pow_dvd_pow 2 (Nat.le_succ pow)) (Nat.dvd_sub_mod pages)
  · exact Or.inl rfl

theorem MemoryZone.allocPages_carves {zone' : MemoryZone} {order page : Nat} (tidy : Tidy zone.level)
    (run : zone.allocPages pool (2 ^ order) = .ok (some page, zone', pool')) :
    ∃ level start, Pick zone.level order level start ∧ page = zone.base + start ∧ zone'.base = zone.base ∧
      zone'.level = carve zone.level order level start ∧
      (level = order → pool'.freeStart ≠ [] ∧ pool'.freenodeRemain ≠ 0) := by
  obtain ⟨none, _⟩ | ⟨level, node, next, first, list, found, rule⟩ := allocPages_cases run
  · cases none
  obtain ⟨bound, fits, _, gone⟩ := firstLevel_some.mp first
  have single : next = [] ∧ 2 ^ level ∣ node.pageNumber := by
    rcases tidy level bound with none | ⟨start, aligned, one⟩
    · simp [MemoryZone.level, list] at none
    · simp only [MemoryZone.level, list, map_cons, List.cons.injEq, map_eq_nil_iff] at one
      exact ⟨one.2, by rwa [one.1]⟩
  obtain ⟨rfl, aligned⟩ := single
  have pick : Pick zone.level order level node.pageNumber :=
    ⟨fits, bound, by simp [MemoryZone.level, list], aligned, fun pow low high => by
      simp [MemoryZone.level, gone pow low high]⟩
  have emptied : (zone.setPow level []).level = carve zone.level level level node.pageNumber := by
    rw [level_setPow]
    funext pow
    rcases eq_or_ne pow level with rfl | other
    · simp [carve]
    · rw [update_of_ne other, carve, if_neg other, if_neg (by omega)]
  let inv := fun i (current : MemoryZone) (left : FreeNodePool) => i ≤ level ∧ current.base = zone.base ∧
    current.level = carve zone.level i level node.pageNumber ∧
    (level = i → left.freeStart ≠ [] ∧ left.freenodeRemain ≠ 0)
  have start : inv level (zone.setPow level []) (pool.recycleNode node.ptr) :=
    ⟨le_rfl, rfl, emptied, fun _ => by simp [recycleNode]⟩
  have final := rule inv start ?_
  · obtain ⟨_, base, levels, nodes⟩ := final
    exact ⟨level, node.pageNumber, pick, Option.some.inj found, base, levels, nodes⟩
  · rintro i before between after left low ⟨inside, base, levels, _⟩ added
    obtain ⟨base', _⟩ := addNode_frame added
    refine ⟨by omega, base'.trans base, ?_, by omega⟩
    have none : before.level i = [] := by
      rw [levels, carve, if_neg (by omega), if_neg (by omega), pick.empty i low (by omega)]
    rw [level_addNode added, none, levels]
    have picked : Pick zone.level i level node.pageNumber :=
      ⟨by omega, bound, pick.block, aligned, fun pow above below => pick.empty pow (by omega) below⟩
    rw [← picked.carve_next (by omega), update_idem, ← carve_at zone.level node.pageNumber inside]
    exact update_eq_self _ _

theorem mergeLoop_carved {levels : Nat → List Nat} {order level start : Nat} (pick : Pick levels order level start)
    {s : MergeState} (levelsAt : s.zone.level = carve levels order level start) (final : s.powFinal = order)
    (relative : s.pageRelative = start) :
    ∃ s', mergeLoop (buddyAllocMaxPow - order) order s = .ok s' ∧ s'.zone.base = s.zone.base ∧
      s'.zone.level = carve levels level level start ∧ s'.powFinal = level ∧ s'.pageRelative = start ∧
      (order < level ∨ s.pool.freeStart ≠ [] ∧ s.pool.freenodeRemain ≠ 0 →
        s'.pool.freeStart ≠ [] ∧ s'.pool.freenodeRemain ≠ 0) := by
  have fits := pick.fits
  have bound := pick.bound
  induction fits using Nat.decreasingInduction generalizing s with
  | self =>
    have none : s.zone.pows level = [] := by
      have empty := congrFun levelsAt level
      simpa [MemoryZone.level, carve] using empty
    obtain ⟨more, toGo⟩ : ∃ more, buddyAllocMaxPow - level = more + 1 := ⟨buddyAllocMaxPow - level - 1, by omega⟩
    refine ⟨s, ?_, rfl, levelsAt, final, relative, ?_⟩
    · rw [toGo, mergeLoop, none]
      rfl
    · rintro (impossible | stocked)
      · omega
      · exact stocked
  | of_succ order above ih =>
    have single : (s.zone.pows order).map FreeNode.pageNumber = [start + 2 ^ order] := by
      rw [← carve_at levels start above, ← levelsAt]
      rfl
    obtain ⟨partner, list, number⟩ := map_eq_singleton_iff.mp single
    have left : s.pageRelative % 2 ^ (order + 1) = 0 := by
      rw [relative]
      exact Nat.mod_eq_zero_of_dvd (pick.aligned_at above)
    have hit : isPartner order s.pageRelative partner = true := by
      rw [isPartner, if_pos left, number, relative]
      simp
    obtain ⟨more, toGo⟩ : ∃ more, buddyAllocMaxPow - order = more + 1 := ⟨buddyAllocMaxPow - order - 1, by omega⟩
    let merged : MergeState :=
      { s with
        zone := s.zone.setPow order []
        pool := s.pool.recycleNode partner.ptr
        powFinal := s.powFinal + 1
        pagesCount := s.pagesCount <<< 1 }
    have levels' : merged.zone.level = carve levels (order + 1) level start := by
      rw [← pick.carve_next above, ← levelsAt]
      exact s.zone.level_setPow order []
    obtain ⟨s', run, base, done, atTop, same, stocked⟩ := ih (pick.next above) levels' (by simp [merged, final]) relative
    refine ⟨s', ?_, base, done, atTop, same, ?_⟩
    · rw [toGo, mergeLoop, list]
      simp only [unlinkPartner, hit, if_true, left]
      rw [← run]
      congr 1
      omega
    · intro _
      exact stocked (Or.inr ⟨by simp [merged, recycleNode], by simp [merged, recycleNode]⟩)

/-- It can fail only for want of a node, when the block was not split and the pool is empty. -/
theorem MemoryZone.freePages_carved {levels : Nat → List Nat} {order level start : Nat}
    (pick : Pick levels order level start) (pool : FreeNodePool)
    (levelsAt : zone.level = carve levels order level start) :
    (∀ zone' pool', zone.freePages pool (zone.base + start) (2 ^ order) = .ok (zone', pool') →
      zone'.base = zone.base ∧ zone'.level = levels) ∧
    (order < level ∨ pool.freeStart ≠ [] ∧ pool.freenodeRemain ≠ 0 →
      ∃ zone' pool', zone.freePages pool (zone.base + start) (2 ^ order) = .ok (zone', pool')) := by
  have bound : order < buddyAllocMaxPow := lt_of_le_of_lt pick.fits pick.bound
  let opened : MergeState :=
    { zone := zone, pool := pool, powFinal := order, pageRelative := zone.base + start - zone.base,
      pagesCount := 2 ^ order }
  obtain ⟨s, merged, base, atLevel, final, relative, stocked⟩ :=
    mergeLoop_carved pick (s := opened) levelsAt rfl (Nat.add_sub_cancel_left ..)
  have run : zone.freePages pool (zone.base + start) (2 ^ order) = s.zone.addNode s.pool level start := by
    rw [MemoryZone.freePages, if_neg (by simp [nextPowerOfTwo_two_pow]), if_neg (by omega)]
    simp only [findPow_two_pow bound]
    change (mergeLoop (buddyAllocMaxPow - order) order opened >>= _) = _
    rw [merged, ok_bind, final, relative]
  rw [run]
  constructor
  · intro zone' pool' added
    obtain ⟨base', _⟩ := addNode_frame added
    refine ⟨base'.trans base, ?_⟩
    have none : s.zone.level level = [] := by
      rw [atLevel, carve, if_pos rfl]
    rw [level_addNode added, none, atLevel, pick.carve_whole]
  · intro enough
    obtain ⟨nodes, remain⟩ := stocked enough
    obtain ⟨node, rest, list⟩ := exists_cons_of_ne_nil nodes
    exact ⟨_, _, s.zone.addNode_eq start pick.bound list (Nat.pos_of_ne_zero remain)⟩

def ZoneState.LastFirst (s : ZoneState) : ZoneOp → Prop
  | .alloc _ => True
  | .free pageStart pagesCount => s.outstanding.head? = some (pageStart, pagesCount)

instance (s : ZoneState) : DecidablePred s.LastFirst
  | .alloc _ => isTrue trivial
  | .free pageStart pagesCount => inferInstanceAs (Decidable (s.outstanding.head? = some (pageStart, pagesCount)))

def ZoneState.LifoStep (s s' : ZoneState) : Prop :=
  ∃ op pool pool', s.LastFirst op ∧ s.step pool op = .ok (s', pool')

/-- The held blocks were carved one out of the lists that the next one left, starting from `first`. -/
inductive Unwinds (base : Nat) (first : Nat → List Nat) : (Nat → List Nat) → List (Nat × Nat) → Prop
  | start : Unwinds base first first []
  | carved {levels : Nat → List Nat} {held : List (Nat × Nat)} {order level start : Nat}
    (below : Unwinds base first levels held) (pick : Pick levels order level start) :
    Unwinds base first (carve levels order level start) ((base + start, 2 ^ order) :: held)

theorem Unwinds.tidy {first levels : Nat → List Nat} {held : List (Nat × Nat)} (tidy : Tidy first)
    (unwinds : Unwinds base first levels held) : Tidy levels := by
  induction unwinds with
  | start => exact tidy
  | carved below pick ih => exact ih.carve pick

theorem Unwinds.step {s s' : ZoneState} {first : Nat → List Nat} (tidy : Tidy first)
    (unwinds : s.zone.base = base ∧ Unwinds base first s.zone.level s.outstanding) (steps : s.LifoStep s') :
    s'.zone.base = base ∧ Unwinds base first s'.zone.level s'.outstanding := by
  obtain ⟨op, pool, pool', last, run⟩ := steps
  obtain ⟨sameBase, unwinds⟩ := unwinds
  cases op with
  | alloc pagesCount =>
    simp only [ZoneState.step, bind_ok, Prod.exists] at run
    obtain ⟨found, zone, left, allocated, run⟩ := run
    have power := allocPages_power allocated
    rw [power] at allocated
    cases found with
    | none =>
      obtain ⟨rfl, _⟩ := allocPages_none allocated
      obtain ⟨⟩ := pure_ok.mp run
      exact ⟨sameBase, unwinds⟩
    | some page =>
      obtain ⟨⟩ := pure_ok.mp run
      obtain ⟨level, start, pick, rfl, base', levels, _⟩ :=
        allocPages_carves (unwinds.tidy tidy) allocated
      refine ⟨base'.trans sameBase, ?_⟩
      have next := unwinds.carved pick
      rw [← power] at next
      rwa [levels, sameBase]
  | free pageStart pagesCount =>
    simp only [ZoneState.step, bind_ok, pure_ok, Prod.exists] at run
    obtain ⟨zone, left, freed, ⟨⟩⟩ := run
    simp only [ZoneState.LastFirst] at last
    generalize levelsAt : s.zone.level = levels at unwinds
    generalize heldAt : s.outstanding = held at unwinds last
    cases unwinds with
    | start => cases last
    | carved below pick =>
      simp only [head?_cons, Option.some.injEq, Prod.mk.injEq] at last
      obtain ⟨rfl, rfl⟩ := last
      rw [← sameBase] at freed
      obtain ⟨base', levels'⟩ := (freePages_carved pick pool levelsAt).1 _ _ freed
      refine ⟨base'.trans sameBase, ?_⟩
      simp only [erase_cons_head]
      rwa [levels']

theorem MemoryZone.new_unwinds {pages : Nat} (new : new pool base pages = .ok (zone, pool'))
    {s : ZoneState} (run : ReflTransGen ZoneState.LifoStep { zone := zone, outstanding := [] } s) :
    Tidy zone.level ∧ s.zone.base = base ∧ Unwinds base zone.level s.zone.level s.outstanding := by
  have binary : zone.level = binaryLevel pages := funext (new_level new)
  have tidy : Tidy zone.level := by
    rw [binary]
    exact binaryLevel_tidy pages
  have initial : zone.base = base := (new_tiling new).1
  refine ⟨tidy, preserved (fun s : ZoneState => s.zone.base = base ∧
    Unwinds base zone.level s.zone.level s.outstanding) (fun _ _ kept steps => Unwinds.step tidy kept steps)
    ⟨initial, .start⟩ run⟩

/-- Freeing the block that was just allocated gives back the lists before it, and freeing all those of the new zone.
    -/
theorem zone_lists_of_reverse_frees {pool pool' : FreeNodePool} {base pages : Nat} {zone : MemoryZone}
    (new : new pool base pages = .ok (zone, pool')) {s : ZoneState}
    (run : ReflTransGen ZoneState.LifoStep { zone := zone, outstanding := [] } s) :
    (∀ pagesCount before page after between, s.zone.allocPages before pagesCount = .ok (some page, after, between) →
      ∃ freed left, after.freePages between page pagesCount = .ok (freed, left) ∧
        ∀ pow, freed.level pow = s.zone.level pow) ∧
    (∀ page pagesCount held between, s.outstanding = (page, pagesCount) :: held → between.freeStart ≠ [] →
      between.freenodeRemain ≠ 0 → ∃ freed left, s.zone.freePages between page pagesCount = .ok (freed, left)) ∧
    (s.outstanding = [] → ∀ pow, s.zone.level pow = zone.level pow) := by
  obtain ⟨tidy, sameBase, unwinds⟩ := new_unwinds new run
  refine ⟨?_, ?_, ?_⟩
  · intro pagesCount before page after between allocated
    have power := allocPages_power allocated
    rw [power] at allocated ⊢
    obtain ⟨level, start, pick, rfl, base', levels, nodes⟩ :=
      allocPages_carves (unwinds.tidy tidy) allocated
    rw [← base']
    obtain ⟨restores, returns⟩ := freePages_carved pick between levels
    have enough : ceilOrder pagesCount < level ∨ between.freeStart ≠ [] ∧ between.freenodeRemain ≠ 0 := by
      rcases pick.fits.eq_or_lt with same | above
      · exact Or.inr (nodes same.symm)
      · exact Or.inl above
    obtain ⟨freed, left, done⟩ := returns enough
    exact ⟨freed, left, done, congrFun (restores freed left done).2⟩
  · intro page pagesCount held between top nodes remain
    generalize levelsAt : s.zone.level = levels at unwinds
    rw [top] at unwinds
    cases unwinds with
    | carved below pick =>
      rw [← sameBase]
      exact (freePages_carved pick between levelsAt).2 (Or.inr ⟨nodes, remain⟩)
  · intro none pow
    generalize levelsAt : s.zone.level = levels at unwinds
    rw [none] at unwinds
    cases unwinds with
    | start => rfl

def ZoneState.lifoNext (current : ZoneState × FreeNodePool) (op : ZoneOp) : Option (ZoneState × FreeNodePool) :=
  if current.1.LastFirst op then (current.1.step current.2 op).toOption else none

theorem ZoneState.lifoNext_steps (current : ZoneState × FreeNodePool) (op : ZoneOp) (after : ZoneState × FreeNodePool)
    (played : ZoneState.lifoNext current op = some after) : current.1.LifoStep after.1 := by
  obtain ⟨last, run⟩ := of_guarded played
  exact ⟨op, current.2, after.2, last, run⟩

theorem zone_lists_of_two_blocks :
    ∃ last, new .init 0 8 = .ok (eightPages.zone, .afterOne) ∧
      [ZoneOp.alloc 1, .alloc 2, .free 2 2, .free 0 1].foldlM ZoneState.lifoNext (eightPages, .afterOne) = some last ∧
      last.1.outstanding = [] ∧ ∀ pow, last.1.zone.level pow = eightPages.zone.level pow := by
  have played : ∃ last, [ZoneOp.alloc 1, .alloc 2, .free 2 2, .free 0 1].foldlM ZoneState.lifoNext
      (eightPages, .afterOne) = some last ∧ last.1.outstanding = [] := ⟨_, rfl, rfl⟩
  obtain ⟨last, played, freed⟩ := played
  have run : ReflTransGen ZoneState.LifoStep eightPages last.1 :=
    (of_foldlM ZoneState.lifoNext_steps played).lift Prod.fst fun _ _ steps => steps
  exact ⟨last, eightPages_new, played, freed, (zone_lists_of_reverse_frees eightPages_new run).2.2 freed⟩

end Kernel31.Buddy
