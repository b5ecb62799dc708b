import Kernel31.Buddy.ZoneTiling

namespace Kernel31.Buddy

open Checked DyadicBlocks MemoryZone List FreeNodePool

variable {zone zone' : MemoryZone} {pool pool' : FreeNodePool} {pages order : Nat}

def MemoryZone.empty (base pages : Nat) : MemoryZone := { base := base, pages := pages, pows := fun _ => [] }

def FreeNodePool.afterOne : FreeNodePool :=
  { freenodeRemain := 511, freeStart := (range' 1 511).map .fixed }

theorem FreeNodePool.init_eq :
    init = { freenodeRemain := 511 + 1, freeStart := .fixed 0 :: (range' 1 511).map .fixed } := by
  have nodes : List.range nodeCompatibility = 0 :: range' 1 511 := by
    rw [range_eq_range', show nodeCompatibility = 511 + 1 from rfl, List.range'_succ]
  rw [init, nodes]
  rfl

theorem MemoryZone.newLoop_zero (zone : MemoryZone) (pool : FreeNodePool) (current : Nat) :
    zone.newLoop pool 0 current = .ok (zone, pool) := by
  rw [newLoop]
  rfl

theorem MemoryZone.new_two_pow (order base remain : Nat) (bound : order < buddyAllocMaxPow) (node : NodePtr)
    (nodes : List NodePtr) :
    new { freenodeRemain := remain + 1, freeStart := node :: nodes } base (2 ^ order) =
      .ok ((empty base (2 ^ order)).setPow order [⟨node, 0⟩],
        { freenodeRemain := remain, freeStart := nodes }) := by
  have positive : 0 < 2 ^ order := Nat.two_pow_pos _
  rw [new, newLoop, dif_pos positive]
  simp only [floorToPower2, Nat.log2_two_pow, Nat.sub_self]
  have added : (empty base (2 ^ order)).addNode
      { freenodeRemain := remain + 1, freeStart := node :: nodes } order 0 =
      .ok ((empty base (2 ^ order)).setPow order [⟨node, 0⟩],
        { freenodeRemain := remain, freeStart := nodes }) := by
    rw [addNode_ok]
    exact ⟨bound, node, allocNode_ok.mpr ⟨rfl, rfl⟩, rfl⟩
  unfold empty at added
  rw [added, ok_bind]
  exact newLoop_zero _ _ _

/-- Loop rule of `MemoryZone::new`: the blocks come in falling order from page `current` on. -/
theorem MemoryZone.newLoop_rule (inv : MemoryZone → FreeNodePool → Nat → Nat → Prop)
    (step : ∀ zone pool zone' pool' pages current, 0 < pages → inv zone pool pages current →
      zone.addNode pool (Nat.log2 pages) current = .ok (zone', pool') →
      inv zone' pool' (pages - 2 ^ Nat.log2 pages) (current + 2 ^ Nat.log2 pages)) {current : Nat}
    (start : inv zone pool pages current) (run : zone.newLoop pool pages current = .ok (zone', pool')) :
    inv zone' pool' 0 (current + pages) := by
  induction pages using Nat.strong_induction_on generalizing zone pool current with
  | _ pages ih =>
    rw [newLoop] at run
    split at run
    · rename_i more
      simp only [bind_ok, Prod.exists, floorToPower2] at run
      obtain ⟨middle, between, added, run⟩ := run
      have size : 2 ^ Nat.log2 pages ≤ pages := Nat.log2_self_le (by omega)
      have positive : 0 < 2 ^ Nat.log2 pages := Nat.two_pow_pos _
      have final := ih _ (by omega) (step _ _ _ _ _ _ more start added) run
      rw [show current + 2 ^ Nat.log2 pages + (pages - 2 ^ Nat.log2 pages) = current + pages by omega] at final
      exact final
    · rename_i done
      have none : pages = 0 := by omega
      subst none
      obtain ⟨⟩ := pure_ok.mp run
      exact start

theorem sub_log2_lt (more : 0 < pages) : pages - 2 ^ Nat.log2 pages < 2 ^ Nat.log2 pages := by
  have upper : pages < 2 ^ (Nat.log2 pages + 1) := Nat.lt_log2_self
  have double : 2 ^ (Nat.log2 pages + 1) = 2 ^ Nat.log2 pages + 2 ^ Nat.log2 pages := by ring
  omega

theorem MemoryZone.new_tiling {base : Nat} (run : new pool base pages = .ok (zone, pool')) :
    zone.base = base ∧ zone.pages = pages ∧ Tiling zone.freeBlocks pages ∧ Reduced zone.freeBlocks := by
  let inv := fun (current : MemoryZone) (_ : FreeNodePool) remaining start =>
    current.base = base ∧ current.pages = pages ∧ Tiling current.freeBlocks start ∧
      Reduced current.freeBlocks ∧
      ∃ top, remaining < 2 ^ top ∧ 2 ^ top ∣ start ∧ ∀ block ∈ current.freeBlocks, top ≤ block.order
  have opened : inv (empty base pages) pool pages 0 := by
    have none : (empty base pages).freeBlocks = [] := by simp [freeBlocks, empty]
    refine ⟨rfl, rfl, by rw [none]; exact Tiling.nil, by rw [none]; simp [Reduced], pages, Nat.lt_two_pow_self,
      Nat.dvd_zero _, by simp [none]⟩
  have final := newLoop_rule inv ?_ opened run
  · obtain ⟨sameBase, samePages, tiling, reduced, _⟩ := final
    rw [Nat.zero_add] at tiling
    exact ⟨sameBase, samePages, tiling, reduced⟩
  · rintro current between current' between' remaining start more
      ⟨sameBase, samePages, tiling, reduced, top, small, aligned, large⟩ added
    have perm := freeBlocks_add added
    obtain ⟨frameBase, framePages⟩ := addNode_frame added
    have below : Nat.log2 remaining < top := (Nat.log2_lt (by omega)).mpr small
    have fits : 2 ^ Nat.log2 remaining ∣ start := dvd_trans (pow_dvd_pow 2 below.le) aligned
    have smaller : ∀ block ∈ current.freeBlocks, Nat.log2 remaining ≠ block.order := by
      intro block member
      have := large block member
      omega
    refine ⟨frameBase.trans sameBase, framePages.trans samePages, (tiling.extend fits).perm perm.symm, ?_,
      Nat.log2 remaining, sub_log2_lt more, dvd_add fits dvd_rfl, ?_⟩
    · have extended : Reduced (⟨start, Nat.log2 remaining⟩ :: current.freeBlocks) :=
        reduced.cons (fun other member buddies => smaller other member buddies.1)
          (fun other member buddies => smaller other member buddies.1.symm)
      exact extended.mono fun block member => perm.mem_iff.mp member
    · intro block member
      rcases mem_cons.mp (perm.mem_iff.mp member) with rfl | member
      · exact le_rfl
      · exact le_trans below.le (large block member)

def MemoryZone.level (zone : MemoryZone) (pow : Nat) : List Nat := (zone.pows pow).map FreeNode.pageNumber

def binaryLevel (pages pow : Nat) : List Nat :=
  if pages.testBit pow then [pages - pages % 2 ^ (pow + 1)] else []

theorem MemoryZone.level_add {pow page : Nat} (added : zone.addNode pool pow page = .ok (zone', pool'))
    (i : Nat) : zone'.level i = if i = pow then page :: zone.level pow else zone.level i := by
  obtain ⟨_, node, _, rfl⟩ := addNode_ok.mp added
  by_cases same : i = pow
  · subst same
    simp [level]
  · simp [level, same]

theorem leading_bit {top : Nat} (more : 0 < pages % 2 ^ top) :
    Nat.log2 (pages % 2 ^ top) < top ∧ pages.testBit (Nat.log2 (pages % 2 ^ top)) = true ∧
      pages % 2 ^ (Nat.log2 (pages % 2 ^ top) + 1) = pages % 2 ^ top ∧
      ∀ i, Nat.log2 (pages % 2 ^ top) < i → i < top → pages.testBit i = false := by
  have nonzero : pages % 2 ^ top ≠ 0 := by omega
  have small : pages % 2 ^ top < 2 ^ top := Nat.mod_lt _ (Nat.two_pow_pos _)
  have below : Nat.log2 (pages % 2 ^ top) < top := (Nat.log2_lt nonzero).mpr small
  have upper : pages % 2 ^ top < 2 ^ (Nat.log2 (pages % 2 ^ top) + 1) := Nat.lt_log2_self
  have bits : ∀ i, i < top → pages.testBit i = (pages % 2 ^ top).testBit i := by
    intro i inside
    rw [Nat.testBit_mod_two_pow]
    simp [inside]
  refine ⟨below, ?_, ?_, ?_⟩
  · rw [bits _ below]
    exact Nat.testBit_log2 nonzero
  · rw [← Nat.mod_mod_of_dvd pages (pow_dvd_pow 2 (show Nat.log2 (pages % 2 ^ top) + 1 ≤ top by omega)),
      Nat.mod_eq_of_lt upper]
  · intro i above inside
    rw [bits i inside]
    exact Nat.testBit_lt_two_pow (lt_of_lt_of_le upper (Nat.pow_le_pow_right (by omega) above))

theorem MemoryZone.new_level {base : Nat} (run : new pool base pages = .ok (zone, pool')) (pow : Nat) :
    zone.level pow = binaryLevel pages pow := by
  let inv := fun (current : MemoryZone) (_ : FreeNodePool) remaining start =>
    ∃ top, remaining = pages % 2 ^ top ∧ start = pages - pages % 2 ^ top ∧
      ∀ i, current.level i = if top ≤ i then binaryLevel pages i else []
  have opened : inv (empty base pages) pool pages 0 := by
    have whole : pages % 2 ^ pages = pages := Nat.mod_eq_of_lt Nat.lt_two_pow_self
    refine ⟨pages, whole.symm, by rw [whole]; omega, ?_⟩
    intro i
    split
    · rename_i above
      have large : pages < 2 ^ i :=
        lt_of_lt_of_le Nat.lt_two_pow_self (Nat.pow_le_pow_right (by omega) above)
      simp [level, empty, binaryLevel, Nat.testBit_lt_two_pow large]
    · simp [level, empty]
  have final := newLoop_rule inv ?_ opened run
  · obtain ⟨top, empty, _, levels⟩ := final
    rw [levels pow]
    split
    · rfl
    · rename_i below
      have clear : pages.testBit pow = false := by
        have inside : pow < top := by omega
        have same := Nat.testBit_mod_two_pow pages top pow
        rw [← empty] at same
        simpa [inside] using same.symm
      simp [binaryLevel, clear]
  · rintro current between current' between' remaining start more ⟨top, rfl, rfl, levels⟩ added
    obtain ⟨below, set, whole, clear⟩ := leading_bit more
    have cut := Nat.mod_pow_succ (b := 2) (k := Nat.log2 (pages % 2 ^ top)) (x := pages)
    have bit : pages / 2 ^ Nat.log2 (pages % 2 ^ top) % 2 = 1 := by
      rw [Nat.testBit_eq_decide_div_mod_eq] at set
      simpa using set
    rw [whole, bit, Nat.mul_one] at cut
    have inside : pages % 2 ^ top ≤ pages := Nat.mod_le _ _
    refine ⟨Nat.log2 (pages % 2 ^ top), by omega, by omega, ?_⟩
    intro i
    rw [level_add added i]
    by_cases same : i = Nat.log2 (pages % 2 ^ top)
    · rw [if_pos same, levels, if_neg (by omega), if_pos (by omega), same]
      simp [binaryLevel, set, whole]
    · rw [if_neg same, levels]
      by_cases above : top ≤ i
      · rw [if_pos above, if_pos (by omega)]
      · rw [if_neg above]
        split
        · simp [binaryLevel, clear i (by omega) (by omega)]
        · rfl

theorem MemoryZone.firstLevel_least {level : Nat} (first : zone.firstLevel order = some level) {block : Block}
    (member : block ∈ zone.freeBlocks) (fits : order ≤ block.order) : level ≤ block.order := by
  obtain ⟨_, _, _, empty⟩ := firstLevel_some.mp first
  obtain ⟨_, node, inside, _⟩ := (zone.mem_freeBlocks block).mp member
  by_contra above
  rw [empty block.order fits (by omega)] at inside
  cases inside

theorem reduced_halves {start level : Nat} {rest : List Block} (below : order ≤ level) (reduced : Reduced rest)
    (none : ∀ block ∈ rest, order ≤ block.order → level ≤ block.order) :
    Reduced (halves start order level ++ rest) := by
  induction below using Nat.decreasingInduction with
  | self => rwa [halves_self]
  | of_succ order below ih =>
    have other : ∀ block ∈ halves start (order + 1) level ++ rest, block.order ≠ order := by
      rw [forall_mem_append]
      refine ⟨fun block member => ?_, fun block member same => ?_⟩
      · obtain ⟨i, inside, rfl⟩ := mem_map.mp member
        have low := (mem_range'_1.mp inside).1
        simp only
        omega
      · have large := none block member same.ge
        omega
    rw [halves_cons below]
    exact (ih fun block member low => none block member (by omega)).cons
      (fun block member buddies => other block member buddies.1.symm) fun block member buddies => other block member buddies.1

theorem MemoryZone.allocPages_reduced {page : Nat}
    (run : zone.allocPages pool (2 ^ order) = .ok (some page, zone', pool')) (reduced : Reduced zone.freeBlocks) :
    Reduced zone'.freeBlocks := by
  obtain ⟨level, start, rest, first, _, _, _, blocks, blocks', _⟩ := allocPages_blocks run
  obtain ⟨_, fits, _, _⟩ := firstLevel_some.mp first
  have old : ∀ block ∈ rest, block ∈ zone.freeBlocks := fun block member => blocks.mem_iff.mpr (mem_cons_of_mem _ member)
  exact (reduced_halves fits (reduced.mono old) fun block member => firstLevel_least first (old block member)).mono
    fun block member => blocks'.mem_iff.mp member

theorem not_buddies_of_alone {pageRelative : Nat} (alone : zone.hasPartner order pageRelative = false)
    {other : Block} (member : other ∈ zone.freeBlocks) :
    ¬ Block.Buddies ⟨pageRelative, order⟩ other ∧ ¬ other.Buddies ⟨pageRelative, order⟩ := by
  obtain ⟨_, node, inside, start⟩ := (zone.mem_freeBlocks other).mp member
  have missed : other.order = order → isPartner order pageRelative node = false := by
    intro same
    rw [same] at inside
    simpa using any_eq_false.mp alone node inside
  constructor
  · rintro ⟨same, aligned, next⟩
    have test := missed same.symm
    simp only [isPartner, if_pos (Nat.mod_eq_zero_of_dvd aligned), decide_eq_false_iff_not] at test
    simp only [Block.size] at next
    omega
  · rintro ⟨same, aligned, next⟩
    have test := missed same
    simp only [Block.size, same] at next aligned
    have shifted : pageRelative % 2 ^ (order + 1) ≠ 0 := by
      obtain ⟨multiple, twice⟩ := aligned
      have positive : 0 < 2 ^ order := Nat.two_pow_pos _
      have double : 2 ^ (order + 1) = 2 ^ order + 2 ^ order := by ring
      rw [next, twice, Nat.mul_add_mod, Nat.mod_eq_of_lt (by omega)]
      omega
    simp only [isPartner, if_neg shifted, decide_eq_false_iff_not] at test
    omega

theorem MemoryZone.freePages_reduced {start : Nat} (bound : order < buddyAllocMaxPow)
    (clean : zone.CleanMerge order (start - zone.base))
    (run : zone.freePages pool start (2 ^ order) = .ok (zone', pool')) (reduced : Reduced zone.freeBlocks) :
    Reduced zone'.freeBlocks := by
  obtain ⟨_, s, merged, added⟩ := freePages_ok bound run
  let inv := fun (_ : Nat) (current : MemoryZone) (_ : FreeNodePool) (_ : Nat) =>
    ∀ block ∈ current.freeBlocks, block ∈ zone.freeBlocks
  have step : ∀ pow current between pageRelative partner nodes, inv pow current between pageRelative →
      TakenPartner current pow pageRelative partner nodes →
      inv (pow + 1) (current.setPow pow nodes) (between.recycleNode partner.ptr)
        (if pageRelative % 2 ^ (pow + 1) = 0 then pageRelative else pageRelative - 2 ^ pow) := by
    intro pow current between pageRelative partner nodes sub taken block member
    have perm := current.freeBlocks_take taken.bound partner nodes taken.list
    exact sub block (perm.mem_iff.mpr (mem_cons_of_mem _ member))
  have opened : inv order zone pool (start - zone.base) := fun block member => member
  obtain ⟨sub, _, alone⟩ :=
    mergeLoop_rule inv step (Nat.add_sub_of_le bound.le) rfl rfl clean opened merged
  obtain ⟨inside, _⟩ := addNode_ok.mp added
  have final : Reduced (⟨s.pageRelative, s.powFinal⟩ :: s.zone.freeBlocks) :=
    (reduced.mono sub).cons (fun other member => (not_buddies_of_alone (alone inside) member).1)
      (fun other member => (not_buddies_of_alone (alone inside) member).2)
  exact final.mono fun block member => (freeBlocks_add added).mem_iff.mp member

end Kernel31.Buddy
