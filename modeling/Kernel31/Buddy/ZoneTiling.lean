import Kernel31.Buddy.Merge

namespace Kernel31.Buddy

open Checked DyadicBlocks MemoryZone List FreeNodePool

variable {pow page order total : Nat} {zone zone' : MemoryZone} {pool pool' : FreeNodePool} {held : List Block}

def MemoryZone.freeBlocks (zone : MemoryZone) : List Block :=
  (range buddyAllocMaxPow).flatMap fun pow => (zone.pows pow).map fun node => ⟨node.pageNumber, pow⟩

def heldBlock (base : Nat) (held : Nat × Nat) : Block := ⟨held.1 - base, ceilOrder held.2⟩

theorem MemoryZone.mem_freeBlocks (zone : MemoryZone) (block : Block) :
    block ∈ zone.freeBlocks ↔
      block.order < buddyAllocMaxPow ∧ ∃ node ∈ zone.pows block.order, node.pageNumber = block.start := by
  obtain ⟨start, order⟩ := block
  simp only [freeBlocks, mem_flatMap, mem_range, mem_map, Block.mk.injEq]
  constructor
  · rintro ⟨pow, bound, node, member, rfl, rfl⟩
    exact ⟨bound, node, member, rfl⟩
  · rintro ⟨bound, node, member, rfl⟩
    exact ⟨order, bound, node, member, rfl, rfl⟩

section Listed

variable {α : Type} (listed : Nat → FreeNode → α)

theorem MemoryZone.listed_take (zone : MemoryZone) (bound : pow < buddyAllocMaxPow) (node : FreeNode)
    (nodes : List FreeNode) (list : (zone.pows pow).Perm (node :: nodes)) :
    ((range buddyAllocMaxPow).flatMap fun i => (zone.pows i).map (listed i)).Perm (listed pow node ::
      (range buddyAllocMaxPow).flatMap fun i => ((zone.setPow pow nodes).pows i).map (listed i)) := by
  apply Lists.flatMap_perm_cons nodup_range (mem_range.mpr bound)
  · simpa using list.map (listed pow)
  · intro other different
    simp [Function.update_of_ne different]

theorem MemoryZone.listed_push (zone : MemoryZone) (bound : pow < buddyAllocMaxPow) (node : FreeNode) :
    ((range buddyAllocMaxPow).flatMap fun i =>
      ((zone.setPow pow (node :: zone.pows pow)).pows i).map (listed i)).Perm (listed pow node ::
        (range buddyAllocMaxPow).flatMap fun i => (zone.pows i).map (listed i)) := by
  have taken := (zone.setPow pow (node :: zone.pows pow)).listed_take listed bound node (zone.pows pow) (by simp)
  simpa [setPow] using taken

end Listed

theorem MemoryZone.freeBlocks_take (zone : MemoryZone) (bound : pow < buddyAllocMaxPow) (node : FreeNode)
    (nodes : List FreeNode) (list : (zone.pows pow).Perm (node :: nodes)) :
    zone.freeBlocks.Perm (⟨node.pageNumber, pow⟩ :: (zone.setPow pow nodes).freeBlocks) :=
  zone.listed_take (fun pow node => Block.mk node.pageNumber pow) bound node nodes list

theorem MemoryZone.freeBlocks_add (added : zone.addNode pool pow page = .ok (zone', pool')) :
    zone'.freeBlocks.Perm (⟨page, pow⟩ :: zone.freeBlocks) := by
  obtain ⟨bound, node, _, rfl⟩ := addNode_ok.mp added
  exact zone.listed_push (fun pow node => Block.mk node.pageNumber pow) bound ⟨node, page⟩

theorem MemoryZone.addNode_frame (added : zone.addNode pool pow page = .ok (zone', pool')) :
    zone'.base = zone.base ∧ zone'.pages = zone.pages := by
  obtain ⟨_, node, _, rfl⟩ := addNode_ok.mp added
  exact ⟨rfl, rfl⟩

section Halves

variable {start level : Nat}

def halves (start order level : Nat) : List Block := (range' order (level - order)).map fun i => ⟨start + 2 ^ i, i⟩

theorem halves_self (start order : Nat) : halves start order order = [] := by
  simp [halves]

theorem halves_cons {start : Nat} (below : order < level) :
    halves start order level = ⟨start + 2 ^ order, order⟩ :: halves start (order + 1) level := by
  have length : level - order = level - (order + 1) + 1 := by omega
  rw [halves, length, range'_succ]
  rfl

/-- What holds of the halves of a block in its place holds of all that the split makes of it. -/
theorem halves_rule {P : List Block → Prop} (split : ∀ {start order rest}, P (⟨start, order + 1⟩ :: rest) →
      P (⟨start, order⟩ :: ⟨start + 2 ^ order, order⟩ :: rest)) (below : order ≤ level) {rest : List Block}
    (whole : P (⟨start, level⟩ :: rest)) : P (⟨start, order⟩ :: (halves start order level ++ rest)) := by
  induction below using Nat.decreasingInduction with
  | self => rwa [halves_self]
  | of_succ order below ih =>
    rw [halves_cons below]
    exact split ih

end Halves

theorem MemoryZone.allocPages_blocks (run : zone.allocPages pool (2 ^ order) = .ok (some page, zone', pool')) :
    ∃ level start rest, zone.firstLevel order = some level ∧ page = zone.base + start ∧ zone'.base = zone.base ∧
      zone'.pages = zone.pages ∧ zone.freeBlocks.Perm (⟨start, level⟩ :: rest) ∧
      zone'.freeBlocks.Perm (halves start order level ++ rest) ∧
      pool'.freeStart.length + (level - order) = pool.freeStart.length + 1 ∧
      pool'.freenodeRemain + (level - order) = pool.freenodeRemain + 1 := by
  obtain ⟨none, _⟩ | ⟨level, node, next, first, list, found, rule⟩ := allocPages_cases run
  · cases none
  obtain ⟨bound, _, _, _⟩ := firstLevel_some.mp first
  let inv := fun i (current : MemoryZone) (left : FreeNodePool) => i ≤ level ∧
    current.base = zone.base ∧ current.pages = zone.pages ∧
    current.freeBlocks.Perm (halves node.pageNumber i level ++ (zone.setPow level next).freeBlocks) ∧
    left.freeStart.length + (level - i) = pool.freeStart.length + 1 ∧
    left.freenodeRemain + (level - i) = pool.freenodeRemain + 1
  have start : inv level (zone.setPow level next) (pool.recycleNode node.ptr) :=
    ⟨le_rfl, rfl, rfl, by simp [halves_self], by simp [recycleNode], by simp [recycleNode]⟩
  have final := rule inv start ?_
  · obtain ⟨_, base, pages, blocks, nodes, remain⟩ := final
    exact ⟨level, node.pageNumber, _, first, Option.some.inj found, base, pages,
      zone.freeBlocks_take bound node next (by rw [list]), blocks, nodes, remain⟩
  · rintro i before between after left - ⟨inside, base, pages, blocks, nodes, remain⟩ added
    obtain ⟨base', pages'⟩ := addNode_frame added
    have grown := freeBlocks_add added
    obtain ⟨_, pointer, popped, _⟩ := addNode_ok.mp added
    obtain ⟨popped, counted⟩ := allocNode_ok.mp popped
    rw [popped, length_cons] at nodes
    refine ⟨by omega, base'.trans base, pages'.trans pages, ?_, by omega, by omega⟩
    rw [halves_cons (by omega)]
    exact grown.trans (blocks.cons _)

theorem MemoryZone.allocPages_tiling (run : zone.allocPages pool (2 ^ order) = .ok (some page, zone', pool'))
    (tiling : Tiling (zone.freeBlocks ++ held) total) :
    zone.base ≤ page ∧ zone'.base = zone.base ∧ zone'.pages = zone.pages ∧
      Tiling (zone'.freeBlocks ++ ⟨page - zone.base, order⟩ :: held) total := by
  obtain ⟨level, start, rest, first, rfl, base, pages, blocks, blocks', _⟩ := allocPages_blocks run
  obtain ⟨_, fits, _, _⟩ := firstLevel_some.mp first
  refine ⟨by omega, base, pages, ?_⟩
  have split : Tiling (⟨start, order⟩ :: (halves start order level ++ (rest ++ held))) total :=
    halves_rule (P := (Tiling · total)) Tiling.split fits (tiling.perm (blocks.append_right held))
  rw [← append_assoc] at split
  rw [Nat.add_sub_cancel_left]
  exact split.perm (((blocks'.append_right held).symm.cons _).trans perm_middle.symm)

theorem MemoryZone.allocPages_none (run : zone.allocPages pool (2 ^ order) = .ok (none, zone', pool')) :
    zone' = zone ∧ pool' = pool ∧ zone.firstLevel order = none := by
  obtain ⟨_, same⟩ | ⟨_, _, _, _, _, found, _⟩ := allocPages_cases run
  · exact same
  · cases found

theorem findPow_two_pow (bound : order < buddyAllocMaxPow) : findPow (2 ^ order) = order := by
  have found : (range buddyAllocMaxPow).find? (fun pow => decide (2 ^ pow = 2 ^ order)) = some order := by
    rw [find?_range_eq_some]
    refine ⟨by simp, mem_range.mpr bound, ?_⟩
    intro pow below
    have different : 2 ^ pow ≠ 2 ^ order := fun same => by
      have equal := Nat.pow_right_injective le_rfl same
      omega
    simp [different]
  rw [findPow, found]
  rfl

theorem MemoryZone.freePages_ok {start : Nat} (bound : order < buddyAllocMaxPow)
    (run : zone.freePages pool start (2 ^ order) = .ok (zone', pool')) :
    zone.base ≤ start ∧ ∃ s, mergeLoop (buddyAllocMaxPow - order) order
        { zone := zone, pool := pool, powFinal := order, pageRelative := start - zone.base,
          pagesCount := 2 ^ order } = .ok s ∧
      s.zone.addNode s.pool s.powFinal s.pageRelative = .ok (zone', pool') := by
  unfold freePages at run
  split at run
  · simp [throw_ok] at run
  · split at run
    · simp [throw_ok] at run
    · simp only [bind_ok, findPow_two_pow bound] at run
      exact ⟨by omega, run⟩

theorem TakenPartner.tiling {pageRelative : Nat} {partner : FreeNode} {nodes : List FreeNode}
    (taken : TakenPartner zone pow pageRelative partner nodes)
    (tiling : Tiling (⟨pageRelative, pow⟩ :: (zone.freeBlocks ++ held)) total) :
    Tiling (⟨if pageRelative % 2 ^ (pow + 1) = 0 then pageRelative else pageRelative - 2 ^ pow, pow + 1⟩ ::
      ((zone.setPow pow nodes).freeBlocks ++ held)) total := by
  have opened := tiling.perm
    (((zone.freeBlocks_take taken.bound partner nodes taken.list).append_right held).cons _)
  have test := taken.test
  simp only [isPartner] at test
  by_cases aligned : pageRelative % 2 ^ (pow + 1) = 0
  · simp only [if_pos aligned, decide_eq_true_eq] at test ⊢
    rw [← test] at opened
    exact opened.merge (Nat.dvd_of_mod_eq_zero aligned)
  · simp only [if_neg aligned, decide_eq_true_eq] at test ⊢
    have own : 2 ^ pow ∣ pageRelative := tiling.aligned _ (mem_cons_self ..)
    have lower := (aligned_lower_half own fun multiple => aligned (Nat.mod_eq_zero_of_dvd multiple)).2
    have first : partner.pageNumber = pageRelative - 2 ^ pow := by omega
    rw [← test] at opened lower ⊢
    rw [Nat.add_sub_cancel] at lower ⊢
    exact (opened.perm (.swap ..)).merge lower

theorem MemoryZone.freePages_tiling {start : Nat} (bound : order < buddyAllocMaxPow)
    (clean : zone.CleanMerge order (start - zone.base))
    (run : zone.freePages pool start (2 ^ order) = .ok (zone', pool'))
    (tiling : Tiling (zone.freeBlocks ++ ⟨start - zone.base, order⟩ :: held) total) :
    zone'.base = zone.base ∧ zone'.pages = zone.pages ∧ Tiling (zone'.freeBlocks ++ held) total := by
  obtain ⟨_, s, merged, added⟩ := freePages_ok bound run
  let inv := fun pow (current : MemoryZone) (_ : FreeNodePool) pageRelative =>
    current.base = zone.base ∧ current.pages = zone.pages ∧
      Tiling (⟨pageRelative, pow⟩ :: (current.freeBlocks ++ held)) total
  have opened : inv order zone pool (start - zone.base) := ⟨rfl, rfl, tiling.perm perm_middle⟩
  have step : ∀ pow current between pageRelative partner nodes, inv pow current between pageRelative →
      TakenPartner current pow pageRelative partner nodes →
      inv (pow + 1) (current.setPow pow nodes) (between.recycleNode partner.ptr)
        (if pageRelative % 2 ^ (pow + 1) = 0 then pageRelative else pageRelative - 2 ^ pow) := by
    rintro pow current between pageRelative partner nodes ⟨base, pages, tiles⟩ taken
    exact ⟨base, pages, taken.tiling tiles⟩
  obtain ⟨⟨base, pages, tiles⟩, _, _⟩ :=
    mergeLoop_rule inv step (Nat.add_sub_of_le bound.le) rfl rfl clean opened merged
  obtain ⟨base', pages'⟩ := addNode_frame added
  exact ⟨base'.trans base, pages'.trans pages,
    tiles.perm ((freeBlocks_add added).symm.append_right held)⟩

end Kernel31.Buddy
