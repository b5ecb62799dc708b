import Mathlib.Tactic
import Mathlib.Data.List.Perm.Basic

namespace Kernel31.DyadicBlocks

open List

variable {cell order start total : Nat} {blocks other rest : List Block} {block : Block}

/-- A run of `2 ^ order` consecutive cells. -/
structure Block where
  start : Nat
  order : Nat
  deriving DecidableEq, Repr

def Block.size (block : Block) : Nat := 2 ^ block.order

def Block.stop (block : Block) : Nat := block.start + block.size

def Block.Aligned (block : Block) : Prop := block.size ∣ block.start

def Block.Covers (block : Block) (cell : Nat) : Prop := block.start ≤ cell ∧ cell < block.stop

def Block.Apart (left right : Block) : Prop := left.stop ≤ right.start ∨ right.stop ≤ left.start

/-- `right` is the upper half of the next larger aligned block and `left` its lower half. -/
def Block.Buddies (left right : Block) : Prop :=
  left.order = right.order ∧ 2 ^ (left.order + 1) ∣ left.start ∧ right.start = left.start + left.size

theorem Block.size_pos (block : Block) : 0 < block.size := Nat.two_pow_pos _

theorem Block.Apart.symm {left right : Block} (apart : left.Apart right) : right.Apart left := Or.symm apart

instance : Std.Symm Block.Apart := ⟨fun _ _ apart => apart.symm⟩

theorem Block.not_apart_self (block : Block) : ¬ block.Apart block := by
  have positive := block.size_pos
  simp only [Block.Apart, Block.stop]
  omega

theorem Block.apart_of_covers {left right : Block} (apart : left.Apart right) (first : left.Covers cell)
    (second : right.Covers cell) : False := by
  simp only [Block.Apart, Block.Covers] at apart first second
  omega

theorem Block.Aligned.nested {small large : Block} (smallAligned : small.Aligned) (largeAligned : large.Aligned)
    (order : small.order ≤ large.order) (cell : Nat) (first : small.Covers cell) (second : large.Covers cell) :
    large.start ≤ small.start ∧ small.stop ≤ large.stop := by
  obtain ⟨p, hp⟩ := smallAligned
  obtain ⟨q, hq⟩ := largeAligned
  obtain ⟨d, hd⟩ := Nat.exists_eq_add_of_le order
  have width : large.size = small.size * 2 ^ d := by
    simp only [Block.size, hd, Nat.pow_add]
  simp only [Block.Covers, Block.stop, hp, hq, width] at first second ⊢
  have positive := small.size_pos
  have lower : 2 ^ d * q < p + 1 := by
    apply Nat.lt_of_mul_lt_mul_left (a := small.size)
    calc small.size * (2 ^ d * q) = small.size * 2 ^ d * q := by ring
      _ < small.size * (p + 1) := by rw [Nat.mul_add]; omega
  have upper : p < 2 ^ d * (q + 1) := by
    apply Nat.lt_of_mul_lt_mul_left (a := small.size)
    calc small.size * p ≤ cell := first.1
      _ < small.size * 2 ^ d * q + small.size * 2 ^ d := second.2
      _ = small.size * (2 ^ d * (q + 1)) := by ring
  constructor
  · calc small.size * 2 ^ d * q = small.size * (2 ^ d * q) := by ring
      _ ≤ small.size * p := Nat.mul_le_mul_left _ (by omega)
  · calc small.size * p + small.size = small.size * (p + 1) := by ring
      _ ≤ small.size * (2 ^ d * (q + 1)) := Nat.mul_le_mul_left _ (by omega)
      _ = small.size * 2 ^ d * q + small.size * 2 ^ d := by ring

theorem aligned_lower_half (aligned : 2 ^ order ∣ start) (shifted : ¬ 2 ^ (order + 1) ∣ start) :
    2 ^ order ≤ start ∧ 2 ^ (order + 1) ∣ start - 2 ^ order := by
  obtain ⟨multiple, rfl⟩ := aligned
  have odd : multiple % 2 = 1 := by
    by_contra even
    have half : multiple = 2 * (multiple / 2) := by omega
    apply shifted
    rw [half, Nat.pow_succ, ← Nat.mul_assoc]
    exact Nat.dvd_mul_right _ _
  obtain ⟨half, rfl⟩ : ∃ half, multiple = 2 * half + 1 := ⟨multiple / 2, by omega⟩
  have unfolded : 2 ^ order * (2 * half + 1) = 2 ^ (order + 1) * half + 2 ^ order := by ring
  rw [unfolded]
  exact ⟨Nat.le_add_left _ _, by simp⟩

/-- The blocks are aligned, lie below `total`, do not overlap and leave no cell out. -/
structure Tiling (blocks : List Block) (total : Nat) : Prop where
  aligned : ∀ block ∈ blocks, block.Aligned
  inside : ∀ block ∈ blocks, block.stop ≤ total
  apart : blocks.Pairwise Block.Apart
  covered : ∀ cell < total, ∃ block ∈ blocks, block.Covers cell

/-- The blocks are aligned, lie below `total` and do not overlap. -/
structure Packing (blocks : List Block) (total : Nat) : Prop where
  aligned : ∀ block ∈ blocks, block.Aligned
  inside : ∀ block ∈ blocks, block.stop ≤ total
  apart : blocks.Pairwise Block.Apart

def Covered (blocks : List Block) (cell : Nat) : Prop := ∃ block ∈ blocks, block.Covers cell

theorem Packing.perm (packing : Packing blocks total) (same : blocks.Perm other) : Packing other total where
  aligned block member := packing.aligned block (same.mem_iff.mpr member)
  inside block member := packing.inside block (same.mem_iff.mpr member)
  apart := (same.pairwise_iff fun apart => apart.symm).mp packing.apart

theorem Packing.tail (packing : Packing (block :: rest) total) :
    Packing rest total where
  aligned other member := packing.aligned other (mem_cons_of_mem _ member)
  inside other member := packing.inside other (mem_cons_of_mem _ member)
  apart := (pairwise_cons.mp packing.apart).2

theorem covered_perm (same : blocks.Perm other) : Covered blocks cell ↔ Covered other cell := by
  simp only [Covered, same.mem_iff]

theorem covered_cons : Covered (block :: rest) cell ↔ block.Covers cell ∨ Covered rest cell := by
  simp only [Covered, mem_cons, exists_eq_or_imp]

theorem Packing.covered_tail (packing : Packing (block :: rest) total) :
    Covered rest cell ↔ Covered (block :: rest) cell ∧ ¬ block.Covers cell := by
  rw [covered_cons]
  constructor
  · rintro ⟨other, member, covers⟩
    have apart := (pairwise_cons.mp packing.apart).1 other member
    exact ⟨Or.inr ⟨other, member, covers⟩, fun first => Block.apart_of_covers apart first covers⟩
  · rintro ⟨first | other, outside⟩
    · exact absurd first outside
    · exact other

theorem Packing.split (packing : Packing (⟨start, order + 1⟩ :: rest) total) :
    Packing (⟨start, order⟩ :: ⟨start + 2 ^ order, order⟩ :: rest) total := by
  have double : 2 ^ (order + 1) = 2 ^ order + 2 ^ order := by ring
  obtain ⟨aligned, inside, apart⟩ := packing
  simp only [forall_mem_cons, pairwise_cons] at aligned inside apart
  have half : 2 ^ order ∣ start := dvd_trans ⟨2, by ring⟩ (show 2 ^ (order + 1) ∣ start from aligned.1)
  refine ⟨?_, ?_, ?_⟩
  · simp only [forall_mem_cons]
    exact ⟨half, dvd_add half dvd_rfl, aligned.2⟩
  · simp only [forall_mem_cons]
    have whole := inside.1
    simp only [Block.stop, Block.size, double] at whole ⊢
    exact ⟨by omega, by omega, inside.2⟩
  · simp only [pairwise_cons, forall_mem_cons]
    refine ⟨⟨Or.inl le_rfl, ?_⟩, ?_, apart.2⟩
    all_goals
      intro block member
      have old := apart.1 block member
      simp only [Block.Apart, Block.stop, Block.size, double] at old ⊢
      omega

theorem covered_split :
    Covered (⟨start, order + 1⟩ :: rest) cell ↔
      Covered (⟨start, order⟩ :: ⟨start + 2 ^ order, order⟩ :: rest) cell := by
  have double : 2 ^ (order + 1) = 2 ^ order + 2 ^ order := by ring
  have halves : Block.Covers ⟨start, order + 1⟩ cell ↔
      Block.Covers ⟨start, order⟩ cell ∨ Block.Covers ⟨start + 2 ^ order, order⟩ cell := by
    simp only [Block.Covers, Block.stop, Block.size, double]
    omega
  rw [covered_cons, covered_cons, covered_cons, halves, or_assoc]

theorem Tiling.nil : Tiling [] 0 := ⟨by simp, by simp, .nil, by simp⟩

theorem Tiling.packing (tiling : Tiling blocks total) : Packing blocks total :=
  ⟨tiling.aligned, tiling.inside, tiling.apart⟩

theorem Tiling.perm (tiling : Tiling blocks total) (same : blocks.Perm other) : Tiling other total := by
  obtain ⟨aligned, inside, apart⟩ := tiling.packing.perm same
  exact ⟨aligned, inside, apart, fun cell bound => (covered_perm same).mp (tiling.covered cell bound)⟩

theorem Tiling.nodup (tiling : Tiling blocks total) : blocks.Nodup := by
  refine tiling.apart.imp ?_
  intro left right apart same
  subst same
  exact left.not_apart_self apart

theorem Tiling.split (tiling : Tiling (⟨start, order + 1⟩ :: rest) total) :
    Tiling (⟨start, order⟩ :: ⟨start + 2 ^ order, order⟩ :: rest) total := by
  obtain ⟨aligned, inside, apart⟩ := tiling.packing.split
  refine ⟨aligned, inside, apart, fun cell bound => ?_⟩
  exact covered_split.mp (tiling.covered cell bound)

theorem Tiling.merge (multiple : 2 ^ (order + 1) ∣ start)
    (tiling : Tiling (⟨start, order⟩ :: ⟨start + 2 ^ order, order⟩ :: rest) total) :
    Tiling (⟨start, order + 1⟩ :: rest) total := by
  have double : 2 ^ (order + 1) = 2 ^ order + 2 ^ order := by ring
  obtain ⟨aligned, inside, apart, covered⟩ := tiling
  simp only [forall_mem_cons, pairwise_cons] at aligned inside apart
  refine ⟨?_, ?_, ?_, ?_⟩
  · simp only [forall_mem_cons]
    exact ⟨multiple, aligned.2.2⟩
  · simp only [forall_mem_cons]
    have upper := inside.2.1
    simp only [Block.stop, Block.size, double] at upper ⊢
    exact ⟨by omega, inside.2.2⟩
  · simp only [pairwise_cons]
    refine ⟨?_, apart.2.2⟩
    intro block member
    have lower := apart.1.2 block member
    have upper := apart.2.1 block member
    have positive := block.size_pos
    simp only [Block.Apart, Block.stop, Block.size, double] at lower upper positive ⊢
    omega
  · intro cell bound
    obtain ⟨block, member, covers⟩ := covered cell bound
    simp only [mem_cons] at member
    rcases member with rfl | rfl | member
    · refine ⟨_, mem_cons_self .., covers.1, ?_⟩
      have high := covers.2
      simp only [Block.stop, Block.size, double] at high ⊢
      omega
    · have high := covers
      simp only [Block.Covers, Block.stop, Block.size] at high
      refine ⟨_, mem_cons_self .., ?_, ?_⟩
      · simp only; omega
      · simp only [Block.stop, Block.size, double]; omega
    · exact ⟨block, by simp [member], covers⟩

def Reduced (blocks : List Block) : Prop :=
  ∀ left ∈ blocks, ∀ right ∈ blocks, ¬ left.Buddies right

theorem Reduced.mono (reduced : Reduced blocks) (sub : ∀ block ∈ other, block ∈ blocks) : Reduced other :=
  fun left first right second => reduced left (sub left first) right (sub right second)

theorem Reduced.cons (reduced : Reduced blocks) (left : ∀ other ∈ blocks, ¬ block.Buddies other)
    (right : ∀ other ∈ blocks, ¬ other.Buddies block) : Reduced (block :: blocks) := by
  intro first firstMember second secondMember
  rcases mem_cons.mp firstMember with firstSame | firstOld <;>
    rcases mem_cons.mp secondMember with secondSame | secondOld
  · rintro ⟨_, _, shifted⟩
    have positive := first.size_pos
    rw [firstSame, secondSame] at *
    omega
  · rw [firstSame]
    exact left second secondOld
  · rw [secondSame]
    exact right first firstOld
  · exact reduced first firstOld second secondOld

variable (tiling : Tiling blocks total)
include tiling

theorem Tiling.extend (aligned : 2 ^ order ∣ total) : Tiling (⟨total, order⟩ :: blocks) (total + 2 ^ order) := by
  refine ⟨?_, ?_, ?_, ?_⟩
  · simp only [forall_mem_cons]
    exact ⟨aligned, tiling.aligned⟩
  · simp only [forall_mem_cons]
    refine ⟨le_rfl, ?_⟩
    intro block member
    exact le_trans (tiling.inside block member) (Nat.le_add_right _ _)
  · refine pairwise_cons.mpr ⟨?_, tiling.apart⟩
    intro block member
    exact Or.inr (tiling.inside block member)
  · intro cell bound
    by_cases old : cell < total
    · obtain ⟨block, member, covers⟩ := tiling.covered cell old
      exact ⟨block, by simp [member], covers⟩
    · exact ⟨⟨total, order⟩, by simp, by simp only; omega, bound⟩

theorem Tiling.sum_size : (blocks.map Block.size).sum = total := by
  let cells := fun block : Block => Finset.Ico block.start block.stop
  have union : blocks.toFinset.biUnion cells = Finset.range total := by
    ext cell
    simp only [cells, Finset.mem_biUnion, mem_toFinset, Finset.mem_Ico, Finset.mem_range]
    constructor
    · rintro ⟨block, member, _, below⟩
      exact lt_of_lt_of_le below (tiling.inside block member)
    · exact tiling.covered cell
  have disjoint : (blocks.toFinset : Set Block).PairwiseDisjoint cells := by
    intro left leftMember right rightMember different
    have apart := tiling.apart.forall (by simpa using leftMember) (by simpa using rightMember) different
    refine Finset.disjoint_left.mpr ?_
    intro cell first second
    simp only [cells, Finset.mem_Ico] at first second
    exact Block.apart_of_covers apart first second
  have count := Finset.card_biUnion disjoint
  rw [union, Finset.card_range] at count
  rw [← sum_toFinset Block.size tiling.nodup, count]
  exact Finset.sum_congr rfl fun block _ => by simp [cells, Block.stop]

theorem Tiling.around (reduced : Reduced blocks) (order start : Nat) (aligned : 2 ^ order ∣ start)
    (inside : start + 2 ^ order ≤ total) : ∃ block ∈ blocks, block.start ≤ start ∧ start + 2 ^ order ≤ block.stop := by
  -- Halving `⟨start, order⟩`: both halves lie in blocks, and two blocks equal to the halves are buddies.
  induction order generalizing start with
  | zero =>
    obtain ⟨block, member, covers⟩ := tiling.covered start (by omega)
    exact ⟨block, member, covers.1, covers.2⟩
  | succ order ih =>
    have double : 2 ^ (order + 1) = 2 ^ order + 2 ^ order := by ring
    have half : 2 ^ order ∣ start := dvd_trans ⟨2, by ring⟩ aligned
    obtain ⟨low, lowMember, lowStart, lowStop⟩ := ih start half (by omega)
    obtain ⟨high, highMember, highStart, highStop⟩ :=
      ih (start + 2 ^ order) (dvd_add half dvd_rfl) (by omega)
    have positive : 0 < 2 ^ order := Nat.two_pow_pos order
    by_cases lowLarge : order + 1 ≤ low.order
    · have whole : Block.Aligned ⟨start, order + 1⟩ := aligned
      have nested := whole.nested (tiling.aligned low lowMember) lowLarge
        start ⟨le_rfl, by simp only [Block.stop, Block.size]; omega⟩ ⟨lowStart, by omega⟩
      exact ⟨low, lowMember, nested.1, nested.2⟩
    by_cases highLarge : order + 1 ≤ high.order
    · have whole : Block.Aligned ⟨start, order + 1⟩ := aligned
      have nested := whole.nested (tiling.aligned high highMember) highLarge (start + 2 ^ order)
        ⟨by simp only; omega, by simp only [Block.stop, Block.size]; omega⟩ ⟨highStart, by omega⟩
      exact ⟨high, highMember, nested.1, nested.2⟩
    exfalso
    have lowSize : low.size ≤ 2 ^ order := Nat.pow_le_pow_right (by omega) (by omega)
    have highSize : high.size ≤ 2 ^ order := Nat.pow_le_pow_right (by omega) (by omega)
    simp only [Block.stop] at lowStop highStop
    have lowOrder : low.order = order := Nat.pow_right_injective le_rfl (by simp only [Block.size] at *; omega)
    have highOrder : high.order = order := Nat.pow_right_injective le_rfl (by simp only [Block.size] at *; omega)
    apply reduced low lowMember high highMember
    have lowExact : low.start = start := by omega
    refine ⟨lowOrder.trans highOrder.symm, by rw [lowOrder, lowExact]; exact aligned, ?_⟩
    simp only [Block.size, lowOrder] at *
    omega

theorem Tiling.subset_of_reduced (reduced : Reduced blocks) (tiling' : Tiling other total) (reduced' : Reduced other)
    (member : block ∈ blocks) : block ∈ other := by
  obtain ⟨outer, outerMember, outerStart, outerStop⟩ :=
    tiling'.around reduced' block.order block.start (tiling.aligned _ member) (tiling.inside _ member)
  obtain ⟨inner, innerMember, innerStart, innerStop⟩ :=
    tiling.around reduced outer.order outer.start (tiling'.aligned _ outerMember) (tiling'.inside _ outerMember)
  have positive := block.size_pos
  have same : inner = block := by
    by_contra different
    have apart := tiling.apart.forall innerMember member different
    simp only [Block.Apart, Block.stop, Block.size] at *
    omega
  subst same
  have sizes : outer.size = inner.size := by simp only [Block.stop, Block.size] at *; omega
  have orders : outer.order = inner.order := Nat.pow_right_injective le_rfl sizes
  have starts : outer.start = inner.start := by simp only [Block.stop, Block.size] at *; omega
  have equal : outer = inner := by
    cases outer; cases inner; simp_all
  exact equal ▸ outerMember

theorem Tiling.unique (reduced : Reduced blocks) (tiling' : Tiling other total) (reduced' : Reduced other) :
    blocks.Perm other :=
  (perm_ext_iff_of_nodup tiling.nodup tiling'.nodup).mpr fun _ =>
    ⟨tiling.subset_of_reduced reduced tiling' reduced', tiling'.subset_of_reduced reduced' tiling reduced⟩

end Kernel31.DyadicBlocks
