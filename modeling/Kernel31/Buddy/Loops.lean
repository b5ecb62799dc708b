import Kernel31.Buddy.Model
import Kernel31.Library.Dyadic
import Kernel31.Library.Lists

namespace Kernel31.Buddy

open Checked List MemoryZone FreeNodePool

variable {pool pool' : FreeNodePool} {zone zone' : MemoryZone} {pow order : Nat} {found : Option Nat}

@[simp] theorem MemoryZone.setPow_base (zone : MemoryZone) (pow : Nat) (nodes : List FreeNode) :
    (zone.setPow pow nodes).base = zone.base := rfl

@[simp] theorem MemoryZone.setPow_pages (zone : MemoryZone) (pow : Nat) (nodes : List FreeNode) :
    (zone.setPow pow nodes).pages = zone.pages := rfl

@[simp] theorem MemoryZone.setPow_pows (zone : MemoryZone) (pow : Nat) (nodes : List FreeNode) :
    (zone.setPow pow nodes).pows = Function.update zone.pows pow nodes := rfl

theorem ceilToPower2_ok {memSize result : Nat} (run : ceilToPower2 memSize = .ok result) :
    result = 2 ^ ceilOrder memSize ∧ memSize ≤ 2 ^ 63 := by
  unfold ceilToPower2 at run
  split at run
  · rename_i small
    exact ⟨(pure_ok.mp run).symm, small⟩
  · simp [throw_ok] at run

theorem le_nextPowerOfTwo (memSize : Nat) : memSize ≤ nextPowerOfTwo memSize := by
  unfold nextPowerOfTwo ceilOrder
  split
  · omega
  · have log := Nat.lt_log2_self (n := memSize - 1)
    omega

theorem FreeNodePool.allocNode_ok {node : NodePtr} :
    pool.allocNode = .ok (node, pool') ↔
      pool.freeStart = node :: pool'.freeStart ∧ pool.freenodeRemain = pool'.freenodeRemain + 1 := by
  obtain ⟨remain, nodes⟩ := pool
  obtain ⟨remain', nodes'⟩ := pool'
  unfold allocNode
  cases nodes with
  | nil => simp [throw, throwThe, MonadExceptOf.throw]
  | cons first rest =>
    simp only
    split
    · rename_i empty
      simp [throw, throwThe, MonadExceptOf.throw, empty]
    · rename_i positive
      simp only [pure_ok, Prod.mk.injEq, mk.injEq, cons.injEq]
      constructor
      · rintro ⟨rfl, rfl, rfl⟩
        exact ⟨⟨rfl, rfl⟩, by omega⟩
      · rintro ⟨⟨rfl, rfl⟩, remains⟩
        exact ⟨rfl, by omega, rfl⟩

theorem MemoryZone.addNode_ok {page : Nat} :
    zone.addNode pool pow page = .ok (zone', pool') ↔
      pow < buddyAllocMaxPow ∧ ∃ node, pool.allocNode = .ok (node, pool') ∧
        zone' = zone.setPow pow (⟨node, page⟩ :: zone.pows pow) := by
  unfold addNode
  simp only [bind_ok, Prod.exists]
  constructor
  · rintro ⟨node, after, taken, rest⟩
    split at rest
    · rename_i bound
      obtain ⟨⟩ := pure_ok.mp rest
      exact ⟨bound, node, taken, rfl⟩
    · simp [throw_ok] at rest
  · rintro ⟨bound, node, taken, rfl⟩
    exact ⟨node, pool', taken, by simp [bound, pure_ok]⟩

theorem unlinkPartner_some {test : FreeNode → Bool} {nodes rest : List FreeNode} {partner : FreeNode}
    (found : unlinkPartner test nodes = some (partner, rest)) :
    test partner = true ∧ nodes.Perm (partner :: rest) := by
  induction nodes generalizing rest with
  | nil => simp [unlinkPartner] at found
  | cons current next ih =>
    simp only [unlinkPartner] at found
    split at found
    · rename_i hit
      simp only [Option.some.injEq, Prod.mk.injEq] at found
      obtain ⟨rfl, rfl⟩ := found
      exact ⟨hit, .refl _⟩
    · simp only [Option.map_eq_some_iff, Prod.exists, Prod.mk.injEq] at found
      obtain ⟨node, after, later, rfl, rfl⟩ := found
      obtain ⟨hit, same⟩ := ih later
      exact ⟨hit, (same.cons current).trans (.swap ..)⟩

theorem unlinkPartner_none {test : FreeNode → Bool} {nodes : List FreeNode} :
    unlinkPartner test nodes = none ↔ ∀ node ∈ nodes, test node = false := by
  induction nodes with
  | nil => simp [unlinkPartner]
  | cons current next ih =>
    simp only [unlinkPartner, forall_mem_cons]
    split
    · rename_i hit
      simp [hit]
    · rename_i miss
      simp [ih, miss]

/-- Loop rule of the split: what every `add_node` of a right half keeps holds at the end. -/
theorem MemoryZone.splitLoop_rule {left : Nat} (inv : Nat → MemoryZone → FreeNodePool → Prop)
    (step : ∀ i zone pool zone' pool', order ≤ i → inv (i + 1) zone pool →
      zone.addNode pool i (left + 2 ^ i) = .ok (zone', pool') → inv i zone' pool') (above : order < pow)
    (start : inv pow zone pool) (run : zone.splitLoop pool (2 ^ order) left pow = .ok (found, zone', pool')) :
    found = some (zone.base + left) ∧ inv order zone' pool' := by
  induction pow generalizing zone pool with
  | zero => omega
  | succ i ih =>
    simp only [splitLoop, bind_ok, Prod.exists] at run
    obtain ⟨middle, between, added, run⟩ := run
    have kept := step i zone pool middle between (by omega) start added
    obtain ⟨_, node, _, same⟩ := addNode_ok.mp added
    have base : middle.base = zone.base := by rw [same]; rfl
    split at run
    · rename_i size
      have reached : order = i := Nat.pow_right_injective le_rfl size
      subst reached
      obtain ⟨⟩ := pure_ok.mp run
      exact ⟨by rw [base], kept⟩
    · rename_i size
      have higher : order < i := by
        have different : order ≠ i := fun equal => size (by rw [equal])
        omega
      obtain ⟨result, final⟩ := ih higher kept run
      exact ⟨by rw [result, base], final⟩

def MemoryZone.firstLevel (zone : MemoryZone) (order : Nat) : Option Nat :=
  (range buddyAllocMaxPow).find? fun level => order ≤ level ∧ zone.pows level ≠ []

theorem MemoryZone.firstLevel_some {level : Nat} :
    zone.firstLevel order = some level ↔
      level < buddyAllocMaxPow ∧ order ≤ level ∧ zone.pows level ≠ [] ∧
        ∀ i, order ≤ i → i < level → zone.pows i = [] := by
  simp only [firstLevel, find?_range_eq_some, mem_range, decide_eq_true_eq]
  constructor
  · rintro ⟨⟨fits, full⟩, bound, empty⟩
    exact ⟨bound, fits, full, fun i low high => by simpa [low] using empty i high⟩
  · rintro ⟨bound, fits, full, empty⟩
    refine ⟨⟨fits, full⟩, bound, ?_⟩
    intro i high
    by_cases low : order ≤ i
    · simp [empty i low high]
    · simp [low]

theorem MemoryZone.firstLevel_none :
    zone.firstLevel order = none ↔ ∀ level, order ≤ level → level < buddyAllocMaxPow → zone.pows level = [] := by
  simp only [firstLevel, find?_eq_none, mem_range]
  constructor
  · intro none level low bound
    simpa [low] using none level bound
  · intro empty level bound
    by_cases low : order ≤ level
    · simp [empty level low bound]
    · simp [low]

theorem nextPowerOfTwo_two_pow (order : Nat) : nextPowerOfTwo (2 ^ order) = 2 ^ order := by
  unfold nextPowerOfTwo ceilOrder
  split
  · rename_i small
    have zero : order = 0 := by
      by_contra positive
      have large : 2 ^ 1 ≤ 2 ^ order := Nat.pow_le_pow_right (by omega) (by omega)
      omega
    rw [zero]
  · rename_i large
    cases order with
    | zero => simp at large
    | succ i =>
      have top : Nat.log2 (2 ^ (i + 1) - 1) = i := by
        rw [Nat.log2_eq_iff (by omega)]
        have positive : 0 < 2 ^ i := Nat.two_pow_pos i
        rw [pow_succ]
        omega
      rw [top]

theorem MemoryZone.allocLoop_skips (skipped remaining : Nat) (pool : FreeNodePool)
    (empty : ∀ i, order ≤ i → pow ≤ i → i < pow + skipped → zone.pows i = []) :
    allocLoop (2 ^ order) (skipped + remaining) pow zone pool =
      allocLoop (2 ^ order) remaining (pow + skipped) zone pool := by
  induction skipped generalizing pow with
  | zero => simp
  | succ skipped ih =>
    have sum : pow + 1 + skipped = pow + (skipped + 1) := by omega
    have later : allocLoop (2 ^ order) (skipped + remaining) (pow + 1) zone pool =
        allocLoop (2 ^ order) remaining (pow + (skipped + 1)) zone pool := by
      rw [← sum]
      exact ih fun i above low high => empty i above (by omega) (by omega)
    rw [Nat.add_right_comm, allocLoop]
    split
    · exact later
    · rename_i node next list
      have below : ¬ order ≤ pow := by
        intro above
        rw [empty pow above le_rfl (by omega)] at list
        cases list
      have smaller : 2 ^ pow < 2 ^ order := Nat.pow_lt_pow_right (by omega) (by omega)
      rw [if_neg (by omega), if_neg (by omega)]
      exact later

section

variable {level : Nat} (pool : FreeNodePool)

theorem MemoryZone.allocPages_at (first : zone.firstLevel order = some level) :
    ∃ node next, zone.pows level = node :: next ∧
      (level = order → zone.allocPages pool (2 ^ order) =
        .ok (some (zone.base + node.pageNumber), zone.setPow level next, pool.recycleNode node.ptr)) ∧
      (order < level → zone.allocPages pool (2 ^ order) =
        (zone.setPow level next).splitLoop (pool.recycleNode node.ptr) (2 ^ order) node.pageNumber level) := by
  obtain ⟨bound, fits, full, empty⟩ := firstLevel_some.mp first
  obtain ⟨node, next, list⟩ := exists_cons_of_ne_nil full
  have levels : buddyAllocMaxPow = level + (buddyAllocMaxPow - level - 1 + 1) := by omega
  have reached : zone.allocPages pool (2 ^ order) =
      allocLoop (2 ^ order) (buddyAllocMaxPow - level - 1 + 1) level zone pool := by
    rw [allocPages, if_pos (nextPowerOfTwo_two_pow order).symm]
    conv_lhs => rw [levels]
    rw [allocLoop_skips level _ pool (fun i low _ high => empty i low (by omega)), Nat.zero_add]
  rw [reached, allocLoop, list]
  refine ⟨node, next, rfl, ?_, ?_⟩
  · intro same
    simp only [same, if_true]
    rfl
  · intro above
    have larger : 2 ^ order < 2 ^ level := Nat.pow_lt_pow_right (by omega) above
    simp only [if_neg larger.ne', if_pos larger]
    cases split : (zone.setPow level next).splitLoop (pool.recycleNode node.ptr) (2 ^ order) node.pageNumber level with
    | error fault => rfl
    | ok result =>
      obtain ⟨found, after, left⟩ := result
      have hit := (splitLoop_rule (fun _ _ _ => True) (fun _ _ _ _ _ _ _ _ => trivial)
        above trivial split).1
      rw [hit]
      rfl

theorem MemoryZone.allocPages_misses (none : zone.firstLevel order = none) :
    zone.allocPages pool (2 ^ order) = .ok (.none, zone, pool) := by
  rw [firstLevel_none] at none
  rw [allocPages, if_pos (nextPowerOfTwo_two_pow order).symm]
  have skip : allocLoop (2 ^ order) (buddyAllocMaxPow + 0) 0 zone pool = _ :=
    allocLoop_skips buddyAllocMaxPow 0 pool fun i low _ high => none i low (by omega)
  rw [Nat.add_zero] at skip
  rw [skip]
  rfl

end

/-- The first list that has a block for the request gives it up, and the right halves of that block come back from the
    largest on. -/
theorem MemoryZone.allocPages_cases (run : zone.allocPages pool (2 ^ order) = .ok (found, zone', pool')) :
    (found = none ∧ zone' = zone ∧ pool' = pool ∧ zone.firstLevel order = none) ∨
    ∃ level node next, zone.firstLevel order = some level ∧ zone.pows level = node :: next ∧
      found = some (zone.base + node.pageNumber) ∧ ∀ inv : Nat → MemoryZone → FreeNodePool → Prop,
        inv level (zone.setPow level next) (pool.recycleNode node.ptr) →
        (∀ i zone pool zone' pool', order ≤ i → inv (i + 1) zone pool →
          zone.addNode pool i (node.pageNumber + 2 ^ i) = .ok (zone', pool') → inv i zone' pool') → inv order zone' pool' := by
  cases first : zone.firstLevel order with
  | none =>
    rw [allocPages_misses pool first] at run
    cases run
    exact .inl ⟨rfl, rfl, rfl, rfl⟩
  | some level =>
    obtain ⟨_, fits, _, _⟩ := firstLevel_some.mp first
    obtain ⟨node, next, list, equal, larger⟩ := allocPages_at pool first
    refine .inr ⟨level, node, next, rfl, list, ?_⟩
    rcases fits.eq_or_lt with rfl | above
    · rw [equal rfl] at run
      cases run
      exact ⟨rfl, fun _ start _ => start⟩
    · rw [larger above] at run
      exact ⟨(splitLoop_rule (fun _ _ _ => True) (fun _ _ _ _ _ _ _ _ => trivial) above trivial run).1,
        fun inv start step => (splitLoop_rule inv step above start run).2⟩

end Kernel31.Buddy
