import Kernel31.Buddy.ZoneNew
import Kernel31.Library.Runs

namespace Kernel31.Buddy

open Checked DyadicBlocks MemoryZone List Function

variable {pages base pow : Nat} {zone : MemoryZone} {pool : FreeNodePool}

structure ZoneState where
  zone : MemoryZone
  outstanding : List (Nat × Nat)

inductive ZoneOp where
  | alloc (pagesCount : Nat)
  | free (pageStart pagesCount : Nat)
  deriving DecidableEq, Repr

def ZoneState.step (s : ZoneState) (pool : FreeNodePool) : ZoneOp → Exec (ZoneState × FreeNodePool)
  | .alloc pagesCount => do
    let (found, zone, pool) ← s.zone.allocPages pool pagesCount
    match found with
    | some page => pure ({ zone := zone, outstanding := (page, pagesCount) :: s.outstanding }, pool)
    | none => pure ({ s with zone := zone }, pool)
  | .free pageStart pagesCount => do
    let (zone, pool) ← s.zone.freePages pool pageStart pagesCount
    pure ({ zone := zone, outstanding := s.outstanding.erase (pageStart, pagesCount) }, pool)

def ZoneState.Permits (s : ZoneState) : ZoneOp → Prop
  | .alloc _ => True
  | .free pageStart pagesCount => (pageStart, pagesCount) ∈ s.outstanding

instance (s : ZoneState) : DecidablePred s.Permits
  | .alloc _ => isTrue trivial
  | .free pageStart pagesCount => inferInstanceAs (Decidable ((pageStart, pagesCount) ∈ s.outstanding))

def ZoneState.Steps (guard : MemoryZone → ZoneOp → Prop) (s s' : ZoneState) : Prop :=
  ∃ op pool pool', s.Permits op ∧ guard s.zone op ∧ s.step pool op = .ok (s', pool')

def CleanFree (zone : MemoryZone) : ZoneOp → Prop
  | .alloc _ => True
  | .free pageStart pagesCount => zone.CleanMerge (ceilOrder pagesCount) (pageStart - zone.base)

instance (zone : MemoryZone) : DecidablePred (CleanFree zone)
  | .alloc _ => isTrue trivial
  | .free pageStart pagesCount =>
    inferInstanceAs (Decidable (zone.CleanMerge (ceilOrder pagesCount) (pageStart - zone.base)))

def ZoneState.next (guard : MemoryZone → ZoneOp → Prop) [∀ zone, DecidablePred (guard zone)]
    (current : ZoneState × FreeNodePool) (op : ZoneOp) : Option (ZoneState × FreeNodePool) :=
  if current.1.Permits op ∧ guard current.1.zone op then (current.1.step current.2 op).toOption else none

theorem ZoneState.next_steps (guard : MemoryZone → ZoneOp → Prop) [∀ zone, DecidablePred (guard zone)]
    (current : ZoneState × FreeNodePool) (op : ZoneOp) (after : ZoneState × FreeNodePool)
    (played : ZoneState.next guard current op = some after) : current.1.Steps guard after.1 := by
  obtain ⟨⟨permitted, guarded⟩, run⟩ := Runs.of_guarded played
  exact ⟨op, current.2, after.2, permitted, guarded, run⟩

theorem ZoneState.run_of_play (guard : MemoryZone → ZoneOp → Prop) [∀ zone, DecidablePred (guard zone)]
    {ops : List ZoneOp} {first last : ZoneState × FreeNodePool}
    (played : ops.foldlM (ZoneState.next guard) first = some last) :
    Relation.ReflTransGen (ZoneState.Steps guard) first.1 last.1 :=
  (Runs.of_foldlM (ZoneState.next_steps guard) played).lift Prod.fst fun _ _ steps => steps

structure ZoneState.Valid (s : ZoneState) (base pages : Nat) : Prop where
  sameBase : s.zone.base = base
  samePages : s.zone.pages = pages
  small : pages < 2 ^ buddyAllocMaxPow
  tiling : Tiling (s.zone.freeBlocks ++ s.outstanding.map (heldBlock base)) pages
  powers : ∀ held ∈ s.outstanding, held.2 = 2 ^ ceilOrder held.2
  reduced : Reduced s.zone.freeBlocks

theorem Tiling.order_lt {blocks : List Block} {top : Nat} (tiling : Tiling blocks pages)
    (small : pages < 2 ^ top) {block : Block} (member : block ∈ blocks) : block.order < top := by
  have inside := tiling.inside block member
  simp only [Block.stop, Block.size] at inside
  exact (Nat.pow_lt_pow_iff_right (by omega : 1 < 2)).mp (by omega)

theorem MemoryZone.allocPages_power {pagesCount : Nat} {result : Option Nat × MemoryZone × FreeNodePool}
    (run : zone.allocPages pool pagesCount = .ok result) : pagesCount = 2 ^ ceilOrder pagesCount := by
  unfold allocPages at run
  split at run
  · assumption
  · simp [throw_ok] at run

theorem ZoneState.Valid.step {s s' : ZoneState} (valid : s.Valid base pages) (steps : s.Steps CleanFree s') :
    s'.Valid base pages := by
  obtain ⟨op, pool, pool', permitted, clean, run⟩ := steps
  cases op with
  | alloc pagesCount =>
    simp only [ZoneState.step, bind_ok, Prod.exists] at run
    obtain ⟨found, zone, left, allocated, run⟩ := run
    have power := allocPages_power allocated
    rw [power] at allocated
    cases found with
    | none =>
      obtain ⟨rfl, _, _⟩ := allocPages_none allocated
      obtain ⟨⟩ := pure_ok.mp run
      exact valid
    | some page =>
      obtain ⟨⟩ := pure_ok.mp run
      obtain ⟨_, sameBase, samePages, tiling⟩ := allocPages_tiling allocated valid.tiling
      refine ⟨sameBase.trans valid.sameBase, samePages.trans valid.samePages, valid.small, ?_, ?_,
        allocPages_reduced allocated valid.reduced⟩
      · rw [valid.sameBase] at tiling
        exact tiling
      · simp only [forall_mem_cons]
        exact ⟨power, valid.powers⟩
  | free pageStart pagesCount =>
    simp only [ZoneState.step, bind_ok, pure_ok, Prod.exists] at run
    obtain ⟨zone, left, freed, ⟨⟩⟩ := run
    simp only [ZoneState.Permits] at permitted
    simp only [CleanFree] at clean
    have power := valid.powers _ permitted
    simp only at power
    have perm := (perm_cons_erase permitted).map (heldBlock base)
    rw [map_cons] at perm
    have tiling := valid.tiling.perm (perm.append_left _)
    have bound : ceilOrder pagesCount < buddyAllocMaxPow :=
      Tiling.order_lt valid.tiling valid.small
        (mem_append_right _ (mem_map_of_mem permitted : heldBlock base (pageStart, pagesCount) ∈ _))
    rw [power] at freed
    obtain ⟨sameBase, samePages, after⟩ := freePages_tiling bound clean freed
      (by rw [valid.sameBase]; exact tiling)
    refine ⟨sameBase.trans valid.sameBase, samePages.trans valid.samePages, valid.small, after, ?_,
      freePages_reduced bound clean freed valid.reduced⟩
    intro held member
    exact valid.powers held (mem_of_mem_erase member)

theorem MemoryZone.new_small {pool' : FreeNodePool} (run : new pool base pages = .ok (zone, pool')) :
    pages < 2 ^ buddyAllocMaxPow := by
  unfold new at run
  rw [newLoop] at run
  split at run
  · rename_i more
    simp only [bind_ok, Prod.exists] at run
    obtain ⟨middle, between, added, _⟩ := run
    obtain ⟨bound, _⟩ := addNode_ok.mp added
    exact (Nat.log2_lt (by omega)).mp bound
  · have positive : 0 < 2 ^ buddyAllocMaxPow := Nat.two_pow_pos _
    omega

theorem MemoryZone.new_valid {pool' : FreeNodePool} (run : new pool base pages = .ok (zone, pool')) :
    ZoneState.Valid { zone := zone, outstanding := [] } base pages := by
  obtain ⟨sameBase, samePages, tiling, reduced⟩ := new_tiling run
  exact ⟨sameBase, samePages, new_small run, by simpa using tiling, by simp, reduced⟩

theorem MemoryZone.filter_freeBlocks (zone : MemoryZone) (bound : pow < buddyAllocMaxPow) :
    (zone.freeBlocks.filter fun block => block.order = pow).map Block.start = zone.level pow := by
  have split : ∀ top, (((range top).flatMap fun i =>
      (zone.pows i).map fun node => (⟨node.pageNumber, i⟩ : Block)).filter fun block => block.order = pow).map
        Block.start = if pow < top then zone.level pow else [] := by
    intro top
    induction top with
    | zero => simp
    | succ top ih =>
      rw [range_succ, flatMap_append, filter_append, map_append, ih]
      rcases Nat.lt_trichotomy pow top with below | same | above
      · have different : top ≠ pow := by omega
        simp [below, Nat.lt_succ_of_lt below, filter_map, comp_def, different]
      · subst same
        simp [filter_map, comp_def, level]
      · have different : top ≠ pow := by omega
        simp [show ¬ pow < top by omega, show ¬ pow < top + 1 by omega, filter_map, comp_def, different]
  have whole := split buddyAllocMaxPow
  rw [if_pos bound] at whole
  exact whole

theorem MemoryZone.level_of_perm {other : MemoryZone} (perm : zone.freeBlocks.Perm other.freeBlocks)
    (bound : pow < buddyAllocMaxPow) : (zone.level pow).Perm (other.level pow) := by
  rw [← zone.filter_freeBlocks bound, ← other.filter_freeBlocks bound]
  exact (perm.filter _).map _

theorem MemoryZone.mem_level {start : Nat} (bound : pow < buddyAllocMaxPow) (member : start ∈ zone.level pow) :
    (⟨start, pow⟩ : Block) ∈ zone.freeBlocks := by
  simp only [level, mem_map] at member
  obtain ⟨node, inside, same⟩ := member
  exact (zone.mem_freeBlocks _).mpr ⟨bound, node, inside, same⟩

theorem eq_of_perm_binaryLevel {starts : List Nat} (perm : starts.Perm (binaryLevel pages pow)) :
    starts = binaryLevel pages pow := by
  unfold binaryLevel at perm ⊢
  by_cases set : pages.testBit pow
  · rw [if_pos set] at perm ⊢
    exact perm_singleton.mp perm
  · rw [if_neg set] at perm ⊢
    exact perm_nil.mp perm

/-- Without stray partners the lists stay free of buddy pairs and are those of `MemoryZone::new` once all is freed. -/
theorem zone_lists_of_clean_runs {pool pool' : FreeNodePool} {base pages : Nat} {zone : MemoryZone}
    {s : ZoneState} (new : new pool base pages = .ok (zone, pool'))
    (run : Relation.ReflTransGen (ZoneState.Steps CleanFree) { zone := zone, outstanding := [] } s) :
    (∀ order start, order < buddyAllocMaxPow → 2 ^ (order + 1) ∣ start →
      ¬ (start ∈ s.zone.level order ∧ start + 2 ^ order ∈ s.zone.level order)) ∧
    (s.outstanding = [] → ∀ pow, pow < buddyAllocMaxPow →
      s.zone.level pow = zone.level pow ∧ zone.level pow = binaryLevel pages pow) := by
  have initial := new_valid new
  have valid := Runs.preserved (fun s => s.Valid base pages) (fun _ _ kept steps => kept.step steps) initial run
  constructor
  · rintro order start bound aligned ⟨left, right⟩
    exact valid.reduced _ (mem_level bound left) _ (mem_level bound right) ⟨rfl, aligned, rfl⟩
  · intro freed pow bound
    have tiling := valid.tiling
    have first := initial.tiling
    simp only [freed, map_nil, append_nil] at tiling first
    have perm := tiling.unique valid.reduced first initial.reduced
    have decomposed := new_level new pow
    have level := level_of_perm perm bound
    rw [decomposed] at level ⊢
    exact ⟨eq_of_perm_binaryLevel level, rfl⟩

def eightPages : ZoneState :=
  { zone := (empty 0 8).setPow 3 [⟨.fixed 0, 0⟩], outstanding := [] }

theorem eightPages_new : new .init 0 8 = .ok (eightPages.zone, .afterOne) := by
  rw [FreeNodePool.init_eq]
  exact new_two_pow 3 0 511 (by decide) (.fixed 0) _

theorem zone_lists_of_one_page_run :
    ∃ last, new .init 0 8 = .ok (eightPages.zone, .afterOne) ∧
      [ZoneOp.alloc 1, .alloc 1, .free 0 1, .free 1 1].foldlM (ZoneState.next CleanFree) (eightPages, .afterOne) =
        some last ∧ last.1.outstanding = [] ∧ last.1.zone.level 3 = [0] := by
  have played : ∃ last, [ZoneOp.alloc 1, .alloc 1, .free 0 1, .free 1 1].foldlM (ZoneState.next CleanFree)
      (eightPages, .afterOne) = some last ∧ last.1.outstanding = [] := ⟨_, rfl, rfl⟩
  obtain ⟨last, played, freed⟩ := played
  have run := ZoneState.run_of_play CleanFree played
  have lists := (zone_lists_of_clean_runs eightPages_new run).2 freed 3 (by decide)
  exact ⟨last, eightPages_new, played, freed, lists.1⟩

def strayRun : List ZoneOp :=
  replicate 8 (.alloc 1) ++ [.free 5 1, .free 2 1, .free 3 1, .free 0 1]

def freeTheRest : List ZoneOp := [.free 4 1, .free 6 1, .free 7 1, .free 1 1]

theorem zone_lists_not_restored :
    ∃ s, new .init 0 8 = .ok (eightPages.zone, .afterOne) ∧
      Relation.ReflTransGen (ZoneState.Steps fun _ _ => True) eightPages s ∧ s.outstanding = [] ∧
      eightPages.zone.level 3 = [0] ∧ s.zone.level 3 = [] := by
  have played : ∃ last, (strayRun ++ freeTheRest).foldlM (ZoneState.next fun _ _ => True)
      (eightPages, .afterOne) = some last ∧ last.1.outstanding = [] ∧ last.1.zone.level 3 = [] := ⟨_, rfl, rfl, rfl⟩
  obtain ⟨last, played, freed, lost⟩ := played
  exact ⟨last.1, eightPages_new, ZoneState.run_of_play _ played, freed, rfl, lost⟩

end Kernel31.Buddy
