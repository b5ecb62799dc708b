import Kernel31.Paging.Leaks
import Kernel31.Library.Runs

namespace Kernel31.Paging

open Page Checked Radix List Mapper Function LawfulMapper
open Mapper (newWithAllocator rootTable unmapDescend)

variable {M E A : Type} {mem : Memory} {root vpn last : Nat} {owned : Nat → Prop} {inUse : A → Nat → Prop} {self : M}

section Unmap

variable [Entry E] [Mapper M E] [Mmu E] [LawfulEntry E]
theorem unmapDescend_eq (mapped : (scheme M).tableAt mem root (height M) vpn = some last) {level : Nat} :
    ∀ {depth : Nat} {pageTables : Nat → Table E}, depth + level = height M →
      (scheme M).tableAt mem root depth vpn = some (pageTables level).page →
      ∃ pageTables', unmapDescend M vpn (level + 1) mem pageTables =
        (Scheme.write mem last ((scheme M).digit (height M) vpn) 0, pageTables') ∧ (pageTables' 0).page = last := by
  induction level with
  | zero =>
    intro depth pageTables levels place
    obtain rfl : depth = height M := by omega
    have same : (pageTables 0).page = last := Option.mem_unique place mapped
    have digit : (scheme M).digit (height M) vpn = index M 0 vpn := by
      simp [scheme, height]
    refine ⟨pageTables, ?_, same⟩
    rw [unmapDescend, if_pos rfl, unmapDescend, Table.setEntry, same, digit, LawfulEntry.bits_empty]
  | succ level ih =>
    intro depth pageTables levels place
    have digit : (scheme M).digit depth vpn = index M (level + 1) vpn := by
      have same : Mapper.level M - 1 - depth = level + 1 := by
        unfold height at levels
        omega
      simp [scheme, same]
    have step : (scheme M).tableAt mem root (depth + 1) vpn =
        entryTable ((pageTables (level + 1)).getEntry mem (index M (level + 1) vpn)) := by
      rw [Scheme.tableAt, place, Option.bind_some, digit]
      rfl
    have valid : Entry.isValid ((pageTables (level + 1)).getEntry mem (index M (level + 1) vpn)) = true := by
      by_contra invalid
      rw [entryTable, if_neg invalid] at step
      rw [Scheme.tableAt_none step (by omega)] at mapped
      cases mapped
    rw [entryTable, if_pos valid] at step
    rw [unmapDescend, if_neg (by omega), Nat.add_sub_cancel]
    have further : depth + 1 + level = height M := by omega
    exact ih further (by rw [update_self]; exact step)

variable [LawfulMapper M] [PageAllocator A]

def KeepsTable (M : Type) {E : Type} [Entry E] [Mapper M E] (mem : Memory) (root vpn : Nat) : Prop :=
  ∃ last, (scheme M).tableAt mem root (height M) vpn = some last ∧
    ∃ index, index < 512 ∧ index ≠ (scheme M).digit (height M) vpn ∧
      Entry.isValid (Entry.ofBits (mem last index) : E) = true

omit [Mmu E] [LawfulEntry E] [LawfulMapper M] in
theorem freeEmptied_full {pageTables : Nat → Table E} (full : (pageTables 0).isEmpty mem (ptesPerDir M) = false)
    (remaining : Nat) (alloc : A) : freeEmptied M mem pageTables remaining 0 alloc = .ok alloc := by
  cases remaining with
  | zero => rfl
  | succ remaining =>
    rw [freeEmptied, full]
    rfl

theorem unmap4k_eq {machine : Machine A} (keeps : KeepsTable M machine.mem (rootTable self).page vpn) :
    ∃ last, (scheme M).tableAt machine.mem (rootTable self).page (height M) vpn = some last ∧
      Mapper.unmap4k self machine vpn =
        .ok { machine with mem := Scheme.write machine.mem last ((scheme M).digit (height M) vpn) 0 } := by
  obtain ⟨last, mapped, index, small, different, valid⟩ := keeps
  obtain ⟨deep, shallow⟩ := levels (M := M)
  have levels := height_succ M
  have rooted : (scheme M).tableAt machine.mem (rootTable self).page 0 vpn =
      some (update (fun _ => Table.empty) (height M) (rootTable self) (height M)).page := by
    rw [update_self]
    rfl
  obtain ⟨pageTables, descended, first⟩ := unmapDescend_eq mapped (Nat.zero_add _) rooted
  refine ⟨last, mapped, ?_⟩
  have full : (pageTables 0).isEmpty (Scheme.write machine.mem last ((scheme M).digit (height M) vpn) 0)
      (ptesPerDir M) = false := by
    rw [Table.isEmpty, ptes (M := M), all_eq_false]
    refine ⟨index, mem_range.mpr small, ?_⟩
    rw [Table.getEntry, first, Scheme.write_other _ _ fun same => different same.2, valid]
    simp
  have top : Mapper.level M - 1 = height M := rfl
  rw [Mapper.unmap4k, if_pos shallow, top, ← levels]
  simp only [descended, freeEmptied_full full]
  rfl

end Unmap

section Nodup

variable [Entry E] [Mapper M E] [Mmu E] [LawfulMapper M]
theorem Tree.freed_below (tree : Tree M mem root owned) {level depth key page index freed : Nat}
    (levels : depth + (level + 2) = height M) (place : (scheme M).tableAt mem root depth key = some page)
    (small : index < 512)
    (inside : freed ∈ ((scheme M).child (mem page index)).elim [] (freedPages M mem (level + 1))) :
    ∃ i other, depth < i ∧ i ≤ height M ∧ (scheme M).digit depth other = index ∧
      (scheme M).tableAt mem root i other = some freed := by
  obtain ⟨other, _, digit, next, _⟩ := tree.entry (by omega) place small
  cases child : (scheme M).child (mem page index) with
  | none => simp [child] at inside
  | some below =>
    rw [child] at next inside
    obtain ⟨i, last, deep, shallow, _, agree, found⟩ := mem_freedPages tree (by omega) next inside
    exact ⟨i, last, deep, shallow, by rw [← agree depth (by omega), digit], found⟩

/-- Pages below different entries have different digits, and a table is at another depth than those below it. -/
theorem nodup_freedPages (tree : Tree M mem root owned) {level : Nat} : ∀ {depth key page : Nat},
    depth + (level + 1) = height M → (scheme M).tableAt mem root depth key = some page →
    (freedPages M mem (level + 1) page).Nodup := by
  induction level with
  | zero =>
    intro depth key page levels place
    rw [freedPages, List.Nodup, pairwise_filterMap]
    refine List.Pairwise.imp_of_mem ?_ nodup_range
    rintro left right inLeft inRight different page found _ found' rfl
    obtain ⟨key, _, digit, next, entry⟩ := tree.entry (by omega) place (mem_range.mp inLeft)
    obtain ⟨other, _, digit', next', entry'⟩ := tree.entry (by omega) place (mem_range.mp inRight)
    rw [← entry, found] at next
    rw [← entry', found'] at next'
    obtain ⟨_, agree⟩ := tree.separate _ _ _ _ _ (by omega) (by omega) next next'
    exact different (by rw [← digit, ← digit', agree depth (by omega)])
  | succ level ih =>
    intro depth key page levels place
    rw [freedPages, nodup_append, nodup_flatMap]
    refine ⟨⟨?_, ?_⟩, nodup_singleton _, ?_⟩
    · intro index inside
      obtain ⟨other, _, _, next, _⟩ := tree.entry (by omega) place (mem_range.mp inside)
      cases child : (scheme M).child (mem page index) with
      | none => simp
      | some below =>
        rw [child] at next
        exact ih (by omega) next
    · refine List.Pairwise.imp_of_mem ?_ nodup_range
      intro left right inLeft inRight different freed first second
      obtain ⟨i, key, deep, shallow, digit, found⟩ := tree.freed_below levels place (mem_range.mp inLeft) first
      obtain ⟨j, other, _, shallow', digit', found'⟩ := tree.freed_below levels place (mem_range.mp inRight) second
      obtain ⟨_, agree⟩ := tree.separate i j key other freed shallow shallow' found found'
      exact different (by rw [← digit, ← digit', agree depth deep])
    · intro freed inside own member same
      rw [mem_singleton.mp member] at same
      subst same
      obtain ⟨index, bound, inside⟩ := mem_flatMap.mp inside
      obtain ⟨i, other, deep, shallow, _, found⟩ := tree.freed_below levels place (mem_range.mp bound) inside
      obtain ⟨equal, _⟩ := tree.separate i depth other key freed shallow (by omega) found place
      omega

end Nodup

inductive TableOp where
  | map4k (vpn ppn : Nat) (mode : List PageACL)
  | unmap4k (vpn : Nat)
  deriving DecidableEq, Repr

section Runs

variable [Entry E] [Mapper M E] [PageAllocator A]

def TableOp.run (self : M) (machine : Machine A) : TableOp → Exec (Machine A)
  | .map4k vpn ppn mode => Mapper.map4k self machine vpn ppn mode
  | .unmap4k vpn => Mapper.unmap4k self machine vpn

def TableOp.Clean (self : M) (machine : Machine A) : TableOp → Prop
  | .map4k _ _ _ => True
  | .unmap4k vpn => KeepsTable M machine.mem (rootTable self).page vpn

def TableSteps (guard : M → Machine A → TableOp → Prop) (self : M) (machine machine' : Machine A) : Prop :=
  ∃ op, guard self machine op ∧ TableOp.run self machine op = .ok machine'

end Runs

/-- No valid entry refers to a returned page, unmapping removes its own translation only, and no page is returned
    twice. -/
def UnmapSafe (M : Type) {E : Type} [Entry E] [Mmu E] [Mapper M E] (A : Type) [PageAllocator A] : Prop :=
  ∀ (self : M) (alloc : A) (mem : Memory) (begun s : Machine (Traced A)) (frame : Nat),
    newWithAllocator ⟨Traced.start alloc, mem⟩ = .ok (self, begun) →
    (rootTable self).pageNumber = .ok frame →
    Relation.ReflTransGen (TableSteps TableOp.Clean self) begun s →
    (∀ depth key table, depth ≤ height M →
      (scheme M).tableAt s.mem (rootTable self).page depth key = some table →
      let entry : E := Entry.ofBits (s.mem table ((scheme M).digit depth key))
      Entry.isValid entry = true → (virtPage (Entry.pageNumber entry), 1) ∉ s.alloc.freed) ∧
    (∀ vpn s', TableOp.Clean self s (.unmap4k vpn) → Mapper.unmap4k self s vpn = .ok s' →
      (∀ page index, s'.mem page index ≠ s.mem page index →
        (scheme M).Reachable s.mem (rootTable self).page (height M) page) ∧
      ∀ other, walk M s'.mem other (Mapper.level M - 1) frame =
        if other % 2 ^ (9 * Mapper.level M) = vpn % 2 ^ (9 * Mapper.level M) then none
        else walk M s.mem other (Mapper.level M - 1) frame) ∧
    s.alloc.freed.Nodup ∧
    ∀ destroyed, Mapper.destroyWithAllocator self s = .ok destroyed → destroyed.alloc.freed.Nodup

section Safe

variable [Entry E] [Mapper M E] [Mmu E] [LawfulEntry E] [LawfulMapper M] [PageAllocator A]
structure Intact (inUse : A → Nat → Prop) (mapper : M) (machine : Machine (Traced A)) : Prop where
  tree : Tree M machine.mem (rootTable mapper).page
    fun page => inUse machine.alloc.inner page ∧ (page, 1) ∈ machine.alloc.allocated
  unreturned : machine.alloc.freed = []

theorem Intact.step (sound : SoundAllocator inUse) {machine machine' : Machine (Traced A)}
    (intact : Intact inUse self machine) (steps : TableSteps TableOp.Clean self machine machine') :
    Intact inUse self machine' := by
  obtain ⟨op, clean, run⟩ := steps
  cases op with
  | map4k vpn ppn mode =>
    have alone : [MapCall.map4k vpn ppn mode].foldlM (MapCall.run self) machine = .ok machine' := by
      change Mapper.map4k self machine vpn ppn mode = _ at run
      rw [foldlM_cons, MapCall.run, run]
      rfl
    refine ⟨(map4k_spec sound.traced intact.tree run).1, ?_⟩
    exact calls_rule (fun alloc => alloc.freed = [])
      (fun _ _ _ allocated empty => (Traced.allocPages_freed allocated).trans empty) intact.unreturned alone
  | unmap4k vpn =>
    obtain ⟨last, mapped, unmapped⟩ := unmap4k_eq clean
    change Mapper.unmap4k self machine vpn = _ at run
    rw [unmapped] at run
    obtain rfl := Except.ok.inj run
    exact ⟨intact.tree.write_last mapped 0, intact.unreturned⟩

theorem unmapSafe (sound : SoundAllocator inUse) (M : Type) [Mapper M E] [LawfulMapper M] : UnmapSafe M A := by
  intro self alloc mem begun s frame new rooted run
  have intact := Runs.preserved (Intact inUse self) (fun _ _ kept steps => kept.step sound steps)
    ⟨(Represents.new sound.traced new).tree, new_unreturned new⟩ run
  refine ⟨by simp [intact.unreturned], ?_, by simp [intact.unreturned], ?_⟩
  · intro vpn s' clean unmapped
    obtain ⟨last, mapped, run⟩ := unmap4k_eq clean
    rw [run] at unmapped
    obtain rfl := Except.ok.inj unmapped
    refine ⟨?_, ?_⟩
    · intro page index changed
      have same : page = last := by
        by_contra different
        exact changed (Scheme.write_other _ _ fun both => different both.1)
      exact ⟨height M, vpn, le_rfl, by rw [same]; exact mapped⟩
    · intro other
      rw [(intact.tree.write_last mapped 0).walk_root rooted, intact.tree.walk_root rooted,
        intact.tree.lookup_write_last mapped, leafPage_blank]
  · intro destroyed ended
    rw [destroy_eq intact.tree rooted] at ended
    obtain ⟨after, freed, ended⟩ := bind_ok.mp ended
    obtain rfl := pure_ok.mp ended
    obtain ⟨log, _⟩ := freeAll_freed freed
    have deep := (levels (M := M)).1
    obtain ⟨level, top⟩ : ∃ level, height M = level + 1 := ⟨height M - 1, by unfold height; omega⟩
    have place : (scheme M).tableAt s.mem (rootTable self).page 0 0 = some (rootTable self).page := rfl
    have whole : 0 + (level + 1) = height M := by omega
    have distinct := nodup_freedPages intact.tree whole place
    rw [← top] at distinct
    rw [log, intact.unreturned, append_nil, nodup_reverse]
    exact distinct.map fun left right same => (Prod.mk.inj same).1

end Safe

/-- For both mappers, in runs whose unmaps find their tables and leave the last one with an entry. -/
theorem unmap_safe_of_clean_runs {A : Type} [PageAllocator A] {inUse : A → Nat → Prop}
    (sound : SoundAllocator inUse) : UnmapSafe Sv39Mapper A ∧ UnmapSafe Arm64Mapper A :=
  ⟨unmapSafe sound Sv39Mapper, unmapSafe sound Arm64Mapper⟩

theorem unmap_one_of_two_pages :
    ∃ self begun one two s frame,
      newWithAllocator (M := Sv39Mapper) ⟨Traced.start Bump.start, fun _ _ => 0⟩ = .ok (self, begun) ∧
      Mapper.map4k self begun 0 7 [.read] = .ok one ∧ Mapper.map4k self one 1 8 [.read] = .ok two ∧
      (rootTable self).pageNumber = .ok frame ∧
      Mapper.unmap4k self two 0 = .ok s ∧ walk Sv39Mapper s.mem 0 2 frame = none ∧
      walk Sv39Mapper s.mem 1 2 frame = walk Sv39Mapper two.mem 1 2 frame := by
  have played : ∃ self begun one two frame,
      newWithAllocator (M := Sv39Mapper) ⟨Traced.start Bump.start, fun _ _ => 0⟩ = .ok (self, begun) ∧
      Mapper.map4k self begun 0 7 [.read] = .ok one ∧ Mapper.map4k self one 1 8 [.read] = .ok two ∧
      (rootTable self).pageNumber = .ok frame ∧
      TableOp.Clean self two (.unmap4k 0) := by
    refine ⟨_, _, _, _, _, rfl, rfl, rfl, rfl, pageOffset + 2, ?_, 1, by decide, by decide, ?_⟩
    · rfl
    · rfl
  obtain ⟨self, begun, one, two, frame, new, first, second, rooted, clean⟩ := played
  have run : Relation.ReflTransGen (TableSteps TableOp.Clean self) begun two :=
    .tail (.single ⟨.map4k 0 7 [.read], trivial, first⟩) ⟨.map4k 1 8 [.read], trivial, second⟩
  obtain ⟨last, _, unmapped⟩ := unmap4k_eq clean
  have safe := (((unmap_safe_of_clean_runs Bump.sound).1 self _ _ begun two frame new rooted run).2.1 0 _ clean unmapped).2
  refine ⟨self, begun, one, two, _, frame, new, first, second, rooted, unmapped, ?_, ?_⟩
  · exact (safe 0).trans (if_pos rfl)
  · exact (safe 1).trans (if_neg (by decide))

set_option maxRecDepth 20000 in
/-- Unmapping the only page of a last table returns the table and leaves the entry that refers to it. -/
theorem unmap_leaves_dangling_entry :
    ∃ self begun built s table,
      newWithAllocator (M := Sv39Mapper) ⟨Traced.start Bump.start, fun _ _ => 0⟩ = .ok (self, begun) ∧
      Mapper.map4k self begun 0 7 [.read] = .ok built ∧ Mapper.unmap4k self built 0 = .ok s ∧
      (scheme Sv39Mapper).tableAt s.mem (rootTable self).page 1 0 = some table ∧
      Entry.isValid (Entry.ofBits (s.mem table 0) : PageTableEntry) = true ∧
      (virtPage (Entry.pageNumber (Entry.ofBits (s.mem table 0) : PageTableEntry)), 1) ∈ s.alloc.freed := by
  refine ⟨_, _, _, _, pageOffset + 1, rfl, rfl, rfl, rfl, rfl, ?_⟩
  decide

end Kernel31.Paging
