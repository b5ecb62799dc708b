import Kernel31.Paging.Destroy

namespace Kernel31.Paging

open Page Checked Radix List Mapper LawfulMapper
open Mapper (descend destroyWithAllocator newWithAllocator rootTable)

structure Traced (A : Type) where
  inner : A
  allocated : List (Nat × Nat)
  freed : List (Nat × Nat)

def Traced.start {A : Type} (alloc : A) : Traced A := ⟨alloc, [], []⟩

section Traced

variable {A : Type} [PageAllocator A]

def Traced.allocPages (self : Traced A) (count : Nat) : Exec (Except AllocError Nat × Traced A) := do
  let (result, inner) ← PageAllocator.allocPages self.inner count
  match result with
  | .ok page => pure (.ok page, { self with inner := inner, allocated := (page, count) :: self.allocated })
  | .error failure => pure (.error failure, { self with inner := inner })

def Traced.freePages (self : Traced A) (start count : Nat) : Exec (Traced A) := do
  let inner ← PageAllocator.freePages self.inner start count
  pure { self with inner := inner, freed := (start, count) :: self.freed }

instance : PageAllocator (Traced A) := ⟨Traced.allocPages, Traced.freePages⟩

theorem Traced.allocPages_freed {alloc alloc' : Traced A} {count : Nat} {result : Except AllocError Nat}
    (run : PageAllocator.allocPages alloc count = .ok (result, alloc')) : alloc'.freed = alloc.freed := by
  obtain ⟨⟨outcome, inner⟩, _, run⟩ := bind_ok.mp run
  cases outcome with
  | ok page =>
    simp only [pure_ok, Prod.mk.injEq] at run
    obtain ⟨_, rfl⟩ := run
    rfl
  | error failure =>
    simp only [pure_ok, Prod.mk.injEq] at run
    obtain ⟨_, rfl⟩ := run
    rfl

theorem SoundAllocator.traced {inUse : A → Nat → Prop} (sound : SoundAllocator inUse) :
    SoundAllocator fun (alloc : Traced A) page => inUse alloc.inner page ∧ (page, 1) ∈ alloc.allocated where
  fresh alloc page alloc' run := by
    obtain ⟨⟨outcome, inner⟩, allocated, run⟩ := bind_ok.mp run
    cases outcome with
    | error failure => simp [pure_ok] at run
    | ok given =>
      obtain ⟨⟩ := pure_ok.mp run
      obtain ⟨unused, small, after⟩ := sound.fresh _ _ _ allocated
      refine ⟨fun held => unused held.1, small, ?_⟩
      intro other
      simp only [after, mem_cons, Prod.mk.injEq, and_true]
      constructor
      · rintro ⟨_ | held, same | logged⟩
        · exact Or.inl same
        · exact Or.inl ‹_›
        · exact Or.inl same
        · exact Or.inr ⟨held, logged⟩
      · rintro (same | ⟨held, logged⟩)
        · exact ⟨Or.inl same, Or.inl same⟩
        · exact ⟨Or.inr held, Or.inr logged⟩
  freed alloc page alloc' run other := by
    obtain ⟨inner, freed, run⟩ := bind_ok.mp run
    obtain rfl := pure_ok.mp run
    simp only [sound.freed _ _ _ freed, and_assoc]

theorem freeAll_freed {alloc alloc' : Traced A} {pages : List Nat} (run : freeAll alloc pages = .ok alloc') :
    alloc'.freed = (pages.map fun page => (page, 1)).reverse ++ alloc.freed ∧ alloc'.allocated = alloc.allocated := by
  induction pages generalizing alloc with
  | nil =>
    obtain rfl := pure_ok.mp run
    exact ⟨rfl, rfl⟩
  | cons page pages ih =>
    rw [freeAll, foldlM_cons] at run
    obtain ⟨middle, first, run⟩ := bind_ok.mp run
    obtain ⟨inner, _, first⟩ := bind_ok.mp first
    obtain rfl := pure_ok.mp first
    obtain ⟨freed, allocated⟩ := ih run
    exact ⟨by simp [freed], allocated⟩

end Traced

section AllocRule

variable {M E A : Type} [Entry E] [Mapper M E] [PageAllocator A] (inv : A → Prop)
  (keeps : ∀ alloc result alloc', PageAllocator.allocPages alloc 1 = .ok (result, alloc') → inv alloc → inv alloc')
include keeps

variable {machine machine' : Machine A} {table : Table E}

omit [Entry E] in
theorem Table.new_rule (start : inv machine.alloc) (run : Table.new machine = .ok (table, machine')) :
    inv machine'.alloc := by
  obtain ⟨⟨result, alloc⟩, allocated, run⟩ := bind_ok.mp run
  cases result with
  | error failure => simp [throw_ok] at run
  | ok page =>
    simp only [pure_ok, Prod.mk.injEq] at run
    obtain ⟨_, rfl⟩ := run
    exact keeps _ _ _ allocated start

theorem descend_rule {vpn level : Nat} {table' : Table E} (start : inv machine.alloc)
    (run : descend M vpn level table machine = .ok (table', machine')) : inv machine'.alloc := by
  induction level generalizing table machine with
  | zero =>
    simp only [descend, pure_ok, Prod.mk.injEq] at run
    obtain ⟨_, rfl⟩ := run
    exact start
  | succ level ih =>
    simp only [descend] at run
    split at run
    · simp only [bind_ok, Prod.exists] at run
      obtain ⟨subTable, middle, created, frame, _, run⟩ := run
      have after := Table.new_rule inv keeps start created
      exact ih (by exact after) run
    · exact ih start run

theorem calls_rule {self : M} {calls : List MapCall} (start : inv machine.alloc)
    (run : calls.foldlM (MapCall.run self) machine = .ok machine') : inv machine'.alloc := by
  have one : ∀ {machine machine' : Machine A} {vpn ppn mode}, inv machine.alloc →
      map4k self machine vpn ppn mode = .ok machine' → inv machine'.alloc := by
    intro machine machine' vpn ppn mode start run
    simp only [map4k, bind_ok, pure_ok, Prod.exists] at run
    obtain ⟨table, middle, descended, rfl⟩ := run
    have after := descend_rule inv keeps start descended
    exact after
  have many : ∀ {pages vpn ppn mode} {machine machine' : Machine A}, inv machine.alloc →
      mapWithAllocator self machine vpn ppn pages mode = .ok machine' → inv machine'.alloc := by
    intro pages
    induction pages with
    | zero =>
      intro vpn ppn mode machine machine' start run
      obtain rfl := pure_ok.mp run
      exact start
    | succ pages ih =>
      intro vpn ppn mode machine machine' start run
      simp only [mapWithAllocator, bind_ok] at run
      obtain ⟨middle, first, run⟩ := run
      split at run
      · exact ih (one start first) run
      · simp [throw_ok] at run
  induction calls generalizing machine with
  | nil =>
    obtain rfl := pure_ok.mp run
    exact start
  | cons call calls ih =>
    simp only [foldlM_cons, bind_ok] at run
    obtain ⟨middle, first, run⟩ := run
    refine ih ?_ run
    cases call with
    | map4k vpn ppn mode => exact one start first
    | mapWithAllocator vpn ppn pages mode => exact many start first

end AllocRule

section Leak

variable {M E A : Type} [Entry E] [Mapper M E] [Mmu E] [LawfulMapper M]

theorem exists_leaked {mem : Memory} {root vpn last : Nat} {owned : Nat → Prop} (tree : Tree M mem root owned)
    (mapped : (scheme M).tableAt mem root (height M) vpn = some last) :
    ∃ page, (scheme M).Reachable mem root (height M) page ∧ page ∉ freedPages M mem (height M) root := by
  have deep := (levels (M := M)).1
  obtain ⟨level, top⟩ : ∃ level, height M = level + 1 := ⟨height M - 1, by unfold height; omega⟩
  have upper : ∃ page, (scheme M).tableAt mem root level vpn = some page := by
    rw [top, Scheme.tableAt, Option.bind_eq_some_iff] at mapped
    obtain ⟨page, found, _⟩ := mapped
    exact ⟨page, found⟩
  obtain ⟨page, found⟩ := upper
  refine ⟨page, ⟨level, vpn, by omega, found⟩, ?_⟩
  intro freed
  rw [top] at freed
  have top' : (scheme M).tableAt mem root 0 vpn = some root := rfl
  obtain ⟨i, other, _, inside, notOne, _, again⟩ := mem_freedPages tree (by omega) top' freed
  obtain ⟨same, _⟩ := tree.separate level i vpn other page (by omega) inside found again
  omega

omit [Mmu E] in
theorem root_mem_freedPages (mem : Memory) (root : Nat) : root ∈ freedPages M mem (height M) root := by
  have deep := (levels (M := M)).1
  obtain ⟨level, top⟩ : ∃ level, height M = level + 2 := ⟨height M - 2, by unfold height; omega⟩
  rw [top, freedPages]
  simp

end Leak

def FreesAllIff (M : Type) {E : Type} [Entry E] [Mapper M E] (A : Type) [PageAllocator A] : Prop :=
  ∀ (self : M) (calls : List MapCall) (alloc : A) (mem : Memory) (begun built destroyed : Machine (Traced A)) (frame : Nat),
    newWithAllocator ⟨Traced.start alloc, mem⟩ = .ok (self, begun) →
    calls.foldlM (MapCall.run self) begun = .ok built → (rootTable self).pageNumber = .ok frame →
    destroyWithAllocator self built = .ok destroyed →
    ((∀ block ∈ built.alloc.allocated, block ∈ destroyed.alloc.freed) ↔ ∀ call ∈ calls, call.mappings = [])

section Destroyed

variable {M E A : Type} [Entry E] [Mapper M E] [Mmu E] [LawfulEntry E] [LawfulMapper M] [PageAllocator A]
variable {inUse : A → Nat → Prop} {self : M} {calls : List MapCall} {alloc : A} {mem : Memory}
variable {begun built destroyed : Machine (Traced A)}

omit [Mmu E] [LawfulEntry E] [LawfulMapper M] in
theorem runs_of_no_mappings {machine machine' : Machine A} (none : ∀ call ∈ calls, call.mappings = [])
    (run : calls.foldlM (MapCall.run self) machine = .ok machine') : machine' = machine := by
  induction calls generalizing machine with
  | nil => exact (pure_ok.mp run).symm
  | cons call calls ih =>
    rw [forall_mem_cons] at none
    simp only [foldlM_cons, bind_ok] at run
    obtain ⟨middle, first, run⟩ := run
    rw [ih none.2 run]
    cases call with
    | map4k vpn ppn mode => simp [MapCall.mappings] at none
    | mapWithAllocator vpn ppn pages mode =>
      have zero : pages = 0 := by simpa [MapCall.mappings] using none.1
      subst zero
      exact (pure_ok.mp first).symm

omit [Entry E] [Mmu E] [LawfulEntry E] [LawfulMapper M] in
theorem new_unreturned (new : newWithAllocator ⟨Traced.start alloc, mem⟩ = .ok (self, begun)) :
    begun.alloc.freed = [] := by
  simp only [newWithAllocator, bind_ok, Prod.exists] at new
  obtain ⟨table, machine, created, new⟩ := new
  simp only [pure_ok, Prod.mk.injEq] at new
  obtain ⟨_, rfl⟩ := new
  exact Table.new_rule (fun alloc => alloc.freed = [])
    (fun _ _ _ allocated empty => (Traced.allocPages_freed allocated).trans empty) rfl created

theorem destroyed_record (sound : SoundAllocator inUse)
    (new : newWithAllocator ⟨Traced.start alloc, mem⟩ = .ok (self, begun))
    (run : calls.foldlM (MapCall.run self) begun = .ok built) {frame : Nat}
    (rooted : (rootTable self).pageNumber = .ok frame)
    (ended : destroyWithAllocator self built = .ok destroyed) (block : Nat × Nat) :
    block ∈ destroyed.alloc.freed ↔
      block.1 ∈ freedPages M built.mem (height M) (rootTable self).page ∧ block.2 = 1 := by
  have represents := (Represents.new sound.traced new).runs sound.traced run
  have unfreed : built.alloc.freed = [] := calls_rule (fun alloc => alloc.freed = [])
    (fun _ _ _ allocated empty => (Traced.allocPages_freed allocated).trans empty) (new_unreturned new) run
  rw [destroy_eq represents.tree rooted] at ended
  obtain ⟨after, freed, ended⟩ := bind_ok.mp ended
  obtain rfl := pure_ok.mp ended
  obtain ⟨log, _⟩ := freeAll_freed freed
  rw [unfreed, append_nil] at log
  obtain ⟨start, count⟩ := block
  simp [log, eq_comm, and_comm]

theorem freesAllIff (sound : SoundAllocator inUse) (M : Type) [Mapper M E] [LawfulMapper M] : FreesAllIff M A := by
  intro self calls alloc mem begun built destroyed frame new run rooted ended
  have record := destroyed_record sound new run rooted ended
  have represents := (Represents.new sound.traced new).runs sound.traced run
  constructor
  · intro complete call called
    by_contra some
    obtain ⟨mapping, listed⟩ := exists_mem_of_ne_nil _ some
    obtain ⟨last, mapped⟩ := represents.present mapping (by simpa using ⟨call, called, listed⟩)
    obtain ⟨page, reached, leaked⟩ := exists_leaked represents.tree mapped
    have logged := (represents.tree.housed page reached).1.2
    exact leaked ((record _).mp (complete _ logged)).1
  · intro none
    obtain rfl := runs_of_no_mappings none run
    have only : built.alloc.allocated = [((rootTable self).page, 1)] := by
      simp only [newWithAllocator, bind_ok, pure_ok, Prod.exists] at new
      obtain ⟨table, machine, created, ⟨⟩⟩ := new
      obtain ⟨⟨result, after⟩, allocated, created⟩ := bind_ok.mp created
      cases result with
      | error failure => simp [throw_ok] at created
      | ok page =>
        obtain ⟨⟩ := pure_ok.mp created
        have small := (sound.traced.fresh _ _ _ allocated).2.1
        obtain ⟨⟨outcome, inner⟩, _, allocated⟩ := bind_ok.mp allocated
        cases outcome with
        | error failure => simp [pure_ok] at allocated
        | ok given =>
          obtain ⟨⟩ := pure_ok.mp allocated
          rw [root, Table.fromPage_page small]
          rfl
    intro block member
    rw [only, mem_singleton] at member
    rw [record, member]
    exact ⟨root_mem_freedPages _ _, rfl⟩

end Destroyed

/-- For both mappers, destroying the tables gives all of them back only if no page was ever mapped. -/
theorem destroy_frees_all_iff_unmapped {A : Type} [PageAllocator A] {inUse : A → Nat → Prop}
    (sound : SoundAllocator inUse) : FreesAllIff Sv39Mapper A ∧ FreesAllIff Arm64Mapper A :=
  ⟨freesAllIff sound Sv39Mapper, freesAllIff sound Arm64Mapper⟩

theorem freeAll_bump (alloc : Traced Bump) (pages : List Nat) : ∃ alloc', freeAll alloc pages = .ok alloc' := by
  induction pages generalizing alloc with
  | nil => exact ⟨alloc, rfl⟩
  | cons page pages ih => exact ih _

theorem destroy_returns {M E : Type} [Entry E] [Mapper M E] [Mmu E] [LawfulEntry E] [LawfulMapper M] {self : M}
    {calls : List MapCall} {alloc : Bump} {mem : Memory} {begun built : Machine (Traced Bump)} {frame : Nat}
    (new : newWithAllocator ⟨Traced.start alloc, mem⟩ = .ok (self, begun))
    (run : calls.foldlM (MapCall.run self) begun = .ok built)
    (rooted : (rootTable self).pageNumber = .ok frame) :
    ∃ destroyed, destroyWithAllocator self built = .ok destroyed := by
  have represents := (Represents.new Bump.sound.traced new).runs Bump.sound.traced run
  obtain ⟨after, freed⟩ := freeAll_bump built.alloc (freedPages M built.mem (height M) (rootTable self).page)
  rw [destroy_eq represents.tree rooted, freed]
  exact ⟨_, rfl⟩

theorem destroy_frees_bare_root :
    ∃ self begun destroyed,
      newWithAllocator (M := Sv39Mapper) ⟨Traced.start Bump.start, fun _ _ => 0⟩ = .ok (self, begun) ∧
      destroyWithAllocator self begun = .ok destroyed ∧
      begun.alloc.allocated = [(pageOffset, 1)] ∧ (pageOffset, 1) ∈ destroyed.alloc.freed := by
  have played : ∃ self begun frame,
      newWithAllocator (M := Sv39Mapper) ⟨Traced.start Bump.start, fun _ _ => 0⟩ = .ok (self, begun) ∧
      (rootTable self).pageNumber = .ok frame ∧ begun.alloc.allocated = [(pageOffset, 1)] :=
    ⟨_, _, _, rfl, rfl, rfl⟩
  obtain ⟨self, begun, frame, new, rooted, logged⟩ := played
  have nothing : [].foldlM (MapCall.run self) begun = .ok begun := rfl
  obtain ⟨destroyed, ended⟩ := destroy_returns new nothing rooted
  have complete := ((destroy_frees_all_iff_unmapped Bump.sound).1 self [] _ _ begun begun destroyed frame new rfl rooted
    ended).mpr (by simp)
  exact ⟨self, begun, destroyed, new, ended, logged, complete _ (by simp [logged])⟩

/-- One mapped page is enough to lose a table: three pages go to the tables and two come back. -/
theorem destroy_leaks_table :
    ∃ self begun built destroyed,
      newWithAllocator (M := Sv39Mapper) ⟨Traced.start Bump.start, fun _ _ => 0⟩ = .ok (self, begun) ∧
      map4k self begun 0 0 [.read] = .ok built ∧ destroyWithAllocator self built = .ok destroyed ∧
      ∃ block ∈ built.alloc.allocated, block ∉ destroyed.alloc.freed := by
  have played : ∃ self begun built frame,
      newWithAllocator (M := Sv39Mapper) ⟨Traced.start Bump.start, fun _ _ => 0⟩ = .ok (self, begun) ∧
      map4k self begun 0 0 [.read] = .ok built ∧ (rootTable self).pageNumber = .ok frame :=
    ⟨_, _, _, _, rfl, rfl, rfl⟩
  obtain ⟨self, begun, built, frame, new, mapped, rooted⟩ := played
  have run : [MapCall.map4k 0 0 [.read]].foldlM (MapCall.run self) begun = .ok built := by
    rw [foldlM_cons, MapCall.run, mapped]
    rfl
  obtain ⟨destroyed, ended⟩ := destroy_returns new run rooted
  have record := destroyed_record Bump.sound new run rooted ended
  have represents := (Represents.new Bump.sound.traced new).runs Bump.sound.traced run
  obtain ⟨last, present⟩ := represents.present ⟨0, 0, [.read]⟩ (by simp [MapCall.mappings])
  obtain ⟨page, reached, leaked⟩ := exists_leaked represents.tree present
  exact ⟨self, begun, built, destroyed, new, mapped, ended, (page, 1), (represents.tree.housed page reached).1.2,
    fun freed => leaked ((record _).mp freed).1⟩

end Kernel31.Paging
