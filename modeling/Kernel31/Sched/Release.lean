import Kernel31.Sched.Ledger
import Kernel31.Sched.Vruntime

namespace Kernel31.Sched

open Page Paging Elf Kernel31.Task Checked Radix Relation List Mapper

def Returned {A M C F : Type} (before after : Kernel (Traced A) M C F) (info : PageAllocInfo)
    (calls : List (Nat × Nat)) : Prop :=
  ∃ given, after.machine.alloc.freed = given ++ before.machine.alloc.freed ∧ given.filter (Touches info) = calls

section Lifetime

variable {M E A C F : Type} [Entry E] [Mapper M E] [PageAllocator A] [ArchContext C] [Mmu E] [AddressSpace E]

def Recorded (start self : Kernel (Traced A) M C F) (entry : PageAlloc) : Prop :=
  ∃ before after, ReflTransGen FittingStep start before ∧ FittingStep before after ∧
    ReflTransGen FittingStep after self ∧ ¬ Held before.scheduler.spaces entry ∧
    Held after.scheduler.spaces entry ∧
    (∃ taken, after.machine.alloc.allocated = taken ++ before.machine.alloc.allocated ∧ blockCall entry.info ∈ taken) ∧
    after.machine.alloc.freed = before.machine.alloc.freed

/-- A held block is held still and untouched, or it was given back by one `free_pages` in the call that took its
    last holder away. -/
def Released (self later : Kernel (Traced A) M C F) (entry : PageAlloc) : Prop :=
  Held later.scheduler.spaces entry ∧ Returned self later entry.info [] ∨
    ¬ Held later.scheduler.spaces entry ∧ ∃ dropped gone,
      ReflTransGen FittingStep self dropped ∧ FittingStep dropped gone ∧
      ReflTransGen FittingStep gone later ∧ Held dropped.scheduler.spaces entry ∧
      ¬ Held gone.scheduler.spaces entry ∧ Returned self dropped entry.info [] ∧
      Returned dropped gone entry.info [blockCall entry.info]

structure Lifetime (inUse : A → Nat → Prop) (start now : Kernel (Traced A) M C F) (entry : PageAlloc) : Prop where
  recorded : Recorded start now entry
  live : ∀ page, entry.info.holds page → inUse now.machine.alloc.inner page
  later : ∀ later, ReflTransGen FittingStep now later → Released now later entry

/-- Every block that a task holds, in every run in which no ELF file is copied past its blocks. -/
def BlocksFollowed (M C F : Type) {E A : Type} [Entry E] [Mapper M E] [PageAllocator A] [ArchContext C] [Mmu E]
    [AddressSpace E] (inUse : A → Nat → Prop) : Prop :=
  ∀ (layout : KernelLayout) (kernelPt : M) (machine : Machine (Traced A)) (start self : Kernel (Traced A) M C F)
    (entry : PageAlloc),
    Tree M machine.mem (rootTable kernelPt).page (inUse machine.alloc.inner) →
    taskInit layout kernelPt machine = .ok start → ReflTransGen FittingStep start self →
    Held self.scheduler.spaces entry → Lifetime inUse start self entry

variable [LawfulEntry E] [LawfulMapper M] {inUse : Traced A → Nat → Prop} {start self later : Kernel (Traced A) M C F}
variable (sound : SoundFrees inUse) (wide : 2 ^ 27 ≤ 2 ^ Mmu.fieldBits E)
include sound wide

theorem recorded_of_run (housed : start.Housed inUse) (empty : ∀ entry, ¬ Held start.scheduler.spaces entry)
    (run : ReflTransGen FittingStep start self) {entry : PageAlloc} (held : Held self.scheduler.spaces entry) :
    Recorded start self entry := by
  induction run with
  | refl => exact absurd held (empty entry)
  | @tail before after run step ih =>
    by_cases already : Held before.scheduler.spaces entry
    · obtain ⟨first, second, reach, records, rest, unheld, held, allocated⟩ := ih already
      exact ⟨first, second, reach, records, rest.tail step, unheld, held, allocated⟩
    · obtain ⟨op, issued, _, call⟩ := id step
      obtain ⟨taken, given, ledger⟩ := call.ledger sound wide (housed_of_run sound wide housed run)
      obtain ⟨_, logged, rfl⟩ := ledger.new entry already held
      exact ⟨before, after, run, step, .refl, already, held, ⟨taken, ledger.allocated, logged⟩, ledger.freed⟩

theorem released_of_run (housed : self.Housed inUse) {entry : PageAlloc} (held : Held self.scheduler.spaces entry)
    (run : ReflTransGen FittingStep self later) :
    Released self later entry ∧ self.arcs.next ≤ later.arcs.next := by
  induction run with
  | refl => exact ⟨Or.inl ⟨held, [], rfl, rfl⟩, le_rfl⟩
  | @tail before after run step ih =>
    obtain ⟨released, next⟩ := ih
    obtain ⟨op, issued, _, call⟩ := id step
    obtain ⟨taken, given, ledger⟩ := call.ledger sound wide (housed_of_run sound wide housed run)
    refine ⟨?_, next.trans ledger.next⟩
    rcases released with ⟨still, earlier, freed, untouched⟩ |
      ⟨unheld, dropped, gone, reach, drops, rest, last, left, quiet, once⟩
    · by_cases again : Held after.scheduler.spaces entry
      · refine Or.inl ⟨again, given ++ earlier, by rw [ledger.freed, freed, append_assoc], ?_⟩
        rw [filter_append, ledger.kept entry still again, untouched, append_nil]
      · exact Or.inr ⟨again, before, after, run, step, .refl, still, again, ⟨earlier, freed, untouched⟩, given, ledger.freed,
          ledger.gone entry still again⟩
    · refine Or.inr ⟨fun again => ?_, dropped, gone, reach, drops, rest.tail step, last, left, quiet, once⟩
      -- a new entry has an id that was not issued yet
      have above := (ledger.new entry unheld again).1
      have below := housed.spaces.issued entry held
      omega

end Lifetime

theorem BlocksFollowed.of_sound {M E A C F : Type} [Entry E] [Mapper M E] [PageAllocator A] [ArchContext C] [Mmu E]
    [AddressSpace E] [LawfulEntry E] [LawfulMapper M] {inUse : A → Nat → Prop} (sound : SoundFrees inUse)
    (wide : 2 ^ 27 ≤ 2 ^ Mmu.fieldBits E) : BlocksFollowed M C F inUse := by
  intro layout kernelPt machine start self entry tree init run held
  have traced := traced_soundFrees sound
  have housed := taskInit_housed traced.toSoundBlocks tree init
  have reached := housed_of_run traced wide housed run
  refine ⟨recorded_of_run traced wide housed ?_ run held, fun page inside => reached.spaces.used entry held page inside,
    fun later rest => (released_of_run traced wide reached held rest).1⟩
  rintro other ⟨pid, space, live, member⟩
  obtain ⟨task, found, rfl⟩ := Option.map_eq_some_iff.mp live
  obtain ⟨_, rfl⟩ := taskInit_only init found
  exact not_mem_nil member

/-- For both mappers, every block is given back exactly once, when its last holder is dropped. -/
theorem blocks_freed_with_last_holder {A C F : Type} [PageAllocator A] [ArchContext C] {inUse : A → Nat → Prop}
    (sound : SoundFrees inUse) : BlocksFollowed Sv39Mapper C F inUse ∧ BlocksFollowed Arm64Mapper C F inUse :=
  ⟨BlocksFollowed.of_sound sound (by decide), BlocksFollowed.of_sound sound (by decide)⟩

def tracedMachine : Machine (Traced Bump) := ⟨Traced.start Bump.start, fun _ _ => 0⟩

def segmentEntry : PageAlloc := ⟨1, ⟨1, 36, 1, [.write, .read]⟩⟩

structure CreatedAndKilled (elfBytes : List UInt8) (calls : List (Nat × Nat)) (kernelPt : Sv39Mapper)
    (machine : Machine (Traced Bump)) (start created killed : Kernel (Traced Bump) Sv39Mapper Trap.Riscv64.Context Empty) :
    Prop where
  new : newWithAllocator tracedMachine = .ok (kernelPt, machine)
  init : taskInit bareLayout kernelPt machine = .ok start
  create : start.createFromElf elfBytes (fun _ => 0) = .ok (.ok 1, created)
  kill : created.kill id 1 1 = .ok killed
  held : Held created.scheduler.spaces segmentEntry
  returned : Returned created killed segmentEntry.info calls

def createAndKill (elfBytes : List UInt8) (calls : List (Nat × Nat)) : Bool :=
  passes (newWithAllocator (M := Sv39Mapper) tracedMachine) fun (kernelPt, machine) =>
    passes (taskInit (C := Trap.Riscv64.Context) (F := Empty) bareLayout kernelPt machine) fun start =>
    passes (start.createFromElf elfBytes (fun _ => 0)) fun (pid, created) =>
      decide (pid.toOption = some 1) && decide (created.machine.alloc.freed = []) &&
      ((created.scheduler.tasks 1).any fun task => decide (segmentEntry ∈ task.pageAllocs)) &&
      passes (created.kill id 1 1) fun killed =>
        decide (killed.machine.alloc.freed.filter (Touches segmentEntry.info) = calls)

theorem exists_of_createAndKill {elfBytes : List UInt8} {calls : List (Nat × Nat)}
    (passed : createAndKill elfBytes calls = true) :
    ∃ kernelPt machine start created killed, CreatedAndKilled elfBytes calls kernelPt machine start created killed := by
  obtain ⟨⟨kernelPt, machine⟩, new, passed⟩ := exists_of_passes passed
  obtain ⟨start, init, passed⟩ := exists_of_passes passed
  obtain ⟨⟨pid, created⟩, create, passed⟩ := exists_of_passes passed
  simp only [Bool.and_eq_true, decide_eq_true_eq] at passed
  obtain ⟨⟨⟨issued, unfreed⟩, recorded⟩, passed⟩ := passed
  obtain ⟨killed, kill, touching⟩ := exists_of_passes passed
  obtain ⟨task, live, member⟩ := (Option.any_eq_true _ _).mp recorded
  obtain rfl := toOption_ok.mp issued
  have found := Scheduler.spaces_of_live live
  refine ⟨kernelPt, machine, start, created, killed, new, init, create, kill,
    ⟨1, _, found, of_decide_eq_true member⟩, killed.machine.alloc.freed, ?_, of_decide_eq_true touching⟩
  rw [unfreed, append_nil]

theorem Returned.unique {A M C F : Type} {before after : Kernel (Traced A) M C F} {info : PageAllocInfo}
    {calls others : List (Nat × Nat)} (returned : Returned before after info calls)
    (again : Returned before after info others) : calls = others := by
  obtain ⟨given, freed, rfl⟩ := returned
  obtain ⟨given', freed', rfl⟩ := again
  rw [append_cancel_right (freed.symm.trans freed')]

theorem killed_task_frees_block :
    ∃ kernelPt machine start created killed,
      CreatedAndKilled (oneSegment 4096 16 32) [(virtPage 36, 1)] kernelPt machine start created killed ∧
      Lifetime (fun (alloc : Bump) page => page ∈ alloc.used) start created segmentEntry ∧
      ¬ Held killed.scheduler.spaces segmentEntry := by
  obtain ⟨kernelPt, machine, start, created, killed, run⟩ :=
    exists_of_createAndKill (show createAndKill (oneSegment 4096 16 32) [(virtPage 36, 1)] = true by decide +kernel)
  have tree := (Represents.new (traced_soundFrees Bump.soundFrees).toSoundAllocator run.new).tree
  have fits : FitsBlocks (oneSegment 4096 16 32) := by
    intro elf parsed
    obtain rfl := Except.ok.inj (ok_unique oneSegment_parsed parsed)
    exact forall_mem_singleton.mpr (by decide)
  have creates : FittingStep start created := ⟨.create _ _, some 1, fits, .create run.create⟩
  have kills : FittingStep created killed := ⟨.kill 1, none, trivial, .kill run.kill⟩
  have life := (blocks_freed_with_last_holder Bump.soundFrees).1 bareLayout kernelPt machine start created segmentEntry
    tree run.init (.single creates) run.held
  refine ⟨kernelPt, machine, start, created, killed, run, life, ?_⟩
  rcases life.later killed (.single kills) with ⟨_, untouched⟩ | ⟨left, _⟩
  · exact absurd (run.returned.unique untouched) (by simp)
  · exact left

/-- The end of a segment goes to the table behind its block; with an entry there for the block,
    `destroy_with_allocator` frees it, too. -/
theorem block_freed_twice :
    ∃ kernelPt machine start created killed,
      CreatedAndKilled (((oneSegment 0x1ff8 16 16).set 8 0x01).set 9 0x90) [(virtPage 36, 1), (virtPage 36, 1)] kernelPt
        machine start created killed :=
  exists_of_createAndKill (by decide +kernel)

end Kernel31.Sched
