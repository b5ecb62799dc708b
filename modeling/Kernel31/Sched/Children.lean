import Kernel31.Sched.Ownership
import Kernel31.Sched.ForkPages
import Kernel31.Sched.Vruntime

namespace Kernel31.Sched

open Page Paging Elf Kernel31.Task Checked Radix Function Relation Scheduler List LawfulSpace
open Mapper (rootTable)
open AddressSpace (kernelReads userReads)

def SamePage (mem mem' : Memory) (frame frame' : Nat) : Prop :=
  ∀ i, i < pageSize → loadByte mem' (virtPage frame' * pageSize + i) = loadByte mem (virtPage frame * pageSize + i)

def KernelSees {M E : Type} [Entry E] [Mapper M E] [Mmu E] [AddressSpace E] (kernelPt : M) (mem : Memory)
    (info : PageAllocInfo) : Prop :=
  ∀ root, (rootTable kernelPt).pageNumber = .ok root → ∀ i, i < info.vPages →
    translate M kernelReads mem root ((info.vPage + i) % 2 ^ 52) = some (info.pPage + i)

/-- The child has every user page of the parent with the same bytes; its writable blocks that are not executable are
    its own. -/
structure Inherits {A M E C F : Type} [Entry E] [Mapper M E] [Mmu E] [AddressSpace E] (before after : Kernel A M C F)
    (parent child : Task M C F) : Prop where
  contents : ∀ root root', (rootTable parent.page).pageNumber = .ok root →
    (rootTable child.page).pageNumber = .ok root' →
    ∀ vpn frame, translate M userReads before.machine.mem root vpn = some frame →
      ∃ frame', translate M userReads after.machine.mem root' vpn = some frame' ∧
        SamePage before.machine.mem after.machine.mem frame frame'
  writable : ∀ entry ∈ child.pageAllocs, Flags.write ∈ entry.info.flags →
    ((∀ own ∈ parent.pageAllocs, entry.info.Apart own.info) ↔ Flags.exec ∉ entry.info.flags)

section Pages

variable {A M E : Type} [Entry E] [Mapper M E] [Mmu E] [AddressSpace E] {inUse : A → Nat → Prop}
variable {kernelPt page : M} {machine first last : Machine A} {entry child : PageAlloc}

def SameMapping (mem mem' : Memory) (mapping mapping' : Mapping) : Prop :=
  mapping.vpn = mapping'.vpn ∧ mapping.mode = mapping'.mode ∧
    (PageACL.user ∈ mapping.mode → SamePage mem mem' mapping.ppn mapping'.ppn)

variable {mem mem' : Memory} {mappings' : List Mapping} {vpn i frame : Nat} {mapping : Mapping}

theorem latest_same {mappings : List Mapping} (same : List.Forall₂ (SameMapping mem mem') mappings mappings')
    {levels : Nat} (found : latest levels mappings vpn = some mapping) :
    ∃ mapping', latest levels mappings' vpn = some mapping' ∧ SameMapping mem mem' mapping mapping' := by
  have reversed : List.Forall₂ (SameMapping mem mem') mappings.reverse mappings'.reverse := rel_reverse same
  exact Lists.find?_forall₂ reversed (fun a b same => by rw [same.1]) found

theorem samePage_kept (kept : Extends inUse machine last)
    (used : ∀ page, entry.info.holds page → inUse machine.alloc page) (below : i < entry.info.vPages) :
    last.mem (virtPage (entry.info.pPage + i)) = machine.mem (virtPage (entry.info.pPage + i)) := by
  have enough := Buddy.le_nextPowerOfTwo entry.info.vPages
  refine kept.kept _ (used _ ?_)
  rw [PageAllocInfo.holds, virtPage, virtPage]
  omega

theorem samePage_of_eq {frame' : Nat} (same : mem' (virtPage frame') = mem (virtPage frame)) :
    SamePage mem mem' frame frame' := by
  intro i below
  rw [loadByte_page mem' below, loadByte_page mem below, same]

theorem kernelByte_seen (tree : Tree M machine.mem (rootTable kernelPt).page (inUse machine.alloc))
    (sees : KernelSees kernelPt machine.mem entry.info)
    (used : ∀ page, entry.info.holds page → inUse machine.alloc page) (kept : Extends inUse machine last)
    {j : Nat} (below : i < entry.info.vPages) (small : j < pageSize) {byte : UInt8}
    (read : kernelByte kernelPt last.mem ((entry.info.vPage * pageSize + (i * pageSize + j)) % 2 ^ 64) = .ok byte) :
    byte = loadByte machine.mem (virtPage (entry.info.pPage + i) * pageSize + j) := by
  obtain ⟨root, rooted, read⟩ := bind_ok.mp read
  have number : (entry.info.vPage * pageSize + (i * pageSize + j)) % 2 ^ 64 / pageSize = (entry.info.vPage + i) % 2 ^ 52 := by
    simp only [pageSize_eq] at small ⊢
    omega
  have offset : (entry.info.vPage * pageSize + (i * pageSize + j)) % 2 ^ 64 % pageSize = j := by
    simp only [pageSize_eq] at small ⊢
    omega
  rw [number, offset, (kept.sameTables tree).translate tree rooted, sees root rooted i below] at read
  rw [← pure_ok.mp read, loadByte_page _ small, loadByte_page _ small, samePage_kept kept used below]

theorem Inherited.mappings (tree : Tree M machine.mem (rootTable kernelPt).page (inUse machine.alloc))
    (sees : ¬ Shared entry.info → KernelSees kernelPt machine.mem entry.info)
    (used : ∀ page, entry.info.holds page → inUse machine.alloc page)
    (kept : ∀ middle, Builds M inUse (rootTable page).page first middle → Extends inUse machine middle)
    (whole : Builds M inUse (rootTable page).page first last)
    (inherited : Inherited inUse kernelPt page first last entry child) :
    List.Forall₂ (SameMapping machine.mem last.mem) (allocMappings entry.info) (allocMappings child.info) := by
  unfold allocMappings MapCall.mappings
  dsimp only
  rw [inherited.vPages, forall₂_map_left_iff, forall₂_map_right_iff, forall₂_same]
  intro i member
  have below := mem_range.mp member
  refine ⟨by rw [inherited.vPage], by rw [inherited.flags], fun _ => ?_⟩
  by_cases shared : Shared entry.info
  · obtain rfl := inherited.shared shared
    exact samePage_of_eq (samePage_kept (kept last whole) used below)
  · intro j small
    have inside : i * pageSize + j < entry.info.vPages * pageSize := by
      simp only [pageSize_eq] at small ⊢
      omega
    obtain ⟨middle, built, read⟩ := inherited.copied shared _ inside
    have byte := kernelByte_seen tree (sees shared) used (kept middle built) below small read
    have place : virtPage (child.info.pPage + i) * pageSize + j = virtPage child.info.pPage * pageSize + (i * pageSize + j) := by
      rw [virtPage, virtPage]
      ring
    rw [← byte, place]

theorem user_notMem_base {layout : KernelLayout} {trapStack : Nat}
    (member : mapping ∈ baseMappings layout trapStack) : PageACL.user ∉ mapping.mode := by
  have call {vpn ppn pages : Nat} {mode : List PageACL} (kernel : PageACL.user ∉ mode)
      (member : mapping ∈ (MapCall.mapWithAllocator vpn ppn pages mode).mappings) : PageACL.user ∉ mapping.mode := by
    obtain ⟨_, _, rfl⟩ := mem_map.mp member
    exact kernel
  simp only [baseMappings, kernelMappings, mem_append] at member
  rcases member with (((rodata | data) | bss) | text) | trap
  · exact call (by decide) rodata
  · exact call (by decide) data
  · exact call (by decide) bss
  · exact call (by decide) text
  · exact call (by decide) trap

theorem sameMapping_append {entries children : List PageAlloc} (layout : KernelLayout) (trapStack : Nat)
    (same : List.Forall₂ (fun entry child => List.Forall₂ (SameMapping mem mem') (allocMappings entry.info)
      (allocMappings child.info)) entries children) :
    List.Forall₂ (SameMapping mem mem')
      (baseMappings layout trapStack ++ (entries.map PageAlloc.info).flatMap allocMappings)
      (baseMappings layout trapStack ++ (children.map PageAlloc.info).flatMap allocMappings) := by
  refine rel_append (forall₂_same.mpr fun mapping member => ?_) ?_
  · exact ⟨rfl, rfl, fun user => absurd user (user_notMem_base member)⟩
  · rw [flatMap_map, flatMap_map]
    exact rel_flatMap same fun _ _ related => related

theorem translate_same [LawfulSpace E] {page' : M} {machine' : Machine A} {mappings : List Mapping}
    (mapped : Mapped inUse page machine mappings) (mapped' : Mapped inUse page' machine' mappings')
    (same : List.Forall₂ (SameMapping machine.mem machine'.mem) mappings mappings') {root root' : Nat}
    (rooted : (rootTable page).pageNumber = .ok root) (rooted' : (rootTable page').pageNumber = .ok root')
    (reached : translate M userReads machine.mem root vpn = some frame) :
    ∃ frame', translate M userReads machine'.mem root' vpn = some frame' ∧
      SamePage machine.mem machine'.mem frame frame' := by
  rw [mapped.translate_eq rooted] at reached
  rw [mapped'.translate_eq rooted']
  split at reached
  · rename_i canonical
    obtain ⟨mapping, found, reached⟩ := Option.bind_eq_some_iff.mp reached
    obtain ⟨mapping', found', _, mode, bytes⟩ := latest_same same found
    split at reached
    · rename_i allowed
      obtain rfl := Option.some.inj reached
      have listed := mem_reverse.mp (mem_of_find?_eq_some found)
      rw [userReads_granted _ (mapped.fits mapping listed).2] at allowed
      refine ⟨mapping'.ppn, ?_, bytes (contains_iff_mem.mp allowed)⟩
      rw [if_pos canonical, found', Option.bind_some, ← mode,
        userReads_granted _ (mapped.fits mapping listed).2, if_pos allowed]
    · cases reached
  · cases reached

end Pages

section Fork

variable {A M E C F : Type} [Entry E] [Mapper M E] [PageAllocator A] [Mmu E] [AddressSpace E] [LawfulEntry E]
  [LawfulMapper M] [LawfulSpace E] {inUse : A → Nat → Prop} {self after : Kernel A M C F} {parent : Task M C F}

theorem Kernel.Housed.inherits (sound : SoundFrees inUse) (wide : 2 ^ 27 ≤ 2 ^ Mmu.fieldBits E)
    (housed : self.Housed inUse)
    (tree : Tree M self.machine.mem (rootTable self.kernelPt).page (inUse self.machine.alloc)) {pid : Nat}
    (run : self.fork = .ok (pid, after)) (live : self.scheduler.tasks self.scheduler.currentPid = some parent)
    (some : parent.pageAllocs ≠ [])
    (sees : ∀ entry ∈ parent.pageAllocs, ¬ Shared entry.info → KernelSees self.kernelPt self.machine.mem entry.info) :
    ∃ child, after.scheduler.tasks pid = .some child ∧ Inherits self after parent child := by
  obtain ⟨rfl, current, page, forked, forks, ⟨least, adds⟩, same⟩ := fork_ok housed.fresh run
  obtain rfl : parent = current := Option.mem_unique live forks.parent
  obtain ⟨begun, start, children, new, base, result⟩ := forks.forked sound wide housed
  have found := spaces_of_live live
  have held {entry : PageAlloc} (member : entry ∈ parent.pageAllocs) : Held self.scheduler.spaces entry :=
    ⟨_, _, found, member⟩
  have allocs : forked.pageAllocs = children := by rw [result.allocs, nil_append]
  have mapped := housed.spaces.mapped _ _ found some
  have kept (middle : Machine A) (built : Builds M inUse (rootTable page).page start middle) :
      Extends inUse self.machine middle := (Builds.extends sound.toSoundAllocator new (base.builds.trans built)).1
  have linked : List.Forall₂ (fun entry child => entry ∈ parent.pageAllocs ∧
      Inherited inUse self.kernelPt page start forked.machine entry child) parent.pageAllocs children := by
    obtain ⟨length, each⟩ := forall₂_iff_zip.mp result.inherited
    exact forall₂_iff_zip.mpr ⟨length, fun member => ⟨(of_mem_zip member).1, each member⟩⟩
  refine ⟨parent.child (self.scheduler.maxPid + 1) page parent.context forked.pageAllocs, ?_, ?_, ?_⟩
  · rw [adds.result]
    exact update_self ..
  · intro root root' rooted rooted' vpn frame reached
    rw [same.machine]
    refine translate_same mapped result.maps.mapped (sameMapping_append _ _ (linked.imp fun entry child both => ?_)) rooted
      rooted' reached
    obtain ⟨member, inherited⟩ := both
    exact inherited.mappings tree (sees entry member) (housed.spaces.used entry (held member)) kept result.maps.builds
  · intro entry member write
    have listed : entry ∈ children := allocs ▸ member
    constructor
    · intro apart exec
      obtain ⟨own, mine, _, inherited⟩ := Lists.exists_of_forall₂ linked.flip listed
      obtain rfl := inherited.shared (inherited.shared_iff.mp (Or.inl exec))
      have some : 0 < Buddy.nextPowerOfTwo entry.info.vPages := Nat.two_pow_pos _
      have first : entry.info.holds (virtPage entry.info.pPage) := ⟨le_rfl, by omega⟩
      exact apart entry mine _ first first
    · intro exec own mine page inside inside'
      have fresh : entry ∈ copies children := mem_filter.mpr ⟨listed, by simp [Shared, exec, write]⟩
      refine (result.blocks.holds _ (mem_map_of_mem fresh)).fresh page inside ?_
      exact (kept start (Builds.refl _ _ _)).used page (housed.spaces.used own (held mine) page inside')

end Fork

section KernelPt

variable {A M E C F : Type} [Entry E] [Mapper M E] [PageAllocator A] [ArchContext C] [Mmu E] [AddressSpace E]
variable {self after : Kernel A M C F}

def Kernel.KeepsTable (self : Kernel A M C F) : Prop :=
  ∀ space, self.scheduler.spaces kernelPid = some space → space.page = self.kernelPt

inductive Kernel.Brings (self : Kernel A M C F) : Op C F → Space M → Prop where
  | create {elfBytes : List UInt8} {beyond : Nat → UInt8} {image : Image M} {machine : Machine A}
      (run : createImage self.layout self.scheduler.trapStack elfBytes beyond self.machine = .ok (.ok (image, machine))) :
      Brings self (.create elfBytes beyond) ⟨image.page, (self.arcs.newAll image.pageAllocs).1⟩
  | fork {current : Task M C F} {page : M} {forked : Forking A} (forks : self.Forks current page forked) :
      Brings self .fork ⟨page, forked.pageAllocs⟩
  | kernelFork (page : M) : Brings self .kernelFork ⟨page, []⟩

theorem Step.spaces_cases {op : Op C F} {issued : Option Nat}
    (fresh : self.scheduler.tasks (self.scheduler.maxPid + 1) = none) (step : Step self op issued after) :
    after.kernelPt = self.kernelPt ∧
      (after.scheduler.spaces = self.scheduler.spaces ∨
        (∃ space, self.Brings op space ∧
          after.scheduler.spaces = update self.scheduler.spaces (self.scheduler.maxPid + 1) (some space)) ∨
        ∃ pid, after.scheduler.spaces = update self.scheduler.spaces pid none) := by
  cases step with
  | create run =>
    obtain ⟨_, image, machine, create, ⟨current, least, adds⟩, same⟩ := Kernel.createFromElf_ok fresh run
    exact ⟨same.kernelPt, Or.inr (Or.inl ⟨_, .create create, adds.spaces⟩)⟩
  | refuse run =>
    obtain rfl := Kernel.createFromElf_error run
    exact ⟨rfl, Or.inl rfl⟩
  | fork run =>
    obtain ⟨_, current, page, forked, forks, ⟨least, adds⟩, same⟩ := Kernel.fork_ok fresh run
    exact ⟨same.kernelPt, Or.inr (Or.inl ⟨_, .fork forks, adds.spaces⟩)⟩
  | kernelFork run =>
    obtain ⟨current, page, machine, _, _, same, scheduler⟩ := Kernel.kernelFork_ok fresh run
    refine ⟨same.kernelPt, Or.inr (Or.inl ⟨⟨page, []⟩, .kernelFork page, ?_⟩)⟩
    rw [scheduler]
    exact spaces_update _ _ _
  | schedule run => exact ⟨rfl, Or.inl (schedule_spaces run).spaces⟩
  | @switchTask clock fuel ctx written next scheduler run =>
    obtain ⟨current, live, _, schedule⟩ := Scheduler.switchTask_ok run
    have saved : (self.scheduler.setTask self.scheduler.currentPid { current with context := ctx }).spaces =
        self.scheduler.spaces := spaces_of_update live rfl rfl rfl
    exact ⟨rfl, Or.inl ((schedule_spaces schedule).spaces.trans saved)⟩
  | @kill _ _ _ pid run =>
    obtain ⟨forgotten, next, scheduler, forget, schedule, rfl⟩ := Kernel.kill_ok run
    obtain ⟨same, _, _, kernelPt⟩ := Kernel.forget_ok forget
    refine ⟨kernelPt, Or.inr (Or.inr ⟨pid, (schedule_spaces schedule).spaces.trans ?_⟩)⟩
    rw [same, spaces_forgotten]
  | @renice pid nice task live =>
    exact ⟨rfl, Or.inl (spaces_of_update live rfl (Task.renice_space _ _).1 (Task.renice_space _ _).2)⟩
  | @touch pid context nextSchedule fds task live => exact ⟨rfl, Or.inl (spaces_of_update live rfl rfl rfl)⟩
  | copyToUser live run => exact ⟨rfl, Or.inl rfl⟩

theorem Step.keepsTable {op : Op C F} {issued : Option Nat}
    (fresh : self.scheduler.tasks (self.scheduler.maxPid + 1) = none) (keeps : self.KeepsTable)
    (step : Step self op issued after) : after.KeepsTable := by
  intro space live
  obtain ⟨kernelPt, same | ⟨new, _, spaces⟩ | ⟨pid, spaces⟩⟩ := step.spaces_cases fresh
  · rw [same] at live
    rw [kernelPt]
    exact keeps space live
  · rw [spaces, update_of_ne (by rw [kernelPid]; omega)] at live
    rw [kernelPt]
    exact keeps space live
  · rw [spaces] at live
    rw [kernelPt]
    exact keeps space (live_leave live).2

theorem keepsTable_of_run [LawfulEntry E] [LawfulMapper M] {inUse : A → Nat → Prop} {layout : KernelLayout} {kernelPt : M}
    {machine : Machine A} {start : Kernel A M C F} (sound : SoundFrees inUse) (wide : 2 ^ 27 ≤ 2 ^ Mmu.fieldBits E)
    (tree : Tree M machine.mem (rootTable kernelPt).page (inUse machine.alloc))
    (init : taskInit layout kernelPt machine = .ok start) (run : ReflTransGen FittingStep start self) :
    self.Housed inUse ∧ self.KeepsTable := by
  have housed := taskInit_housed sound.toSoundBlocks tree init
  refine Runs.preserved (fun kernel : Kernel A M C F => kernel.Housed inUse ∧ kernel.KeepsTable) ?_ ⟨housed, ?_⟩ run
  · rintro before after ⟨housed, keeps⟩ ⟨op, issued, fits, step⟩
    exact ⟨step.housed sound wide housed fits, step.keepsTable housed.fresh keeps⟩
  · intro space live
    obtain ⟨task, found, rfl⟩ := Option.map_eq_some_iff.mp live
    obtain ⟨_, rfl⟩ := taskInit_only init found
    obtain ⟨_, _, _, _, _, same, _⟩ := taskInit_ok init
    rw [same]
    rfl

end KernelPt

/-- As long as the kernel task lives and the kernel page table maps the writable blocks of the parent at the
    addresses of their segments. -/
def ForkInherits (M C F : Type) {E A : Type} [Entry E] [Mapper M E] [PageAllocator A] [ArchContext C] [Mmu E]
    [AddressSpace E] (inUse : A → Nat → Prop) : Prop :=
  ∀ (layout : KernelLayout) (kernelPt : M) (machine : Machine A) (start self after : Kernel A M C F) (pid : Nat)
    (parent kernel : Task M C F),
    Tree M machine.mem (rootTable kernelPt).page (inUse machine.alloc) →
    taskInit layout kernelPt machine = .ok start → ReflTransGen FittingStep start self →
    self.scheduler.tasks kernelPid = some kernel → self.scheduler.tasks self.scheduler.currentPid = some parent →
    parent.pageAllocs ≠ [] →
    (∀ entry ∈ parent.pageAllocs, ¬ Shared entry.info → KernelSees self.kernelPt self.machine.mem entry.info) →
    self.fork = .ok (pid, after) → ∃ child, after.scheduler.tasks pid = some child ∧ Inherits self after parent child

theorem ForkInherits.of_sound {A M E C F : Type} [Entry E] [Mapper M E] [PageAllocator A] [ArchContext C] [Mmu E]
    [AddressSpace E] [LawfulEntry E] [LawfulMapper M] [LawfulSpace E] {inUse : A → Nat → Prop} (sound : SoundFrees inUse)
    (wide : 2 ^ 27 ≤ 2 ^ Mmu.fieldBits E) : ForkInherits M C F inUse := by
  intro layout kernelPt machine start self after pid parent kernel tree init run kernelLives live some sees forked
  obtain ⟨housed, keeps⟩ := keepsTable_of_run sound wide tree init run
  have found := spaces_of_live kernelLives
  have table : Tree M self.machine.mem (rootTable kernel.page).page (inUse self.machine.alloc) :=
    housed.spaces.tree kernelPid ⟨kernel.page, kernel.pageAllocs⟩ found
  have same : kernel.page = self.kernelPt := keeps _ found
  rw [same] at table
  exact housed.inherits sound wide table forked live some sees

/-- For both mappers, a child has the pages of its parent if the kernel page table shows them to `fork`. -/
theorem child_has_pages_of_parent {A C F : Type} [PageAllocator A] [ArchContext C] {inUse : A → Nat → Prop}
    (sound : SoundFrees inUse) : ForkInherits Sv39Mapper C F inUse ∧ ForkInherits Arm64Mapper C F inUse :=
  ⟨ForkInherits.of_sound sound (by decide), ForkInherits.of_sound sound (by decide)⟩

def mappedBoot (calls : List MapCall) : Exec (Kernel Bump Sv39Mapper Trap.Riscv64.Context Empty) := do
  let (kernelPt, machine) ← Mapper.newWithAllocator bareMachine
  let machine ← calls.foldlM (MapCall.run kernelPt) machine
  taskInit bareLayout kernelPt machine

theorem mappedBoot_ok {calls : List MapCall} {start : Kernel Bump Sv39Mapper Trap.Riscv64.Context Empty}
    (run : mappedBoot calls = .ok start) :
    ∃ (kernelPt : Sv39Mapper) (machine : Machine Bump),
      Tree Sv39Mapper machine.mem (rootTable kernelPt).page (· ∈ machine.alloc.used) ∧
      taskInit bareLayout kernelPt machine = .ok start := by
  simp only [mappedBoot, bind_ok, Prod.exists] at run
  obtain ⟨kernelPt, begun, new, machine, mapped, init⟩ := run
  have represents := (Represents.new Bump.sound new).runs Bump.sound mapped
  exact ⟨kernelPt, machine, represents.tree, init⟩

def stackCall (page : Nat) : MapCall := .mapWithAllocator (virtPage page) page 16 [.read, .write]

structure CreatedAndForked (calls : List MapCall) (elfBytes : List UInt8)
    (start created after : Kernel Bump Sv39Mapper Trap.Riscv64.Context Empty)
    (first second : Scheduler Sv39Mapper Trap.Riscv64.Context Empty) (parent kernel : Task Sv39Mapper Trap.Riscv64.Context Empty) :
    Prop where
  boot : mappedBoot calls = .ok start
  create : start.createFromElf elfBytes (fun _ => 0) = .ok (.ok 1, created)
  schedule : ∃ next, created.scheduler.schedule id 1 = .ok (next, first)
  again : ∃ next, first.schedule id 1 = .ok (next, second)
  kernel : second.tasks kernelPid = some kernel
  current : second.currentPid = 1
  parent : second.tasks 1 = some parent
  fork : { created with scheduler := second }.fork = .ok (2, after)

def createAndFork (calls : List MapCall) (elfBytes : List UInt8)
    (test : (created after : Kernel Bump Sv39Mapper Trap.Riscv64.Context Empty) →
      Task Sv39Mapper Trap.Riscv64.Context Empty → Bool) : Bool :=
  passes (mappedBoot calls) fun start =>
    passes (start.createFromElf elfBytes (fun _ => 0)) fun (pid, created) =>
      decide (pid.toOption = some 1) && passes (created.scheduler.schedule id 1) fun (_, first) =>
      passes (first.schedule id 1) fun (_, second) =>
        decide (second.currentPid = 1) && (second.tasks kernelPid).isSome && (second.tasks 1).any fun parent =>
        passes ({ created with scheduler := second }.forkBy copyPages) fun (pid, after) =>
          decide (pid = 2) && test created after parent

theorem exists_of_createAndFork {calls : List MapCall} {elfBytes : List UInt8}
    {test : (created after : Kernel Bump Sv39Mapper Trap.Riscv64.Context Empty) →
      Task Sv39Mapper Trap.Riscv64.Context Empty → Bool} (passed : createAndFork calls elfBytes test = true) :
    ∃ start created after first second parent kernel,
      CreatedAndForked calls elfBytes start created after first second parent kernel ∧ test created after parent = true := by
  obtain ⟨start, boot, passed⟩ := exists_of_passes passed
  obtain ⟨⟨pid, created⟩, create, passed⟩ := exists_of_passes passed
  simp only [Bool.and_eq_true, decide_eq_true_eq] at passed
  obtain ⟨issued, passed⟩ := passed
  obtain ⟨⟨next, first⟩, schedule, passed⟩ := exists_of_passes passed
  obtain ⟨⟨next', second⟩, again, passed⟩ := exists_of_passes passed
  simp only [Bool.and_eq_true, decide_eq_true_eq] at passed
  obtain ⟨⟨current, kernel⟩, passed⟩ := passed
  obtain ⟨kernel, kernelLives⟩ := Option.isSome_iff_exists.mp kernel
  obtain ⟨parent, live, passed⟩ := (Option.any_eq_true _ _).mp passed
  obtain ⟨⟨child, after⟩, forked, passed⟩ := exists_of_passes passed
  simp only [Bool.and_eq_true, decide_eq_true_eq] at passed
  obtain ⟨rfl, passed⟩ := passed
  obtain rfl := toOption_ok.mp issued
  exact ⟨start, created, after, first, second, parent, kernel, ⟨boot, create, ⟨next, schedule⟩, ⟨next', again⟩, kernelLives,
    current, live, Kernel.fork_of_pages forked⟩, passed⟩

section Concrete

variable {calls : List MapCall} {elfBytes : List UInt8} {start created after : Kernel Bump Sv39Mapper Trap.Riscv64.Context Empty}
variable {first second : Scheduler Sv39Mapper Trap.Riscv64.Context Empty}
variable {parent kernel : Task Sv39Mapper Trap.Riscv64.Context Empty}

theorem CreatedAndForked.run (made : CreatedAndForked calls elfBytes start created after first second parent kernel)
    (fits : FitsBlocks elfBytes) :
    ReflTransGen FittingStep start { created with scheduler := second } := by
  obtain ⟨_, schedule⟩ := made.schedule
  obtain ⟨_, again⟩ := made.again
  have creates : FittingStep start created := ⟨.create _ _, some 1, fits, .create made.create⟩
  have schedules : FittingStep created { created with scheduler := first } := ⟨.schedule, none, trivial, .schedule schedule⟩
  have picks : FittingStep { created with scheduler := first } { created with scheduler := second } :=
    ⟨.schedule, none, trivial, .schedule again⟩
  exact ((ReflTransGen.single creates).tail schedules).tail picks

end Concrete

def seesPages (kernelPt : Sv39Mapper) (mem : Memory) (info : PageAllocInfo) : Bool :=
  passes (rootTable kernelPt).pageNumber fun root => (List.range info.vPages).all fun i =>
    translate Sv39Mapper kernelReads mem root ((info.vPage + i) % 2 ^ 52) = some (info.pPage + i)

theorem kernelSees_of_seesPages {kernelPt : Sv39Mapper} {mem : Memory} {info : PageAllocInfo}
    (seen : seesPages kernelPt mem info = true) : KernelSees kernelPt mem info := by
  obtain ⟨root, rooted, seen⟩ := exists_of_passes seen
  intro other again i below
  obtain rfl : root = other := ok_unique rooted again
  simpa using all_eq_true.mp seen i (mem_range.mpr below)

def readOnlyFile : List UInt8 := (oneSegment 4096 16 32).set 68 4

theorem readOnlyFile_fits : FitsBlocks readOnlyFile := by
  have parsed : Elf.parse readOnlyFile =
      .ok (.ok ⟨.systemV, .riscv, .exec, 4096, [⟨.load, [.read], 0, 4096, 4096, 16, 32⟩]⟩) := by
    decide +kernel
  intro elf again
  obtain rfl := Except.ok.inj (ok_unique parsed again)
  exact forall_mem_singleton.mpr (by decide)

theorem read_only_task_forked :
    ∃ start created after first second parent kernel child,
      CreatedAndForked [stackCall 20] readOnlyFile start created after first second parent kernel ∧
      after.scheduler.tasks 2 = some child ∧ Inherits { created with scheduler := second } after parent child := by
  obtain ⟨start, created, after, first, second, parent, kernel, made, passed⟩ := exists_of_createAndFork
    (show createAndFork [stackCall 20] readOnlyFile (fun created _ parent => !parent.pageAllocs.isEmpty &&
      parent.pageAllocs.all fun entry => Shared entry.info || seesPages created.kernelPt created.machine.mem entry.info) =
      true by decide +kernel)
  simp only [Bool.and_eq_true, all_eq_true, Bool.or_eq_true, decide_eq_true_eq] at passed
  obtain ⟨kernelPt, machine, tree, init⟩ := mappedBoot_ok made.boot
  have sees : ∀ entry ∈ parent.pageAllocs, ¬ Shared entry.info →
      KernelSees created.kernelPt created.machine.mem entry.info := fun entry member own =>
    kernelSees_of_seesPages ((passed.2 entry member).resolve_left own)
  obtain ⟨child, live, inherits⟩ := (child_has_pages_of_parent Bump.soundFrees).1 bareLayout kernelPt machine start
    { created with scheduler := second } after 2 parent kernel tree init (made.run readOnlyFile_fits) made.kernel
    (made.current ▸ made.parent) (by simpa using passed.1) sees made.fork
  exact ⟨start, created, after, first, second, parent, kernel, child, made, live, inherits⟩

def dtbCall : MapCall := .mapWithAllocator 0x82200 0x82200 1 [.read]

/-- A writable segment at the address of the device tree: the child gets the device tree instead. -/
theorem forked_segment_replaced :
    ∃ start created after first second parent kernel child root root' frame frame',
      CreatedAndForked [stackCall 22, dtbCall] (oneSegment 0x82200000 16 32) start created after first second parent kernel ∧
      after.scheduler.tasks 2 = some child ∧ (rootTable parent.page).pageNumber = .ok root ∧
      (rootTable child.page).pageNumber = .ok root' ∧
      translate Sv39Mapper userReads created.machine.mem root 0x82200 = some frame ∧
      translate Sv39Mapper userReads after.machine.mem root' 0x82200 = some frame' ∧
      ¬ SamePage created.machine.mem after.machine.mem frame frame' := by
  obtain ⟨start, created, after, first, second, parent, kernel, made, passed⟩ := exists_of_createAndFork
    (show createAndFork [stackCall 22, dtbCall] (oneSegment 0x82200000 16 32) (fun created after parent =>
      (after.scheduler.tasks 2).any fun child =>
      passes (rootTable parent.page).pageNumber fun root =>
      passes (rootTable child.page).pageNumber fun root' =>
      (translate Sv39Mapper userReads created.machine.mem root 0x82200).any fun frame =>
      (translate Sv39Mapper userReads after.machine.mem root' 0x82200).any fun frame' =>
        loadByte after.machine.mem (virtPage frame' * pageSize) ≠ loadByte created.machine.mem (virtPage frame * pageSize)) =
      true by decide +kernel)
  obtain ⟨child, live, passed⟩ := (Option.any_eq_true _ _).mp passed
  obtain ⟨root, rooted, passed⟩ := exists_of_passes passed
  obtain ⟨root', rooted', passed⟩ := exists_of_passes passed
  obtain ⟨frame, reached, passed⟩ := (Option.any_eq_true _ _).mp passed
  obtain ⟨frame', reached', differ⟩ := (Option.any_eq_true _ _).mp passed
  refine ⟨start, created, after, first, second, parent, kernel, child, root, root', frame, frame', made, live, rooted,
    rooted', reached, reached', fun same => ?_⟩
  have byte := same 0 (by decide)
  rw [Nat.add_zero, Nat.add_zero] at byte
  exact of_decide_eq_true differ byte

end Kernel31.Sched
