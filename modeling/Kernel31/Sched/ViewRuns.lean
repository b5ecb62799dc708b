import Kernel31.Sched.Views

namespace Kernel31.Sched

open Page Paging Elf Kernel31.Task Checked Radix List Mapper Function Scheduler AddressSpace

def LowPages {M : Type} (spaces : Nat → Option (Space M)) : Prop :=
  ∀ entry, Held spaces entry → entry.info.vPage < 2 ^ 52

section Low

variable {M : Type} {spaces : Nat → Option (Space M)} (low : LowPages spaces)
include low

theorem LowPages.join {bound : Nat} {space : Space M} (new : ∀ entry ∈ space.allocs, entry.info.vPage < 2 ^ 52) :
    LowPages (update spaces (bound + 1) (some space)) := by
  rintro entry ⟨pid, holder⟩
  rcases holder_join space holder with ⟨_, member⟩ | ⟨_, old⟩
  · exact new entry member
  · exact low entry old.held

theorem LowPages.leave (pid : Nat) : LowPages (update spaces pid none) := by
  rintro entry ⟨other, space, live, member⟩
  exact low entry ⟨other, space, (live_leave live).2, member⟩

end Low

section Entries

variable {A M E C F : Type} [Entry E] [Mapper M E] [Mmu E] {inUse : A → Nat → Prop}

theorem created_vPage_lt {layout : KernelLayout} {trapStack : Nat} {elfBytes : List UInt8} {beyond : Nat → UInt8}
    {machine last : Machine A} {image : Image M} {segments : List (Program × Nat)} {elf : Elf}
    (created : Created inUse layout trapStack elfBytes beyond machine image segments last)
    (parsed : Elf.parse elfBytes = .ok (.ok elf)) (loaded : segments.map Prod.fst = loads elf) {info : PageAllocInfo}
    (member : info ∈ image.pageAllocs) : info.vPage < 2 ^ 52 := by
  have inside := (created.blocks.holds info member).inside
  rw [created.allocs] at member
  rcases mem_cons.mp member with rfl | member
  · have positive : 0 < Buddy.nextPowerOfTwo userStackPages := by decide
    simp only [stackAlloc, virtPage] at inside ⊢
    omega
  · obtain ⟨⟨prog, block⟩, placed, rfl⟩ := mem_map.mp member
    have listed : prog ∈ loads elf := loaded ▸ mem_map_of_mem placed
    have small := Elf.parse_vAddr_lt parsed prog (mem_of_mem_filter listed)
    simp only [allocOf, pageSize_eq]
    omega

theorem Kernel.Housed.laid {self : Kernel A M C F} (housed : self.Housed inUse) (low : LowPages self.scheduler.spaces)
    {pid : Nat} {task : Task M C F} (live : self.scheduler.tasks pid = some task) : Laid task.pageAllocs := by
  have found := spaces_of_live live
  have held {entry : PageAlloc} (member : entry ∈ task.pageAllocs) : Held self.scheduler.spaces entry :=
    ⟨pid, _, found, member⟩
  refine ⟨?_, fun entry member => low entry (held member), fun entry member => housed.spaces.inside entry (held member),
    fun entry member other listed differs => ?_⟩
  · have nodup := housed.spaces.nodup pid
    rw [ids, found] at nodup
    exact List.Nodup.of_map PageAlloc.id nodup
  · exact housed.spaces.disjoint entry other (held member) (held listed) fun same =>
      differs (housed.spaces.same entry other (held member) (held listed) same)

end Entries

section Runs

variable {A M E C F : Type} [Entry E] [Mapper M E] [PageAllocator A] [Mmu E] [AddressSpace E] [LawfulEntry E]
variable [LawfulMapper M] {inUse : A → Nat → Prop} {self after : Kernel A M C F}

theorem Kernel.Brings.vPage_lt (sound : SoundFrees inUse) (wide : 2 ^ 27 ≤ 2 ^ Mmu.fieldBits E) {op : Op C F}
    {space : Space M} (housed : self.Housed inUse) (low : LowPages self.scheduler.spaces) (fits : op.Fits)
    (brings : self.Brings op space) : ∀ entry ∈ space.allocs, entry.info.vPage < 2 ^ 52 := by
  intro entry member
  cases brings with
  | @create _ _ image _ create =>
    obtain ⟨elf, parsed⟩ := createImage_parsed create
    have trap := housed.trap
    obtain ⟨segments, loaded, created⟩ :=
      createImage_created sound.toSoundBlocks wide (by omega) parsed create (fits elf parsed)
    refine created_vPage_lt created parsed loaded ?_
    rw [← (self.arcs.newAll_ok image.pageAllocs).1]
    exact mem_map_of_mem member
  | @fork current _ _ forks =>
    obtain ⟨begun, start, children, _, _, result⟩ := forks.forked sound wide housed
    have found := spaces_of_live forks.parent
    rw [result.allocs, nil_append] at member
    obtain ⟨parent, listed, inherited⟩ := Lists.exists_of_forall₂ result.inherited.flip member
    rw [inherited.vPage]
    exact low parent ⟨_, _, found, listed⟩
  | kernelFork page => exact absurd member not_mem_nil

variable [ArchContext C]

theorem Step.lowPages (sound : SoundFrees inUse) (wide : 2 ^ 27 ≤ 2 ^ Mmu.fieldBits E) {op : Op C F} {issued : Option Nat}
    (housed : self.Housed inUse) (low : LowPages self.scheduler.spaces) (fits : op.Fits) (step : Step self op issued after) :
    LowPages after.scheduler.spaces := by
  obtain ⟨_, same | ⟨new, brings, spaces⟩ | ⟨pid, spaces⟩⟩ := step.spaces_cases housed.fresh
  · rw [same]
    exact low
  · rw [spaces]
    exact low.join (brings.vPage_lt sound wide housed low fits)
  · rw [spaces]
    exact low.leave pid

theorem housed_low_of_run {layout : KernelLayout} {kernelPt : M} {machine : Machine A} {start : Kernel A M C F}
    (sound : SoundFrees inUse) (wide : 2 ^ 27 ≤ 2 ^ Mmu.fieldBits E)
    (tree : Tree M machine.mem (rootTable kernelPt).page (inUse machine.alloc))
    (init : taskInit layout kernelPt machine = .ok start) (run : Relation.ReflTransGen FittingStep start self) :
    self.Housed inUse ∧ LowPages self.scheduler.spaces := by
  have housed := taskInit_housed sound.toSoundBlocks tree init
  refine Runs.preserved (fun kernel : Kernel A M C F => kernel.Housed inUse ∧ LowPages kernel.scheduler.spaces) ?_
    ⟨housed, ?_⟩ run
  · rintro before after ⟨housed, low⟩ ⟨op, issued, fits, step⟩
    exact ⟨step.housed sound wide housed fits, step.lowPages sound wide housed low fits⟩
  · rintro entry ⟨pid, space, live, member⟩
    obtain ⟨task, found, rfl⟩ := Option.map_eq_some_iff.mp live
    obtain ⟨_, rfl⟩ := taskInit_only init found
    exact absurd member not_mem_nil

end Runs

/-- The copies go through the bytes that the page table gives user mode exactly if the hardware tells the pages of
    the entries apart. -/
def ViewsMatch (M C F : Type) {E A : Type} [Entry E] [Mapper M E] [PageAllocator A] [ArchContext C] [Mmu E]
    [AddressSpace E] (inUse : A → Nat → Prop) : Prop :=
  ∀ (layout : KernelLayout) (kernelPt : M) (machine : Machine A) (start self : Kernel A M C F) (pid root : Nat)
    (task : Task M C F),
    Tree M machine.mem (rootTable kernelPt).page (inUse machine.alloc) →
    taskInit layout kernelPt machine = .ok start → Relation.ReflTransGen FittingStep start self →
    self.scheduler.tasks pid = some task → task.pageAllocs ≠ [] → (rootTable task.page).pageNumber = .ok root →
    (ViewsAgree M self.machine.mem root task.pageAllocs ↔ Distinguished E (level M) task.pageAllocs)

theorem ViewsMatch.of_sound {A M E C F : Type} [Entry E] [Mapper M E] [PageAllocator A] [ArchContext C] [Mmu E]
    [AddressSpace E] [LawfulEntry E] [LawfulMapper M] [LawfulSpace E] {inUse : A → Nat → Prop} (sound : SoundFrees inUse)
    (wide : 2 ^ 27 ≤ 2 ^ Mmu.fieldBits E) : ViewsMatch M C F inUse := by
  intro layout kernelPt machine start self pid root task tree init run live some rooted
  obtain ⟨housed, low⟩ := housed_low_of_run sound wide tree init run
  have found := spaces_of_live live
  exact viewsAgree_iff_distinguished (housed.spaces.mapped pid _ found some) rooted (housed.laid low live)
    fun mapping member => user_notMem_base member

def PageAlloc.Sv39 (entry : PageAlloc) : Prop :=
  entry.info.vPage + entry.info.vPages ≤ 2 ^ 26 ∨
    2 ^ 52 - 2 ^ 26 ≤ entry.info.vPage ∧ entry.info.vPage + entry.info.vPages ≤ 2 ^ 52

instance (entry : PageAlloc) : Decidable entry.Sv39 := inferInstanceAs (Decidable (_ ∨ _))

def PageAlloc.Ordered (entry other : PageAlloc) : Prop :=
  entry.info.vPage + entry.info.vPages ≤ other.info.vPage ∨ other.info.vPage + other.info.vPages ≤ entry.info.vPage

instance (entry other : PageAlloc) : Decidable (entry.Ordered other) := inferInstanceAs (Decidable (_ ∨ _))

instance : Std.Symm PageAlloc.Ordered := ⟨fun _ _ => Or.symm⟩

theorem distinguished_of_sv39 {allocs : List PageAlloc} (accepted : ∀ entry ∈ allocs, entry.Sv39)
    (ordered : allocs.Pairwise PageAlloc.Ordered) : Distinguished PageTableEntry 3 allocs := by
  have canonical (vpn : Nat) :
      canonical PageTableEntry vpn = true ↔ vpn < 2 ^ 26 ∨ 2 ^ 52 - 2 ^ 26 ≤ vpn ∧ vpn < 2 ^ 52 := by
    simp [canonical]
  have spanned (entry : PageAlloc) (member : entry ∈ allocs) (vpn : Nat) (spans : entry.info.Spans vpn) :
      vpn < 2 ^ 26 ∨ 2 ^ 52 - 2 ^ 26 ≤ vpn ∧ vpn < 2 ^ 52 := by
    obtain ⟨low, high⟩ := spans
    rcases accepted entry member with lower | upper
    · exact .inl (by omega)
    · exact .inr (by omega)
  refine ⟨?_, ?_, ?_⟩
  · intro entry member vpn spans
    exact (canonical vpn).mpr (spanned entry member vpn spans)
  · intro entry member vpn spans other accepted same
    have here := spanned entry member vpn spans
    have there := (canonical other).mp accepted
    omega
  · intro entry member other listed vpn spans covers
    by_contra differs
    obtain ⟨low, high⟩ := spans
    obtain ⟨low', high'⟩ := covers
    rcases ordered.forall member listed differs with before | behind
    · omega
    · omega

def sharedPageFile : List UInt8 := ((oneSegment 4096 16 32).set 56 2) ++ (oneSegment 0x1800 16 32).drop 64

end Kernel31.Sched
