import Kernel31.Task.Segments

namespace Kernel31.Task

open Page Paging Elf Checked Radix List Mapper

variable {M E A : Type} {inUse : A → Nat → Prop} {page : M} {machine machine' : Machine A} {mappings : List Mapping}

def rangeMappings (start stop : UInt64) (mode : List PageACL) : List Mapping :=
  (MapCall.mapWithAllocator (start.toNat / pageSize) (start.toNat / pageSize - pageOffset)
    (stop.toNat / pageSize - start.toNat / pageSize) mode).mappings

def kernelMappings (layout : KernelLayout) : List Mapping :=
  rangeMappings layout.rodataStart layout.rodataEnd ro ++ rangeMappings layout.dataStart layout.dataEnd rw ++
    rangeMappings layout.bssStart layout.bssEnd rw ++ rangeMappings layout.kernelStart layout.kernelEnd rx

def trapMappings (trapStack : Nat) : List Mapping :=
  (MapCall.mapWithAllocator trapStack (trapStack - pageOffset) 16 rw).mappings

def baseMappings (layout : KernelLayout) (trapStack : Nat) : List Mapping :=
  kernelMappings layout ++ trapMappings trapStack

def allocMappings (info : PageAllocInfo) : List Mapping :=
  (MapCall.mapWithAllocator info.vPage info.pPage info.vPages (segmentMode info.flags)).mappings

def segmentMappings (prog : Program) (block : Nat) : List Mapping :=
  (MapCall.mapWithAllocator (prog.vAddr / pageSize) (block - pageOffset) ((prog.pMemsz + pageSize - 1) / pageSize)
    (segmentMode prog.pFlags)).mappings

theorem allocMappings_allocOf (prog : Program) (block : Nat) :
    allocMappings (allocOf prog block) = segmentMappings prog block := rfl

def PageAllocInfo.holds (info : PageAllocInfo) (page : Nat) : Prop :=
  virtPage info.pPage ≤ page ∧ page < virtPage info.pPage + Buddy.nextPowerOfTwo info.vPages

def PageAllocInfo.Apart (info other : PageAllocInfo) : Prop := ∀ page, info.holds page → ¬ other.holds page

theorem allocOf_holds {prog : Program} {block page : Nat} (linear : pageOffset ≤ block) :
    (allocOf prog block).holds page ↔
      block ≤ page ∧ page < block + Buddy.nextPowerOfTwo ((prog.pMemsz + pageSize - 1) / pageSize) := by
  have back : virtPage (block - pageOffset) = block := by
    unfold virtPage
    omega
  simp only [PageAllocInfo.holds, allocOf, back]

section Blocks

variable [Entry E] [Mapper M E] {root : Nat}
variable {first second third : Machine A}

structure Holds (M : Type) {E A : Type} [Entry E] [Mapper M E] (inUse : A → Nat → Prop) (root : Nat)
    (machine machine' : Machine A) (info : PageAllocInfo) : Prop where
  inside : virtPage info.pPage + Buddy.nextPowerOfTwo info.vPages ≤ 2 ^ 52
  fresh : ∀ page, info.holds page → ¬ inUse machine.alloc page
  used : ∀ page, info.holds page → inUse machine'.alloc page
  off : ∀ page, info.holds page → ¬ (scheme M).Reachable machine'.mem root (height M) page

structure Blocks (M : Type) {E A : Type} [Entry E] [Mapper M E] (inUse : A → Nat → Prop) (root : Nat)
    (machine machine' : Machine A) (infos : List PageAllocInfo) : Prop where
  holds : ∀ info ∈ infos, Holds M inUse root machine machine' info
  apart : infos.Pairwise PageAllocInfo.Apart

theorem Blocks.nil (machine machine' : Machine A) : Blocks M inUse root machine machine' [] := ⟨by simp, List.Pairwise.nil⟩

theorem Blocks.singleton {info : PageAllocInfo} (holds : Holds M inUse root first second info) :
    Blocks M inUse root first second [info] := ⟨by simpa using holds, pairwise_singleton _ _⟩

theorem Blocks.append {infos later : List PageAllocInfo} (before : Blocks M inUse root first second infos)
    (after : Blocks M inUse root second third later) (built : Builds M inUse root first second)
    (builds : Builds M inUse root second third) : Blocks M inUse root first third (infos ++ later) := by
  refine ⟨?_, pairwise_append.mpr ⟨before.apart, after.apart, ?_⟩⟩
  · intro info member
    rcases mem_append.mp member with old | new
    · obtain ⟨inside, fresh, used, off⟩ := before.holds info old
      exact ⟨inside, fresh, fun page held => builds.used page (used page held),
        fun page held => builds.off (used page held) (off page held)⟩
    · obtain ⟨inside, fresh, used, off⟩ := after.holds info new
      exact ⟨inside, fun page held unused => fresh page held (built.used page unused), used, off⟩
  · intro info old other new page held inside
    exact (after.holds other new).fresh page inside ((before.holds info old).used page held)

theorem Blocks.mono {infos : List PageAllocInfo} (blocks : Blocks M inUse root second third infos)
    (used : ∀ page, inUse first.alloc page → inUse second.alloc page) : Blocks M inUse root first third infos := by
  refine ⟨fun info member => ?_, blocks.apart⟩
  obtain ⟨inside, fresh, taken, off⟩ := blocks.holds info member
  exact ⟨inside, fun page held unused => fresh page held (used page unused), taken, off⟩

end Blocks

section Translation

variable [Entry E] [Mapper M E] [PageAllocator A] [Mmu E] [LawfulEntry E] [LawfulMapper M]
structure Mapped (inUse : A → Nat → Prop) (page : M) (machine : Machine A) (mappings : List Mapping) : Prop where
  represents : Represents inUse page machine mappings
  fits : ∀ mapping ∈ mappings, mapping.Fits E

structure Maps (inUse : A → Nat → Prop) (page : M) (machine : Machine A) (mappings added : List Mapping)
    (machine' : Machine A) : Prop where
  mapped : Mapped inUse page machine' (mappings ++ added)
  builds : Builds M inUse (rootTable page).page machine machine'

omit [PageAllocator A] [LawfulEntry E] [LawfulMapper M] in
theorem Maps.trans {middle : Machine A} {added more : List Mapping} (first : Maps inUse page machine mappings added middle)
    (second : Maps inUse page middle (mappings ++ added) more machine') :
    Maps inUse page machine mappings (added ++ more) machine' :=
  ⟨by simpa only [append_assoc] using second.mapped, first.builds.trans second.builds⟩

variable {mode : List PageACL} {start stop : UInt64}

theorem Mapped.map (mapped : Mapped inUse page machine mappings) (sound : SoundAllocator inUse)
    {vpn ppn pages : Nat} (run : mapWithAllocator page machine vpn ppn pages mode = .ok machine')
    (small : ppn + pages ≤ 2 ^ Mmu.fieldBits E) (readable : PageACL.read ∈ mode) :
    Maps inUse page machine mappings (MapCall.mapWithAllocator vpn ppn pages mode).mappings machine' := by
  refine ⟨⟨mapped.represents.mapWithAllocator sound run, ?_⟩, mapped.represents.builds sound run⟩
  rw [forall_mem_append]
  refine ⟨mapped.fits, fun mapping member => ?_⟩
  obtain ⟨i, below, rfl⟩ := mem_map.mp member
  have bound := mem_range.mp below
  exact ⟨show ppn + i < 2 ^ Mmu.fieldBits E by omega, readable⟩

omit [Mmu E] [LawfulEntry E] [LawfulMapper M] in
theorem mapRangeWithAlloc_ok (run : mapRangeWithAlloc page machine start stop mode = .ok machine') :
    pageOffset ≤ start.toNat / pageSize ∧
      mapWithAllocator page machine (start.toNat / pageSize) (start.toNat / pageSize - pageOffset)
        (stop.toNat / pageSize - start.toNat / pageSize) mode = .ok machine' := by
  simp only [mapRangeWithAlloc, bind_ok] at run
  obtain ⟨frame, framed, run⟩ := run
  split at run
  · simp [throw_ok] at run
  · unfold physAddr at framed
    split at framed
    · simp [throw_ok] at framed
    · rename_i linear
      obtain rfl := pure_ok.mp framed
      have shift : (start.toNat - (virtAddr - phyAddr)) >>> pageBits = start.toNat / pageSize - pageOffset := by
        simp only [Nat.shiftRight_eq_div_pow, pageOffset_eq, show pageSize = 2 ^ pageBits from rfl, pageBits, virtAddr,
          phyAddr] at linear ⊢
        omega
      rw [shift] at run
      simp only [Nat.shiftRight_eq_div_pow, show (2 ^ pageBits : Nat) = pageSize from rfl] at run
      refine ⟨?_, run⟩
      simp only [pageOffset_eq, show pageSize = 2 ^ 12 from rfl, virtAddr, phyAddr] at linear ⊢
      omega

variable (sound : SoundBlocks inUse) (wide : 2 ^ 27 ≤ 2 ^ Mmu.fieldBits E)
include sound wide

variable (mapped : Mapped inUse page machine mappings)
include mapped

theorem Mapped.range (run : mapRangeWithAlloc page machine start stop mode = .ok machine')
    (readable : PageACL.read ∈ mode) : Maps inUse page machine mappings (rangeMappings start stop mode) machine' := by
  obtain ⟨linear, run⟩ := mapRangeWithAlloc_ok run
  refine mapped.map sound.toSoundAllocator run ?_ readable
  have high := stop.toNat_lt
  have below := start.toNat_lt
  simp only [pageOffset_eq, show pageSize = 2 ^ 12 from rfl] at linear ⊢
  omega

theorem Mapped.kernel {layout : KernelLayout} (run : mapKernelRegion page layout machine = .ok machine') :
    Maps inUse page machine mappings (kernelMappings layout) machine' := by
  simp only [mapKernelRegion, bind_ok] at run
  obtain ⟨_, rodata, _, data, _, bss, text⟩ := run
  have first := mapped.range sound wide rodata (by decide)
  have second := first.trans (first.mapped.range sound wide data (by decide))
  have third := second.trans (second.mapped.range sound wide bss (by decide))
  exact third.trans (third.mapped.range sound wide text (by decide))

theorem Mapped.fill {info : PageAllocInfo} {alloc : A}
    (allocated : PageAllocator.allocPages machine.alloc (Buddy.nextPowerOfTwo info.vPages) =
      .ok (.ok (virtPage info.pPage), alloc))
    (run : mapWithAllocator page { machine with alloc := alloc } info.vPage info.pPage info.vPages
      (segmentMode info.flags) = .ok machine') {mem : Memory}
    (same : ∀ other, ¬ info.holds other → mem other = machine'.mem other) :
    Maps inUse page machine mappings (allocMappings info) { machine' with mem := mem } ∧
      Blocks M inUse (rootTable page).page machine { machine' with mem := mem } [info] ∧
      ∀ other, info.holds other → machine'.mem other = machine.mem other := by
  obtain ⟨unused, inside, used⟩ := sound.block _ _ _ _ allocated
  have begun : Mapped inUse page { machine with alloc := alloc } mappings :=
    ⟨mapped.represents.frame (fun _ _ _ => rfl) fun other held => (used other).mpr (Or.inr held), mapped.fits⟩
  have start : Builds M inUse (rootTable page).page machine { machine with alloc := alloc } :=
    Builds.alloc sound allocated
  have small : info.pPage + info.vPages ≤ 2 ^ 26 := by
    have enough := Buddy.le_nextPowerOfTwo info.vPages
    rw [Buddy.nextPowerOfTwo] at enough
    rw [virtPage, pageOffset_eq] at inside
    omega
  obtain ⟨done, builds⟩ := begun.map sound.toSoundAllocator run (by omega) (read_mem_segmentMode _)
  have fresh : ∀ other, info.holds other → ¬ inUse machine.alloc other := fun other held => unused other held.1 held.2
  have taken : ∀ other, info.holds other → inUse alloc other := fun other held => (used other).mpr (Or.inl held)
  have off : ∀ other, info.holds other →
      ¬ (scheme M).Reachable machine.mem (rootTable page).page (height M) other := fun other held reached =>
    fresh other held (mapped.represents.tree.housed other reached).1
  have later : ∀ other, info.holds other →
      ¬ (scheme M).Reachable machine'.mem (rootTable page).page (height M) other := fun other held =>
    builds.off (taken other held) (off other held)
  have tables : SameTables M machine'.mem mem (rootTable page).page := fun table reached index => by
    rw [same table fun held => later table held reached]
  have held : ∀ other, info.holds other → inUse machine'.alloc other := fun other inside =>
    builds.used other (taken other inside)
  refine ⟨⟨⟨done.represents.frame tables fun _ held => held, done.fits⟩,
    (start.trans builds).write same fresh held later⟩, Blocks.singleton ⟨inside, fresh, held, ?_⟩, ?_⟩
  · intro other inside reached
    exact later other inside (tables.reachable.mp reached)
  · intro other inside
    exact builds.kept other (taken other inside) (off other inside)

theorem Mapped.trap {trapStack : Nat} (low : trapStack < 2 ^ 52)
    (run : mapData page machine trapStack (trapStack - pageOffset) 16 = .ok machine') :
    Maps inUse page machine mappings (trapMappings trapStack) machine' :=
  mapped.map sound.toSoundAllocator run (by rw [pageOffset_eq]; omega) (by decide)

end Translation

section Loading

def Copied (elfBytes : List UInt8) (beyond : Nat → UInt8) (mem mem' : Memory) (prog : Program) (block : Nat) : Prop :=
  ∀ address, (allocOf prog block).holds (address / pageSize) →
    loadByte mem' address =
      let start := block * pageSize + prog.vAddr % pageSize
      if start ≤ address ∧ address < start + prog.pFilesz then
        elfBytes[prog.pOffset + (address - start)]?.getD (beyond (prog.pOffset + (address - start)))
      else loadByte mem address

variable [Entry E] [Mapper M E] [PageAllocator A] [Mmu E]
variable {elfBytes : List UInt8} {beyond : Nat → UInt8}
variable {middle : Machine A}

def placedAllocs (segments : List (Program × Nat)) : List PageAllocInfo :=
  segments.map fun segment => allocOf segment.1 segment.2

structure Placed (inUse : A → Nat → Prop) (page : M) (elfBytes : List UInt8) (beyond : Nat → UInt8)
    (machine : Machine A) (mappings : List Mapping) (segments : List (Program × Nat)) (machine' : Machine A) : Prop where
  maps : Maps inUse page machine mappings ((placedAllocs segments).flatMap allocMappings) machine'
  blocks : Blocks M inUse (rootTable page).page machine machine' (placedAllocs segments)
  copied : ∀ segment ∈ segments, Copied elfBytes beyond machine.mem machine'.mem segment.1 segment.2
  linear : ∀ segment ∈ segments, pageOffset ≤ segment.2

omit [PageAllocator A] in
theorem Placed.append {segments more : List (Program × Nat)}
    (first : Placed inUse page elfBytes beyond machine mappings segments middle)
    (second : Placed inUse page elfBytes beyond middle (mappings ++ (placedAllocs segments).flatMap allocMappings) more
      machine') :
    Placed inUse page elfBytes beyond machine mappings (segments ++ more) machine' := by
  have joined : placedAllocs (segments ++ more) = placedAllocs segments ++ placedAllocs more := map_append
  refine ⟨?_, ?_, forall_mem_append.mpr ⟨?_, ?_⟩, forall_mem_append.mpr ⟨first.linear, second.linear⟩⟩
  · rw [joined, flatMap_append]
    exact first.maps.trans second.maps
  · rw [joined]
    exact first.blocks.append second.blocks first.maps.builds second.maps.builds
  · intro segment member address inside
    obtain ⟨_, _, used, off⟩ := first.blocks.holds _ (mem_map.mpr ⟨segment, member, rfl⟩)
    rw [loadByte_congr (second.maps.builds.kept _ (used _ inside) (off _ inside))]
    exact first.copied segment member address inside
  · intro segment member address inside
    have fresh := (second.blocks.holds _ (mem_map.mpr ⟨segment, member, rfl⟩)).fresh _ inside
    rw [second.copied segment member address inside, loadByte_congr (first.maps.builds.unused _ fresh)]

variable [LawfulEntry E] [LawfulMapper M] (sound : SoundBlocks inUse) (wide : 2 ^ 27 ≤ 2 ^ Mmu.fieldBits E)
include sound wide

theorem Mapped.loadSegment {prog : Program} {s s' : Loading A} (mapped : Mapped inUse page s.machine mappings)
    (fits : BlockFits prog) (run : loadSegment page elfBytes beyond prog s = .ok s') :
    ∃ block, s'.pageAllocs = s.pageAllocs ++ placedAllocs [(prog, block)] ∧
      Placed inUse page elfBytes beyond s.machine mappings [(prog, block)] s'.machine := by
  obtain ⟨block, alloc, after, allocated, linear, mapping, rfl⟩ := loadSegment_ok run
  have back : virtPage (allocOf prog block).pPage = block := by
    simp only [allocOf, virtPage]
    omega
  have outside : ∀ other, ¬ (allocOf prog block).holds other →
      (copyOf prog block).run elfBytes beyond after.mem other = after.mem other := by
    intro other outside
    apply Copy.store_page
    intro i below here
    apply outside
    rw [allocOf_holds linear]
    have room := fits.resolve_left (by simp only [copyOf] at below; omega)
    simp only [copyOf] at below here
    generalize Buddy.nextPowerOfTwo ((prog.pMemsz + pageSize - 1) / pageSize) = count at room ⊢
    simp only [pageSize_eq] at room here
    omega
  obtain ⟨maps, blocks, same⟩ := mapped.fill sound wide (by rwa [back]) mapping outside
  refine ⟨block, rfl, ⟨by simpa [placedAllocs] using maps, blocks, ?_, by simpa using linear⟩⟩
  rw [forall_mem_singleton]
  intro address inside
  rw [← loadByte_congr (same _ inside)]
  exact Copy.loadByte_store _ _ _ _ _ _

theorem Mapped.loadSegments {progs : List Program} {s s' : Loading A} (mapped : Mapped inUse page s.machine mappings)
    (fits : ∀ prog ∈ progs, prog.pType = .load → BlockFits prog)
    (run : loadSegments page elfBytes beyond progs s = .ok s') :
    ∃ segments : List (Program × Nat), segments.map Prod.fst = progs.filter (fun prog => prog.pType = .load) ∧
      s'.pageAllocs = s.pageAllocs ++ placedAllocs segments ∧
      Placed inUse page elfBytes beyond s.machine mappings segments s'.machine := by
  induction progs generalizing s mappings with
  | nil =>
    obtain rfl := pure_ok.mp run
    refine ⟨[], rfl, (append_nil _).symm, ⟨⟨?_, Builds.refl _ _ _⟩, Blocks.nil _ _, by simp, by simp⟩⟩
    simpa [placedAllocs] using mapped
  | cons prog rest ih =>
    obtain ⟨first, others⟩ := forall_mem_cons.mp fits
    rw [Task.loadSegments] at run
    split at run
    · rename_i load
      obtain ⟨next, segment, run⟩ := bind_ok.mp run
      obtain ⟨block, recorded, placed⟩ := mapped.loadSegment sound wide (first load) segment
      obtain ⟨segments, loaded, allocs, rest⟩ := ih placed.maps.mapped others run
      refine ⟨(prog, block) :: segments, ?_, ?_, placed.append rest⟩
      · rw [filter_cons_of_pos (by simpa using load), map_cons, loaded]
      · rw [allocs, recorded, append_assoc]
        rfl
    · rename_i other
      obtain ⟨segments, loaded, allocs, placed⟩ := ih mapped others run
      exact ⟨segments, by rw [loaded, filter_cons_of_neg (by simpa using other)], allocs, placed⟩

end Loading

end Kernel31.Task
