import Kernel31.Task.Image
import Kernel31.Paging.Address

namespace Kernel31.Task

open Page Paging Elf Checked Radix List Mapper AddressSpace LawfulSpace
open Mapper (rootTable)
open AddressSpace (kernelReads userReads)

variable {info : PageAllocInfo} {mapping : Mapping}

section Views

variable (M : Type) {E : Type} [Entry E] [Mapper M E] [Mmu E] [AddressSpace E]

def userAccess (mem : Memory) (root address : Nat) : Option Nat :=
  (translate M userReads mem root (address / pageSize)).map fun frame =>
    virtPage frame * pageSize + address % pageSize

def userByte (mem : Memory) (root address : Nat) : Option UInt8 :=
  (userAccess M mem root address).map (loadByte mem)

variable {M} {A : Type} {inUse : A → Nat → Prop} {page : M} {machine : Machine A} {mappings : List Mapping}

theorem Mapped.translate_eq (mapped : Mapped inUse page machine mappings) {frame : Nat}
    (rooted : (rootTable page).pageNumber = .ok frame) (allows : Mmu.Perms E → Bool) (vpn : Nat) :
    translate M allows machine.mem frame vpn =
      if canonical E vpn then
        (latest (level M) mappings vpn).bind fun mapping =>
          if allows (Mmu.granted (E := E) mapping.mode) then some mapping.ppn else none
      else none := by
  rw [Paging.translate, mapped.represents.tree.walk_root rooted, mapped.represents.translation mapped.fits]
  cases latest (level M) mappings vpn <;> rfl

def PageAllocInfo.Spans (info : PageAllocInfo) (vpn : Nat) : Prop := info.vPage ≤ vpn ∧ vpn < info.vPage + info.vPages

theorem user_mem_segmentMode (flags : List Flags) : PageACL.user ∈ segmentMode flags := by
  unfold segmentMode
  split
  · decide
  · split <;> decide

theorem mem_allocMappings :
    mapping ∈ allocMappings info ↔
      info.Spans mapping.vpn ∧ mapping.ppn = info.pPage + (mapping.vpn - info.vPage) ∧
        mapping.mode = segmentMode info.flags := by
  obtain ⟨vpn, ppn, mode⟩ := mapping
  simp only [allocMappings, MapCall.mappings, mem_map, mem_range, Mapping.mk.injEq, PageAllocInfo.Spans]
  constructor
  · rintro ⟨i, below, rfl, rfl, rfl⟩
    exact ⟨by omega, by omega, rfl⟩
  · rintro ⟨⟨low, high⟩, rfl, rfl⟩
    exact ⟨vpn - info.vPage, by omega, by omega, rfl, rfl⟩

theorem PageAllocInfo.Spans.mapped {vpn : Nat} (spans : info.Spans vpn) :
    ⟨vpn, info.pPage + (vpn - info.vPage), segmentMode info.flags⟩ ∈ allocMappings info :=
  mem_allocMappings.mpr ⟨spans, rfl, rfl⟩

variable [LawfulSpace E] {infos : List PageAllocInfo} {frame vpn : Nat}

variable (mapped : Mapped inUse page machine (mappings ++ infos.flatMap allocMappings))
include mapped

theorem Mapped.translate_hit (rooted : (rootTable page).pageNumber = .ok frame)
    (canonical : canonical E vpn = true) (member : info ∈ infos) {v : Nat} (spans : info.Spans v)
    (same : v % 2 ^ (9 * level M) = vpn % 2 ^ (9 * level M)) :
    ∃ last ∈ infos, ∃ v, last.Spans v ∧ v % 2 ^ (9 * level M) = vpn % 2 ^ (9 * level M) ∧
      translate M userReads machine.mem frame vpn = some (last.pPage + (v - last.vPage)) := by
  obtain ⟨mapping, listed, congruent, found⟩ := latest_of_hit (level M) vpn mappings
    (mem_flatMap.mpr ⟨info, member, spans.mapped⟩) same
  obtain ⟨last, recorded, inside⟩ := mem_flatMap.mp listed
  obtain ⟨covers, number, mode⟩ := mem_allocMappings.mp inside
  refine ⟨last, recorded, mapping.vpn, covers, congruent, ?_⟩
  rw [mapped.translate_eq rooted, if_pos canonical, found, Option.bind_some, number, mode,
    userReads_granted _ (read_mem_segmentMode _), contains_iff_mem.mpr (user_mem_segmentMode _), if_pos rfl]

theorem Mapped.translate_alloc (rooted : (rootTable page).pageNumber = .ok frame)
    (canonical : canonical E vpn = true) (member : info ∈ infos) (spans : info.Spans vpn)
    (unique : ∀ other ∈ infos, ∀ v, other.Spans v →
      v % 2 ^ (9 * level M) = vpn % 2 ^ (9 * level M) → other = info ∧ v = vpn) :
    translate M userReads machine.mem frame vpn = some (info.pPage + (vpn - info.vPage)) := by
  obtain ⟨last, recorded, v, covers, same, reached⟩ := mapped.translate_hit rooted canonical member spans rfl
  obtain ⟨rfl, rfl⟩ := unique last recorded v covers same
  exact reached

end Views

def Spans (prog : Program) (vpn : Nat) : Prop :=
  prog.vAddr / pageSize ≤ vpn ∧ vpn < prog.vAddr / pageSize + (prog.pMemsz + pageSize - 1) / pageSize

/-- The file part is no larger than the memory part and inside the file, and no page belongs to two segments. -/
structure WellFormed (elfBytes : List UInt8) (progs : List Program) : Prop where
  sizes : ∀ prog ∈ progs, prog.pFilesz ≤ prog.pMemsz
  file : ∀ prog ∈ progs, prog.pFilesz = 0 ∨ prog.pOffset + prog.pFilesz ≤ elfBytes.length
  disjoint : progs.Pairwise fun prog other => ∀ page, Meets page prog.vAddr prog.pMemsz →
    ¬ Meets page other.vAddr other.pMemsz

/-- `v_pages` counts all pages, the hardware accepts their numbers, and any two differ in the bits that the tables
    look at. -/
structure Distinct (E : Type) [Mmu E] [AddressSpace E] (levels : Nat) (progs : List Program) : Prop where
  memory : ∀ prog ∈ progs, prog.pMemsz = 0 ∨
    prog.vAddr % pageSize + prog.pMemsz ≤ (prog.pMemsz + pageSize - 1) / pageSize * pageSize
  canonical : ∀ prog ∈ progs, ∀ vpn, Spans prog vpn → canonical E vpn = true
  aliases : ∀ prog ∈ progs, ∀ vpn, Spans prog vpn → ∀ other ∈ progs, ∀ v, Spans other v →
    v % 2 ^ (9 * levels) = vpn % 2 ^ (9 * levels) → v = vpn

theorem meets_of_spans {prog : Program} {vpn : Nat} (spans : Spans prog vpn) : Meets vpn prog.vAddr prog.pMemsz := by
  obtain ⟨low, high⟩ := spans
  refine ⟨max prog.vAddr (vpn * pageSize), le_max_left _ _, ?_, ?_⟩
  · simp only [pageSize_eq] at low high ⊢
    omega
  · simp only [pageSize_eq] at low high ⊢
    omega

/-- The file bytes of every segment, and behind them what the allocated pages held before. -/
def ImageSeen (M : Type) {E : Type} [Entry E] [Mapper M E] [Mmu E] [AddressSpace E] (A : Type) [PageAllocator A] : Prop :=
  ∀ (layout : KernelLayout) (trapStack : Nat) (elfBytes : List UInt8) (beyond : Nat → UInt8) (machine after : Machine A)
    (elf : Elf) (image : Image M) (root : Nat), trapStack < 2 ^ 52 → Elf.parse elfBytes = .ok (.ok elf) →
    createImage layout trapStack elfBytes beyond machine = .ok (.ok (image, after)) →
    (rootTable image.page).pageNumber = .ok root → WellFormed elfBytes (loads elf) →
    Distinct E (level M) (loads elf) →
    ∀ k prog, (loads elf)[k]? = some prog → ∃ alloc, image.pageAllocs[k + 1]? = some alloc ∧
      (∀ i, i < prog.pFilesz → userByte M after.mem root (prog.vAddr + i) = elfBytes[prog.pOffset + i]?) ∧
      (∀ i, prog.pFilesz ≤ i → i < prog.pMemsz → userByte M after.mem root (prog.vAddr + i) =
        some (loadByte machine.mem (virtPage alloc.pPage * pageSize + prog.vAddr % pageSize + i))) ∧
      ((∀ i, prog.pFilesz ≤ i → i < prog.pMemsz → userByte M after.mem root (prog.vAddr + i) = some 0) ↔
        ∀ i, prog.pFilesz ≤ i → i < prog.pMemsz →
          loadByte machine.mem (virtPage alloc.pPage * pageSize + prog.vAddr % pageSize + i) = 0)

section Seen

variable {M E A : Type} [Entry E] [Mapper M E] [PageAllocator A] [Mmu E] [AddressSpace E] [LawfulSpace E]
variable {inUse : A → Nat → Prop} {layout : KernelLayout} {trapStack : Nat} {elfBytes : List UInt8}
variable {beyond : Nat → UInt8} {machine after : Machine A} {image : Image M} {segments : List (Program × Nat)} {root : Nat}

omit [PageAllocator A] in
theorem Created.translate_segment (created : Created inUse layout trapStack elfBytes beyond machine image segments after)
    (rooted : (rootTable image.page).pageNumber = .ok root)
    (formed : WellFormed elfBytes (segments.map Prod.fst))
    (distinct : Distinct E (level M) (segments.map Prod.fst)) {segment : Program × Nat}
    (member : segment ∈ segments) {vpn : Nat} (spans : Spans segment.1 vpn) :
    translate M userReads after.mem root vpn =
      some (segment.2 - pageOffset + (vpn - segment.1.vAddr / pageSize)) := by
  have mapped := created.mapped
  rw [created.allocs, flatMap_cons, ← append_assoc] at mapped
  have listed {segment : Program × Nat} (member : segment ∈ segments) : segment.1 ∈ segments.map Prod.fst :=
    mem_map_of_mem member
  have covered : (allocOf segment.1 segment.2).Spans vpn := spans
  rw [mapped.translate_alloc rooted (distinct.canonical _ (listed member) _ spans)
    (mem_map_of_mem member) covered, allocOf]
  intro info recorded v inside same
  obtain ⟨other, placed, rfl⟩ := mem_map.mp recorded
  obtain rfl := distinct.aliases _ (listed member) _ spans _ (listed placed) v inside same
  refine ⟨?_, rfl⟩
  -- two segments with a page in common are the same
  by_cases equal : other = segment
  · rw [equal]
  · have apart := pairwise_map.mp formed.disjoint
    have : Std.Symm fun first second : Program × Nat => ∀ page, Meets page first.1.vAddr first.1.pMemsz →
        ¬ Meets page second.1.vAddr second.1.pMemsz := ⟨fun _ _ disjoint page held meets => disjoint page meets held⟩
    exact absurd (meets_of_spans spans) (apart.forall placed member equal v (meets_of_spans inside))

omit [PageAllocator A] in
theorem Created.userByte_segment (created : Created inUse layout trapStack elfBytes beyond machine image segments after)
    (rooted : (rootTable image.page).pageNumber = .ok root)
    (formed : WellFormed elfBytes (segments.map Prod.fst))
    (distinct : Distinct E (level M) (segments.map Prod.fst)) {prog : Program} {block : Nat}
    (member : (prog, block) ∈ segments) {i : Nat} (below : i < prog.pMemsz) :
    userByte M after.mem root (prog.vAddr + i) =
      some (if i < prog.pFilesz then elfBytes[prog.pOffset + i]?.getD (beyond (prog.pOffset + i))
        else loadByte machine.mem (block * pageSize + prog.vAddr % pageSize + i)) := by
  have linear := created.linear _ member
  have room := (distinct.memory prog (mem_map_of_mem member)).resolve_left (by omega)
  have spans : Spans prog ((prog.vAddr + i) / pageSize) := by
    simp only [Spans, pageSize_eq] at room ⊢
    omega
  have place : virtPage (block - pageOffset + ((prog.vAddr + i) / pageSize - prog.vAddr / pageSize)) * pageSize +
      (prog.vAddr + i) % pageSize = block * pageSize + prog.vAddr % pageSize + i := by
    simp only [virtPage, pageSize_eq]
    omega
  have held : (allocOf prog block).holds ((block * pageSize + prog.vAddr % pageSize + i) / pageSize) := by
    have enough := Buddy.le_nextPowerOfTwo ((prog.pMemsz + pageSize - 1) / pageSize)
    rw [allocOf_holds linear]
    simp only [pageSize_eq] at room enough ⊢
    omega
  rw [userByte, userAccess, created.translate_segment rooted formed distinct member spans, Option.map_some,
    Option.map_some, place, created.copied _ member _ held]
  simp only [Nat.le_add_right, true_and, Nat.add_lt_add_iff_left, Nat.add_sub_cancel_left]

omit [Entry E] [LawfulSpace E] in
theorem Distinct.blockFits {levels : Nat} {progs : List Program} (distinct : Distinct E levels progs)
    (formed : WellFormed elfBytes progs) : ∀ prog ∈ progs, BlockFits prog := by
  intro prog member
  have sizes := formed.sizes prog member
  have room := Nat.mul_le_mul_right pageSize (Buddy.le_nextPowerOfTwo ((prog.pMemsz + pageSize - 1) / pageSize))
  rcases distinct.memory prog member with empty | inside
  · exact Or.inl (by omega)
  · exact Or.inr (by omega)

theorem ImageSeen.of_sound [LawfulEntry E] [LawfulMapper M] (sound : SoundBlocks inUse)
    (wide : 2 ^ 27 ≤ 2 ^ Mmu.fieldBits E) : ImageSeen M A := by
  intro layout trapStack elfBytes beyond machine after elf image root low parsed run rooted formed distinct k prog found
  obtain ⟨segments, loaded, created⟩ := createImage_created sound wide low parsed run (distinct.blockFits formed)
  rw [← loaded] at formed distinct found
  rw [getElem?_map, Option.map_eq_some_iff] at found
  obtain ⟨⟨prog, block⟩, here, rfl⟩ := found
  dsimp only
  have member := mem_of_getElem? here
  have listed : prog ∈ segments.map Prod.fst := mem_map_of_mem member
  have linear := created.linear _ member
  have back : virtPage (allocOf prog block).pPage = block := by
    simp only [allocOf, virtPage]
    omega
  have access {i : Nat} (below : i < prog.pMemsz) := created.userByte_segment rooted formed distinct member below
  refine ⟨allocOf prog block, ?_, ?_, ?_, ?_⟩
  · rw [created.allocs, getElem?_cons_succ, placedAllocs, getElem?_map, here, Option.map_some]
  · intro i below
    have inside := (formed.file prog listed).resolve_left (by omega)
    have sizes := formed.sizes prog listed
    rw [access (by omega), if_pos below, getElem?_eq_getElem (by omega), Option.getD_some]
  · intro i above below
    rw [access below, if_neg (by omega), back]
  · rw [back]
    refine forall_congr' fun i => forall_congr' fun above => forall_congr' fun below => ?_
    rw [access below, if_neg (by omega), Option.some.injEq]

end Seen

/-- The memory of a new task is the file's, and zero behind it exactly where its pages were zero. -/
theorem new_task_sees_file {A : Type} [PageAllocator A] {inUse : A → Nat → Prop} (sound : SoundBlocks inUse) :
    ImageSeen Sv39Mapper A ∧ ImageSeen Arm64Mapper A :=
  ⟨ImageSeen.of_sound sound (by decide), ImageSeen.of_sound sound (by decide)⟩

def smallHeader : Program := ⟨.load, [.write, .read], 0, 4096, 4096, 16, 32⟩

theorem oneSegment_parsed :
    Elf.parse (oneSegment 4096 16 32) = .ok (.ok ⟨.systemV, .riscv, .exec, 4096, [smallHeader]⟩) := by
  decide +kernel

theorem smallHeader_spans {vpn : Nat} : Spans smallHeader vpn ↔ vpn = 1 := by
  simp only [Spans, smallHeader, pageSize_eq]
  omega

theorem smallHeader_wellFormed : WellFormed (oneSegment 4096 16 32) [smallHeader] :=
  ⟨by decide, by decide +kernel, pairwise_singleton _ _⟩

theorem new_task_sees_bss_cleared :
    ∃ (image : Image Sv39Mapper) (after : Machine Bump) (root : Nat),
      createImage bareLayout (pageOffset + 1000) (oneSegment 4096 16 32) (fun _ => 0) bareMachine =
        .ok (.ok (image, after)) ∧
      (rootTable image.page).pageNumber = .ok root ∧
      userByte Sv39Mapper after.mem root 4096 = some 0x7f ∧ userByte Sv39Mapper after.mem root 4112 = some 0 := by
  obtain ⟨image, after, run, test⟩ := exists_of_imagePasses
    (createImage bareLayout (pageOffset + 1000) (oneSegment 4096 16 32) (fun _ => 0) bareMachine)
    (fun image => (rootTable image.page).pageNumber = .ok 0) (by decide +kernel)
  have rooted : (rootTable image.page).pageNumber = .ok 0 := by simpa using test
  have distinct : Distinct PageTableEntry 3 [smallHeader] := by
    refine ⟨by decide, ?_, ?_⟩
    · simp only [forall_mem_singleton, smallHeader_spans]
      rintro vpn rfl
      decide
    · simp only [forall_mem_singleton, smallHeader_spans]
      rintro vpn rfl v rfl _
      rfl
  obtain ⟨alloc, _, file, _, zero⟩ := (new_task_sees_file Bump.soundBlocks).1 _ _ _ _ _ _ _ _ _ (by decide)
    oneSegment_parsed run rooted smallHeader_wellFormed distinct 0 smallHeader rfl
  refine ⟨image, after, 0, run, rooted, (file 0 (by decide)).trans (by decide +kernel), ?_⟩
  exact zero.mpr (fun i _ _ => by simp [loadByte, bareMachine, wordByte]) 16 le_rfl (by decide)

/-- The pages held `0x5555` before: the task reads it behind its 16 file bytes. -/
theorem new_task_reads_leftovers :
    WellFormed (oneSegment 4096 16 32) [smallHeader] ∧ ∃ (image : Image Sv39Mapper) (after : Machine Bump) (root : Nat),
      createImage bareLayout (pageOffset + 1000) (oneSegment 4096 16 32) (fun _ => 0) ⟨Bump.start, fun _ _ => 0x5555#64⟩ =
        .ok (.ok (image, after)) ∧
      (rootTable image.page).pageNumber = .ok root ∧
      userByte Sv39Mapper after.mem root (4096 + 16) = some 0x55 := by
  obtain ⟨made, run, passed⟩ := exists_of_passes (show passes
      (createImage (M := Sv39Mapper) bareLayout (pageOffset + 1000) (oneSegment 4096 16 32) (fun _ => 0)
        (⟨Bump.start, fun _ _ => 0x5555#64⟩ : Machine Bump))
      (fun made => passes made fun (image, after) =>
        (rootTable image.page).pageNumber = .ok 0 &&
          decide (userByte Sv39Mapper after.mem 0 (4096 + 16) = some 0x55)) = true by decide +kernel)
  obtain ⟨⟨image, after⟩, rfl, seen⟩ := exists_of_passes passed
  simp only [Bool.and_eq_true, decide_eq_true_eq] at seen
  exact ⟨smallHeader_wellFormed, image, after, 0, run, seen.1, seen.2⟩

def KernelPage (layout : KernelLayout) (trapStack page : Nat) : Prop :=
  let within (start stop : UInt64) := start.toNat / pageSize ≤ page ∧ page < stop.toNat / pageSize
  within layout.rodataStart layout.rodataEnd ∨ within layout.dataStart layout.dataEnd ∨
    within layout.bssStart layout.bssEnd ∨ within layout.kernelStart layout.kernelEnd ∨
    trapStack ≤ page ∧ page < trapStack + 16

structure KernelMapping (mapping : Mapping) : Prop where
  low : pageOffset ≤ mapping.vpn
  high : mapping.vpn < 2 ^ 52
  frame : mapping.ppn = mapping.vpn - pageOffset
  readable : PageACL.read ∈ mapping.mode
  kernel : PageACL.user ∉ mapping.mode

theorem mem_rangeMappings {start stop : UInt64} {mode : List PageACL}
    (linear : pageOffset ≤ start.toNat / pageSize) (readable : PageACL.read ∈ mode)
    (kernel : PageACL.user ∉ mode) (member : mapping ∈ rangeMappings start stop mode) : KernelMapping mapping := by
  obtain ⟨i, below, rfl⟩ := mem_map.mp member
  have bound := mem_range.mp below
  have high := stop.toNat_lt
  have last : stop.toNat / pageSize < 2 ^ 52 := by
    simp only [pageSize_eq]
    omega
  exact ⟨by dsimp only; omega, by dsimp only; omega, by dsimp only; omega, readable, kernel⟩

theorem mem_kernelMappings {M E A : Type} [Entry E] [Mapper M E] [PageAllocator A] {page : M}
    {layout : KernelLayout} {machine machine' : Machine A}
    (run : mapKernelRegion page layout machine = .ok machine') (member : mapping ∈ kernelMappings layout) :
    KernelMapping mapping := by
  simp only [mapKernelRegion, bind_ok] at run
  obtain ⟨_, rodata, _, data, _, bss, text⟩ := run
  simp only [kernelMappings, mem_append] at member
  rcases member with ((member | member) | member) | member
  · exact mem_rangeMappings (mapRangeWithAlloc_ok rodata).1 (by decide) (by decide) member
  · exact mem_rangeMappings (mapRangeWithAlloc_ok data).1 (by decide) (by decide) member
  · exact mem_rangeMappings (mapRangeWithAlloc_ok bss).1 (by decide) (by decide) member
  · exact mem_rangeMappings (mapRangeWithAlloc_ok text).1 (by decide) (by decide) member

theorem mem_trapMappings {trapStack : Nat} (low : pageOffset ≤ trapStack) (high : trapStack + 16 ≤ 2 ^ 52)
    (member : mapping ∈ trapMappings trapStack) : KernelMapping mapping := by
  obtain ⟨i, below, rfl⟩ := mem_map.mp member
  have bound := mem_range.mp below
  exact ⟨by dsimp only; omega, by dsimp only; omega, by dsimp only; omega, by simp [rw], by simp [rw]⟩

theorem KernelPage.mapped {layout : KernelLayout} {trapStack page : Nat} (kernel : KernelPage layout trapStack page) :
    ∃ mapping ∈ baseMappings layout trapStack, mapping.vpn = page := by
  have range {start stop : UInt64} (mode : List PageACL) (inside : start.toNat / pageSize ≤ page ∧ page < stop.toNat / pageSize) :
      ∃ mapping ∈ rangeMappings start stop mode, mapping.vpn = page :=
    ⟨_, mem_map.mpr ⟨page - start.toNat / pageSize, mem_range.mpr (by omega), rfl⟩, by dsimp only; omega⟩
  simp only [baseMappings, kernelMappings, mem_append]
  rcases kernel with rodata | data | bss | text | trap
  · obtain ⟨mapping, member, same⟩ := range ro rodata
    exact ⟨mapping, Or.inl (Or.inl (Or.inl (Or.inl member))), same⟩
  · obtain ⟨mapping, member, same⟩ := range rw data
    exact ⟨mapping, Or.inl (Or.inl (Or.inl (Or.inr member))), same⟩
  · obtain ⟨mapping, member, same⟩ := range rw bss
    exact ⟨mapping, Or.inl (Or.inl (Or.inr member)), same⟩
  · obtain ⟨mapping, member, same⟩ := range rx text
    exact ⟨mapping, Or.inl (Or.inr member), same⟩
  · exact ⟨_, Or.inr (mem_map.mpr ⟨page - trapStack, mem_range.mpr (by omega), rfl⟩), by dsimp only; omega⟩

/-- Those kernel pages that no segment is congruent to, as far as the page tables look. -/
def KernelKept (M : Type) {E : Type} [Entry E] [Mapper M E] [Mmu E] [AddressSpace E] {A : Type} [PageAllocator A]
    (inUse : A → Nat → Prop) : Prop :=
  ∀ (layout : KernelLayout) (trapStack : Nat) (elfBytes : List UInt8) (beyond : Nat → UInt8) (machine after : Machine A)
    (elf : Elf) (image : Image M) (root : Nat), trapStack + 16 ≤ 2 ^ 52 →
    (∀ page, KernelPage layout trapStack page → inUse machine.alloc page) → Elf.parse elfBytes = .ok (.ok elf) →
    createImage layout trapStack elfBytes beyond machine = .ok (.ok (image, after)) →
    (rootTable image.page).pageNumber = .ok root → (∀ prog ∈ loads elf, BlockFits prog) →
    ∀ page, KernelPage layout trapStack page →
      ((translate M kernelReads after.mem root page = some (page - pageOffset) ∧
          translate M userReads after.mem root page = none) ↔
        ∀ prog ∈ loads elf, ∀ vpn, Spans prog vpn →
          vpn % 2 ^ (9 * level M) ≠ page % 2 ^ (9 * level M))

section Kept

variable {M E A : Type} [Entry E] [Mapper M E] [Mmu E] [AddressSpace E] [LawfulSpace E]
variable {inUse : A → Nat → Prop} {layout : KernelLayout} {trapStack : Nat} {elfBytes : List UInt8}
variable {beyond : Nat → UInt8} {machine after : Machine A} {image : Image M} {segments : List (Program × Nat)} {root : Nat}

theorem Created.user_of_congruent (created : Created inUse layout trapStack elfBytes beyond machine image segments after)
    (rooted : (rootTable image.page).pageNumber = .ok root) {page vpn : Nat}
    (canonical : canonical E page = true) {segment : Program × Nat} (placed : segment ∈ segments)
    (spans : Spans segment.1 vpn) (same : vpn % 2 ^ (9 * level M) = page % 2 ^ (9 * level M)) :
    translate M userReads after.mem root page ≠ none := by
  have covered : (allocOf segment.1 segment.2).Spans vpn := spans
  have recorded : allocOf segment.1 segment.2 ∈ image.pageAllocs := by
    rw [created.allocs]
    exact mem_cons_of_mem _ (mem_map_of_mem placed)
  obtain ⟨last, _, v, _, _, reached⟩ := created.mapped.translate_hit rooted canonical recorded covered same
  rw [reached]
  simp

omit [AddressSpace E] [LawfulSpace E] in
theorem Created.latest_base (created : Created inUse layout trapStack elfBytes beyond machine image segments after)
    (deep : 3 ≤ level M) (linear : pageOffset ≤ image.stack) {page : Nat} (low : pageOffset ≤ page)
    (high : page < 2 ^ 52) (used : inUse machine.alloc page)
    (missed : ∀ segment ∈ segments, ∀ vpn, Spans segment.1 vpn →
      vpn % 2 ^ (9 * level M) ≠ page % 2 ^ (9 * level M)) :
    latest (level M) (baseMappings layout trapStack ++ image.pageAllocs.flatMap allocMappings) page =
      latest (level M) (baseMappings layout trapStack) page := by
  apply latest_of_missed
  intro mapping member same
  obtain ⟨info, recorded, inside⟩ := mem_flatMap.mp member
  have spans := (mem_allocMappings.mp inside).1
  rw [created.allocs] at recorded
  rcases mem_cons.mp recorded with rfl | behind
  · have held : (stackAlloc image.stack).holds mapping.vpn := (stackAlloc_holds linear).mpr spans
    have stack := created.blocks.holds _ (created.allocs ▸ mem_cons_self)
    have below : mapping.vpn < 2 ^ 52 := lt_of_lt_of_le held.2 stack.inside
    have equal := linear_eq_of_mod deep (linear.trans spans.1) below low high same
    exact stack.fresh _ held (equal ▸ used)
  · obtain ⟨segment, placed, rfl⟩ := mem_map.mp behind
    exact missed segment placed _ spans same

theorem KernelKept.of_sound [PageAllocator A] [LawfulEntry E] [LawfulMapper M] (sound : SoundBlocks inUse)
    (wide : 2 ^ 27 ≤ 2 ^ Mmu.fieldBits E) : KernelKept M inUse := by
  intro layout trapStack elfBytes beyond machine after elf image root low reserved parsed run rooted fits page kernel
  obtain ⟨segments, loaded, created⟩ := createImage_created sound wide (by omega) parsed run fits
  obtain ⟨_, _, _, _, _, _, _, mapsKernel, above, _, high, _, _⟩ := createImage_ok parsed run
  have deep := (LawfulMapper.levels (M := M)).1
  have base {mapping : Mapping} (member : mapping ∈ baseMappings layout trapStack) : KernelMapping mapping :=
    (mem_append.mp member).elim (mem_kernelMappings mapsKernel) (mem_trapMappings above low)
  obtain ⟨own, listed, rfl⟩ := kernel.mapped
  have mine := base listed
  have canonical := canonical_linear (E := E) _ mine.low mine.high
  rw [← loaded]
  constructor
  · rintro ⟨_, hidden⟩ prog member vpn spans same
    obtain ⟨segment, placed, rfl⟩ := mem_map.mp member
    exact created.user_of_congruent rooted canonical placed spans same hidden
  · intro missed
    obtain ⟨last, member, same, found⟩ := latest_of_hit (level M) own.vpn [] listed rfl
    have kept := base member
    have equal := linear_eq_of_mod deep kept.low kept.high mine.low mine.high same
    have only := created.latest_base deep high mine.low mine.high (reserved _ kernel) fun segment placed =>
      missed segment.1 (mem_map_of_mem placed)
    rw [nil_append] at found
    rw [created.mapped.translate_eq rooted, created.mapped.translate_eq rooted, if_pos canonical, if_pos canonical, only,
      found, Option.bind_some, Option.bind_some, kernelReads_granted _ kept.readable kept.kernel,
      userReads_granted _ kept.readable, if_pos rfl, kept.frame, equal, if_neg (by simpa using kept.kernel)]
    exact ⟨rfl, rfl⟩

end Kept

/-- A kernel page of a new task is the kernel's own exactly when no segment covers a congruent page. -/
theorem kernel_pages_kept_iff {A : Type} [PageAllocator A] {inUse : A → Nat → Prop} (sound : SoundBlocks inUse) :
    KernelKept Sv39Mapper inUse ∧ KernelKept Arm64Mapper inUse :=
  ⟨KernelKept.of_sound sound (by decide), KernelKept.of_sound sound (by decide)⟩

def trapMachine : Machine Bump :=
  ⟨⟨pageOffset + 16, List.range' pageOffset 16, fun _ member => (mem_range'_1.mp member).2⟩, fun _ _ => 0⟩

theorem kernelPage_bareLayout {trapStack page : Nat} :
    KernelPage bareLayout trapStack page ↔ trapStack ≤ page ∧ page < trapStack + 16 := by
  simp only [KernelPage, bareLayout]
  omega

theorem trap_stack_kept :
    ∃ (image : Image Sv39Mapper) (after : Machine Bump) (root : Nat),
      createImage bareLayout pageOffset (oneSegment 4096 16 32) (fun _ => 0) trapMachine = .ok (.ok (image, after)) ∧
      (rootTable image.page).pageNumber = .ok root ∧
      translate Sv39Mapper kernelReads after.mem root (pageOffset + 3) = some 3 ∧
      translate Sv39Mapper userReads after.mem root (pageOffset + 3) = none := by
  obtain ⟨image, after, run, test⟩ := exists_of_imagePasses
    (createImage bareLayout pageOffset (oneSegment 4096 16 32) (fun _ => 0) trapMachine)
    (fun image => (rootTable image.page).pageNumber = .ok 16) (by decide +kernel)
  have rooted : (rootTable image.page).pageNumber = .ok 16 := by simpa using test
  have reserved : ∀ page, KernelPage bareLayout pageOffset page → page ∈ trapMachine.alloc.used := fun page kernel =>
    mem_range'_1.mpr (kernelPage_bareLayout.mp kernel)
  refine ⟨image, after, 16, run, rooted, ((kernel_pages_kept_iff Bump.soundBlocks).1 _ _ _ _ _ _ _ _ _ (by decide)
    reserved oneSegment_parsed run rooted ?_ _ (kernelPage_bareLayout.mpr (by omega))).mpr ?_⟩
  · exact forall_mem_singleton.mpr (by decide)
  · refine forall_mem_singleton.mpr fun vpn spans => ?_
    obtain rfl := smallHeader_spans.mp spans
    decide

/-- A segment at the address of the trap stack takes its place. -/
theorem trap_stack_replaced :
    ∃ (image : Image Sv39Mapper) (after : Machine Bump) (root : Nat),
      createImage bareLayout pageOffset (oneSegment (pageOffset * pageSize) 16 32) (fun _ => 0) trapMachine =
        .ok (.ok (image, after)) ∧
      (rootTable image.page).pageNumber = .ok root ∧ KernelPage bareLayout pageOffset pageOffset ∧
      translate Sv39Mapper kernelReads after.mem root pageOffset = none ∧
      translate Sv39Mapper userReads after.mem root pageOffset = some 35 := by
  obtain ⟨made, run, passed⟩ := exists_of_passes (show passes
      (createImage (M := Sv39Mapper) bareLayout pageOffset (oneSegment (pageOffset * pageSize) 16 32) (fun _ => 0)
        trapMachine)
      (fun made => passes made fun (image, after) =>
        (rootTable image.page).pageNumber = .ok 16 &&
          decide (translate Sv39Mapper kernelReads after.mem 16 pageOffset = none) &&
          decide (translate Sv39Mapper userReads after.mem 16 pageOffset = some 35)) = true by decide +kernel)
  obtain ⟨⟨image, after⟩, rfl, seen⟩ := exists_of_passes passed
  simp only [Bool.and_eq_true, decide_eq_true_eq] at seen
  exact ⟨image, after, 16, run, seen.1.1, kernelPage_bareLayout.mpr (by omega), seen.1.2, seen.2⟩

end Kernel31.Task
