import Kernel31.Task.Tables

namespace Kernel31.Task

open Page Paging Elf Checked Radix List Mapper

def stackAlloc (stack : Nat) : PageAllocInfo := ⟨stack, stack - pageOffset, userStackPages, [.read, .write]⟩

theorem stackAlloc_holds {stack page : Nat} (linear : pageOffset ≤ stack) :
    (stackAlloc stack).holds page ↔ stack ≤ page ∧ page < stack + 2 ^ 4 := by
  have back : virtPage (stack - pageOffset) = stack := by
    unfold virtPage
    omega
  rw [PageAllocInfo.holds, stackAlloc, back, userStackPages, show Buddy.nextPowerOfTwo 16 = 2 ^ 4 by decide]

section Image

variable {M E A : Type} [Entry E] [Mapper M E] [PageAllocator A] {layout : KernelLayout} {trapStack : Nat}
variable {elfBytes : List UInt8} {beyond : Nat → UInt8} {machine after : Machine A} {elf : Elf} {image : Image M}

theorem createImage_ok (parsed : Elf.parse elfBytes = .ok (.ok elf))
    (run : createImage layout trapStack elfBytes beyond machine = .ok (.ok (image, after))) :
    ∃ begun alloc kernel trap user,
      Mapper.newWithAllocator machine = .ok (image.page, begun) ∧
      PageAllocator.allocPages begun.alloc userStackPages = .ok (.ok image.stack, alloc) ∧
      mapKernelRegion image.page layout { begun with alloc := alloc } = .ok kernel ∧
      pageOffset ≤ trapStack ∧ mapData image.page kernel trapStack (trapStack - pageOffset) 16 = .ok trap ∧
      pageOffset ≤ image.stack ∧
      mapDataU image.page trap image.stack (image.stack - pageOffset) userStackPages = .ok user ∧
      loadSegments image.page elfBytes beyond elf.pHeaders ⟨user, [stackAlloc image.stack], []⟩ =
        .ok ⟨after, image.pageAllocs, image.copies⟩ := by
  simp only [createImage, parsed, ok_bind, bind_ok, Prod.exists] at run
  obtain ⟨page, begun, new, stack, alloc, taken, kernel, mapsKernel, trapFrame, trapped, trap, mapsTrap,
    stackFrame, framed, user, mapsUser, frame, again, loaded, loading, run⟩ := run
  simp only [pure_ok, Except.ok.injEq, Prod.mk.injEq] at run
  obtain ⟨rfl, rfl⟩ := run
  have allocated := allocPages_ok.mp taken
  obtain ⟨low, trapSame⟩ := physPage_ok trapped
  obtain ⟨high, stackSame⟩ := physPage_ok framed
  rw [trapSame] at mapsTrap
  rw [stackSame] at mapsUser
  rw [(physPage_ok again).2] at loading
  exact ⟨begun, alloc, kernel, trap, user, new, allocated, mapsKernel, low, mapsTrap, high, mapsUser, loading⟩

theorem createImage_parsed (run : createImage layout trapStack elfBytes beyond machine = .ok (.ok (image, after))) :
    ∃ elf, Elf.parse elfBytes = .ok (.ok elf) := by
  obtain ⟨result, parsed, run⟩ := bind_ok.mp run
  cases result with
  | error failure => simp [pure_ok] at run
  | ok elf => exact ⟨elf, parsed⟩

theorem createImage_records (parsed : Elf.parse elfBytes = .ok (.ok elf))
    (run : createImage layout trapStack elfBytes beyond machine = .ok (.ok (image, after))) {k : Nat} {prog : Program}
    (found : (loads elf)[k]? = some prog) :
    ∃ block, pageOffset ≤ block ∧ image.pageAllocs[k + 1]? = some (allocOf prog block) ∧
      image.copies[k]? = some (copyOf prog block) := by
  obtain ⟨_, _, _, _, _, _, _, _, _, _, _, _, loading⟩ := createImage_ok parsed run
  obtain ⟨blocks, linear, length, allocs, copies⟩ := loadSegments_records loading
  dsimp only at allocs copies
  have bound : k < blocks.length := length ▸ (List.getElem?_eq_some_iff.mp found).1
  have here : blocks[k]? = some blocks[k] := getElem?_eq_getElem bound
  unfold loads at found
  refine ⟨blocks[k], linear _ (getElem_mem bound), ?_, ?_⟩
  · rw [allocs, singleton_append, getElem?_cons_succ, getElem?_zipWith, here, found]
  · rw [copies, nil_append, getElem?_zipWith, here, found]

variable [Mmu E] [LawfulEntry E] [LawfulMapper M] {inUse : A → Nat → Prop}

structure Created (inUse : A → Nat → Prop) (layout : KernelLayout) (trapStack : Nat) (elfBytes : List UInt8)
    (beyond : Nat → UInt8) (machine : Machine A) (image : Image M) (segments : List (Program × Nat)) (after : Machine A) :
    Prop where
  allocs : image.pageAllocs = stackAlloc image.stack :: placedAllocs segments
  linear : ∀ segment ∈ segments, pageOffset ≤ segment.2
  mapped : Mapped inUse image.page after (baseMappings layout trapStack ++ image.pageAllocs.flatMap allocMappings)
  kept : Extends inUse machine after
  tables : ∀ table, (scheme M).Reachable after.mem (rootTable image.page).page (height M) table →
    ¬ inUse machine.alloc table
  blocks : Blocks M inUse (rootTable image.page).page machine after image.pageAllocs
  copied : ∀ segment ∈ segments, Copied elfBytes beyond machine.mem after.mem segment.1 segment.2

theorem createImage_created (sound : SoundBlocks inUse) (wide : 2 ^ 27 ≤ 2 ^ Mmu.fieldBits E)
    (low : trapStack < 2 ^ 52) (parsed : Elf.parse elfBytes = .ok (.ok elf))
    (run : createImage layout trapStack elfBytes beyond machine = .ok (.ok (image, after)))
    (fits : ∀ prog ∈ loads elf, BlockFits prog) :
    ∃ segments, segments.map Prod.fst = loads elf ∧
      Created inUse layout trapStack elfBytes beyond machine image segments after := by
  obtain ⟨begun, alloc, kernel, trap, user, new, allocated, mapsKernel, _, mapsTrap, high, mapsUser, loading⟩ :=
    createImage_ok parsed run
  have taken : PageAllocator.allocPages begun.alloc (2 ^ 4) = .ok (.ok image.stack, alloc) := allocated
  obtain ⟨unused, inside, used⟩ := sound.block _ _ _ _ taken
  have blank := Represents.new sound.toSoundAllocator new
  have start : Mapped inUse image.page { begun with alloc := alloc } [] :=
    ⟨blank.frame (fun _ _ _ => rfl) fun other held => (used other).mpr (Or.inr held), by simp⟩
  have first : Maps inUse image.page begun [] [] { begun with alloc := alloc } := ⟨start, Builds.alloc sound taken⟩
  have second := first.trans (start.kernel sound wide mapsKernel)
  have third := second.trans (second.mapped.trap sound wide low mapsTrap)
  have stacked := third.mapped.map sound.toSoundAllocator mapsUser
    (by rw [pageOffset_eq, userStackPages]; omega) (by decide)
  have fourth := third.trans stacked
  obtain ⟨segments, loaded, allocs, placed⟩ := fourth.mapped.loadSegments sound wide
    (fun prog member load => fits prog (mem_filter.mpr ⟨member, by simpa using load⟩)) loading
  have holds {other : Nat} (held : (stackAlloc image.stack).holds other) := (stackAlloc_holds high).mp held
  have block : Blocks M inUse (rootTable image.page).page begun { begun with alloc := alloc }
      [stackAlloc image.stack] := by
    refine Blocks.singleton ⟨?_, fun other held => ?_, fun other held => ?_, fun other held reached => ?_⟩
    · rwa [virtPage, stackAlloc, Nat.sub_add_cancel high, userStackPages, show Buddy.nextPowerOfTwo 16 = 2 ^ 4 by decide]
    · exact unused other (holds held).1 (holds held).2
    · exact (used other).mpr (Or.inl (holds held))
    · exact unused other (holds held).1 (holds held).2 (blank.tree.housed other reached).1
  have mapsBase := ((start.kernel sound wide mapsKernel).trans (second.mapped.trap sound wide low mapsTrap)).builds
  have stackBlock := block.append (Blocks.nil _ _) first.builds (mapsBase.trans stacked.builds)
  have begunUsed := (Builds.extends sound.toSoundAllocator new (Builds.refl inUse _ begun)).1.used
  have blocks := (stackBlock.append placed.blocks fourth.builds placed.maps.builds).mono begunUsed
  obtain ⟨kept, tables⟩ := Builds.extends sound.toSoundAllocator new (fourth.builds.trans placed.maps.builds)
  have free := (Builds.extends sound.toSoundAllocator new fourth.builds).1.unused
  dsimp only at allocs
  refine ⟨segments, loaded, ⟨allocs, placed.linear, ?_, kept, tables, ?_, ?_⟩⟩
  · rw [allocs, flatMap_append, flatMap_singleton, ← append_assoc]
    exact placed.maps.mapped
  · rw [allocs]
    exact blocks
  · intro segment member address inside
    have fresh := (placed.blocks.holds _ (mem_map.mpr ⟨segment, member, rfl⟩)).fresh _ inside
    rw [placed.copied segment member address inside, loadByte_congr (free _ fresh)]

end Image

theorem segmentMappings_covers {prog : Program} {vpn : Nat} (block : Nat) (low : prog.vAddr / pageSize ≤ vpn)
    (high : vpn < prog.vAddr / pageSize + (prog.pMemsz + pageSize - 1) / pageSize) :
    ∃ mapping ∈ segmentMappings prog block, mapping.vpn = vpn := by
  refine ⟨_, mem_map.mpr ⟨vpn - prog.vAddr / pageSize, mem_range.mpr (by omega), rfl⟩, ?_⟩
  exact Nat.add_sub_cancel' low

/-- Each `Load` header is loaded safely exactly when it fits, and when all fit every page of every segment is
    translated. -/
def SegmentsLoaded (M : Type) {E : Type} [Entry E] [Mapper M E] [Mmu E] (A : Type) [PageAllocator A] : Prop :=
  ∀ (layout : KernelLayout) (trapStack : Nat) (elfBytes : List UInt8) (beyond : Nat → UInt8) (machine after : Machine A)
    (elf : Elf) (image : Image M), trapStack < 2 ^ 52 → Elf.parse elfBytes = .ok (.ok elf) →
    createImage layout trapStack elfBytes beyond machine = .ok (.ok (image, after)) →
    (∀ k prog, (loads elf)[k]? = some prog → ∃ alloc copy,
      image.pageAllocs[k + 1]? = some alloc ∧ image.copies[k]? = some copy ∧
        (SegmentSafe elfBytes prog alloc copy ↔ HeaderFits elfBytes prog)) ∧
    ((∀ prog ∈ loads elf, HeaderFits elfBytes prog) →
      ∀ frame, (rootTable image.page).pageNumber = .ok frame → ∀ prog ∈ loads elf, ∀ vpn,
        Meets vpn prog.vAddr prog.pMemsz → (walk M after.mem vpn (Mapper.level M - 1) frame).isSome)

theorem SegmentsLoaded.of_sound {M E A : Type} [Entry E] [Mapper M E] [Mmu E] [PageAllocator A] [LawfulEntry E]
    [LawfulMapper M] {inUse : A → Nat → Prop} (sound : SoundBlocks inUse) (wide : 2 ^ 27 ≤ 2 ^ Mmu.fieldBits E) :
    SegmentsLoaded M A := by
  intro layout trapStack elfBytes beyond machine after elf image low parsed run
  refine ⟨?_, ?_⟩
  · intro k prog found
    obtain ⟨block, linear, alloc, copy⟩ := createImage_records parsed run found
    exact ⟨_, _, alloc, copy, segmentSafe_iff linear⟩
  · intro fits frame rooted prog member vpn meets
    obtain ⟨segments, loaded, created⟩ := createImage_created sound wide low parsed run fun prog member =>
      (fits prog member).block
    have mapped := created.mapped
    rw [← loaded] at member
    obtain ⟨⟨_, block⟩, placed, rfl⟩ := mem_map.mp member
    obtain ⟨least, most⟩ := (pages_covered_iff _ _).mpr (fits _ (loaded ▸ member)).memory vpn meets
    obtain ⟨mapping, named, same⟩ := segmentMappings_covers block least most
    rw [mapped.represents.tree.walk_root rooted, mapped.represents.translation mapped.fits, Option.isSome_map]
    rw [← allocMappings_allocOf] at named
    refine latest_isSome (mem_append_right _ (mem_flatMap.mpr ⟨_, ?_, named⟩)) same
    rw [created.allocs]
    exact mem_cons_of_mem _ (mem_map.mpr ⟨_, placed, rfl⟩)

/-- For both mappers, a `Load` header is loaded safely exactly when its sizes fit. -/
theorem segments_safe_iff_fit {A : Type} [PageAllocator A] {inUse : A → Nat → Prop} (sound : SoundBlocks inUse) :
    SegmentsLoaded Sv39Mapper A ∧ SegmentsLoaded Arm64Mapper A :=
  ⟨SegmentsLoaded.of_sound sound (by decide), SegmentsLoaded.of_sound sound (by decide)⟩

def toLeBytes (size value : Nat) : List UInt8 := (List.range size).map fun i => UInt8.ofNat (value / 256 ^ i)

def oneSegment (vAddr filesz memsz : Nat) : List UInt8 :=
  [0x7f, 0x45, 0x4c, 0x46, 2, 1, 1, 0] ++ toLeBytes 8 0 ++ toLeBytes 2 2 ++ toLeBytes 2 0xf3 ++ toLeBytes 4 1 ++
    toLeBytes 8 vAddr ++ toLeBytes 8 64 ++ toLeBytes 8 0 ++ toLeBytes 4 0 ++ toLeBytes 2 64 ++ toLeBytes 2 56 ++
    toLeBytes 2 1 ++ toLeBytes 6 0 ++ toLeBytes 4 1 ++ toLeBytes 4 6 ++ toLeBytes 8 0 ++ toLeBytes 8 vAddr ++
    toLeBytes 8 vAddr ++ toLeBytes 8 filesz ++ toLeBytes 8 memsz ++ toLeBytes 8 4096

def bareLayout : KernelLayout :=
  let origin : UInt64 := 0xffffffc040000000
  ⟨origin, origin, origin, origin, origin, origin, origin, origin⟩

def bareMachine : Machine Bump := ⟨Bump.start, fun _ _ => 0⟩

def imagePasses (run : Exec (Except ElfError (Image Sv39Mapper × Machine Bump))) (test : Image Sv39Mapper → Bool) : Bool :=
  match run with
  | .ok (.ok (image, _)) => test image
  | _ => false

theorem exists_of_imagePasses (run : Exec (Except ElfError (Image Sv39Mapper × Machine Bump)))
    (test : Image Sv39Mapper → Bool) (passes : imagePasses run test = true) :
    ∃ image after, run = .ok (.ok (image, after)) ∧ test image = true := by
  unfold imagePasses at passes
  split at passes
  · exact ⟨_, _, rfl, passes⟩
  · cases passes

theorem one_page_segment_loaded :
    ∃ (image : Image Sv39Mapper) (after : Machine Bump) (alloc : PageAllocInfo) (copy : Copy) (frame : Nat),
      createImage bareLayout (pageOffset + 1000) (oneSegment 4096 16 32) (fun _ => 0) bareMachine =
        .ok (.ok (image, after)) ∧
      image.pageAllocs[1]? = some alloc ∧ image.copies[0]? = some copy ∧
      SegmentSafe (oneSegment 4096 16 32) ⟨.load, [.write, .read], 0, 4096, 4096, 16, 32⟩ alloc copy ∧
      (rootTable image.page).pageNumber = .ok frame ∧ (walk Sv39Mapper after.mem 1 2 frame).isSome := by
  have parsed : Elf.parse (oneSegment 4096 16 32) =
      .ok (.ok ⟨.systemV, .riscv, .exec, 4096, [⟨.load, [.write, .read], 0, 4096, 4096, 16, 32⟩]⟩) := by
    decide +kernel
  obtain ⟨image, after, run, test⟩ := exists_of_imagePasses
    (createImage bareLayout (pageOffset + 1000) (oneSegment 4096 16 32) (fun _ => 0) bareMachine)
    (fun image => (rootTable image.page).pageNumber = .ok 0) (by decide +kernel)
  have rooted : (rootTable image.page).pageNumber = .ok 0 := by simpa using test
  have fits : HeaderFits (oneSegment 4096 16 32) ⟨.load, [.write, .read], 0, 4096, 4096, 16, 32⟩ :=
    ⟨by decide, by decide, by decide⟩
  obtain ⟨records, tables⟩ := (segments_safe_iff_fit Bump.soundBlocks).1 _ _ _ _ _ _ _ _ (by decide) parsed run
  obtain ⟨alloc, copy, recorded, copied, safe⟩ := records 0 _ rfl
  refine ⟨image, after, alloc, copy, 0, run, recorded, copied, safe.mpr fits, rooted, ?_⟩
  exact tables (by simpa [loads] using fits) 0 rooted _ (mem_singleton.mpr rfl) 1 ⟨4096, by decide⟩

/-- The second page stays unmapped, and the copy reads past the end of the file and writes past the block. -/
theorem segment_loaded_past_its_block :
    ∃ (image : Image Sv39Mapper) (after : Machine Bump) (alloc : PageAllocInfo) (copy : Copy),
      createImage bareLayout (pageOffset + 1000) (oneSegment 4095 200 2) (fun _ => 0) bareMachine =
        .ok (.ok (image, after)) ∧
      image.pageAllocs[1]? = some alloc ∧ image.copies[0]? = some copy ∧
      (∃ page, Meets page 4095 2 ∧ ¬ page < alloc.vPage + alloc.vPages) ∧
      (∃ offset, copy.source ≤ offset ∧ offset < copy.source + copy.count ∧ ¬ offset < (oneSegment 4095 200 2).length) ∧
      ∃ address, copy.destination ≤ address ∧ address < copy.destination + copy.count ∧
        ¬ address < (virtPage alloc.pPage + Buddy.nextPowerOfTwo alloc.vPages) * pageSize := by
  obtain ⟨image, after, run, test⟩ := exists_of_imagePasses
    (createImage bareLayout (pageOffset + 1000) (oneSegment 4095 200 2) (fun _ => 0) bareMachine)
    (fun image => image.pageAllocs[1]? = some ⟨0, 20, 1, [.write, .read]⟩ ∧
      image.copies[0]? = some ⟨0, virtPage 20 * pageSize + 4095, 200⟩) (by decide +kernel)
  obtain ⟨recorded, copied⟩ := of_decide_eq_true test
  refine ⟨image, after, _, _, run, recorded, copied, ⟨1, ⟨4096, ?_⟩, ?_⟩, ⟨120, ?_⟩, virtPage 21 * pageSize, ?_⟩
  · decide
  · decide
  · decide
  · decide

end Kernel31.Task
