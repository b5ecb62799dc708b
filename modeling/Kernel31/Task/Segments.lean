import Kernel31.Task.Bytes
import Kernel31.Paging.Frame
import Kernel31.Buddy.Loops

namespace Kernel31.Task

open Page Paging Elf Checked Radix List

def Meets (page start size : Nat) : Prop := ∃ address, start ≤ address ∧ address < start + size ∧ address / pageSize = page

def loads (elf : Elf) : List Program := elf.pHeaders.filter fun prog => prog.pType = .load

/-- The call maps every page of the segment, and the copy stays inside the file and the block of
    `ceil_to_power_2(v_pages)` pages. -/
structure SegmentSafe (elfBytes : List UInt8) (prog : Program) (alloc : PageAllocInfo) (copy : Copy) : Prop where
  maps : ∀ page, Meets page prog.vAddr prog.pMemsz → alloc.vPage ≤ page ∧ page < alloc.vPage + alloc.vPages
  reads : ∀ offset, copy.source ≤ offset → offset < copy.source + copy.count → offset < elfBytes.length
  writes : ∀ address, copy.destination ≤ address → address < copy.destination + copy.count →
    virtPage alloc.pPage * pageSize ≤ address ∧
      address < (virtPage alloc.pPage + Buddy.nextPowerOfTwo alloc.vPages) * pageSize

/-- The sizes of a header fit the pages its memory size alone asks for, and the file. -/
structure HeaderFits (elfBytes : List UInt8) (prog : Program) : Prop where
  memory : prog.pMemsz = 0 ∨ prog.vAddr % pageSize + prog.pMemsz ≤ (prog.pMemsz + pageSize - 1) / pageSize * pageSize
  file : prog.pFilesz = 0 ∨ prog.pOffset + prog.pFilesz ≤ elfBytes.length
  block : prog.pFilesz = 0 ∨ prog.vAddr % pageSize + prog.pFilesz ≤
    Buddy.nextPowerOfTwo ((prog.pMemsz + pageSize - 1) / pageSize) * pageSize

def BlockFits (prog : Program) : Prop :=
  prog.pFilesz = 0 ∨ prog.vAddr % pageSize + prog.pFilesz ≤
    Buddy.nextPowerOfTwo ((prog.pMemsz + pageSize - 1) / pageSize) * pageSize

instance (prog : Program) : Decidable (BlockFits prog) := inferInstanceAs (Decidable (_ ∨ _))

def allocOf (prog : Program) (block : Nat) : PageAllocInfo :=
  ⟨prog.vAddr / pageSize, block - pageOffset, (prog.pMemsz + pageSize - 1) / pageSize, prog.pFlags⟩

def copyOf (prog : Program) (block : Nat) : Copy :=
  ⟨prog.pOffset, block * pageSize + prog.vAddr % pageSize, prog.pFilesz⟩

theorem pages_covered_iff (start size : Nat) :
    (∀ page, Meets page start size →
      start / pageSize ≤ page ∧ page < start / pageSize + (size + pageSize - 1) / pageSize) ↔
      size = 0 ∨ start % pageSize + size ≤ (size + pageSize - 1) / pageSize * pageSize := by
  simp only [pageSize_eq, Meets]
  constructor
  · intro covered
    rcases Nat.eq_zero_or_pos size with empty | positive
    · exact Or.inl empty
    · have last := (covered _ ⟨start + size - 1, by omega, by omega, rfl⟩).2
      right
      omega
  · rintro (rfl | fits) page ⟨address, low, high, rfl⟩
    · omega
    · omega

theorem segmentSafe_iff {elfBytes : List UInt8} {prog : Program} {block : Nat} (linear : pageOffset ≤ block) :
    SegmentSafe elfBytes prog (allocOf prog block) (copyOf prog block) ↔ HeaderFits elfBytes prog := by
  have back : virtPage (block - pageOffset) = block := by
    unfold virtPage
    omega
  constructor
  · rintro ⟨maps, reads, writes⟩
    refine ⟨(pages_covered_iff _ _).mp maps, ?_, ?_⟩
    · rcases Nat.eq_zero_or_pos prog.pFilesz with empty | positive
      · exact Or.inl empty
      · have last := reads (prog.pOffset + prog.pFilesz - 1)
        simp only [copyOf] at last
        omega
    · rcases Nat.eq_zero_or_pos prog.pFilesz with empty | positive
      · exact Or.inl empty
      · have last := (writes (block * pageSize + prog.vAddr % pageSize + prog.pFilesz - 1)
          (by simp only [copyOf]; omega) (by simp only [copyOf]; omega)).2
        simp only [allocOf, back, Nat.add_mul] at last
        right
        omega
  · rintro ⟨memory, file, inside⟩
    refine ⟨(pages_covered_iff _ _).mpr memory, ?_, ?_⟩
    · intro offset low high
      simp only [copyOf] at low high
      omega
    · intro address low high
      simp only [copyOf] at low high
      simp only [allocOf, back, Nat.add_mul]
      omega

section Loop

variable {M E A : Type} [Entry E] [Mapper M E] [PageAllocator A] {page : M} {elfBytes : List UInt8}
variable {beyond : Nat → UInt8} {prog : Program} {s s' : Loading A}

def segmentMode (flags : List Flags) : List PageACL :=
  if Flags.exec ∈ flags then urx else if Flags.write ∈ flags then urw else uro

theorem read_mem_segmentMode (flags : List Flags) : PageACL.read ∈ segmentMode flags := by
  unfold segmentMode
  split
  · decide
  · split <;> decide

theorem mapSegment_eq {machine : Machine A} {flags : List Flags} {vPage pPage vPages : Nat} :
    mapSegment page machine flags vPage pPage vPages =
      Mapper.mapWithAllocator page machine vPage pPage vPages (segmentMode flags) := by
  unfold mapSegment segmentMode
  split
  · rfl
  · split <;> rfl

theorem loadSegment_ok (run : loadSegment page elfBytes beyond prog s = .ok s') :
    ∃ block alloc mapped,
      PageAllocator.allocPages s.machine.alloc (Buddy.nextPowerOfTwo ((prog.pMemsz + pageSize - 1) / pageSize)) =
        .ok (.ok block, alloc) ∧ pageOffset ≤ block ∧
      Mapper.mapWithAllocator page { s.machine with alloc := alloc } (prog.vAddr / pageSize) (block - pageOffset)
        ((prog.pMemsz + pageSize - 1) / pageSize) (segmentMode prog.pFlags) = .ok mapped ∧
      s' =
        { machine := { mapped with mem := (copyOf prog block).run elfBytes beyond mapped.mem }
          pageAllocs := s.pageAllocs ++ [allocOf prog block]
          copies := s.copies ++ [copyOf prog block] } := by
  simp only [loadSegment, bind_ok, Prod.exists] at run
  obtain ⟨count, rounded, block, alloc, taken, pPage, framed, mapped, mapping, run⟩ := run
  obtain ⟨rfl, _⟩ := Buddy.ceilToPower2_ok rounded
  have allocated := allocPages_ok.mp taken
  obtain ⟨linear, same⟩ := physPage_ok framed
  rw [same] at mapping run
  have back : virtPage (block - pageOffset) = block := by
    unfold virtPage
    omega
  have offset : prog.vAddr &&& (pageSize - 1) = prog.vAddr % pageSize :=
    Nat.and_two_pow_sub_one_eq_mod prog.vAddr pageBits
  have number : prog.vAddr >>> pageBits = prog.vAddr / pageSize := Nat.shiftRight_eq_div_pow _ _
  rw [back, offset, number] at run
  rw [number] at mapping
  rw [mapSegment_eq] at mapping
  refine ⟨block, alloc, mapped, allocated, linear, mapping, ?_⟩
  split at run
  · simp [throw_ok] at run
  · split at run
    · simp [throw_ok] at run
    · exact (pure_ok.mp run).symm

theorem loadSegments_records {progs : List Program} (run : loadSegments page elfBytes beyond progs s = .ok s') :
    ∃ blocks : List Nat, (∀ block ∈ blocks, pageOffset ≤ block) ∧
      blocks.length = (progs.filter fun prog => prog.pType = .load).length ∧
      s'.pageAllocs = s.pageAllocs ++ (progs.filter fun prog => prog.pType = .load).zipWith allocOf blocks ∧
      s'.copies = s.copies ++ (progs.filter fun prog => prog.pType = .load).zipWith copyOf blocks := by
  induction progs generalizing s with
  | nil =>
    obtain rfl := pure_ok.mp run
    exact ⟨[], by simp⟩
  | cons prog rest ih =>
    rw [loadSegments] at run
    split at run
    · rename_i load
      obtain ⟨middle, first, run⟩ := bind_ok.mp run
      obtain ⟨block, _, _, _, linear, _, rfl⟩ := loadSegment_ok first
      obtain ⟨blocks, above, length, allocs, copies⟩ := ih run
      refine ⟨block :: blocks, forall_mem_cons.mpr ⟨linear, above⟩, ?_⟩
      rw [filter_cons_of_pos (by simpa using load), allocs, copies]
      simp [length]
    · rename_i other
      rw [filter_cons_of_neg (by simpa using other)]
      exact ih run

end Loop

theorem Copy.store_page (copy : Copy) (bytes : List UInt8) (beyond : Nat → UInt8) (mem : Memory) {count page : Nat}
    (outside : ∀ i, i < count → (copy.destination + i) / pageSize ≠ page) :
    copy.store bytes beyond mem count page = mem page := by
  induction count with
  | zero => rfl
  | succ count ih =>
    rw [Copy.store, storeByte, Scheme.write, Function.update_of_ne (outside count (by omega)).symm]
    exact ih fun i below => outside i (by omega)

end Kernel31.Task
