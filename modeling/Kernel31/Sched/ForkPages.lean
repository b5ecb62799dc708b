import Kernel31.Sched.Model

namespace Kernel31.Sched

open Page Paging Elf Kernel31.Task Checked Radix List AddressSpace

section Copy

variable {M E : Type} [Entry E] [Mapper M E] [Mmu E] [AddressSpace E] {kernelPt : M} {mem mem' : Memory}

def kernelFrame (M : Type) {E : Type} [Entry E] [Mapper M E] [Mmu E] [AddressSpace E] (mem : Memory) (root page : Nat) :
    Exec Nat :=
  match translate M kernelReads mem root page with
  | some frame => pure frame
  | none => throw .pageFault

def placePages (mem : Memory) (destination : Nat) (frames : List Nat) : Memory := fun page index =>
  if destination ≤ page ∧ page < destination + frames.length ∧ index < pageSize / 8 then
    mem (virtPage (frames.getD (page - destination) 0)) index
  else mem page index

/-- `core::ptr::copy` of whole pages, with one walk of the kernel page table for each of them. -/
def copyPages (kernelPt : M) (mem : Memory) (source destination count : Nat) : Exec Memory := do
  if source % pageSize = 0 ∧ destination % pageSize = 0 ∧ count % pageSize = 0 then
    let root ← (Mapper.rootTable kernelPt).pageNumber
    let frames ← (range (count / pageSize)).mapM fun i => kernelFrame M mem root ((source / pageSize + i) % 2 ^ 52)
    pure (placePages mem (destination / pageSize) frames)
  else throw .assertion

theorem loadByte_placePages (mem : Memory) (destination : Nat) (frames : List Nat) (address : Nat) :
    loadByte (placePages mem destination frames) address =
      if destination ≤ address / pageSize ∧ address / pageSize < destination + frames.length then
        loadByte mem (virtPage (frames.getD (address / pageSize - destination) 0) * pageSize + address % pageSize)
      else loadByte mem address := by
  have index : address % pageSize / 8 < pageSize / 8 := by
    simp only [pageSize_eq]
    omega
  have small := Nat.mod_lt address (show 0 < pageSize by decide)
  have low : address % pageSize % 8 = address % 8 := Nat.mod_mod_of_dvd address (by decide)
  rw [loadByte, placePages]
  simp only [index, and_true]
  split
  · rw [loadByte_page mem small, low]
  · rfl

theorem copyMemory_of_copyPages {source destination count : Nat}
    (run : copyPages kernelPt mem source destination count = .ok mem') :
    copyMemory kernelPt mem source destination count = .ok mem' := by
  simp only [copyPages] at run
  split at run
  · rename_i aligned
    obtain ⟨source', destination', count'⟩ := aligned
    simp only [bind_ok, pure_ok] at run
    obtain ⟨root, rooted, frames, mapped, rfl⟩ := run
    have walked := mapM_ok mapped
    have length : count / pageSize = frames.length := by simpa using walked.length_eq
    have reads : ∀ i ∈ range count, kernelByte kernelPt mem ((source + i) % 2 ^ 64) =
        .ok (loadByte mem (virtPage (frames.getD (i / pageSize) 0) * pageSize + i % pageSize)) := by
      intro i member
      have below := mem_range.mp member
      have page : i / pageSize < frames.length := by
        rw [← length]
        simp only [pageSize_eq] at *
        omega
      have walk : kernelFrame M mem root ((source / pageSize + i / pageSize) % 2 ^ 52) = .ok frames[i / pageSize] := by
        simpa using walked.get (by simpa [length] using page) page
      have number : (source + i) % 2 ^ 64 / pageSize = (source / pageSize + i / pageSize) % 2 ^ 52 := by
        simp only [pageSize_eq] at *
        omega
      have offset : (source + i) % 2 ^ 64 % pageSize = i % pageSize := by
        simp only [pageSize_eq] at *
        omega
      rw [kernelByte, rooted, ok_bind, number, offset, getD_eq_getElem?_getD,
        getElem?_eq_getElem page, Option.getD_some]
      rw [kernelFrame] at walk
      cases found : Paging.translate M kernelReads mem root ((source / pageSize + i / pageSize) % 2 ^ 52) with
      | none =>
        rw [found] at walk
        cases walk
      | some frame =>
        rw [found] at walk
        obtain rfl := pure_ok.mp walk
        rfl
    rw [copyMemory, mapM_of_ok reads, ok_bind, pure_eq, Except.ok.injEq]
    refine memory_ext (fun address => ?_) fun page index far => ?_
    · have inside : destination ≤ address ∧ address < destination + count ↔
          destination / pageSize ≤ address / pageSize ∧ address / pageSize < destination / pageSize + frames.length := by
        rw [← length]
        simp only [pageSize_eq] at *
        omega
      rw [Copy.run, Copy.loadByte_store, loadByte_placePages]
      simp only [inside]
      split
      · rename_i here
        have below := inside.mpr here
        have page : (address - destination) / pageSize = address / pageSize - destination / pageSize := by
          simp only [pageSize_eq] at *
          omega
        have offset : (address - destination) % pageSize = address % pageSize := by
          simp only [pageSize_eq] at *
          omega
        rw [Nat.zero_add, getElem?_map, getElem?_range (by omega), Option.map_some, Option.getD_some, page, offset]
      · rfl
    · rw [Copy.run, Copy.store_far _ _ _ _ _ _ far, placePages, if_neg (by omega)]
  · simp [throw_ok] at run

end Copy

section Fork

variable {A M E C F : Type} [Entry E] [Mapper M E] [PageAllocator A] [Mmu E] [AddressSpace E]

/-- `fork` with its copy of a block as a parameter. -/
def forkAllocBy (copy : Memory → (source destination count : Nat) → Exec Memory) (page : M) (entry : PageAlloc)
    (s : Forking A) : Exec (Forking A) := do
  let vPage := entry.info.vPage
  let vPages := entry.info.vPages
  let flags := entry.info.flags
  if Flags.exec ∈ flags then
    let machine ← mapTextU page s.machine vPage entry.info.pPage vPages
    pure { machine := machine, arcs := s.arcs.clone entry, pageAllocs := s.pageAllocs ++ [entry] }
  else if Flags.write ∈ flags then
    let (block, alloc) ← allocPages s.machine.alloc (← Buddy.ceilToPower2 vPages)
    let pPage ← physPage block
    let (child, arcs) := s.arcs.new ⟨vPage, pPage, vPages, flags⟩
    let machine ← mapDataU page { s.machine with alloc := alloc } vPage pPage vPages
    let mem ← copy machine.mem ((vPage <<< pageBits) % 2 ^ 64) ((virtPage pPage <<< pageBits) % 2 ^ 64)
      ((vPages <<< pageBits) % 2 ^ 64)
    pure { machine := { machine with mem := mem }, arcs := arcs, pageAllocs := s.pageAllocs ++ [child] }
  else
    let machine ← mapRodataU page s.machine vPage entry.info.pPage vPages
    pure { machine := machine, arcs := s.arcs.clone entry, pageAllocs := s.pageAllocs ++ [entry] }

def Kernel.forkBy (copy : M → Memory → (source destination count : Nat) → Exec Memory) (self : Kernel A M C F) :
    Exec (Nat × Kernel A M C F) := do
  let (pid, self) ← self.issuePid
  let (page, machine) ← Mapper.newWithAllocator self.machine
  let machine ← mapKernelRegion page self.layout machine
  let trapStack := self.scheduler.trapStack
  let machine ← mapData page machine trapStack (← physPage trapStack) 16
  let current ← self.scheduler.currentTask
  let forked ← current.pageAllocs.foldlM (fun s entry => forkAllocBy (copy self.kernelPt) page entry s)
    ⟨machine, self.arcs, []⟩
  let self ← { self with machine := forked.machine, arcs := forked.arcs }.addTask pid page current.context forked.pageAllocs
  pure (pid, self)

theorem forkAllocs_eq (kernelPt page : M) (entries : List PageAlloc) (s : Forking A) :
    forkAllocs kernelPt page entries s =
      entries.foldlM (fun s entry => forkAllocBy (copyMemory kernelPt) page entry s) s := by
  induction entries generalizing s with
  | nil => rfl
  | cons entry rest ih =>
    rw [forkAllocs, foldlM_cons]
    exact bind_congr fun middle => ih middle

theorem Kernel.fork_eq (self : Kernel A M C F) : self.fork = self.forkBy copyMemory := by
  simp only [fork, forkBy, forkAllocs_eq]

variable {copy copy' : Memory → (source destination count : Nat) → Exec Memory}

omit [Mmu E] [AddressSpace E] in
theorem forkAllocBy_mono
    (mono : ∀ mem source destination count mem', copy mem source destination count = .ok mem' →
      copy' mem source destination count = .ok mem') {page : M} {entry : PageAlloc} {s s' : Forking A}
    (run : forkAllocBy copy page entry s = .ok s') : forkAllocBy copy' page entry s = .ok s' := by
  simp only [forkAllocBy] at run ⊢
  split at run
  · rwa [if_pos ‹_›]
  · rw [if_neg ‹_›]
    split at run
    · rw [if_pos ‹_›]
      simp only [bind_ok] at run ⊢
      obtain ⟨count, rounded, taken, allocated, pPage, framed, machine, mapped, mem, copied, run⟩ := run
      exact ⟨count, rounded, taken, allocated, pPage, framed, machine, mapped, mem, mono _ _ _ _ _ copied, run⟩
    · rwa [if_neg ‹_›]

theorem Kernel.fork_of_pages {self : Kernel A M C F} {result : Nat × Kernel A M C F}
    (run : self.forkBy copyPages = .ok result) : self.fork = .ok result := by
  rw [fork_eq]
  simp only [forkBy, bind_ok] at run ⊢
  obtain ⟨issued, issue, made, new, region, mapsRegion, frame, framed, machine, mapsTrap, current, found, forked, loop,
    run⟩ := run
  refine ⟨issued, issue, made, new, region, mapsRegion, frame, framed, machine, mapsTrap, current, found, forked, ?_, run⟩
  exact foldlM_mono (fun _ _ _ step => forkAllocBy_mono (fun _ _ _ _ _ copied => copyMemory_of_copyPages copied) step) loop

end Fork

end Kernel31.Sched
