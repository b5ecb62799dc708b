import Kernel31.Boot.Model

namespace Kernel31.Boot

open Page Paging Dtb Checked List Mapper MapCall Bump
open Kernel31.Task (ro rw mapData)

variable {regs : List (Nat × Nat)} {node : Node} {mappings : List Mapping}

section Ranges

def Meets (addr size page : Nat) : Prop := page * pageSize < addr + size ∧ addr < (page + 1) * pageSize

instance (addr size page : Nat) : Decidable (Meets addr size page) := inferInstanceAs (Decidable (_ ∧ _))

def Covers (mappings : List Mapping) (addr size : Nat) : Prop :=
  ∀ page, Meets addr size page → ∃ mapping ∈ mappings, mapping.vpn = page ∧ mapping.ppn = page

def Counted (addr size : Nat) : Prop := addr % pageSize + size ≤ pageSize * pageCount size

instance (addr size : Nat) : Decidable (Counted addr size) := inferInstanceAs (Decidable (_ ≤ _))

theorem meets_iff {addr size : Nat} (positive : 0 < size) (page : Nat) :
    Meets addr size page ↔ (addr / pageSize ≤ page ∧ page < addr / pageSize + pageCount size) ∨
      (page = addr / pageSize + pageCount size ∧ ¬ Counted addr size) := by
  simp only [Meets, Counted, pageCount, pageSize_eq]
  omega

theorem mem_identity_iff {first pages page : Nat} {mode : List PageACL} :
    (∃ mapping ∈ identity first pages mode, mapping.vpn = page ∧ mapping.ppn = page) ↔
      first ≤ page ∧ page < first + pages := by
  simp only [identity, mappings, mem_map, mem_range]
  constructor
  · rintro ⟨_, ⟨i, below, rfl⟩, same, -⟩
    change first + i = page at same
    omega
  · rintro ⟨above, below⟩
    have same : first + (page - first) = page := by omega
    exact ⟨_, ⟨page - first, by omega, rfl⟩, same, same⟩

theorem identity_append (first pages more : Nat) (mode : List PageACL) :
    identity first pages mode ++ identity (first + pages) more mode = identity first (pages + more) mode := by
  simp only [identity, mappings, range_add, map_append, map_map, Function.comp_def, Nat.add_assoc]

theorem identity_covers_iff {addr size : Nat} (positive : 0 < size) (mode : List PageACL) :
    Covers (identity (addr / pageSize) (pageCount size) mode) addr size ↔ Counted addr size := by
  simp only [Covers, mem_identity_iff, meets_iff positive]
  constructor
  · intro covers
    by_contra short
    have last := covers _ (Or.inr ⟨rfl, short⟩)
    omega
  · rintro counted page (inside | ⟨-, short⟩)
    · exact inside
    · exact absurd counted short

theorem header_covers_iff (addr : Nat) (mode : List PageACL) :
    Covers (identity (addr / pageSize) 1 mode) (addr + 4) 4 ↔ addr % pageSize + 8 ≤ pageSize := by
  simp only [Covers, mem_identity_iff, Meets, pageSize_eq]
  constructor
  · intro covers
    have last := covers ((addr + 7) / 4096) ⟨by omega, by omega⟩
    omega
  · intro inside page meets
    omega

def registerPages (regs : List (Nat × Nat)) : List Mapping :=
  regs.flatMap fun reg => identity (reg.1 / pageSize) (pageCount reg.2) rw

def Reached (regs : List (Nat × Nat)) (block : Nat × Nat) : Prop :=
  Counted block.1 block.2 ∨ ∃ reg ∈ regs, reg.1 / pageSize ≤ block.1 / pageSize + pageCount block.2 ∧
    block.1 / pageSize + pageCount block.2 < reg.1 / pageSize + pageCount reg.2

theorem mem_registerPages_iff {page : Nat} :
    (∃ mapping ∈ registerPages regs, mapping.vpn = page ∧ mapping.ppn = page) ↔
      ∃ reg ∈ regs, reg.1 / pageSize ≤ page ∧ page < reg.1 / pageSize + pageCount reg.2 := by
  simp only [← @mem_identity_iff _ _ _ rw, registerPages, mem_flatMap]
  constructor
  · rintro ⟨mapping, ⟨reg, member, mem⟩, same⟩
    exact ⟨reg, member, mapping, mem, same⟩
  · rintro ⟨reg, member, mapping, mem, same⟩
    exact ⟨mapping, ⟨reg, member, mem⟩, same⟩

theorem registerPages_covers_iff {block : Nat × Nat} (member : block ∈ regs) (positive : 0 < block.2) :
    Covers (registerPages regs) block.1 block.2 ↔ Reached regs block := by
  simp only [Covers, mem_registerPages_iff, meets_iff positive]
  constructor
  · intro covers
    by_cases counted : Counted block.1 block.2
    · exact Or.inl counted
    · exact Or.inr (covers _ (Or.inr ⟨rfl, counted⟩))
  · rintro reached page (inside | ⟨rfl, short⟩)
    · exact ⟨block, member, inside⟩
    · exact reached.resolve_left short

def MappedFirst : List Mapping → List Event → Prop
  | _, [] => True
  | made, .map mapping :: events => MappedFirst (made ++ [mapping]) events
  | made, .access addr size :: events => Covers made addr size ∧ MappedFirst made events

def mapped : List Event → List Mapping
  | [] => []
  | .map mapping :: events => mapping :: mapped events
  | .access _ _ :: events => mapped events

theorem mappedFirst_map (made mappings : List Mapping) (events : List Event) :
    MappedFirst made (mappings.map .map ++ events) ↔ MappedFirst (made ++ mappings) events := by
  induction mappings generalizing made with
  | nil => rw [map_nil, nil_append, append_nil]
  | cons mapping mappings ih => rw [map_cons, cons_append, MappedFirst, ih, append_assoc]; rfl

theorem mapped_map (mappings : List Mapping) (events : List Event) :
    mapped (mappings.map .map ++ events) = mappings ++ mapped events := by
  induction mappings with
  | nil => rfl
  | cons mapping mappings ih => rw [map_cons, cons_append, mapped, ih]; rfl

end Ranges

theorem setupUart_machine {A : Type} {uart : Nat → Uart} {name : List UInt8} {s s' : Console A}
    (run : setupUart uart name node s = .ok s') : s'.machine = s.machine := by
  rw [setupUart] at run
  split at run
  · rw [← pure_ok.mp run]
  split at run
  case isFalse => rw [← pure_ok.mp run]
  split at run
  · rw [← pure_ok.mp run]
  obtain ⟨regs, -, run⟩ := bind_ok.mp run
  split at run
  · cases run
  obtain ⟨vfs, -, run⟩ := bind_ok.mp run
  rw [← pure_ok.mp run]

theorem setupConsole_ok {M E A : Type} [Entry E] [Mapper M E] [PageAllocator A] {fuel : Nat} {kernelPt : M} {root : Node}
    {nodes : List Node} {s s' : Console A} (run : setupConsoleLoop fuel kernelPt root nodes s = .ok s') :
    s' = s ∨ ∃ node, setupBySerial0Node kernelPt node s = .ok s' := by
  induction nodes with
  | nil => exact Or.inl (pure_ok.mp run).symm
  | cons node nodes ih =>
    rw [setupConsoleLoop] at run
    split at run
    · exact Or.inr ⟨node, run⟩
    split at run
    · obtain ⟨found, -, run⟩ := bind_ok.mp run
      split at run
      · cases run
      case h_2 node => exact Or.inr ⟨node, run⟩
    · exact ih run

section Runs
variable {M E A : Type} [Entry E] [Mapper M E] [PageAllocator A] [Mmu E] [LawfulEntry E] [LawfulMapper M]
variable {inUse : A → Nat → Prop} (sound : SoundAllocator inUse)
include sound

variable {machine machine' : Machine A}

theorem mapDtb_spec {kernelPage : M} {dtbAddr dtbSize : Nat} {events : List Event}
    (represents : Represents inUse kernelPage machine mappings)
    (run : mapDtb kernelPage machine dtbAddr = .ok (dtbSize, machine', events)) :
    Represents inUse kernelPage machine' (mappings ++ mapped events) ∧ .access dtbAddr dtbSize ∈ events ∧
      (MappedFirst [] events ↔ dtbAddr % pageSize + 8 ≤ pageSize ∧ Counted dtbAddr dtbSize) := by
  simp only [mapDtb, bind_ok, Nat.shiftRight_eq_div_pow, show 2 ^ pageBits = pageSize from rfl] at run
  obtain ⟨middle, first, run⟩ := run
  split at run
  · cases run
  case isFalse counted =>
    obtain ⟨last, second, run⟩ := bind_ok.mp run
    obtain ⟨⟩ := pure_ok.mp run
    generalize detectTotalsize middle.mem dtbAddr = dtbSize at counted second ⊢
    have positive : 0 < dtbSize := by
      rcases Nat.eq_zero_or_pos dtbSize with rfl | positive
      · exact absurd rfl counted
      · exact positive
    have pages : identity (dtbAddr / pageSize) 1 ro ++ identity (dtbAddr / pageSize + 1) (pageCount dtbSize - 1) ro =
        identity (dtbAddr / pageSize) (pageCount dtbSize) ro := by
      rw [identity_append, Nat.add_sub_cancel' (Nat.pos_of_ne_zero counted)]
    refine ⟨?_, by simp, ?_⟩
    · rw [mapped_map, mapped, mapped_map, mapped, mapped, append_nil, ← append_assoc]
      exact (represents.mapWithAllocator sound first).mapWithAllocator sound second
    · rw [mappedFirst_map, MappedFirst, mappedFirst_map, MappedFirst, MappedFirst, nil_append, pages, and_true,
        header_covers_iff, identity_covers_iff positive]

theorem mapRegisters_spec {pageOf : Nat → Nat} (page : ∀ addr, pageOf addr = addr / pageSize) {self : M}
    (represents : Represents inUse self machine mappings)
    (run : mapRegisters pageOf self machine regs = .ok machine') :
    Represents inUse self machine' (mappings ++ registerPages regs) := by
  induction regs generalizing machine mappings with
  | nil =>
    obtain rfl := pure_ok.mp run
    rwa [registerPages, flatMap_nil, append_nil]
  | cons reg regs ih =>
    rw [mapRegisters, foldlM_cons] at run
    obtain ⟨middle, first, run⟩ := bind_ok.mp run
    rw [page] at first
    rw [registerPages, flatMap_cons, ← append_assoc]
    exact ih (represents.mapWithAllocator sound first) run

def RegistersMapped (inUse : A → Nat → Prop) (self : M) (machine : Machine A) (mappings : List Mapping)
    (regs : List (Nat × Nat)) : Prop :=
  Represents inUse self machine (mappings ++ registerPages regs) ∧
    ∀ block ∈ regs, 0 < block.2 → (Covers (registerPages regs) block.1 block.2 ↔ Reached regs block)

theorem setupBySerial0Node_spec {kernelPt : M} {s s' : Console A}
    (represents : Represents inUse kernelPt s.machine mappings)
    (run : setupBySerial0Node kernelPt node s = .ok s') {reg : List UInt8}
    (found : node.getProperty regName = some reg) :
    ∃ regs, parseReg reg node.addressCells node.sizeCells = .ok regs ∧
      RegistersMapped inUse kernelPt s'.machine mappings regs := by
  simp only [setupBySerial0Node, bind_ok] at run
  obtain ⟨first, pl011, second, ns16550, run⟩ := run
  rw [found] at run
  simp only [bind_ok, pure_ok] at run
  obtain ⟨regs, parsed, machine, loop, rfl⟩ := run
  rw [setupUart_machine ns16550, setupUart_machine pl011] at loop
  exact ⟨regs, parsed, mapRegisters_spec sound (fun _ => rfl) represents loop, fun block => registerPages_covers_iff⟩

theorem initGicRegs_spec {kernelPt : Arm64Mapper} {bases : GicBases}
    (represents : Represents inUse kernelPt machine mappings)
    (run : initGicRegs kernelPt node machine = .ok (.ok bases, machine')) :
    ∃ reg regs, node.getProperty regName = some reg ∧ parseReg reg node.addressCells node.sizeCells = .ok regs ∧
      RegistersMapped inUse kernelPt machine' mappings regs := by
  rw [initGicRegs] at run
  split at run
  · cases run
  case h_2 reg found =>
    obtain ⟨regs, parsed, run⟩ := bind_ok.mp run
    split at run
    · obtain ⟨after, loop, run⟩ := bind_ok.mp run
      simp only [pure_ok, Prod.mk.injEq] at run
      obtain ⟨-, rfl⟩ := run
      have shift (addr : Nat) : addr >>> pageBits = addr / pageSize := Nat.shiftRight_eq_div_pow addr pageBits
      refine ⟨reg, regs, ?_, parsed, mapRegisters_spec sound shift represents loop, fun block => registerPages_covers_iff⟩
      rw [gicReg] at found
      split at found
      · cases found
      split at found
      · exact found
      · cases found
    · cases run

end Runs

def blobMemory (index : Nat) : Memory := fun page place => if page = virtPage 5 ∧ place = index then 0x1000000000000000 else 0

theorem blob_run {index dtbAddr : Nat}
    (played : passes (newWithAllocator (M := Sv39Mapper) ⟨start, blobMemory index⟩) (fun (kernelPage, begun) =>
      passes (mapDtb kernelPage begun dtbAddr) fun (dtbSize, _) => decide (dtbSize = 16)) = true) :
    ∃ kernelPage begun machine' events,
      newWithAllocator (M := Sv39Mapper) ⟨start, blobMemory index⟩ = .ok (kernelPage, begun) ∧
      mapDtb kernelPage begun dtbAddr = .ok (16, machine', events) := by
  obtain ⟨⟨kernelPage, begun⟩, new, played⟩ := exists_of_passes played
  obtain ⟨⟨_, machine', events⟩, run, test⟩ := exists_of_passes played
  obtain rfl := of_decide_eq_true test
  exact ⟨kernelPage, begun, machine', events, new, run⟩

def serialTree : DeviceTree where
  version := 17
  root := { Node.named [] with childNodes := [{ Node.named serial0Name with
    progs := [⟨compatibleName, ns16550Name ++ [0]⟩, ⟨regName, encodeReg 2 2 [(0x10000ff8, 16)]⟩]
    sizeCells := 2 }] }

end Kernel31.Boot
