import Kernel31.Elf.Parse
import Kernel31.Buddy.Model
import Kernel31.Paging.Model

namespace Kernel31.Task

open Page Paging Elf Mapper

def userStackPages : Nat := 16

/-- The symbols of the linker script that bound the kernel's sections. -/
structure KernelLayout where
  rodataStart : UInt64
  rodataEnd : UInt64
  dataStart : UInt64
  dataEnd : UInt64
  bssStart : UInt64
  bssEnd : UInt64
  kernelStart : UInt64
  kernelEnd : UInt64
  deriving DecidableEq, Repr

/-- `PhysAddr::from(VirtualAddress)`: the subtraction panics on underflow. -/
def physAddr (virtualAddress : Nat) : Exec Nat :=
  if virtualAddress < virtAddr - phyAddr then throw .overflow else pure (virtualAddress - (virtAddr - phyAddr))

def ro : List PageACL := [.read]
def rw : List PageACL := [.read, .write]
def rx : List PageACL := [.read, .execute]
def uro : List PageACL := [.user, .read]
def urw : List PageACL := [.user, .read, .write]
def urx : List PageACL := [.user, .read, .execute]

section Machine

variable {A : Type} [PageAllocator A]

variable {M E : Type} [Entry E] [Mapper M E]

def mapData (self : M) (machine : Machine A) (vpn ppn pages : Nat) : Exec (Machine A) :=
  mapWithAllocator self machine vpn ppn pages rw

def mapTextU (self : M) (machine : Machine A) (vpn ppn pages : Nat) : Exec (Machine A) :=
  mapWithAllocator self machine vpn ppn pages urx

def mapRodataU (self : M) (machine : Machine A) (vpn ppn pages : Nat) : Exec (Machine A) :=
  mapWithAllocator self machine vpn ppn pages uro

def mapDataU (self : M) (machine : Machine A) (vpn ppn pages : Nat) : Exec (Machine A) :=
  mapWithAllocator self machine vpn ppn pages urw

/-- The macro `map_range_with_alloc!`. -/
def mapRangeWithAlloc (self : M) (machine : Machine A) (start stop : UInt64) (mode : List PageACL) :
    Exec (Machine A) := do
  let frame ← physAddr start.toNat
  if stop.toNat >>> pageBits < start.toNat >>> pageBits then throw .overflow
  else
    mapWithAllocator self machine (start.toNat >>> pageBits) (frame >>> pageBits)
      (stop.toNat >>> pageBits - start.toNat >>> pageBits) mode

def mapKernelRegion (self : M) (layout : KernelLayout) (machine : Machine A) : Exec (Machine A) := do
  let machine ← mapRangeWithAlloc self machine layout.rodataStart layout.rodataEnd ro
  let machine ← mapRangeWithAlloc self machine layout.dataStart layout.dataEnd rw
  let machine ← mapRangeWithAlloc self machine layout.bssStart layout.bssEnd rw
  mapRangeWithAlloc self machine layout.kernelStart layout.kernelEnd rx

end Machine

/-- A word with its byte `place` replaced, the lowest byte first. -/
def setByte (word : BitVec 64) (place : Nat) (byte : UInt8) : BitVec 64 :=
  (word &&& ~~~(0xff#64 <<< (8 * place))) ||| (byte.toBitVec.setWidth 64 <<< (8 * place))

def storeByte (mem : Memory) (address : Nat) (byte : UInt8) : Memory :=
  let page := address / pageSize
  let index := address % pageSize / 8
  Radix.Scheme.write mem page index (setByte (mem page index) (address % 8) byte)

/-- One `core::ptr::copy`: the offset in the slice, the address written to and the number of bytes. -/
structure Copy where
  source : Nat
  destination : Nat
  count : Nat
  deriving DecidableEq, Repr

/-- Past the end of the slice it reads what memory holds there. -/
def Copy.store (copy : Copy) (bytes : List UInt8) (beyond : Nat → UInt8) (mem : Memory) : Nat → Memory
  | 0 => mem
  | count + 1 =>
    let byte := bytes[copy.source + count]?.getD (beyond (copy.source + count))
    storeByte (copy.store bytes beyond mem count) (copy.destination + count) byte

def Copy.run (copy : Copy) (bytes : List UInt8) (beyond : Nat → UInt8) (mem : Memory) : Memory :=
  copy.store bytes beyond mem copy.count

structure PageAllocInfo where
  vPage : Nat
  pPage : Nat
  vPages : Nat
  flags : List Flags
  deriving DecidableEq, Repr

/-- Memory, `page_allocs`, and the copies made so far. -/
structure Loading (A : Type) where
  machine : Machine A
  pageAllocs : List PageAllocInfo
  copies : List Copy

section Load

variable {M E A : Type} [Entry E] [Mapper M E] [PageAllocator A]

/-- The choice of the mapping function by the flags of a segment. -/
def mapSegment (page : M) (machine : Machine A) (flags : List Flags) (vPage pPage vPages : Nat) : Exec (Machine A) :=
  if Flags.exec ∈ flags then mapTextU page machine vPage pPage vPages
  else if Flags.write ∈ flags then mapDataU page machine vPage pPage vPages
  else mapRodataU page machine vPage pPage vPages

/-- The body of `if let PType::Load = prog.p_type`. -/
def loadSegment (page : M) (elfBytes : List UInt8) (beyond : Nat → UInt8) (prog : Program) (s : Loading A) :
    Exec (Loading A) := do
  let vPage := prog.vAddr >>> pageBits
  let vPages := (prog.pMemsz + pageSize - 1) / pageSize
  let (block, alloc) ← allocPages s.machine.alloc (← Buddy.ceilToPower2 vPages)
  let pPage ← physPage block
  let machine ← mapSegment page { s.machine with alloc := alloc } prog.pFlags vPage pPage vPages
  let pOff := prog.vAddr &&& (pageSize - 1)
  if elfBytes.length < prog.pOffset then throw .indexOutOfBounds
  else if 2 ^ 64 ≤ virtPage pPage * pageSize + pOff then throw .overflow
  else
    let copy : Copy := ⟨prog.pOffset, virtPage pPage * pageSize + pOff, prog.pFilesz⟩
    pure
      { machine := { machine with mem := copy.run elfBytes beyond machine.mem }
        pageAllocs := s.pageAllocs ++ [⟨vPage, pPage, vPages, prog.pFlags⟩]
        copies := s.copies ++ [copy] }

def loadSegments (page : M) (elfBytes : List UInt8) (beyond : Nat → UInt8) :
    List Program → Loading A → Exec (Loading A)
  | [], s => pure s
  | prog :: rest, s => do
    if prog.pType = .load then loadSegments page elfBytes beyond rest (← loadSegment page elfBytes beyond prog s)
    else loadSegments page elfBytes beyond rest s

/-- With the copies that filled its memory. -/
structure Image (M : Type) where
  page : M
  stack : Nat
  eEntry : Nat
  pageAllocs : List PageAllocInfo
  copies : List Copy

/-- `create_from_elf` up to the context of the new task. -/
def createImage (layout : KernelLayout) (trapStack : Nat) (elfBytes : List UInt8) (beyond : Nat → UInt8)
    (machine : Machine A) : Exec (Except ElfError (Image M × Machine A)) := do
  match ← Elf.parse elfBytes with
  | .error error => pure (.error error)
  | .ok elf =>
    let (page, machine) ← newWithAllocator machine
    let (stack, alloc) ← allocPages machine.alloc userStackPages
    let machine ← mapKernelRegion page layout { machine with alloc := alloc }
    let machine ← mapData page machine trapStack (← physPage trapStack) 16
    let machine ← mapDataU page machine stack (← physPage stack) userStackPages
    let stackAlloc : PageAllocInfo := ⟨stack, ← physPage stack, userStackPages, [.read, .write]⟩
    let loaded ← loadSegments page elfBytes beyond elf.pHeaders ⟨machine, [stackAlloc], []⟩
    pure (.ok (⟨page, stack, elf.eEntry, loaded.pageAllocs, loaded.copies⟩, loaded.machine))

end Load

end Kernel31.Task
