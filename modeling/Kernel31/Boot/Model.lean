import Kernel31.Dtb.Utils
import Kernel31.Vfs.Model

namespace Kernel31.Boot

open Page Paging Dtb
open Elf (fromBeBytes)
open Kernel31.Task (ro rw mapData loadByte)
open Vfs (DevFS VirtualFileSystem pointDev)

/-- What the boot does with an address space, in its order. -/
inductive Event where
  | map (mapping : Mapping)
  | access (addr size : Nat)
  deriving DecidableEq, Repr

def pageCount (size : Nat) : Nat := (size + pageSize - 1) / pageSize

def identity (page pages : Nat) (mode : List PageACL) : List Mapping :=
  (MapCall.mapWithAllocator page page pages mode).mappings

def physByte (mem : Memory) (addr : Nat) : UInt8 :=
  loadByte mem (virtPage (addr / pageSize) * pageSize + addr % pageSize)

def detectTotalsize (mem : Memory) (ptr : Nat) : Nat := fromBeBytes ((List.range' (ptr + 4) 4).map (physByte mem))

section Blob
variable {M E A : Type} [Entry E] [Mapper M E] [PageAllocator A]

def mapRodata (self : M) (machine : Machine A) (vpn ppn pages : Nat) : Exec (Machine A) :=
  Mapper.mapWithAllocator self machine vpn ppn pages ro

/-- `load_dtb` up to the slice of the blob; a blob of no page at all makes the subtraction panic. -/
def mapDtb (kernelPage : M) (machine : Machine A) (dtbAddr : Nat) : Exec (Nat × Machine A × List Event) := do
  let page := dtbAddr >>> pageBits
  let machine ← mapRodata kernelPage machine page page 1
  let dtbSize := detectTotalsize machine.mem dtbAddr
  if pageCount dtbSize = 0 then throw .overflow
  else do
    let machine ← mapRodata kernelPage machine (page + 1) (page + 1) (pageCount dtbSize - 1)
    pure (dtbSize, machine, (identity page 1 ro).map .map ++ .access (dtbAddr + 4) 4 ::
      ((identity (page + 1) (pageCount dtbSize - 1) ro).map .map ++ [.access dtbAddr dtbSize]))

def loadDtb (kernelPage : M) (machine : Machine A) (dtbAddr : Nat) :
    Exec (Except ParseError DeviceTree × Machine A × List Event) := do
  let (dtbSize, machine, events) ← mapDtb kernelPage machine dtbAddr
  let result ← DeviceTree.parse ((List.range' dtbAddr dtbSize).map (physByte machine.mem))
  pure (result, machine, events)

def mapRegisters (pageOf : Nat → Nat) (self : M) (machine : Machine A) (regs : List (Nat × Nat)) : Exec (Machine A) :=
  regs.foldlM (fun machine reg => mapData self machine (pageOf reg.1) (pageOf reg.1) (pageCount reg.2)) machine

end Blob

def compatibleName : List UInt8 := chars ['c', 'o', 'm', 'p', 'a', 't', 'i', 'b', 'l', 'e']
def regName : List UInt8 := chars ['r', 'e', 'g']
def serial0Name : List UInt8 := chars ['s', 'e', 'r', 'i', 'a', 'l', '0']
def aliasesName : List UInt8 := chars ['a', 'l', 'i', 'a', 's', 'e', 's']

section Console

inductive Uart where
  | pl011 (addr : Nat)
  | ns16550 (addr : Nat)
  deriving DecidableEq, Repr

def pl011Name : List UInt8 := chars ['a', 'r', 'm', ',', 'p', 'l', '0', '1', '1']
def ns16550Name : List UInt8 := chars ['n', 's', '1', '6', '5', '5', '0', 'a']
def nameTty0 : List UInt8 := chars ['t', 't', 'y', '0']

def charDevMajor : Nat := 1

/-- What `setup_console` changes. -/
structure Console (A : Type) where
  outputHandler : Option Uart
  charDevs : List Uart
  vfs : VirtualFileSystem DevFS
  machine : Machine A

variable {M E A : Type} [Entry E] [Mapper M E] [PageAllocator A]

def makeTty (vfs : VirtualFileSystem DevFS) (id : Nat) : Exec (VirtualFileSystem DevFS) :=
  match vfs.findMount pointDev with
  | none => throw .unwrapNone
  | some (fsId, _) =>
    match vfs.mountedFs[fsId]? with
    | none => throw .unwrapNone
    | some fs => pure { vfs with mountedFs := vfs.mountedFs.insert fsId (fs.mknod nameTty0 (charDevMajor, id)) }

def setupUart (uart : Nat → Uart) (name : List UInt8) (node : Node) (s : Console A) : Exec (Console A) :=
  match node.getProperty compatibleName with
  | none => pure s
  | some compatible =>
    if checkCompatible compatible name then
      match node.getProperty regName with
      | none => pure s
      | some reg => do
        let regs ← parseReg reg node.addressCells node.sizeCells
        match regs[0]? with
        | none => throw .indexOutOfBounds
        | some (addr, _) => do
          let vfs ← makeTty s.vfs s.charDevs.length
          pure { s with outputHandler := some (uart addr), charDevs := s.charDevs ++ [uart addr], vfs := vfs }
    else pure s

def setupBySerial0Node (kernelPt : M) (node : Node) (s : Console A) : Exec (Console A) := do
  let s ← setupUart .pl011 pl011Name node s
  let s ← setupUart .ns16550 ns16550Name node s
  match node.getProperty regName with
  | none => pure s
  | some reg => do
    let regs ← parseReg reg node.addressCells node.sizeCells
    let machine ← mapRegisters (· / pageSize) kernelPt s.machine regs
    pure { s with machine := machine }

def serial0Alias (node : Node) : Option (List UInt8) :=
  if node.name = aliasesName then node.getProperty serial0Name else none

def setupConsoleLoop (fuel : Nat) (kernelPt : M) (root : Node) : List Node → Console A → Exec (Console A)
  | [], s => pure s
  | node :: nodes, s =>
    if nodeName node.name = serial0Name then setupBySerial0Node kernelPt node s
    else
      match serial0Alias node with
      | some serial0 => do
        match ← nodeByAlias fuel root serial0 with
        | none => throw .unwrapNone
        | some node => setupBySerial0Node kernelPt node s
      | none => setupConsoleLoop fuel kernelPt root nodes s

def setupConsole (fuel : Nat) (kernelPt : M) (dtb : DeviceTree) (s : Console A) : Exec (Console A) :=
  setupConsoleLoop fuel kernelPt dtb.root dtb.root.childNodes s

end Console

section Gic

def cortexA15GicName : List UInt8 :=
  chars ['a', 'r', 'm', ',', 'c', 'o', 'r', 't', 'e', 'x', '-', 'a', '1', '5', '-', 'g', 'i', 'c']
def gic400Name : List UInt8 := chars ['a', 'r', 'm', ',', 'g', 'i', 'c', '-', '4', '0', '0']
def gicV3Name : List UInt8 := chars ['a', 'r', 'm', ',', 'g', 'i', 'c', '-', 'v', '3']

structure GicBases where
  gicdBase : Nat
  giccBase : Nat
  deriving DecidableEq, Repr

def isGic (compatible : List UInt8) : Bool :=
  checkCompatible compatible cortexA15GicName || checkCompatible compatible gic400Name || checkCompatible compatible gicV3Name

def noGic : String := "No compatible GIC node found"

def gicReg (node : Node) : Option (List UInt8) :=
  match node.getProperty compatibleName with
  | none => none
  | some compatible => if isGic compatible then node.getProperty regName else none

def initGicRegs {A : Type} [PageAllocator A] (kernelPt : Arm64Mapper) (node : Node) (machine : Machine A) :
    Exec (Except String GicBases × Machine A) :=
  match gicReg node with
  | none => pure (.error noGic, machine)
  | some reg => do
    let regs ← parseReg reg node.addressCells node.sizeCells
    match regs[0]?, regs[1]? with
    | some (gicd, _), some (gicc, _) => do
      let machine ← mapRegisters (· >>> pageBits) kernelPt machine regs
      pure (.ok ⟨gicd % 2 ^ 32, gicc % 2 ^ 32⟩, machine)
    | _, _ => throw .indexOutOfBounds

end Gic

end Kernel31.Boot
