import Kernel31.Sched.Syscall
import Kernel31.Trap.Context

namespace Kernel31.Trap

open Page Paging Kernel31.Task Sched Checked

/-- What the handlers of an architecture do with a trap frame and with the registers that it does not hold. -/
class TrapArch (C : Type) extends ArchContext C where
  Registers : Type
  number : C → UInt64
  arg0 : C → UInt64
  arg1 : C → UInt64
  arg2 : C → UInt64
  setReturn : C → UInt64 → C
  unameMachine : String
  /-- The frame of a task that traps, and whether it is the kernel. -/
  enter : Bool → Registers → C → C
  /-- The registers of the task that goes on, and whether it is the kernel. -/
  leave : Bool → C → Registers → Registers

structure Cpu (A M C F V : Type) [TrapArch C] where
  kernel : Kernel A M C F
  vfs : V
  registers : TrapArch.Registers C
  active : M

section Handlers

variable {A M E C F V : Type} [Entry E] [Mapper M E] [PageAllocator A] [TrapArch C]

def Cpu.toKernelPt (self : Cpu A M C F V) : Cpu A M C F V := { self with active := self.kernel.kernelPt }

/-- `next_task.page.switch_to()`, after the registers of the next task are set. -/
def Cpu.switchTo (self : Cpu A M C F V) (scheduler : Scheduler M C F) (ctx : C) (nextTask : Task M C F) :
    Cpu A M C F V :=
  { self with
    kernel := { self.kernel with scheduler := scheduler }
    registers := TrapArch.leave nextTask.isKernel ctx self.registers
    active := nextTask.page }

/-- `kill_task` returns what it wrote to the trap frame. -/
def Cpu.killTask (self : Cpu A M C F V) (clock : Nat → Nat) (fuel : Nat) : Exec (C × Cpu A M C F V) := do
  let current ← self.kernel.scheduler.currentTask
  let kernel ← self.kernel.kill clock fuel current.pid
  let nextTask ← kernel.scheduler.currentTask
  pure (nextTask.context, { self with kernel := kernel }.switchTo kernel.scheduler nextTask.context nextTask)

def Cpu.entered (self : Cpu A M C F V) (ctx : C) : Exec C := do
  let current ← self.kernel.scheduler.currentTask
  pure (TrapArch.enter current.isKernel self.registers ctx)

/-- `switch_task` and what follows it in the handlers of timer interrupts and syscalls. -/
def Cpu.switchTask (self : Cpu A M C F V) (clock : Nat → Nat) (fuel : Nat) (ctx : C) : Exec (C × Cpu A M C F V) := do
  let (written, nextTask, scheduler) ← self.kernel.scheduler.switchTask clock fuel ctx
  pure (written, self.switchTo scheduler written nextTask)

def Cpu.taskSwitch (self : Cpu A M C F V) (clock : Nat → Nat) (fuel : Nat) (ctx : C) : Exec (C × Cpu A M C F V) := do
  self.switchTask clock fuel (← self.entered ctx)

variable [Mmu E] [AddressSpace E]

def syscallFork (self : Kernel A M C F) (ctx : C) : Exec (C × Kernel A M C F) := do
  let scheduler ← self.scheduler.saveContext ctx
  let (childPid, self) ← { self with scheduler := scheduler }.fork
  match self.scheduler.tasks childPid with
  | none => throw .unwrapNone
  | some child =>
    let child := { child with context := TrapArch.setReturn child.context 0 }
    pure (TrapArch.setReturn ctx (UInt64.ofNat childPid), { self with scheduler := self.scheduler.setTask childPid child })

variable [Vfs V F]

/-- The value that `dispatch_with_task` returns is put in the frame. -/
def Cpu.dispatch (self : Cpu A M C F V) (now fuel : Nat) (ctx frame : C) : Exec (C × Cpu A M C F V) := do
  let current ← self.kernel.scheduler.currentTask
  let (ret, served) ← dispatchWithTask (TrapArch.unameMachine C) now fuel ⟨current, self.kernel.machine.mem, self.vfs⟩
    (TrapArch.number ctx) (TrapArch.arg0 ctx) (TrapArch.arg1 ctx) (TrapArch.arg2 ctx)
  let scheduler := self.kernel.scheduler.setTask self.kernel.scheduler.currentPid served.task
  let machine := { self.kernel.machine with mem := served.mem }
  let self := { self with kernel := { self.kernel with scheduler := scheduler, machine := machine }, vfs := served.vfs }
  match ret with
  | some ret => pure (TrapArch.setReturn frame ret, self)
  | none => pure (frame, self)

/-- `syscall` up to the call of `kill_task` or `switch_task`, with the frame it has then. -/
def Cpu.syscallBody (self : Cpu A M C F V) (now fuel : Nat) (ctx : C) : Exec (C × Cpu A M C F V) := do
  let (frame, self) ← self.dispatch now fuel ctx (← self.entered ctx)
  if TrapArch.number ctx = SyscallNum.fork then
    let (frame, kernel) ← syscallFork self.kernel frame
    pure (frame, { self with kernel := kernel })
  else pure (frame, self)

def Cpu.syscall (self : Cpu A M C F V) (clock : Nat → Nat) (fuel : Nat) (ctx : C) : Exec (C × Cpu A M C F V) := do
  let (frame, self) ← self.syscallBody (clock 0) fuel ctx
  if TrapArch.number ctx = SyscallNum.exit then self.killTask (fun reading => clock (reading + 1)) fuel
  else self.switchTask (fun reading => clock (reading + 1)) fuel frame

end Handlers

namespace Riscv64

structure Registers where
  supervisor : Bool
  deriving DecidableEq, Repr

instance : TrapArch Context where
  Registers := Registers
  number ctx := ctx.x[16]
  arg0 ctx := ctx.x[9]
  arg1 ctx := ctx.x[10]
  arg2 ctx := ctx.x[11]
  setReturn ctx ret := { ctx with x := ctx.x.set 9 ret }
  unameMachine := "riscv64"
  enter _ _ ctx := ctx
  leave isKernel _ _ := ⟨isKernel⟩

theorem a0_inside : 9 < 31 := by decide

theorem a7_inside : 16 < 31 := by decide

def scauseIllegalIns : UInt64 := 2
def scauseTimerS : UInt64 := 0x8000000000000005
def scauseEcallU : UInt64 := 8
def scauseEcallS : UInt64 := 9

variable {A M E F V : Type} [Entry E] [Mapper M E] [PageAllocator A] [Mmu E] [AddressSpace E] [Vfs V F]

def strapHandler (self : Cpu A M Context F V) (clock : Nat → Nat) (fuel : Nat) (scause : UInt64) (ctx : Context) :
    Exec (Context × Cpu A M Context F V) :=
  if scause = scauseEcallU ∨ scause = scauseEcallS then
    if ctx.epc.toNat + 4 < 2 ^ 64 then
      let ctx := { ctx with epc := ctx.epc + 4 }
      if scause = scauseEcallU then self.toKernelPt.syscall clock fuel ctx else pure (ctx, self)
    else throw .overflow
  else if scause = scauseTimerS then self.toKernelPt.taskSwitch clock fuel ctx
  else if scause = scauseIllegalIns then self.toKernelPt.killTask clock fuel
  else pure (ctx, self)

end Riscv64

namespace Arm64

structure Registers where
  spEl0 : UInt64
  deriving DecidableEq, Repr

instance : TrapArch Context where
  Registers := Registers
  number ctx := ctx.x[8]
  arg0 ctx := ctx.x[0]
  arg1 ctx := ctx.x[1]
  arg2 ctx := ctx.x[2]
  setReturn ctx ret := { ctx with x := ctx.x.set 0 ret }
  unameMachine := "arm64"
  enter isKernel registers ctx := if isKernel then ctx else { ctx with sp := registers.spEl0 }
  leave isKernel ctx registers := if isKernel then registers else ⟨ctx.sp⟩

def esrEcUnkown : UInt64 := 0x00
def esrEcWfi : UInt64 := 0x01
def esrEcSvc64 : UInt64 := 0x15
def esrEcTrappedMsr : UInt64 := 0x18
def esrEcInstAbort : UInt64 := 0x20
def esrEcDataAbort : UInt64 := 0x24
def intidVtimer : UInt64 := 27

variable {A M E F V : Type} [Entry E] [Mapper M E] [PageAllocator A] [Mmu E] [AddressSpace E] [Vfs V F]

def el1SyncTrapHandler (self : Cpu A M Context F V) (clock : Nat → Nat) (fuel : Nat) (esrEl1 : UInt64) (ctx : Context) :
    Exec (Context × Cpu A M Context F V) :=
  let self := self.toKernelPt
  let ec := (esrEl1 >>> 26) &&& 0b111111
  if ec = esrEcSvc64 then self.syscall clock fuel ctx
  else if ec = esrEcUnkown ∨ ec = esrEcWfi ∨ ec = esrEcTrappedMsr ∨ ec = esrEcInstAbort ∨ ec = esrEcDataAbort then
    self.killTask clock fuel
  else pure (ctx, self)

def el1IrqTrapHandler (self : Cpu A M Context F V) (clock : Nat → Nat) (fuel : Nat) (irq : UInt64) (ctx : Context) :
    Exec (Context × Cpu A M Context F V) :=
  let self := self.toKernelPt
  if irq = intidVtimer then self.taskSwitch clock fuel ctx else pure (ctx, self)

end Arm64

end Kernel31.Trap
