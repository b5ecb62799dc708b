import Kernel31.Task.Bytes
import Kernel31.Paging.Address
import Kernel31.Library.OrderedSet
import Mathlib.Data.Prod.Lex

namespace Kernel31.Sched

open Function

open Page Paging Elf Kernel31.Task OrderedSet

def kernelPid : Nat := 0
def niceDefault : Int := 0
def niceMax : Int := 19
def niceMin : Int := -20

structure FdTable (F : Type) where
  maxFd : Nat
  fds : Nat → Option F

def FdTable.default {F : Type} : FdTable F := ⟨0, fun _ => none⟩

/-- The `Context` of an architecture: `Context::default()`, and the one `create_from_elf` starts a task with. -/
class ArchContext (C : Type) where
  default : C
  start : (entry sp : UInt64) → C

/-- `Arc<(usize, PhysPage, usize, Vec<PFlags>)>`: which one it is, and what it refers to. -/
structure PageAlloc where
  id : Nat
  info : PageAllocInfo
  deriving DecidableEq, Repr

structure Arcs where
  next : Nat
  strong : Nat → Nat

def Arcs.new (arcs : Arcs) (info : PageAllocInfo) : PageAlloc × Arcs :=
  (⟨arcs.next, info⟩, { next := arcs.next + 1, strong := update arcs.strong arcs.next 1 })

def Arcs.newAll (arcs : Arcs) : List PageAllocInfo → List PageAlloc × Arcs
  | [] => ([], arcs)
  | info :: rest =>
    let (alloc, arcs) := arcs.new info
    let (allocs, arcs) := arcs.newAll rest
    (alloc :: allocs, arcs)

def Arcs.clone (arcs : Arcs) (alloc : PageAlloc) : Arcs :=
  { arcs with strong := update arcs.strong alloc.id (arcs.strong alloc.id + 1) }

def Arcs.drop (arcs : Arcs) (alloc : PageAlloc) : Arcs :=
  { arcs with strong := update arcs.strong alloc.id (arcs.strong alloc.id - 1) }

structure Task (M C F : Type) where
  uid : Nat
  pid : Nat
  ppid : Nat
  page : M
  nice : Int
  context : C
  pageAllocs : List PageAlloc
  nextSchedule : Option Nat
  fds : FdTable F

section Task

variable {M C F : Type}

def Task.renice (self : Task M C F) (nice : Int) : Task M C F :=
  if niceMin ≤ nice ∧ nice ≤ niceMax then { self with nice := nice } else self

def Task.isKernel (self : Task M C F) : Bool := self.pid = kernelPid

def Task.child (self : Task M C F) (pid : Nat) (page : M) (context : C) (pageAllocs : List PageAlloc) : Task M C F :=
  { uid := self.uid
    pid := pid
    ppid := self.pid
    page := page
    nice := self.nice
    context := context
    pageAllocs := pageAllocs
    nextSchedule := none
    fds := FdTable.default }

end Task

/-- `tasks` by pid; `vruntime` holds pairs of a vruntime and a pid. -/
structure Scheduler (M C F : Type) where
  tasks : Nat → Option (Task M C F)
  vruntime : Finset (Nat ×ₗ Nat)
  currentPid : Nat
  maxPid : Nat
  trapStack : Nat

/-- `(task.nice + NICE_MAX) as usize` -/
def timeSlice (nice : Int) : Exec Nat :=
  if nice + niceMax < 2 ^ 63 then pure ((nice + niceMax) % 2 ^ 64).toNat else throw .overflow

section Scheduler

variable {M C F : Type}

def Scheduler.currentTask (self : Scheduler M C F) : Exec (Task M C F) :=
  match self.tasks self.currentPid with
  | some task => pure task
  | none => throw .unwrapNone

def Scheduler.setTask (self : Scheduler M C F) (pid : Nat) (task : Task M C F) : Scheduler M C F :=
  { self with tasks := update self.tasks pid (some task) }

/-- One round of the loop of `schedule` at the time `now`, and whether it ends with a `break`. -/
def Scheduler.round (self : Scheduler M C F) (now : Nat) : Exec (Scheduler M C F × Bool) := do
  match popFirst self.vruntime with
  | none => throw .unwrapNone
  | some (first, rest) =>
    let (vruntime, pid) := ofLex first
    match self.tasks pid with
    | none => throw .unwrapNone
    | some task =>
      let vruntime := vruntime + (← timeSlice task.nice)
      if vruntime < 2 ^ 64 then
        let self := { self with vruntime := insert (toLex (vruntime, pid)) rest, currentPid := pid }
        match task.nextSchedule with
        | some nextSchedule =>
          if nextSchedule ≤ now then pure (self.setTask pid { task with nextSchedule := none }, true)
          else pure (self, false)
        | none => pure (self, true)
      else throw .overflow

/-- `schedule`, with the times that `get_sys_time` returns one after the other. It returns the next task. -/
def Scheduler.schedule (clock : Nat → Nat) : Nat → Scheduler M C F → Exec (Task M C F × Scheduler M C F)
  | 0, _ => throw .recursion
  | fuel + 1, self => do
    let (self, done) ← self.round (clock 0)
    if done then pure (← self.currentTask, self) else schedule (fun reading => clock (reading + 1)) fuel self

def Scheduler.insertFirst (self : Scheduler M C F) (pid : Nat) : Exec (Scheduler M C F) :=
  match popFirst self.vruntime with
  | none => throw .unwrapNone
  | some (first, _) => pure { self with vruntime := insert (toLex ((ofLex first).1, pid)) self.vruntime }

def Scheduler.saveContext (self : Scheduler M C F) (ctx : C) : Exec (Scheduler M C F) := do
  let task ← self.currentTask
  pure (self.setTask self.currentPid { task with context := ctx })

/-- `switch_task` returns what it wrote to the trap frame, too. -/
def Scheduler.switchTask (self : Scheduler M C F) (clock : Nat → Nat) (fuel : Nat) (ctx : C) :
    Exec (C × Task M C F × Scheduler M C F) := do
  let self ← self.saveContext ctx
  let (nextTask, self) ← self.schedule clock fuel
  pure (nextTask.context, nextTask, self)

end Scheduler

/-- The scheduler with the memory it works on. `KERNEL_PT` is the root of `kernelPt`. -/
structure Kernel (A M C F : Type) where
  scheduler : Scheduler M C F
  arcs : Arcs
  machine : Machine A
  layout : KernelLayout
  kernelPt : M

section Kernel

variable {A M E C F : Type} [Entry E] [Mapper M E] [PageAllocator A]

/-- The loop of `Drop for Task` over the blocks of a task. -/
def freeBlocks (arcs : Arcs) : List PageAlloc → A → Exec A
  | [], alloc => pure alloc
  | entry :: rest, alloc =>
    if arcs.strong entry.id = 1 then do
      let alloc ← PageAllocator.freePages alloc (virtPage entry.info.pPage) (← Buddy.ceilToPower2 entry.info.vPages)
      freeBlocks arcs rest alloc
    else freeBlocks arcs rest alloc

/-- A task is dropped: `Drop for Task`, and then its fields. -/
def Kernel.dropTask (self : Kernel A M C F) (task : Task M C F) : Exec (Kernel A M C F) := do
  let machine ← Mapper.destroyWithAllocator task.page self.machine
  let alloc ← freeBlocks self.arcs task.pageAllocs machine.alloc
  pure
    { self with
      machine := { machine with alloc := alloc }
      arcs := task.pageAllocs.foldl Arcs.drop self.arcs }

/-- `tasks.remove(&pid)` -/
def Kernel.removeTask (self : Kernel A M C F) (pid : Nat) : Exec (Kernel A M C F) :=
  match self.scheduler.tasks pid with
  | none => pure self
  | some task =>
    { self with scheduler := { self.scheduler with tasks := update self.scheduler.tasks pid none } }.dropTask task

/-- `tasks.insert(pid, task)`: a task that was there is dropped. -/
def Kernel.insertTask (self : Kernel A M C F) (pid : Nat) (task : Task M C F) : Exec (Kernel A M C F) :=
  let inserted := { self with scheduler := self.scheduler.setTask pid task }
  match self.scheduler.tasks pid with
  | none => pure inserted
  | some old => inserted.dropTask old

/-- `kill` up to the call of `schedule`. -/
def Kernel.forget (self : Kernel A M C F) (pid : Nat) : Exec (Kernel A M C F) := do
  let self ← self.removeTask pid
  pure
    { self with
      scheduler :=
        { self.scheduler with vruntime := self.scheduler.vruntime.filter fun entry => (ofLex entry).2 ≠ pid } }

def Kernel.kill (self : Kernel A M C F) (clock : Nat → Nat) (fuel pid : Nat) : Exec (Kernel A M C F) := do
  let self ← self.forget pid
  let (_, scheduler) ← self.scheduler.schedule clock fuel
  pure { self with scheduler := scheduler }

/-- `self.max_pid += 1; let pid = self.max_pid;` -/
def Kernel.issuePid (self : Kernel A M C F) : Exec (Nat × Kernel A M C F) :=
  let pid := self.scheduler.maxPid + 1
  if pid < 2 ^ 64 then pure (pid, { self with scheduler := { self.scheduler with maxPid := pid } }) else throw .overflow

/-- The end of `create_from_elf` and of `fork`: the new task is entered with the least vruntime. -/
def Kernel.addTask (self : Kernel A M C F) (pid : Nat) (page : M) (context : C) (pageAllocs : List PageAlloc) :
    Exec (Kernel A M C F) := do
  let current ← self.scheduler.currentTask
  let self ← self.insertTask pid (current.child pid page context pageAllocs)
  pure { self with scheduler := ← self.scheduler.insertFirst pid }

def startContext [ArchContext C] (image : Image M) : C :=
  ArchContext.start (UInt64.ofNat image.eEntry) (UInt64.ofNat ((image.stack + userStackPages) <<< pageBits))

def Kernel.createFromElf [ArchContext C] (self : Kernel A M C F) (elfBytes : List UInt8) (beyond : Nat → UInt8) :
    Exec (Except ElfError Nat × Kernel A M C F) := do
  match ← createImage (M := M) self.layout self.scheduler.trapStack elfBytes beyond self.machine with
  | .error error => pure (.error error, self)
  | .ok (image, machine) =>
    let (pageAllocs, arcs) := self.arcs.newAll image.pageAllocs
    let (pid, self) ← { self with machine := machine, arcs := arcs }.issuePid
    pure (.ok pid, ← self.addTask pid image.page (startContext image) pageAllocs)

variable [Mmu E] [AddressSpace E]

def kernelByte (kernelPt : M) (mem : Memory) (address : Nat) : Exec UInt8 := do
  let root ← (Mapper.rootTable kernelPt).pageNumber
  match translate M AddressSpace.kernelReads mem root (address / pageSize) with
  | some frame => pure (loadByte mem (virtPage frame * pageSize + address % pageSize))
  | none => throw .pageFault

/-- `core::ptr::copy` from an address of the kernel page table to one of the linear map. -/
def copyMemory (kernelPt : M) (mem : Memory) (source destination count : Nat) : Exec Memory := do
  let bytes ← (List.range count).mapM fun i => kernelByte kernelPt mem ((source + i) % 2 ^ 64)
  pure ((⟨0, destination, count⟩ : Copy).run bytes (fun _ => 0) mem)

/-- The state of the loop of `fork` over the blocks of the parent. -/
structure Forking (A : Type) where
  machine : Machine A
  arcs : Arcs
  pageAllocs : List PageAlloc

/-- The body of `for alloc in &self.current_task().page_allocs`. -/
def forkAlloc (kernelPt page : M) (entry : PageAlloc) (s : Forking A) : Exec (Forking A) := do
  let vPage := entry.info.vPage
  let vPages := entry.info.vPages
  let flags := entry.info.flags
  if Flags.exec ∈ flags then
    let machine ← mapTextU page s.machine vPage entry.info.pPage vPages
    pure { machine := machine, arcs := s.arcs.clone entry, pageAllocs := s.pageAllocs ++ [entry] }
  else if Flags.write ∈ flags then
    let (block, alloc) ← allocPages s.machine.alloc (← Buddy.ceilToPower2 vPages)
    let pPage ← physPage block
    let (child, arcs) := s.arcs.new ⟨vPage, pPage, vPages, flags⟩
    let machine ← mapDataU page { s.machine with alloc := alloc } vPage pPage vPages
    let mem ← copyMemory kernelPt machine.mem ((vPage <<< pageBits) % 2 ^ 64) ((virtPage pPage <<< pageBits) % 2 ^ 64)
      ((vPages <<< pageBits) % 2 ^ 64)
    pure { machine := { machine with mem := mem }, arcs := arcs, pageAllocs := s.pageAllocs ++ [child] }
  else
    let machine ← mapRodataU page s.machine vPage entry.info.pPage vPages
    pure { machine := machine, arcs := s.arcs.clone entry, pageAllocs := s.pageAllocs ++ [entry] }

def forkAllocs (kernelPt page : M) : List PageAlloc → Forking A → Exec (Forking A)
  | [], s => pure s
  | entry :: rest, s => do forkAllocs kernelPt page rest (← forkAlloc kernelPt page entry s)

def Kernel.fork (self : Kernel A M C F) : Exec (Nat × Kernel A M C F) := do
  let (pid, self) ← self.issuePid
  let (page, machine) ← Mapper.newWithAllocator self.machine
  let machine ← mapKernelRegion page self.layout machine
  let trapStack := self.scheduler.trapStack
  let machine ← mapData page machine trapStack (← physPage trapStack) 16
  let current ← self.scheduler.currentTask
  let forked ← forkAllocs self.kernelPt page current.pageAllocs ⟨machine, self.arcs, []⟩
  let self ← { self with machine := forked.machine, arcs := forked.arcs }.addTask pid page current.context forked.pageAllocs
  pure (pid, self)

/-- `kernel_fork` makes no entry in `vruntime`. -/
def Kernel.kernelFork [ArchContext C] (self : Kernel A M C F) : Exec (Kernel A M C F) := do
  let current ← self.scheduler.currentTask
  let pid := self.scheduler.maxPid + 1
  if pid < 2 ^ 64 then
    let (page, machine) ← Mapper.newWithAllocator self.machine
    let self ← { self with machine := machine }.insertTask pid (current.child pid page ArchContext.default [])
    pure { self with scheduler := { self.scheduler with maxPid := pid } }
  else throw .overflow

end Kernel

def kernelTask {M C F : Type} [ArchContext C] (kernelPt : M) : Task M C F :=
  { uid := 0
    pid := kernelPid
    ppid := 0
    page := kernelPt
    nice := niceDefault
    context := ArchContext.default
    pageAllocs := []
    nextSchedule := none
    fds := FdTable.default }

/-- `task_init`, after `kernel_pt_init` made the kernel page table. -/
def taskInit {A M C F : Type} [PageAllocator A] [ArchContext C] (layout : KernelLayout) (kernelPt : M)
    (machine : Machine A) : Exec (Kernel A M C F) := do
  let (trapStack, alloc) ← allocPages machine.alloc 16
  pure
    { scheduler :=
        { tasks := update (fun _ => none) kernelPid (some (kernelTask kernelPt))
          vruntime := {toLex (0, kernelPid)}
          currentPid := kernelPid
          maxPid := 0
          trapStack := trapStack }
      arcs := ⟨0, fun _ => 0⟩
      machine := { machine with alloc := alloc }
      layout := layout
      kernelPt := kernelPt }

end Kernel31.Sched
