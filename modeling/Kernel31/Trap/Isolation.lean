import Kernel31.Sched.ViewRuns
import Kernel31.Trap.Contexts

namespace Kernel31.Trap

open Page Paging Kernel31.Task Sched Checked Mapper Scheduler TrapArch

def Spares {M : Type} (spaces : Nat → Option (Space M)) (pid : Nat) (allocs : List PageAlloc) (buffer : Nat × Nat) : Prop :=
  ∀ places, copyAddresses allocs buffer.2 buffer.1 buffer.2 = .ok places →
    ∀ entry ∈ allocs, Shared entry.info → (∃ place ∈ places, entry.info.holds (place / pageSize)) →
      ∀ other, Holder spaces other entry → other = pid

def frameBuffer {C : Type} [TrapArch C] (ctx : C) : Nat × Nat :=
  destination (unameMachine C) (number ctx) (arg0 ctx) (arg1 ctx) (arg2 ctx)

section Memory

variable {A M E C F V : Type} [Entry E] [Mapper M E] [TrapArch C] {self after : Cpu A M C F V}

variable {clock : Nat → Nat} {fuel : Nat} {ctx written : C}

theorem Cpu.switchTask_mem (run : self.switchTask clock fuel ctx = .ok (written, after)) :
    after.kernel.machine.mem = self.kernel.machine.mem := by
  simp only [Cpu.switchTask, bind_ok, Prod.exists] at run
  obtain ⟨_, _, _, _, run⟩ := run
  obtain ⟨_, rfl⟩ := Prod.mk.inj (pure_ok.mp run)
  rfl

variable [PageAllocator A]

theorem Cpu.killTask_mem (run : self.killTask clock fuel = .ok (written, after)) :
    after.kernel.machine.mem = self.kernel.machine.mem := by
  simp only [Cpu.killTask, bind_ok] at run
  obtain ⟨_, _, killed, kill, _, _, run⟩ := run
  obtain ⟨_, rfl⟩ := Prod.mk.inj (pure_ok.mp run)
  obtain ⟨_, _, _, forget, _, rfl⟩ := Kernel.kill_ok kill
  exact (Kernel.forget_ok forget).2.1

variable [Mmu E] [AddressSpace E] [Vfs V F]

theorem Cpu.syscall_mem (run : self.syscall clock fuel ctx = .ok (written, after)) :
    ∃ frame between, self.syscallBody (clock 0) fuel ctx = .ok (frame, between) ∧
      after.kernel.machine.mem = between.kernel.machine.mem := by
  simp only [Cpu.syscall, bind_ok, Prod.exists] at run
  obtain ⟨frame, between, body, run⟩ := run
  refine ⟨frame, between, body, ?_⟩
  split at run
  · exact Cpu.killTask_mem run
  · exact Cpu.switchTask_mem run

variable [LawfulEntry E] [LawfulMapper M] {inUse : A → Nat → Prop}

theorem syscallFork_kept (sound : SoundFrees inUse) (wide : 2 ^ 27 ≤ 2 ^ Mmu.fieldBits E)
    {before after : Kernel A M C F} (housed : before.Housed inUse) {frame : C}
    (run : syscallFork before ctx = .ok (frame, after)) {page : Nat} (used : inUse before.machine.alloc page) :
    after.machine.mem page = before.machine.mem page := by
  simp only [syscallFork, saveContext, bind_ok, Prod.exists] at run
  obtain ⟨_, ⟨current, found, saved⟩, childPid, forked, fork, run⟩ := run
  obtain rfl := pure_ok.mp saved
  have live := currentTask_ok.mp found
  have touched : Kernel.Housed inUse
      { before with
        scheduler := before.scheduler.setTask before.scheduler.currentPid { current with context := ctx } } :=
    housed.setTask live rfl rfl
  obtain ⟨_, _, _, _, _, same, joins⟩ := touched.fork_joins sound wide fork
  split at run
  · simp [throw_ok] at run
  · obtain ⟨_, rfl⟩ := Prod.mk.inj (pure_ok.mp run)
    -- the tables and the blocks of the child lie on pages that were free
    rw [← joins.kept.kept page used, ← same.machine]

theorem Cpu.syscallBody_mem (sound : SoundFrees inUse) (wide : 2 ^ 27 ≤ 2 ^ Mmu.fieldBits E)
    (housed : self.kernel.Housed inUse) {now : Nat} {frame : C}
    (run : self.syscallBody now fuel ctx = .ok (frame, after)) :
    (∀ page, inUse self.kernel.machine.alloc page → after.kernel.machine.mem page = self.kernel.machine.mem page) ∨
      ∃ current kernelBuf count, self.kernel.scheduler.tasks self.currentPid = some current ∧
        kernelBuf.length = (frameBuffer ctx).2 ∧ copyToUser current.pageAllocs self.kernel.machine.mem (frameBuffer ctx).1
          kernelBuf = .ok (count, after.kernel.machine.mem) := by
  simp only [Cpu.syscallBody, bind_ok, Prod.exists] at run
  obtain ⟨entered, _, written, dispatched, dispatch, run⟩ := run
  obtain ⟨current, ret, served, live, serves, rfl⟩ := Cpu.dispatch_eq dispatch
  split at run
  case isTrue fork =>
    simp only [bind_ok, Prod.exists] at run
    obtain ⟨_, kernel, forks, run⟩ := run
    obtain ⟨_, rfl⟩ := Prod.mk.inj (pure_ok.mp run)
    rw [fork, dispatchWithTask_fork] at serves
    obtain ⟨_, rfl⟩ := Prod.mk.inj (Except.ok.inj serves)
    exact .inl fun page used => syscallFork_kept sound wide (housed.setTask live rfl rfl) forks used
  case isFalse other =>
    obtain ⟨_, rfl⟩ := Prod.mk.inj (pure_ok.mp run)
    rcases (dispatchWithTask_writesTo serves).mem with same | ⟨kernelBuf, count, length, copied⟩
    · exact .inl fun page _ => congrFun same page
    · exact .inr ⟨current, kernelBuf, count, live, length, copied⟩

end Memory

structure Untouched (M : Type) {E : Type} [Entry E] [Mapper M E] [Mmu E] [AddressSpace E] (before after : Memory) (root : Nat)
    (allocs : List PageAlloc) : Prop where
  blocks : ∀ entry ∈ allocs, ∀ page, entry.info.holds page → after page = before page
  bytes : ∀ address, userByte M after root address = userByte M before root address

section Others

variable {A M E C F : Type} [Entry E] [Mapper M E] [Mmu E] {inUse : A → Nat → Prop} {self : Kernel A M C F} {pid other : Nat}
variable {task task' : Sched.Task M C F}

theorem copy_apart (housed : self.Housed inUse) (live : self.scheduler.tasks pid = some task)
    {buffer : Nat × Nat} (spares : Spares self.scheduler.spaces pid task.pageAllocs buffer) {places : List Nat}
    (walked : copyAddresses task.pageAllocs buffer.2 buffer.1 buffer.2 = .ok places) (differs : other ≠ pid)
    {entry : PageAlloc} (holder : Holder self.scheduler.spaces other entry) {place : Nat} (member : place ∈ places) :
    ¬ entry.info.holds (place / pageSize) := by
  intro held
  obtain ⟨own, listed, inside⟩ := copyAddresses_held walked member
  have mine : Holder self.scheduler.spaces pid own := ⟨_, spaces_of_live live, listed⟩
  have same : own = entry := by
    by_contra distinct
    refine housed.spaces.disjoint own entry mine.held holder.held (fun id => distinct ?_) _ inside held
    exact housed.spaces.same own entry mine.held holder.held id
  subst same
  have shared := housed.spaces.unshared pid other own mine holder differs.symm
  exact differs (spares places walked own listed shared ⟨place, member, inside⟩ other holder)

theorem tables_kept (housed : self.Housed inUse) (live : self.scheduler.tasks pid = some task) {mem : Memory}
    (same : ∀ page, (∀ entry, Held self.scheduler.spaces entry → ¬ entry.info.holds page) →
      mem page = self.machine.mem page) : SameTables M self.machine.mem mem (rootTable task.page).page := by
  exact (housed.spaces.sameTables same (spaces_of_live live) :)

variable [AddressSpace E] [LawfulSpace E] {root : Nat}

theorem untouched_of_kept (housed : self.Housed inUse) (live : self.scheduler.tasks pid = some task)
    (some : task.pageAllocs ≠ []) (rooted : (rootTable task.page).pageNumber = .ok root) {mem : Memory}
    (tables : SameTables M self.machine.mem mem (rootTable task.page).page)
    (blocks : ∀ entry ∈ task.pageAllocs, ∀ page, entry.info.holds page → mem page = self.machine.mem page) :
    Untouched M self.machine.mem mem root task.pageAllocs := by
  have mapped := housed.spaces.mapped pid _ (spaces_of_live live) some
  exact ⟨blocks, userByte_kept mapped rooted (fun _ member => user_notMem_base member) tables blocks⟩

end Others

/-- A syscall leaves every other task what it reads, if the read-only or executable blocks of its user buffer are
    the caller's alone. -/
def SyscallsIsolated (M C F V : Type) {E A : Type} [Entry E] [Mapper M E] [PageAllocator A] [TrapArch C] [Mmu E]
    [AddressSpace E] [Vfs V F] (inUse : A → Nat → Prop) : Prop :=
  ∀ (layout : KernelLayout) (kernelPt : M) (machine : Machine A) (start : Kernel A M C F) (self after : Cpu A M C F V)
    (clock : Nat → Nat) (fuel : Nat) (ctx written : C) (current : Sched.Task M C F),
    Tree M machine.mem (rootTable kernelPt).page (inUse machine.alloc) →
    taskInit layout kernelPt machine = .ok start → Relation.ReflTransGen FittingStep start self.kernel →
    self.kernel.scheduler.tasks self.currentPid = some current →
    self.syscall clock fuel ctx = .ok (written, after) →
    Spares self.kernel.scheduler.spaces self.currentPid current.pageAllocs (frameBuffer ctx) →
    ∀ (pid root : Nat) (task : Sched.Task M C F), pid ≠ self.currentPid →
      self.kernel.scheduler.tasks pid = some task → task.pageAllocs ≠ [] →
      (rootTable task.page).pageNumber = .ok root →
      Untouched M self.kernel.machine.mem after.kernel.machine.mem root task.pageAllocs

theorem SyscallsIsolated.of_sound {A M E C F V : Type} [Entry E] [Mapper M E] [PageAllocator A] [TrapArch C] [Mmu E]
    [AddressSpace E] [Vfs V F] [LawfulEntry E] [LawfulMapper M] [LawfulSpace E] {inUse : A → Nat → Prop}
    (sound : SoundFrees inUse) (wide : 2 ^ 27 ≤ 2 ^ Mmu.fieldBits E) : SyscallsIsolated M C F V inUse := by
  intro layout kernelPt machine start self after clock fuel ctx written current tree init run live call spares pid root task
    differs lives some rooted
  have housed := housed_of_run sound wide (taskInit_housed sound.toSoundBlocks tree init) run
  have found := spaces_of_live lives
  have holder {entry : PageAlloc} (member : entry ∈ task.pageAllocs) : Holder self.kernel.scheduler.spaces pid entry :=
    ⟨_, found, member⟩
  obtain ⟨frame, between, body, mem⟩ := Cpu.syscall_mem call
  rw [mem]
  rcases Cpu.syscallBody_mem sound wide housed body with kept | ⟨caller, kernelBuf, count, calls, length, copied⟩
  · refine untouched_of_kept housed lives some rooted (fun table reached index => ?_) fun entry member page held => ?_
    · rw [kept table ((housed.spaces.tree pid _ found).housed table reached).1]
    · exact kept page (housed.spaces.used entry (holder member).held page held)
  · obtain rfl := Option.mem_unique live calls
    rw [copyToUser_eq, length, map_ok] at copied
    obtain ⟨places, walked, same⟩ := copied
    obtain ⟨_, after⟩ := Prod.mk.inj same
    have apart (page : Nat) (off : ∀ place ∈ places, place / pageSize ≠ page) :
        between.kernel.machine.mem page = self.kernel.machine.mem page := by
      rw [← after, storeBytes_page off]
    have tables : SameTables M self.kernel.machine.mem between.kernel.machine.mem (rootTable task.page).page := by
      refine tables_kept housed lives fun page outside => apart page fun place member here => ?_
      obtain ⟨own, listed, inside⟩ := copyAddresses_held walked member
      exact outside own ⟨_, _, spaces_of_live live, listed⟩ (here ▸ inside)
    refine untouched_of_kept housed lives some rooted tables fun entry member page held => ?_
    refine apart page fun place walks here => ?_
    exact copy_apart housed live spares walked differs (holder member) walks (here.symm ▸ held)

instance (info : PageAllocInfo) (page : Nat) : Decidable (info.holds page) := inferInstanceAs (Decidable (_ ∧ _))

def unameFrame (utsPtr : UInt64) : Riscv64.Context :=
  let frame : Riscv64.Context := ArchContext.default
  { frame with x := (frame.x.set 16 SyscallNum.uname Riscv64.a7_inside).set 9 utsPtr Riscv64.a0_inside }

def trapped (kernel : Kernel Bump Sv39Mapper Riscv64.Context Empty) : Cpu Bump Sv39Mapper Riscv64.Context Empty Unit :=
  ⟨kernel, (), ⟨false⟩, kernel.kernelPt⟩

def stackAddr : UInt64 := UInt64.ofNat (virtPage 20 * pageSize)

def sparesShared (allocs : List PageAlloc) (buffer : Nat × Nat) : Bool :=
  passes (copyAddresses allocs buffer.2 buffer.1 buffer.2) fun places => allocs.all fun entry =>
    decide (¬ Shared entry.info) || places.all fun place => ¬ entry.info.holds (place / pageSize)

theorem spares_of_sparesShared {M : Type} {allocs : List PageAlloc} {buffer : Nat × Nat}
    (test : sparesShared allocs buffer = true)
    (spaces : Nat → Option (Space M)) (pid : Nat) : Spares spaces pid allocs buffer := by
  obtain ⟨places, walked, test⟩ := exists_of_passes test
  rintro others again entry member shared ⟨place, walks, held⟩
  obtain rfl := ok_unique walked again
  have off := List.all_eq_true.mp test entry member
  simp only [shared, not_true_eq_false, decide_false, Bool.false_or, List.all_eq_true, decide_eq_true_eq] at off
  exact absurd held (off place walks)

theorem forked_uname :
    ∃ start created after first second parent kernel caller child root,
      CreatedAndForked [stackCall 20] readOnlyFile start created after first second parent kernel ∧
      after.scheduler.tasks (trapped after).currentPid = some caller ∧ after.scheduler.tasks 2 = some child ∧
      (trapped after).currentPid = 1 ∧ child.pageAllocs ≠ [] ∧ (rootTable child.page).pageNumber = .ok root ∧
      sparesShared caller.pageAllocs (frameBuffer (unameFrame stackAddr)) = true ∧
      (∃ written spared, (trapped after).syscall id 1 (unameFrame stackAddr) = .ok (written, spared)) ∧
      ∃ written disturbed, (trapped after).syscall id 1 (unameFrame 0x1000) = .ok (written, disturbed) ∧
        userByte Sv39Mapper after.machine.mem root 0x1000 = some 0x7f ∧
        userByte Sv39Mapper disturbed.kernel.machine.mem root 0x1000 = some 0x33 := by
  obtain ⟨start, created, after, first, second, parent, kernel, made, passed⟩ := exists_of_createAndFork
    (show createAndFork [stackCall 20] readOnlyFile (fun _ after _ =>
      (after.scheduler.tasks (trapped after).currentPid).any fun caller => (after.scheduler.tasks 2).any fun child =>
      decide ((trapped after).currentPid = 1) && !child.pageAllocs.isEmpty &&
      sparesShared caller.pageAllocs (frameBuffer (unameFrame stackAddr)) &&
      passes (rootTable child.page).pageNumber fun root =>
      passes ((trapped after).syscall id 1 (unameFrame stackAddr)) fun _ =>
      passes ((trapped after).syscall id 1 (unameFrame 0x1000)) fun (_, disturbed) =>
        userByte Sv39Mapper after.machine.mem root 0x1000 = some 0x7f ∧
        userByte Sv39Mapper disturbed.kernel.machine.mem root 0x1000 = some 0x33) = true by decide +kernel)
  obtain ⟨caller, calls, passed⟩ := (Option.any_eq_true _ _).mp passed
  obtain ⟨child, lives, passed⟩ := (Option.any_eq_true _ _).mp passed
  simp only [Bool.and_eq_true, decide_eq_true_eq] at passed
  obtain ⟨⟨⟨current, some⟩, spares⟩, passed⟩ := passed
  obtain ⟨root, rooted, passed⟩ := exists_of_passes passed
  obtain ⟨⟨_, spared⟩, sparing, passed⟩ := exists_of_passes passed
  obtain ⟨⟨_, disturbed⟩, disturbing, bytes⟩ := exists_of_passes passed
  exact ⟨start, created, after, first, second, parent, kernel, caller, child, root, made, calls, lives, current,
    by simpa using some, rooted, spares, ⟨_, spared, sparing⟩, _, disturbed, disturbing, of_decide_eq_true bytes⟩

end Kernel31.Trap
