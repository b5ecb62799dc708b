import Kernel31.Trap.Contexts
import Kernel31.Sched.Selection

namespace Kernel31.Trap

open Page Paging Kernel31.Task Sched Checked Function Scheduler TrapArch

variable {now fuel : Nat} {clock : Nat → Nat}

section Asleep

variable {M C F : Type} {s s' : Scheduler M C F} {pid other wake : Nat}

def Asleep (s : Scheduler M C F) (pid wake : Nat) : Prop :=
  ∃ task, s.tasks pid = some task ∧ task.nextSchedule = some wake

variable (asleep : Asleep s pid wake)
include asleep

theorem Asleep.setTask (task : Sched.Task M C F) (differs : pid ≠ other) : Asleep (s.setTask other task) pid wake := by
  obtain ⟨sleeper, live, sleeps⟩ := asleep
  exact ⟨sleeper, (update_of_ne differs _ _).trans live, sleeps⟩

theorem Asleep.forgotten (differs : pid ≠ other) : Asleep (s.forgotten other) pid wake := by
  obtain ⟨sleeper, live, sleeps⟩ := asleep
  exact ⟨sleeper, (update_of_ne differs _ _).trans live, sleeps⟩

theorem Asleep.adds {current : Sched.Task M C F} {least : Nat} {page : M} {context : C} {pageAllocs : List PageAlloc}
    (fresh : s.tasks (s.maxPid + 1) = none) (adds : s.Adds current least page context pageAllocs s') :
    Asleep s' pid wake := by
  obtain ⟨sleeper, live, sleeps⟩ := asleep
  have differs : pid ≠ s.maxPid + 1 := by
    rintro rfl
    rw [fresh] at live
    cases live
  rw [adds.result]
  exact ⟨sleeper, (update_of_ne differs _ _).trans live, sleeps⟩

theorem Asleep.not_runnable {task : Sched.Task M C F} (live : s.tasks pid = some task) (early : now < wake) :
    ¬ task.Runnable now := by
  obtain ⟨sleeper, found, sleeps⟩ := asleep
  obtain rfl := Option.mem_unique found live
  exact fun runnable => Nat.not_le_of_lt early (runnable wake sleeps)

theorem Asleep.round {done : Bool} (early : now < wake) (run : s.round now = .ok (s', done)) :
    Asleep s' pid wake ∧ (done = true → s'.currentPid ≠ pid) := by
  obtain ⟨vruntime, picked, slice, task, picks, ⟨rfl, runnable, rfl⟩ | ⟨rfl, _, rfl⟩⟩ := Scheduler.round_cases run
  · have differs : pid ≠ picked := by
      rintro rfl
      exact asleep.not_runnable picks.live early runnable
    exact ⟨asleep.setTask _ differs, fun _ => differs.symm⟩
  · obtain ⟨sleeper, live, sleeps⟩ := asleep
    exact ⟨⟨sleeper, by rw [picks.tasks_eq, live], sleeps⟩, nofun⟩

theorem Asleep.schedule {next : Sched.Task M C F} (early : ∀ reading, clock reading < wake)
    (run : s.schedule clock fuel = .ok (next, s')) : Asleep s' pid wake ∧ s'.currentPid ≠ pid := by
  obtain ⟨_, last, reading, kept, round⟩ := Scheduler.schedule_rounds (fun between => Asleep between pid wake)
    (fun before after reading done asleep round => (asleep.round (early reading) round).1) asleep run
  obtain ⟨asleep, passed⟩ := kept.round (early reading) round
  exact ⟨asleep, passed rfl⟩

theorem Asleep.switchTask {ctx written : C} {next : Sched.Task M C F} (early : ∀ reading, clock reading < wake)
    (run : s.switchTask clock fuel ctx = .ok (written, next, s')) : Asleep s' pid wake ∧ s'.currentPid ≠ pid := by
  obtain ⟨current, found, _, schedule⟩ := Scheduler.switchTask_ok run
  refine Asleep.schedule ?_ early schedule
  by_cases here : pid = s.currentPid
  · subst here
    obtain ⟨sleeper, live, sleeps⟩ := asleep
    obtain rfl := Option.mem_unique found live
    exact ⟨_, update_self _ _ _, sleeps⟩
  · exact asleep.setTask _ here

end Asleep

section Handlers

variable {A M E C F V : Type} [Entry E] [Mapper M E] [PageAllocator A] [TrapArch C] [Mmu E] [AddressSpace E]
  {self after : Cpu A M C F V} {pid wake : Nat}

structure Resting (cpu : Cpu A M C F V) (pid wake : Nat) : Prop where
  consistent : Consistent cpu.kernel.scheduler
  asleep : Asleep cpu.kernel.scheduler pid wake
  other : cpu.currentPid ≠ pid

variable {ctx written frame : C}

omit [PageAllocator A] in
theorem Resting.of_switchTask (consistent : Consistent self.kernel.scheduler)
    (asleep : Asleep self.kernel.scheduler pid wake) (early : ∀ reading, clock reading < wake)
    (run : self.switchTask clock fuel ctx = .ok (written, after)) : Resting after pid wake := by
  simp only [Cpu.switchTask, bind_ok, Prod.exists] at run
  obtain ⟨frame, next, scheduler, switch, run⟩ := run
  obtain ⟨_, rfl⟩ := Prod.mk.inj (pure_ok.mp run)
  obtain ⟨asleep, other⟩ := asleep.switchTask early switch
  exact ⟨consistent.toMatched.switchTask switch, asleep, other⟩

theorem Resting.killTask (resting : Resting self pid wake) (early : ∀ reading, clock reading < wake)
    (run : self.killTask clock fuel = .ok (written, after)) : Resting after pid wake := by
  have consistent := (Cpu.killTask_ok resting.consistent run).2.2.consistent resting.consistent
  simp only [Cpu.killTask, bind_ok] at run
  obtain ⟨current, found, killed, kill, next, resumed, run⟩ := run
  obtain ⟨_, rfl⟩ := Prod.mk.inj (pure_ok.mp run)
  have key : current.pid = self.currentPid := resting.consistent.keyed _ _ (currentTask_ok.mp found)
  obtain ⟨forgotten, _, scheduler, forget, schedule, rfl⟩ := Kernel.kill_ok kill
  rw [(Kernel.forget_ok forget).1, key] at schedule
  obtain ⟨asleep, other⟩ := (resting.asleep.forgotten resting.other.symm).schedule early schedule
  exact ⟨consistent, asleep, other⟩

theorem Resting.fork {kernel : Kernel A M C F} (resting : Resting self pid wake)
    (run : syscallFork self.kernel ctx = .ok (frame, kernel)) : Resting { self with kernel := kernel } pid wake := by
  obtain ⟨_, _, current, calls⟩ := syscallFork_ok resting.consistent run
  refine ⟨calls.consistent resting.consistent, ?_, by rw [Cpu.currentPid, current]; exact resting.other⟩
  simp only [syscallFork, Scheduler.saveContext, bind_ok, Prod.exists] at run
  obtain ⟨_, ⟨parent, found, saved⟩, childPid, forked, fork, run⟩ := run
  obtain rfl := pure_ok.mp saved
  have kept : Consistent
      (self.kernel.scheduler.setTask self.kernel.scheduler.currentPid { parent with context := ctx }) :=
    resting.consistent.setTask (currentTask_ok.mp found) rfl
  obtain ⟨rfl, _, _, _, _, ⟨_, adds⟩, _⟩ := Kernel.fork_ok kept.fresh fork
  have asleep := (resting.asleep.setTask { parent with context := ctx } resting.other.symm).adds kept.fresh adds
  split at run
  · simp [throw_ok] at run
  · rename_i child entered
    obtain ⟨_, rfl⟩ := Prod.mk.inj (pure_ok.mp run)
    have differs : pid ≠ self.kernel.scheduler.maxPid + 1 := by
      rintro rfl
      obtain ⟨_, live, _⟩ := resting.asleep
      rw [resting.consistent.fresh] at live
      cases live
    exact asleep.setTask _ differs

variable [Vfs V F]

omit [PageAllocator A] in
theorem Resting.dispatch (resting : Resting self pid wake)
    (run : self.dispatch now fuel ctx frame = .ok (written, after)) : Resting after pid wake := by
  obtain ⟨current, ret, served, live, dispatched, rfl⟩ := Cpu.dispatch_eq run
  obtain ⟨_, _, _, task⟩ := dispatchWithTask_writes dispatched
  have same : served.task.pid = current.pid := by rw [task]
  exact ⟨resting.consistent.setTask live same, resting.asleep.setTask _ resting.other.symm, resting.other⟩

theorem Resting.syscallBody (resting : Resting self pid wake)
    (run : self.syscallBody now fuel ctx = .ok (frame, after)) : Resting after pid wake := by
  simp only [Cpu.syscallBody, bind_ok, Prod.exists] at run
  obtain ⟨entered, _, written, dispatched, dispatch, run⟩ := run
  have rests := resting.dispatch dispatch
  split at run
  · simp only [bind_ok, Prod.exists] at run
    obtain ⟨_, kernel, fork, run⟩ := run
    obtain ⟨_, rfl⟩ := Prod.mk.inj (pure_ok.mp run)
    exact rests.fork fork
  · obtain ⟨_, rfl⟩ := Prod.mk.inj (pure_ok.mp run)
    exact rests

theorem Resting.syscall (resting : Resting self pid wake) (early : ∀ reading, clock reading < wake)
    (run : self.syscall clock fuel ctx = .ok (written, after)) : Resting after pid wake := by
  simp only [Cpu.syscall, bind_ok, Prod.exists] at run
  obtain ⟨frame, between, body, run⟩ := run
  have rests := resting.syscallBody body
  split at run
  · exact rests.killTask (fun reading => early (reading + 1)) run
  · exact .of_switchTask rests.consistent rests.asleep (fun reading => early (reading + 1)) run

/-- A trap whose handler reads only times before `wake`, or what happens between two traps. -/
inductive EarlyStep (wake : Nat) : Cpu A M C F V → Cpu A M C F V → Prop where
  | timer {self after : Cpu A M C F V} {clock : Nat → Nat} {fuel : Nat} {ctx written : C}
      (early : ∀ reading, clock reading < wake) (run : self.taskSwitch clock fuel ctx = .ok (written, after)) :
      EarlyStep wake self after
  | kill {self after : Cpu A M C F V} {clock : Nat → Nat} {fuel : Nat} {written : C}
      (early : ∀ reading, clock reading < wake) (run : self.killTask clock fuel = .ok (written, after)) :
      EarlyStep wake self after
  | syscall {self after : Cpu A M C F V} {clock : Nat → Nat} {fuel : Nat} {ctx written : C}
      (early : ∀ reading, clock reading < wake) (run : self.syscall clock fuel ctx = .ok (written, after)) :
      EarlyStep wake self after
  | create {self : Cpu A M C F V} {kernel : Kernel A M C F} {elfBytes : List UInt8} {beyond : Nat → UInt8} {pid : Nat}
      (run : self.kernel.createFromElf elfBytes beyond = .ok (.ok pid, kernel)) :
      EarlyStep wake self { self with kernel := kernel }
  | between {self : Cpu A M C F V} (registers : TrapArch.Registers C) (active : M) (vfs : V) (mem : Memory) :
      EarlyStep wake self
        { self with
          kernel := { self.kernel with machine := { self.kernel.machine with mem := mem } }
          registers := registers
          active := active
          vfs := vfs }

theorem EarlyStep.resting (step : EarlyStep wake self after) (resting : Resting self pid wake) :
    Resting after pid wake := by
  cases step with
  | timer early run =>
    simp only [Cpu.taskSwitch, bind_ok] at run
    obtain ⟨entered, _, run⟩ := run
    exact .of_switchTask resting.consistent resting.asleep early run
  | kill early run => exact resting.killTask early run
  | syscall early run => exact resting.syscall early run
  | create run =>
    obtain ⟨_, _, _, _, ⟨_, _, adds⟩, _⟩ := Kernel.createFromElf_ok resting.consistent.fresh run
    refine ⟨resting.consistent.adds adds, resting.asleep.adds resting.consistent.fresh adds, ?_⟩
    rw [Cpu.currentPid, adds.result]
    exact resting.other
  | between => exact ⟨resting.consistent, resting.asleep, resting.other⟩

omit [PageAllocator A] in
theorem Cpu.dispatch_sleep {current : Sched.Task M C F} (number : number ctx = SyscallNum.sleep)
    (live : self.kernel.scheduler.tasks self.currentPid = some current) :
    self.dispatch now fuel ctx frame =
      if now + (arg0 ctx).toNat < 2 ^ 64 then
        .ok (frame,
          { self with
            kernel :=
              { self.kernel with
                scheduler := self.kernel.scheduler.setTask self.currentPid
                  { current with nextSchedule := some (now + (arg0 ctx).toNat) } } })
      else .error .overflow := by
  have found : self.kernel.scheduler.currentTask = .ok current := currentTask_ok.mpr live
  simp only [Cpu.dispatch, found, ok_bind, number, dispatchWithTask_sleep]
  split
  · rfl
  · rfl

/-- The sleep syscall returns if and only if the wake-up time fits 64 bits; then the task is not returned while all
    times read lie before it. -/
theorem sleeper_returned_late {ctx : C} (consistent : Consistent self.kernel.scheduler)
    (number : number ctx = SyscallNum.sleep) :
    (∀ now fuel, (∃ frame between, self.syscallBody now fuel ctx = .ok (frame, between)) ↔
      now + (arg0 ctx).toNat < 2 ^ 64) ∧
    ∀ (clock : Nat → Nat) (fuel : Nat) (written : C) (after later : Cpu A M C F V),
      self.syscall clock fuel ctx = .ok (written, after) →
      (∀ reading, clock (reading + 1) < clock 0 + (arg0 ctx).toNat) →
      Relation.ReflTransGen (EarlyStep (clock 0 + (arg0 ctx).toNat)) after later →
      later.currentPid ≠ self.currentPid := by
  obtain ⟨current, live⟩ := consistent.current
  have other : SyscallNum.sleep ≠ SyscallNum.fork := by decide
  have entered : self.entered ctx = .ok (enter current.isKernel self.registers ctx) := by
    rw [Cpu.entered, currentTask_ok.mpr live, ok_bind, pure_eq]
  have body (now fuel : Nat) :
      self.syscallBody now fuel ctx = self.dispatch now fuel ctx (enter current.isKernel self.registers ctx) := by
    simp only [Cpu.syscallBody, entered, ok_bind, number, if_neg other]
    exact bind_pure _
  refine ⟨fun now fuel => ?_, fun clock fuel written after later run early steps => ?_⟩
  · rw [body, Cpu.dispatch_sleep number live]
    split
    · rename_i fits
      exact ⟨fun _ => fits, fun _ => ⟨_, _, rfl⟩⟩
    · rename_i large
      exact ⟨by rintro ⟨_, _, ⟨⟩⟩, fun fits => absurd fits large⟩
  · simp only [Cpu.syscall, body, bind_ok, Prod.exists, number, if_neg (by decide : SyscallNum.sleep ≠ SyscallNum.exit)] at run
    obtain ⟨frame, between, dispatch, run⟩ := run
    rw [Cpu.dispatch_sleep number live] at dispatch
    split at dispatch
    · obtain ⟨_, rfl⟩ := Prod.mk.inj (Except.ok.inj dispatch)
      have kept : Consistent (self.kernel.scheduler.setTask self.currentPid
          { current with nextSchedule := some (clock 0 + (arg0 ctx).toNat) }) := consistent.setTask live rfl
      have start := Resting.of_switchTask kept ⟨_, update_self _ _ _, rfl⟩ early run
      exact (Runs.preserved (fun cpu => Resting cpu self.currentPid _) (fun _ _ resting step => step.resting resting)
        start steps).other
    · cases dispatch

end Handlers

def twoTasks : Cpu Bump Sv39Mapper Riscv64.Context Empty Unit :=
  { kernel :=
      { scheduler := pair (kernelTask ⟨⟨0⟩⟩) { kernelTask ⟨⟨0⟩⟩ with pid := 1 } 0 0
        arcs := ⟨0, fun _ => 0⟩
        machine := bareMachine
        layout := bareLayout
        kernelPt := ⟨⟨0⟩⟩ }
    vfs := ()
    registers := ⟨true⟩
    active := ⟨⟨0⟩⟩ }

def sleepFrame (timestamp : UInt64) : Riscv64.Context :=
  { (ArchContext.default : Riscv64.Context) with
    x := ((ArchContext.default : Riscv64.Context).x.set 16 SyscallNum.sleep Riscv64.a7_inside).set 9 timestamp Riscv64.a0_inside }

theorem twoTasks_consistent : Consistent twoTasks.kernel.scheduler := ⟨pair_matched rfl rfl, kernelTask ⟨⟨0⟩⟩, rfl⟩

theorem sleeper_passed_over :
    ∃ written after, twoTasks.syscall (fun _ => 0) 2 (sleepFrame 10) = .ok (written, after) ∧ after.currentPid ≠ 0 := by
  obtain ⟨⟨written, after⟩, run, _⟩ := exists_of_passes
    (show passes (twoTasks.syscall (fun _ => 0) 2 (sleepFrame 10)) (fun _ => true) = true by decide +kernel)
  have late := (sleeper_returned_late twoTasks_consistent (by decide : number (sleepFrame 10) = SyscallNum.sleep)).2
  exact ⟨written, after, run, late (fun _ => 0) 2 written after after run (fun _ => by decide) .refl⟩

theorem sleep_overflows : twoTasks.syscallBody 1 1 (sleepFrame 0xffffffffffffffff) = .error .overflow := rfl

end Kernel31.Trap
