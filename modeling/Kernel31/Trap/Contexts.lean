import Kernel31.Trap.Handlers
import Kernel31.Sched.Vruntime

namespace Kernel31.Trap

open Page Paging Kernel31.Task Sched Checked Function Relation Cpu Scheduler TrapArch

variable {pid fuel now : Nat} {clock : Nat → Nat}

section Contexts

variable {M C F : Type} {s s' : Scheduler M C F}

def contextOf (s : Scheduler M C F) (pid : Nat) : Option C := (s.tasks pid).map Sched.Task.context

theorem contextOf_of_live {task : Sched.Task M C F} (live : s.tasks pid = some task) :
    contextOf s pid = some task.context := by
  rw [contextOf, live, Option.map_some]

theorem contextOf_setTask (s : Scheduler M C F) (pid : Nat) (task : Sched.Task M C F) :
    contextOf (s.setTask pid task) = update (contextOf s) pid (some task.context) := by
  funext other
  by_cases here : other = pid
  · subst here
    simp [contextOf, setTask]
  · simp [contextOf, setTask, here]

theorem contextOf_setTask_same {old new : Sched.Task M C F} (live : s.tasks pid = some old)
    (same : new.context = old.context) : contextOf (s.setTask pid new) = contextOf s := by
  rw [contextOf_setTask, same, update_eq_self_iff, contextOf_of_live live]

theorem contextOf_forgotten (s : Scheduler M C F) (pid : Nat) :
    contextOf (s.forgotten pid) = update (contextOf s) pid none := by
  funext other
  by_cases here : other = pid
  · subst here
    simp [contextOf, forgotten]
  · simp [contextOf, forgotten, here]

theorem contextOf_adds {current : Sched.Task M C F} {least : Nat} {page : M} {context : C}
    {pageAllocs : List PageAlloc} (adds : s.Adds current least page context pageAllocs s') :
    contextOf s' = update (contextOf s) (s.maxPid + 1) (some context) := by
  obtain rfl := adds.result
  funext other
  by_cases here : other = s.maxPid + 1
  · subst here
    simp [contextOf, Sched.Task.child]
  · simp [contextOf, here]

theorem contextOf_schedule {next : Sched.Task M C F} (run : s.schedule clock fuel = .ok (next, s')) :
    contextOf s' = contextOf s ∧ contextOf s' s'.currentPid = some next.context := by
  obtain ⟨same, current⟩ := schedule_rule (fun between => contextOf between = contextOf s)
    (fun before after now done same round => by
      obtain ⟨vruntime, pid, slice, task, nextSchedule, picks, rfl⟩ := round_ok round
      rw [← same]
      exact contextOf_setTask_same picks.live rfl) rfl run
  exact ⟨same, contextOf_of_live current⟩

end Contexts

section Handlers

variable {A M E C F V : Type} [Entry E] [Mapper M E] [PageAllocator A] [TrapArch C] [Mmu E] [AddressSpace E]
  {self after : Cpu A M C F V}

def Calls : Kernel A M C F → Kernel A M C F → Prop :=
  ReflTransGen fun before after => ∃ op result, op ≠ Op.kernelFork ∧ Step before op result after

variable {before : Kernel A M C F} {ctx written frame : C}

theorem Step.calls {after : Kernel A M C F} {op : Op C F} {result : Option Nat}
    (step : Step before op result after) (other : op ≠ .kernelFork) : Calls before after :=
  .single ⟨op, result, other, step⟩

theorem Calls.consistent {after : Kernel A M C F} (calls : Calls before after)
    (consistent : Consistent before.scheduler) : Consistent after.scheduler :=
  Runs.preserved (fun kernel : Kernel A M C F => Consistent kernel.scheduler)
    (fun _ _ kept ⟨_, _, other, step⟩ => step.consistent kept other) consistent calls

def Cpu.contexts (self : Cpu A M C F V) : Nat → Option C := contextOf self.kernel.scheduler

def Cpu.currentPid (self : Cpu A M C F V) : Nat := self.kernel.scheduler.currentPid

def Cpu.nextPid (self : Cpu A M C F V) : Nat := self.kernel.scheduler.maxPid + 1

theorem Cpu.switchTask_ok (run : self.switchTask clock fuel ctx = .ok (written, after)) :
    after.contexts = update self.contexts self.currentPid (some ctx) ∧
      after.contexts after.currentPid = some written ∧ Calls self.kernel after.kernel := by
  simp only [Cpu.switchTask, bind_ok, pure_ok, Prod.exists] at run
  obtain ⟨frame, next, scheduler, switch, ⟨⟩⟩ := run
  obtain ⟨current, found, rfl, schedule⟩ := switchTask_ok switch
  obtain ⟨same, here⟩ := contextOf_schedule schedule
  rw [contextOf_setTask] at same
  exact ⟨same, here, Step.calls (.switchTask switch) nofun⟩

theorem Cpu.killTask_ok (consistent : Consistent self.kernel.scheduler)
    (run : self.killTask clock fuel = .ok (written, after)) :
    after.contexts = update self.contexts self.currentPid none ∧
      after.contexts after.currentPid = some written ∧ Calls self.kernel after.kernel := by
  simp only [Cpu.killTask, bind_ok, pure_ok] at run
  obtain ⟨current, found, killed, kill, next, resumed, ⟨⟩⟩ := run
  have pid : current.pid = self.currentPid := consistent.keyed _ _ (currentTask_ok.mp found)
  rw [pid] at kill
  obtain ⟨forgotten, other, scheduler, forget, schedule, rfl⟩ := Kernel.kill_ok kill
  obtain ⟨same, _⟩ := contextOf_schedule schedule
  rw [(Kernel.forget_ok forget).1, contextOf_forgotten] at same
  exact ⟨same, contextOf_of_live (currentTask_ok.mp resumed), Step.calls (.kill kill) nofun⟩

theorem syscallFork_ok {after : Kernel A M C F} (consistent : Consistent before.scheduler)
    (run : syscallFork before ctx = .ok (frame, after)) :
    frame = setReturn ctx (UInt64.ofNat (before.scheduler.maxPid + 1)) ∧
      contextOf after.scheduler =
        update (update (contextOf before.scheduler) before.scheduler.currentPid (some ctx))
          (before.scheduler.maxPid + 1) (some (setReturn ctx 0)) ∧
      after.scheduler.currentPid = before.scheduler.currentPid ∧ Calls before after := by
  simp only [syscallFork, saveContext, bind_ok, Prod.exists] at run
  obtain ⟨_, ⟨current, found, saved⟩, childPid, forked, fork, run⟩ := run
  obtain rfl := pure_ok.mp saved
  have live := currentTask_ok.mp found
  have touched : Step before (.touch before.scheduler.currentPid ctx current.nextSchedule current.fds) none
      { before with
        scheduler := before.scheduler.setTask before.scheduler.currentPid { current with context := ctx } } :=
    .touch live
  have kept := touched.consistent consistent (by simp)
  obtain ⟨rfl, parent, page, forking, forks, ⟨least, adds⟩, _⟩ := Kernel.fork_ok kept.fresh fork
  obtain rfl : parent = { current with context := ctx } := by
    have same := forks.parent
    simp only [setTask, update_self, Option.some.injEq] at same
    exact same.symm
  split at run
  · simp [throw_ok] at run
  · rename_i child entered
    obtain ⟨⟩ := pure_ok.mp run
    have copied : child.context = ctx := by
      have same := contextOf_of_live entered
      rw [contextOf_adds adds] at same
      simpa using same.symm
    refine ⟨rfl, ?_, ?_, ?_⟩
    · rw [contextOf_setTask, contextOf_adds adds, contextOf_setTask, copied]
      exact update_idem _ _ _
    · exact adds.result ▸ rfl
    · have forks : Calls _ forked := Step.calls (.fork fork) (by simp)
      exact ((Step.calls touched (by simp)).trans forks).trans (Step.calls (.touch entered) (by simp))

omit [Mmu E] [AddressSpace E] [Entry E] [Mapper M E] in
theorem taskInit_contexts {layout : KernelLayout} {kernelPt : M} {machine : Machine A}
    (run : taskInit layout kernelPt machine = .ok self.kernel) (other : pid ≠ self.currentPid) :
    self.contexts pid = none := by
  cases live : self.kernel.scheduler.tasks pid with
  | none => rw [Cpu.contexts, contextOf, live, Option.map_none]
  | some task =>
    obtain ⟨trapStack, alloc, _, _, _, _, scheduler⟩ := taskInit_ok run
    rw [Cpu.currentPid, scheduler, (taskInit_only run live).1] at other
    exact absurd rfl other

variable [Vfs V F]

omit [PageAllocator A] in
theorem Cpu.dispatch_eq (run : self.dispatch now fuel ctx frame = .ok (written, after)) :
    ∃ current ret served, self.kernel.scheduler.tasks self.kernel.scheduler.currentPid = some current ∧
      dispatchWithTask (unameMachine C) now fuel ⟨current, self.kernel.machine.mem, self.vfs⟩
        (number ctx) (arg0 ctx) (arg1 ctx) (arg2 ctx) = .ok (ret, served) ∧
      after =
        { self with
          kernel :=
            { self.kernel with
              scheduler := self.kernel.scheduler.setTask self.kernel.scheduler.currentPid served.task
              machine := { self.kernel.machine with mem := served.mem } }
          vfs := served.vfs } := by
  simp only [Cpu.dispatch, bind_ok, Prod.exists] at run
  obtain ⟨current, found, ret, served, dispatched, run⟩ := run
  refine ⟨current, ret, served, currentTask_ok.mp found, dispatched, ?_⟩
  cases ret with
  | none | some => exact (Prod.mk.inj (pure_ok.mp run)).2.symm

theorem Cpu.dispatch_ok (run : self.dispatch now fuel ctx frame = .ok (written, after)) :
    after.contexts = self.contexts ∧ after.currentPid = self.currentPid ∧ after.nextPid = self.nextPid ∧
      Calls self.kernel after.kernel := by
  obtain ⟨current, ret, served, live, dispatched, rfl⟩ := Cpu.dispatch_eq run
  obtain ⟨mem, nextSchedule, fds, task⟩ := dispatchWithTask_writes dispatched
  dsimp only at mem task
  rw [task]
  refine ⟨contextOf_setTask_same live rfl, rfl, rfl, ?_⟩
  have written : Calls self.kernel { self.kernel with machine := { self.kernel.machine with mem := served.mem } } := by
    rcases mem with mem | ⟨userAddr, kernelBuf, count, copied⟩
    · rw [mem]
      exact .refl
    · exact Step.calls (.copyToUser live copied) nofun
  exact written.trans (Step.calls (.touch live) nofun)

omit [PageAllocator A] in
theorem Cpu.dispatch_fork (number : number ctx = SyscallNum.fork)
    (run : self.dispatch now fuel ctx frame = .ok (written, after)) : written = frame := by
  simp only [Cpu.dispatch, number, dispatchWithTask_fork, bind_ok, Prod.exists] at run
  obtain ⟨current, _, ret, served, dispatched, run⟩ := run
  obtain ⟨⟩ := dispatched
  exact (Prod.mk.inj (pure_ok.mp run)).1.symm

theorem Cpu.syscallBody_other (other : number ctx ≠ SyscallNum.fork)
    (run : self.syscallBody now fuel ctx = .ok (frame, after)) :
    ∃ entered, self.entered ctx = .ok entered ∧ self.dispatch now fuel ctx entered = .ok (frame, after) := by
  simp only [Cpu.syscallBody, bind_ok, pure_ok, Prod.exists, if_neg other] at run
  obtain ⟨entered, enter, written, dispatched, dispatch, ⟨⟩⟩ := run
  exact ⟨entered, enter, dispatch⟩

theorem Cpu.syscallBody_fork (number : number ctx = SyscallNum.fork)
    (consistent : Consistent self.kernel.scheduler) (run : self.syscallBody now fuel ctx = .ok (frame, after)) :
    ∃ entered, self.entered ctx = .ok entered ∧
      frame = setReturn entered (UInt64.ofNat self.nextPid) ∧
      after.contexts = update (update self.contexts self.currentPid (some entered)) self.nextPid
        (some (setReturn entered 0)) ∧
      after.currentPid = self.currentPid ∧ Calls self.kernel after.kernel := by
  simp only [Cpu.syscallBody, bind_ok, pure_ok, Prod.exists, if_pos number] at run
  obtain ⟨entered, enter, written, dispatched, dispatch, forkFrame, kernel, fork, ⟨⟩⟩ := run
  obtain rfl := dispatch_fork number dispatch
  obtain ⟨contexts, currentPid, nextPid, calls⟩ := dispatch_ok dispatch
  obtain ⟨rfl, saved, current, forks⟩ := syscallFork_ok (calls.consistent consistent) fork
  refine ⟨written, enter, ?_, ?_, current.trans currentPid, calls.trans forks⟩
  · rw [← nextPid, Cpu.nextPid]
  · rw [← contexts, ← currentPid, ← nextPid]
    exact saved

/-- The handlers and what happens between them, with the context each task was last switched out or made with, and
    what is written to the trap frame. -/
inductive TrapStep : Cpu A M C F V × (Nat → Option C) → Option C → Cpu A M C F V × (Nat → Option C) → Prop where
  | timer {self after : Cpu A M C F V} {saved : Nat → Option C} {clock : Nat → Nat} {fuel : Nat} {ctx frame written : C}
      (entered : self.entered ctx = .ok frame) (run : self.taskSwitch clock fuel ctx = .ok (written, after)) :
      TrapStep (self, saved) (some written) (after, update saved self.currentPid (some frame))
  | kill {self after : Cpu A M C F V} {saved : Nat → Option C} {clock : Nat → Nat} {fuel : Nat} {written : C}
      (run : self.killTask clock fuel = .ok (written, after)) :
      TrapStep (self, saved) (some written) (after, update saved self.currentPid none)
  | exit {self after : Cpu A M C F V} {saved : Nat → Option C} {clock : Nat → Nat} {fuel : Nat} {ctx written : C}
      (number : number ctx = SyscallNum.exit) (run : self.syscall clock fuel ctx = .ok (written, after)) :
      TrapStep (self, saved) (some written) (after, update saved self.currentPid none)
  | fork {self after : Cpu A M C F V} {saved : Nat → Option C} {clock : Nat → Nat} {fuel : Nat} {ctx frame written : C}
      (number : number ctx = SyscallNum.fork) (entered : self.entered ctx = .ok frame)
      (run : self.syscall clock fuel ctx = .ok (written, after)) :
      TrapStep (self, saved) (some written)
        (after, update (update saved self.nextPid (some (setReturn frame 0))) self.currentPid
          (some (setReturn frame (UInt64.ofNat self.nextPid))))
  | syscall {self between after : Cpu A M C F V} {saved : Nat → Option C} {clock : Nat → Nat} {fuel : Nat}
      {ctx entered frame written : C}
      (number : number ctx ≠ SyscallNum.exit ∧ number ctx ≠ SyscallNum.fork)
      (enter : self.entered ctx = .ok entered) (dispatch : self.dispatch (clock 0) fuel ctx entered = .ok (frame, between))
      (run : self.syscall clock fuel ctx = .ok (written, after)) :
      TrapStep (self, saved) (some written) (after, update saved self.currentPid (some frame))
  | create {self : Cpu A M C F V} {saved : Nat → Option C} {kernel : Kernel A M C F} {elfBytes : List UInt8}
      {beyond : Nat → UInt8} {pid : Nat} {image : Image M} {machine : Machine A}
      (made : createImage self.kernel.layout self.kernel.scheduler.trapStack elfBytes beyond self.kernel.machine =
        .ok (.ok (image, machine)))
      (run : self.kernel.createFromElf elfBytes beyond = .ok (.ok pid, kernel)) :
      TrapStep (self, saved) none ({ self with kernel := kernel }, update saved pid (some (startContext image)))
  | between {self : Cpu A M C F V} {saved : Nat → Option C} (registers : TrapArch.Registers C) (active : M) (vfs : V)
      (mem : Memory) :
      TrapStep (self, saved) none
        ({ self with
            kernel := { self.kernel with machine := { self.kernel.machine with mem := mem } }
            registers := registers
            active := active
            vfs := vfs }, saved)

structure Stored (cpu : Cpu A M C F V) (saved : Nat → Option C) : Prop where
  consistent : Consistent cpu.kernel.scheduler
  others : ∀ pid, pid ≠ cpu.currentPid → cpu.contexts pid = saved pid

variable {saved saved' : Nat → Option C}

omit [Mmu E] [AddressSpace E] [Vfs V F] [Entry E] [Mapper M E] [PageAllocator A] in
theorem Stored.update_eq (stored : Stored self saved) (value : Option C) :
    update self.contexts self.currentPid value = update saved self.currentPid value := by
  funext pid
  by_cases here : pid = self.currentPid
  · rw [here, update_self, update_self]
  · rw [update_of_ne here, update_of_ne here, stored.others pid here]

omit [PageAllocator A] [Vfs V F] in
theorem Cpu.taskSwitch_eq (entered : self.entered ctx = .ok frame) :
    self.taskSwitch clock fuel ctx = self.switchTask clock fuel frame := by
  rw [Cpu.taskSwitch, entered, ok_bind]

theorem TrapStep.resumes (step : TrapStep (self, saved) (some written) (after, saved'))
    (stored : Stored self saved) :
    after.contexts = saved' ∧ after.contexts after.currentPid = some written ∧ Calls self.kernel after.kernel := by
  cases step with
  | timer entered run =>
    rw [taskSwitch_eq entered] at run
    obtain ⟨contexts, frame, calls⟩ := Cpu.switchTask_ok run
    exact ⟨contexts.trans (stored.update_eq _), frame, calls⟩
  | kill run =>
    obtain ⟨contexts, frame, calls⟩ := killTask_ok stored.consistent run
    exact ⟨contexts.trans (stored.update_eq _), frame, calls⟩
  | exit number run =>
    simp only [Cpu.syscall, bind_ok, Prod.exists, if_pos number] at run
    obtain ⟨frame, between, body, run⟩ := run
    obtain ⟨entered, _, dispatch⟩ := syscallBody_other (by rw [number]; decide) body
    obtain ⟨same, current, _, dispatched⟩ := dispatch_ok dispatch
    obtain ⟨contexts, frame, calls⟩ := killTask_ok (dispatched.consistent stored.consistent) run
    rw [same, current] at contexts
    exact ⟨contexts.trans (stored.update_eq _), frame, dispatched.trans calls⟩
  | fork number entered run =>
    have other : SyscallNum.fork ≠ SyscallNum.exit := by decide
    simp only [Cpu.syscall, bind_ok, Prod.exists, number, if_neg other] at run
    obtain ⟨frame, between, body, run⟩ := run
    obtain ⟨_, enter, rfl, forked, current, forks⟩ := syscallBody_fork number stored.consistent body
    obtain rfl := ok_unique entered enter
    obtain ⟨contexts, frame, calls⟩ := Cpu.switchTask_ok run
    refine ⟨?_, frame, forks.trans calls⟩
    rw [contexts, forked, current]
    -- the parent's own entry is overwritten by the switch
    funext pid
    by_cases parent : pid = self.currentPid
    · rw [parent, update_self, update_self]
    · rw [update_of_ne parent, update_of_ne parent]
      by_cases child : pid = self.nextPid
      · rw [child, update_self, update_self]
      · rw [update_of_ne child, update_of_ne child, update_of_ne parent,
          stored.others pid parent]
  | syscall number enter dispatch run =>
    simp only [Cpu.syscall, bind_ok, Prod.exists, if_neg number.1] at run
    obtain ⟨frame, between, body, run⟩ := run
    obtain ⟨_, enters, dispatches⟩ := syscallBody_other number.2 body
    obtain rfl := ok_unique enter enters
    obtain ⟨rfl, rfl⟩ := Prod.mk.inj (ok_unique dispatch dispatches)
    obtain ⟨same, current, _, dispatched⟩ := dispatch_ok dispatch
    obtain ⟨contexts, frame, calls⟩ := Cpu.switchTask_ok run
    rw [same, current] at contexts
    exact ⟨contexts.trans (stored.update_eq _), frame, dispatched.trans calls⟩

theorem TrapStep.stays (step : TrapStep (self, saved) none (after, saved')) (stored : Stored self saved) :
    Stored after saved' ∧ ∀ pid, self.contexts pid ≠ none → after.contexts pid = self.contexts pid := by
  cases step with
  | between => exact ⟨⟨stored.consistent, stored.others⟩, fun _ _ => rfl⟩
  | create made run =>
    obtain ⟨rfl, image, machine, create, ⟨current, least, adds⟩, _⟩ :=
      Kernel.createFromElf_ok stored.consistent.fresh run
    obtain ⟨rfl, rfl⟩ := Prod.mk.inj (Except.ok.inj (ok_unique made create))
    have entered := contextOf_adds adds
    refine ⟨⟨stored.consistent.adds adds, fun pid other => ?_⟩, fun pid live => ?_⟩
    · rw [Cpu.contexts, entered]
      by_cases new : pid = self.kernel.scheduler.maxPid + 1
      · rw [new, update_self, update_self]
      · rw [update_of_ne new, update_of_ne new]
        refine stored.others pid ?_
        rwa [Cpu.currentPid, adds.result] at other
    · rw [Cpu.contexts, entered, update_of_ne]
      · rfl
      · rintro rfl
        exact live (by rw [Cpu.contexts, contextOf, stored.consistent.fresh, Option.map_none])

theorem TrapStep.stored {written : Option C} (step : TrapStep (self, saved) written (after, saved'))
    (stored : Stored self saved) : Stored after saved' := by
  cases written with
  | none => exact (step.stays stored).1
  | some frame =>
    obtain ⟨contexts, _, calls⟩ := step.resumes stored
    exact ⟨calls.consistent stored.consistent, fun pid _ => contexts ▸ rfl⟩

theorem TrapStep.others {written : Option C} (step : TrapStep (self, saved) written (after, saved'))
    (stored : Stored self saved) (other : pid ≠ self.currentPid) (live : self.contexts pid ≠ none) :
    after.contexts pid = self.contexts pid := by
  have old : pid ≠ self.nextPid := by
    rintro rfl
    exact live (by rw [Cpu.contexts, Cpu.nextPid, contextOf, stored.consistent.fresh, Option.map_none])
  cases written with
  | none => exact (step.stays stored).2 pid live
  | some frame =>
    rw [(step.resumes stored).1, stored.others pid other]
    cases step with
    | timer | kill | exit | syscall => rw [update_of_ne other]
    | fork => rw [update_of_ne other, update_of_ne old]

/-- What is written to the trap frame is the context the task was last switched out or made with, and no step
    changes that of another task. -/
theorem contexts_restored {layout : KernelLayout} {kernelPt : M} {machine : Machine A} {start self after : Cpu A M C F V}
    {saved saved' : Nat → Option C} {written : Option C}
    (init : taskInit layout kernelPt machine = .ok start.kernel)
    (run : ReflTransGen (fun before after => ∃ written, TrapStep before written after)
      (start, fun _ => none) (self, saved))
    (step : TrapStep (self, saved) written (after, saved')) :
    (∀ frame, written = some frame → saved' after.currentPid = some frame) ∧
      ∀ pid, pid ≠ self.currentPid → self.contexts pid ≠ none → after.contexts pid = self.contexts pid := by
  have stored : Stored self saved := by
    refine Runs.preserved (fun state : Cpu A M C F V × (Nat → Option C) => Stored state.1 state.2)
      (fun _ _ stored ⟨_, step⟩ => step.stored stored) ⟨(taskInit_consistent init).1, fun pid other => ?_⟩ run
    exact taskInit_contexts init other
  refine ⟨?_, fun pid => step.others stored⟩
  rintro frame rfl
  obtain ⟨contexts, current, _⟩ := step.resumes stored
  rw [← contexts, current]

theorem Cpu.syscall_step (run : self.syscall clock fuel ctx = .ok (written, after)) (saved : Nat → Option C) :
    ∃ saved', TrapStep (self, saved) (some written) (after, saved') := by
  have call := run
  simp only [Cpu.syscall, bind_ok, Prod.exists] at call
  obtain ⟨frame, between, body, _⟩ := call
  by_cases exit : number ctx = SyscallNum.exit
  · exact ⟨_, .exit exit run⟩
  · by_cases fork : number ctx = SyscallNum.fork
    · simp only [Cpu.syscallBody, bind_ok] at body
      obtain ⟨entered, enter, _⟩ := body
      exact ⟨_, .fork fork enter run⟩
    · obtain ⟨entered, enter, dispatch⟩ := syscallBody_other fork body
      exact ⟨_, .syscall ⟨exit, fork⟩ enter dispatch run⟩

theorem Cpu.taskSwitch_step (run : self.taskSwitch clock fuel ctx = .ok (written, after))
    (saved : Nat → Option C) : ∃ saved', TrapStep (self, saved) (some written) (after, saved') := by
  have switch := run
  simp only [Cpu.taskSwitch, bind_ok] at switch
  obtain ⟨entered, enter, _⟩ := switch
  exact ⟨_, .timer enter run⟩

end Handlers

section Architectures

variable {A M E F V : Type} [Entry E] [Mapper M E] [PageAllocator A] [Mmu E] [AddressSpace E] [Vfs V F]

theorem Riscv64.strapHandler_step {self after : Cpu A M Riscv64.Context F V} {scause : UInt64}
    {ctx written : Riscv64.Context}
    (run : Riscv64.strapHandler self clock fuel scause ctx = .ok (written, after))
    (saved : Nat → Option Riscv64.Context) :
    after = self ∨ ∃ saved', TrapStep (self.toKernelPt, saved) (some written) (after, saved') := by
  unfold Riscv64.strapHandler at run
  dsimp only at run
  split_ifs at run
  · exact .inr (syscall_step run saved)
  · exact .inl (Prod.mk.inj (pure_ok.mp run)).2.symm
  · exact .inr (taskSwitch_step run saved)
  · exact .inr ⟨_, .kill run⟩
  · exact .inl (Prod.mk.inj (pure_ok.mp run)).2.symm

theorem Arm64.el1SyncTrapHandler_step {self after : Cpu A M Arm64.Context F V} {esrEl1 : UInt64}
    {ctx written : Arm64.Context}
    (run : Arm64.el1SyncTrapHandler self clock fuel esrEl1 ctx = .ok (written, after))
    (saved : Nat → Option Arm64.Context) :
    after = self.toKernelPt ∨ ∃ saved', TrapStep (self.toKernelPt, saved) (some written) (after, saved') := by
  unfold Arm64.el1SyncTrapHandler at run
  dsimp only at run
  split_ifs at run
  · exact .inr (syscall_step run saved)
  · exact .inr ⟨_, .kill run⟩
  · exact .inl (Prod.mk.inj (pure_ok.mp run)).2.symm

theorem Arm64.el1IrqTrapHandler_step {self after : Cpu A M Arm64.Context F V} {irq : UInt64}
    {ctx written : Arm64.Context} (run : Arm64.el1IrqTrapHandler self clock fuel irq ctx = .ok (written, after))
    (saved : Nat → Option Arm64.Context) :
    after = self.toKernelPt ∨ ∃ saved', TrapStep (self.toKernelPt, saved) (some written) (after, saved') := by
  unfold Arm64.el1IrqTrapHandler at run
  dsimp only at run
  split_ifs at run
  · exact .inr (taskSwitch_step run saved)
  · exact .inl (Prod.mk.inj (pure_ok.mp run)).2.symm

end Architectures

instance : Vfs Unit Empty where
  openFile _ _ := pure (none, ())
  read _ file := nomatch file
  write _ file := nomatch file
  close _ file := nomatch file
  seek file := nomatch file

def firstContext : Riscv64.Context := ArchContext.start 4096 (UInt64.ofNat ((pageOffset + 34) * pageSize))

theorem created_task_started :
    ∃ (start self after : Cpu Bump Sv39Mapper Riscv64.Context Empty Unit) (saved saved' : Nat → Option Riscv64.Context),
      boot = .ok start.kernel ∧ TrapStep (self, saved) (some firstContext) (after, saved') ∧ after.currentPid = 1 ∧
      saved' 1 = some firstContext := by
  obtain ⟨kernel, booted, passed⟩ := exists_of_passes (show passes boot (fun kernel =>
      passes (kernel.createFromElf (oneSegment 4096 16 32) (fun _ => 0)) fun made =>
        made.1.toOption.isSome && passes ((⟨made.2, (), ⟨true⟩, made.2.kernelPt⟩ :
          Cpu Bump Sv39Mapper Riscv64.Context Empty Unit).taskSwitch id 1 ArchContext.default) fun first =>
        passes (first.2.taskSwitch id 1 ArchContext.default) fun second =>
        second.1 = firstContext ∧ second.2.currentPid = 1) = true by decide +kernel)
  obtain ⟨⟨pid, created⟩, create, passed⟩ := exists_of_passes passed
  simp only [Bool.and_eq_true] at passed
  obtain ⟨issued, passed⟩ := passed
  obtain ⟨⟨_, first⟩, firstRun, passed⟩ := exists_of_passes passed
  obtain ⟨⟨written, second⟩, secondRun, passed⟩ := exists_of_passes passed
  obtain ⟨rfl, current⟩ : written = firstContext ∧ second.currentPid = 1 := of_decide_eq_true passed
  obtain ⟨kernelPt, machine, init⟩ := boot_ok booted
  cases pid with
  | error failure => cases issued
  | ok pid =>
    let start : Cpu Bump Sv39Mapper Riscv64.Context Empty Unit := ⟨kernel, (), ⟨true⟩, created.kernelPt⟩
    obtain ⟨_, image, _, made, _⟩ := Kernel.createFromElf_ok (taskInit_consistent init).1.fresh create
    have creates : TrapStep (start, fun _ => none) none ({ start with kernel := created }, _) := .create made create
    obtain ⟨saved, switches⟩ := taskSwitch_step firstRun (update (fun _ => none) pid (some (startContext image)))
    obtain ⟨saved', step⟩ := taskSwitch_step secondRun saved
    refine ⟨start, first, second, saved, saved', booted, step, current, ?_⟩
    rw [← current]
    exact (contexts_restored init (.tail (.tail .refl ⟨_, creates⟩) ⟨_, switches⟩) step).1 _ rfl

end Kernel31.Trap
