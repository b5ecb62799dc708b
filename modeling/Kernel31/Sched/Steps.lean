import Kernel31.Sched.UserCopy
import Kernel31.Library.Runs

namespace Kernel31.Sched

open Page Paging Elf Kernel31.Task OrderedSet Checked Function Mapper Scheduler

variable {pid fuel now : Nat} {clock : Nat → Nat}

section Effects

variable {A M E C F : Type} [Entry E] [Mapper M E] [PageAllocator A] {self after : Kernel A M C F}

variable {task : Task M C F} {elfBytes : List UInt8} {beyond : Nat → UInt8}

theorem Kernel.dropTask_ok (run : self.dropTask task = .ok after) :
    after.scheduler = self.scheduler ∧ after.machine.mem = self.machine.mem ∧ after.layout = self.layout ∧
      after.kernelPt = self.kernelPt := by
  simp only [dropTask, bind_ok, pure_ok] at run
  obtain ⟨machine, destroyed, alloc, _, rfl⟩ := run
  refine ⟨rfl, ?_, rfl, rfl⟩
  unfold destroyWithAllocator at destroyed
  split at destroyed
  · obtain ⟨_, _, done⟩ := bind_ok.mp destroyed
    obtain rfl := pure_ok.mp done
    rfl
  · simp [throw_ok] at destroyed

def Scheduler.forgotten (self : Scheduler M C F) (pid : Nat) : Scheduler M C F :=
  { self with
    tasks := update self.tasks pid none
    vruntime := self.vruntime.filter fun entry => (ofLex entry).2 ≠ pid }

theorem Kernel.forget_ok (run : self.forget pid = .ok after) :
    after.scheduler = self.scheduler.forgotten pid ∧ after.machine.mem = self.machine.mem ∧ after.layout = self.layout ∧
      after.kernelPt = self.kernelPt := by
  simp only [forget, bind_ok, pure_ok] at run
  obtain ⟨removed, remove, rfl⟩ := run
  unfold removeTask at remove
  split at remove
  · rename_i none
    obtain rfl := pure_ok.mp remove
    refine ⟨?_, rfl, rfl, rfl⟩
    rw [forgotten, update_eq_self_iff.mpr none.symm]
  · obtain ⟨same, mem, layout, kernelPt⟩ := dropTask_ok remove
    simp only [same, mem, layout, kernelPt]
    exact ⟨rfl, trivial, trivial, trivial⟩

def Scheduler.Least (self : Scheduler M C F) (least : Nat) : Prop :=
  (∃ pid, toLex (least, pid) ∈ self.vruntime) ∧ ∀ entry ∈ self.vruntime, least ≤ (ofLex entry).1

structure Scheduler.Adds (before : Scheduler M C F) (current : Task M C F) (least : Nat) (page : M) (context : C)
    (pageAllocs : List PageAlloc) (after : Scheduler M C F) : Prop where
  parent : before.tasks before.currentPid = some current
  first : before.Least least
  result : after =
    { before with
      tasks := update before.tasks (before.maxPid + 1)
        (some (current.child (before.maxPid + 1) page context pageAllocs))
      vruntime := insert (toLex (least, before.maxPid + 1)) before.vruntime
      maxPid := before.maxPid + 1 }

theorem Scheduler.currentTask_ok {self : Scheduler M C F} :
    self.currentTask = .ok task ↔ self.tasks self.currentPid = some task := by
  unfold currentTask
  cases self.tasks self.currentPid with
  | none => simp [throw, throwThe, MonadExceptOf.throw]
  | some other => simp [pure_ok]

theorem Scheduler.insertFirst_ok {self after : Scheduler M C F} (run : self.insertFirst pid = .ok after) :
    ∃ least, self.Least least ∧ after = { self with vruntime := insert (toLex (least, pid)) self.vruntime } := by
  unfold insertFirst at run
  split at run
  · simp [throw_ok] at run
  · rename_i first rest popped
    obtain ⟨member, _, bound⟩ := popFirst_some popped
    refine ⟨(ofLex first).1, ⟨⟨(ofLex first).2, member⟩, fun entry entered => ?_⟩, (pure_ok.mp run).symm⟩
    exact Prod.Lex.monotone_fst _ _ (bound entry entered)

omit [PageAllocator A] in
theorem Kernel.issuePid_ok (run : self.issuePid = .ok (pid, after)) :
    pid = self.scheduler.maxPid + 1 ∧ after = { self with scheduler := { self.scheduler with maxPid := pid } } := by
  simp only [issuePid] at run
  split at run
  · obtain ⟨⟩ := pure_ok.mp run
    exact ⟨rfl, rfl⟩
  · simp [throw_ok] at run

theorem Kernel.insertTask_fresh (run : self.insertTask pid task = .ok after)
    (fresh : self.scheduler.tasks pid = none) :
    after = { self with scheduler := self.scheduler.setTask pid task } := by
  simp only [insertTask, fresh, pure_eq, Except.ok.injEq] at run
  exact run.symm

structure Kernel.SameBut (before after : Kernel A M C F) (machine : Machine A) (arcs : Arcs) : Prop where
  machine : after.machine = machine
  arcs : after.arcs = arcs
  layout : after.layout = before.layout
  kernelPt : after.kernelPt = before.kernelPt

theorem Kernel.createFromElf_error [ArchContext C] {failure : ElfError}
    (run : self.createFromElf elfBytes beyond = .ok (.error failure, after)) : after = self := by
  simp only [createFromElf, bind_ok] at run
  obtain ⟨made, _, run⟩ := run
  cases made with
  | error other =>
    obtain ⟨_, rfl⟩ := Prod.mk.inj (pure_ok.mp run)
    rfl
  | ok made =>
    simp only [bind_ok, Prod.exists] at run
    obtain ⟨_, _, _, _, _, run⟩ := run
    simp [pure_ok] at run

section

variable (fresh : self.scheduler.tasks (self.scheduler.maxPid + 1) = none)
include fresh

theorem Kernel.addTask_ok {machine : Machine A} {arcs : Arcs} {page : M} {context : C} {pageAllocs : List PageAlloc}
    (run : { self with
        machine := machine
        arcs := arcs
        scheduler := { self.scheduler with maxPid := self.scheduler.maxPid + 1 } }.addTask
      (self.scheduler.maxPid + 1) page context pageAllocs = .ok after) :
    (∃ current least, self.scheduler.Adds current least page context pageAllocs after.scheduler) ∧
      self.SameBut after machine arcs := by
  simp only [addTask, bind_ok, pure_ok] at run
  obtain ⟨current, found, inserted, insert, scheduler, first, rfl⟩ := run
  obtain rfl := insertTask_fresh insert fresh
  obtain ⟨least, isLeast, rfl⟩ := insertFirst_ok first
  exact ⟨⟨current, least, currentTask_ok.mp found, isLeast, rfl⟩, ⟨rfl, rfl, rfl, rfl⟩⟩

theorem Kernel.createFromElf_ok [ArchContext C] (run : self.createFromElf elfBytes beyond = .ok (.ok pid, after)) :
    pid = self.scheduler.maxPid + 1 ∧ ∃ (image : Image M) (machine : Machine A),
      createImage self.layout self.scheduler.trapStack elfBytes beyond self.machine = .ok (.ok (image, machine)) ∧
      (∃ current least, self.scheduler.Adds current least image.page (startContext image)
        (self.arcs.newAll image.pageAllocs).1 after.scheduler) ∧
      self.SameBut after machine (self.arcs.newAll image.pageAllocs).2 := by
  simp only [createFromElf, bind_ok] at run
  obtain ⟨made, create, run⟩ := run
  cases made with
  | error failure => simp [pure_ok] at run
  | ok made =>
    obtain ⟨image, machine⟩ := made
    simp only [bind_ok, Prod.exists] at run
    obtain ⟨issued, counted, issue, added, add, run⟩ := run
    obtain ⟨rfl, rfl⟩ := issuePid_ok issue
    obtain ⟨rfl, rfl⟩ : self.scheduler.maxPid + 1 = pid ∧ added = after := by simpa using pure_ok.mp run
    exact ⟨rfl, image, machine, create, addTask_ok fresh add⟩

theorem Kernel.kernelFork_ok [ArchContext C] (run : self.kernelFork = .ok after) :
    ∃ current page machine, self.scheduler.tasks self.scheduler.currentPid = some current ∧
      newWithAllocator self.machine = .ok (page, machine) ∧ self.SameBut after machine self.arcs ∧
      after.scheduler =
        { self.scheduler with
          tasks := update self.scheduler.tasks (self.scheduler.maxPid + 1)
            (some (current.child (self.scheduler.maxPid + 1) page ArchContext.default []))
          maxPid := self.scheduler.maxPid + 1 } := by
  simp only [kernelFork, bind_ok] at run
  obtain ⟨current, found, run⟩ := run
  split at run
  · simp only [bind_ok, pure_ok, Prod.exists] at run
    obtain ⟨page, machine, create, inserted, insert, rfl⟩ := run
    obtain rfl := insertTask_fresh insert fresh
    exact ⟨current, page, machine, currentTask_ok.mp found, create, ⟨rfl, rfl, rfl, rfl⟩, rfl⟩
  · simp [throw_ok] at run

end

theorem Kernel.kill_ok (run : self.kill clock fuel pid = .ok after) :
    ∃ forgotten next scheduler, self.forget pid = .ok forgotten ∧
      forgotten.scheduler.schedule clock fuel = .ok (next, scheduler) ∧ after = { forgotten with scheduler := scheduler } := by
  simp only [kill, bind_ok, Prod.exists] at run
  obtain ⟨forgotten, forget, next, scheduler, schedule, run⟩ := run
  exact ⟨forgotten, next, scheduler, forget, schedule, (pure_ok.mp run).symm⟩

variable [Mmu E] [AddressSpace E]

structure Kernel.Forks (before : Kernel A M C F) (current : Task M C F) (page : M) (forked : Forking A) : Prop where
  parent : before.scheduler.tasks before.scheduler.currentPid = some current
  loop : ∃ created region machine trapFrame,
    newWithAllocator before.machine = .ok (page, created) ∧
    mapKernelRegion page before.layout created = .ok region ∧
    physPage before.scheduler.trapStack = .ok trapFrame ∧
    mapData page region before.scheduler.trapStack trapFrame 16 = .ok machine ∧
    forkAllocs before.kernelPt page current.pageAllocs ⟨machine, before.arcs, []⟩ = .ok forked

theorem Kernel.fork_ok (fresh : self.scheduler.tasks (self.scheduler.maxPid + 1) = none)
    (run : self.fork = .ok (pid, after)) :
    pid = self.scheduler.maxPid + 1 ∧ ∃ (current : Task M C F) (page : M) (forked : Forking A),
      self.Forks current page forked ∧
      (∃ least, self.scheduler.Adds current least page current.context forked.pageAllocs after.scheduler) ∧
      self.SameBut after forked.machine forked.arcs := by
  simp only [fork, bind_ok, Prod.exists] at run
  obtain ⟨issued, counted, issue, page, created, create, region, mapRegion, trapFrame, translate, machine, mapTrap,
    current, found, forked, loop, added, add, run⟩ := run
  obtain ⟨rfl, rfl⟩ := issuePid_ok issue
  obtain ⟨rfl, rfl⟩ : self.scheduler.maxPid + 1 = pid ∧ added = after := by simpa using pure_ok.mp run
  have parent : self.scheduler.tasks self.scheduler.currentPid = some current := currentTask_ok.mp found
  obtain ⟨⟨other, least, adds⟩, same⟩ := addTask_ok fresh add
  obtain rfl : current = other := Option.mem_unique parent adds.parent
  exact ⟨rfl, current, page, forked, ⟨parent, created, region, machine, trapFrame, create, mapRegion, translate, mapTrap,
    loop⟩, ⟨least, adds⟩, same⟩

end Effects

section Rounds

variable {M C F : Type} {self after : Scheduler M C F}

structure Scheduler.Picks (before : Scheduler M C F) (vruntime pid slice : Nat) (task : Task M C F) : Prop where
  member : toLex (vruntime, pid) ∈ before.vruntime
  least : ∀ entry ∈ before.vruntime, toLex (vruntime, pid) ≤ entry
  live : before.tasks pid = some task
  slice : timeSlice task.nice = .ok slice

def Scheduler.advanced (self : Scheduler M C F) (vruntime pid slice : Nat) (task : Task M C F)
    (nextSchedule : Option Nat) : Scheduler M C F :=
  { self with
    tasks := update self.tasks pid (some { task with nextSchedule := nextSchedule })
    vruntime := insert (toLex (vruntime + slice, pid)) (self.vruntime.erase (toLex (vruntime, pid)))
    currentPid := pid }

theorem timeSlice_eq {nice : Int} (lower : -niceMax ≤ nice) (upper : nice ≤ niceMax) :
    timeSlice nice = .ok (nice + niceMax).toNat := by
  simp only [niceMax] at lower upper
  have small : nice + niceMax < 2 ^ 63 := by
    simp only [niceMax]
    omega
  have whole : (nice + niceMax) % 2 ^ 64 = nice + niceMax := by
    simp only [niceMax]
    omega
  rw [timeSlice, if_pos small, whole]
  rfl

theorem Scheduler.Picks.round_returns {vruntime slice : Nat} {task : Task M C F}
    (picks : self.Picks vruntime pid slice task) (fits : vruntime + slice < 2 ^ 64) :
    ∃ after done, self.round now = .ok (after, done) := by
  have popped := popFirst_eq picks.member picks.least
  simp only [round, popped, picks.live, picks.slice, ok_bind, ofLex_toLex, fits, if_true]
  cases task.nextSchedule with
  | none => exact ⟨_, _, rfl⟩
  | some wake =>
    dsimp only
    split
    · exact ⟨_, _, rfl⟩
    · exact ⟨_, _, rfl⟩

def Task.Runnable (self : Task M C F) (now : Nat) : Prop := ∀ wake, self.nextSchedule = some wake → wake ≤ now

variable {done : Bool} {next : Task M C F}

theorem Scheduler.round_cases (run : self.round now = .ok (after, done)) :
    ∃ vruntime pid slice task, self.Picks vruntime pid slice task ∧
      ((done = true ∧ task.Runnable now ∧ after = self.advanced vruntime pid slice task none) ∨
        (done = false ∧ ¬ task.Runnable now ∧ after = self.advanced vruntime pid slice task task.nextSchedule)) := by
  unfold round at run
  split at run
  · simp [throw_ok] at run
  · rename_i first rest popped
    obtain ⟨member, rfl, least⟩ := popFirst_some popped
    dsimp only at run
    split at run
    · simp [throw_ok] at run
    · rename_i task live
      obtain ⟨slice, sliced, run⟩ := bind_ok.mp run
      refine ⟨(ofLex first).1, (ofLex first).2, slice, task, ⟨member, least, live, sliced⟩, ?_⟩
      -- an entry that is not woken up keeps its task as it is
      have same : update self.tasks (ofLex first).2 (some task) = self.tasks :=
        update_eq_self_iff.mpr live.symm
      split at run
      · split at run
        · rename_i wake sleeps
          split at run
          · rename_i due
            obtain ⟨⟩ := pure_ok.mp run
            exact .inl ⟨rfl, fun other found => Option.mem_unique sleeps found ▸ due, rfl⟩
          · rename_i ahead
            obtain ⟨⟩ := pure_ok.mp run
            exact .inr ⟨rfl, fun runnable => ahead (runnable wake sleeps), by rw [advanced, same]; rfl⟩
        · rename_i awake
          obtain ⟨⟩ := pure_ok.mp run
          refine .inl ⟨rfl, fun wake found => ?_, by rw [advanced, ← awake, same]; rfl⟩
          rw [awake] at found
          cases found
      · simp [throw_ok] at run

theorem Scheduler.round_ok (run : self.round now = .ok (after, done)) :
    ∃ vruntime pid slice task nextSchedule, self.Picks vruntime pid slice task ∧
      after = self.advanced vruntime pid slice task nextSchedule := by
  obtain ⟨vruntime, pid, slice, task, picks, ⟨_, _, moved⟩ | ⟨_, _, moved⟩⟩ := round_cases run
  · exact ⟨vruntime, pid, slice, task, none, picks, moved⟩
  · exact ⟨vruntime, pid, slice, task, task.nextSchedule, picks, moved⟩

theorem Scheduler.round_error {fault : Fault} (run : self.round now = .error fault) :
    fault = .overflow ∨ self.vruntime = ∅ ∨
      ∃ vruntime pid, toLex (vruntime, pid) ∈ self.vruntime ∧ self.tasks pid = none := by
  unfold round at run
  split at run
  · rename_i popped
    exact .inr (.inl (popFirst_eq_none.mp popped))
  · rename_i first rest popped
    obtain ⟨member, _, _⟩ := popFirst_some popped
    dsimp only at run
    split at run
    · rename_i none
      exact .inr (.inr ⟨_, _, member, none⟩)
    · left
      rcases bind_error.mp run with failed | ⟨slice, _, run⟩
      · unfold timeSlice at failed
        split at failed
        · cases failed
        · exact (Except.error.inj failed).symm
      · split at run
        · split at run
          · split at run <;> cases run
          · cases run
        · exact (Except.error.inj run).symm

theorem Scheduler.schedule_last (round : self.round (clock 0) = .ok (after, true))
    (found : after.tasks after.currentPid = some next) (fuel : Nat) :
    self.schedule clock (fuel + 1) = .ok (next, after) := by
  simp only [schedule, round, ok_bind, if_true, currentTask_ok.mpr found]
  rfl

theorem Scheduler.schedule_next (round : self.round (clock 0) = .ok (after, false)) (fuel : Nat) :
    self.schedule clock (fuel + 1) = after.schedule (fun reading => clock (reading + 1)) fuel := by
  simp only [schedule, round, ok_bind, Bool.false_eq_true, if_false]

theorem Scheduler.schedule_rounds (keeps : Scheduler M C F → Prop)
    (step : ∀ s s' reading done, keeps s → s.round (clock reading) = .ok (s', done) → keeps s')
    (start : keeps self) (run : self.schedule clock fuel = .ok (next, after)) :
    after.tasks after.currentPid = some next ∧
      ∃ last reading, keeps last ∧ last.round (clock reading) = .ok (after, true) := by
  induction fuel generalizing self clock with
  | zero => simp [schedule, throw_ok] at run
  | succ fuel ih =>
    simp only [schedule, bind_ok, Prod.exists] at run
    obtain ⟨s, done, round, run⟩ := run
    have kept := step _ _ _ _ start round
    cases done with
    | true =>
      simp only [if_true, bind_ok, pure_ok, Prod.mk.injEq] at run
      obtain ⟨task, found, rfl, rfl⟩ := run
      exact ⟨currentTask_ok.mp found, self, 0, start, round⟩
    | false =>
      obtain ⟨current, last, reading, kept, final⟩ := ih (fun s s' reading => step s s' (reading + 1)) kept run
      exact ⟨current, last, reading + 1, kept, final⟩

theorem Scheduler.schedule_rule (keeps : Scheduler M C F → Prop)
    (step : ∀ s s' now done, keeps s → s.round now = .ok (s', done) → keeps s') (start : keeps self)
    (run : self.schedule clock fuel = .ok (next, after)) : keeps after ∧ after.tasks after.currentPid = some next := by
  obtain ⟨current, last, reading, kept, round⟩ :=
    schedule_rounds keeps (fun s s' reading => step s s' (clock reading)) start run
  exact ⟨step _ _ _ _ kept round, current⟩

theorem Scheduler.schedule_maxPid (run : self.schedule clock fuel = .ok (next, after)) : after.maxPid = self.maxPid :=
  (schedule_rule (fun between => between.maxPid = self.maxPid) (fun before later now done same round => by
    obtain ⟨vruntime, pid, slice, task, nextSchedule, _, rfl⟩ := round_ok round
    exact same) rfl run).1

theorem Scheduler.switchTask_ok {ctx written : C}
    (run : self.switchTask clock fuel ctx = .ok (written, next, after)) :
    ∃ current, self.tasks self.currentPid = some current ∧ written = next.context ∧
      (self.setTask self.currentPid { current with context := ctx }).schedule clock fuel = .ok (next, after) := by
  simp only [switchTask, saveContext, bind_ok, Prod.exists] at run
  obtain ⟨_, ⟨current, found, saved⟩, other, scheduled, schedule, run⟩ := run
  obtain rfl := pure_ok.mp saved
  obtain ⟨⟩ := pure_ok.mp run
  exact ⟨current, currentTask_ok.mp found, rfl, schedule⟩

end Rounds

/-- `touch` stands for the fields that the trap handlers set, `copyToUser` for what they write to the current task. -/
inductive Op (C F : Type) where
  | create (elfBytes : List UInt8) (beyond : Nat → UInt8)
  | fork
  | kernelFork
  | schedule
  | switchTask (ctx : C)
  | kill (pid : Nat)
  | renice (pid : Nat) (nice : Int)
  | touch (pid : Nat) (context : C) (nextSchedule : Option Nat) (fds : FdTable F)
  | copyToUser (userAddr : Nat) (kernelBuf : List UInt8)

section Init

variable {A M C F : Type} [PageAllocator A] [ArchContext C] {self : Kernel A M C F} {layout : KernelLayout}
  {kernelPt : M} {machine : Machine A}

theorem taskInit_ok (run : taskInit layout kernelPt machine = .ok self) :
    ∃ trapStack alloc, allocPages machine.alloc 16 = .ok (trapStack, alloc) ∧
      self.machine = { machine with alloc := alloc } ∧ self.layout = layout ∧ self.kernelPt = kernelPt ∧
      self.scheduler =
        { tasks := update (fun _ => none) kernelPid (some (kernelTask kernelPt))
          vruntime := {toLex (0, kernelPid)}
          currentPid := kernelPid
          maxPid := 0
          trapStack := trapStack } := by
  simp only [taskInit, bind_ok, pure_ok, Prod.exists] at run
  obtain ⟨trapStack, alloc, allocated, rfl⟩ := run
  exact ⟨trapStack, alloc, allocated, rfl, rfl, rfl, rfl⟩

theorem taskInit_only (run : taskInit layout kernelPt machine = .ok self) {pid : Nat} {task : Task M C F}
    (live : self.scheduler.tasks pid = some task) : pid = kernelPid ∧ task = kernelTask kernelPt := by
  obtain ⟨trapStack, alloc, _, _, _, _, scheduler⟩ := taskInit_ok run
  rw [scheduler] at live
  by_cases here : pid = kernelPid
  · subst here
    exact ⟨rfl, by simpa using live.symm⟩
  · simp [here] at live

end Init

section Step

variable {A M E C F : Type} [Entry E] [Mapper M E] [PageAllocator A] [ArchContext C] [Mmu E] [AddressSpace E]

/-- A call that returns, and the pid that it issues. -/
inductive Step : Kernel A M C F → Op C F → Option Nat → Kernel A M C F → Prop where
  | create {self after : Kernel A M C F} {elfBytes : List UInt8} {beyond : Nat → UInt8} {pid : Nat}
      (run : self.createFromElf elfBytes beyond = .ok (.ok pid, after)) :
      Step self (.create elfBytes beyond) (some pid) after
  | refuse {self after : Kernel A M C F} {elfBytes : List UInt8} {beyond : Nat → UInt8} {failure : ElfError}
      (run : self.createFromElf elfBytes beyond = .ok (.error failure, after)) :
      Step self (.create elfBytes beyond) none after
  | fork {self after : Kernel A M C F} {pid : Nat} (run : self.fork = .ok (pid, after)) :
      Step self .fork (some pid) after
  | kernelFork {self after : Kernel A M C F} (run : self.kernelFork = .ok after) :
      Step self .kernelFork (some (self.scheduler.maxPid + 1)) after
  | schedule {self : Kernel A M C F} {clock : Nat → Nat} {fuel : Nat} {next : Task M C F} {scheduler : Scheduler M C F}
      (run : self.scheduler.schedule clock fuel = .ok (next, scheduler)) :
      Step self .schedule none { self with scheduler := scheduler }
  | switchTask {self : Kernel A M C F} {clock : Nat → Nat} {fuel : Nat} {ctx written : C} {next : Task M C F}
      {scheduler : Scheduler M C F} (run : self.scheduler.switchTask clock fuel ctx = .ok (written, next, scheduler)) :
      Step self (.switchTask ctx) none { self with scheduler := scheduler }
  | kill {self after : Kernel A M C F} {clock : Nat → Nat} {fuel pid : Nat} (run : self.kill clock fuel pid = .ok after) :
      Step self (.kill pid) none after
  | renice {self : Kernel A M C F} {pid : Nat} {nice : Int} {task : Task M C F}
      (live : self.scheduler.tasks pid = some task) :
      Step self (.renice pid nice) none { self with scheduler := self.scheduler.setTask pid (task.renice nice) }
  | touch {self : Kernel A M C F} {pid : Nat} {context : C} {nextSchedule : Option Nat} {fds : FdTable F}
      {task : Task M C F} (live : self.scheduler.tasks pid = some task) :
      Step self (.touch pid context nextSchedule fds) none
        { self with
          scheduler := self.scheduler.setTask pid
            { task with context := context, nextSchedule := nextSchedule, fds := fds } }
  | copyToUser {self : Kernel A M C F} {userAddr count : Nat} {kernelBuf : List UInt8} {task : Task M C F} {mem : Memory}
      (live : self.scheduler.tasks self.scheduler.currentPid = some task)
      (run : copyToUser task.pageAllocs self.machine.mem userAddr kernelBuf = .ok (count, mem)) :
      Step self (.copyToUser userAddr kernelBuf) none { self with machine := { self.machine with mem := mem } }

end Step

end Kernel31.Sched
