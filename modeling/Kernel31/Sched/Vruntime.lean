import Kernel31.Sched.Steps
import Kernel31.Trap.Context
import Kernel31.Task.Image

namespace Kernel31.Sched

open Page Paging Kernel31.Task OrderedSet Checked Scheduler Kernel Function

variable {pid fuel : Nat} {clock : Nat → Nat}

section Matched

variable {M C F : Type} {s s' : Scheduler M C F}

@[simp]
theorem Scheduler.setTask_vruntime (pid : Nat) (task : Task M C F) : (s.setTask pid task).vruntime = s.vruntime := rfl

structure Matched (s : Scheduler M C F) : Prop where
  keyed : ∀ pid task, s.tasks pid = some task → task.pid = pid
  entered : ∀ pid task, s.tasks pid = some task → ∃! vruntime, toLex (vruntime, pid) ∈ s.vruntime
  live : ∀ vruntime pid, toLex (vruntime, pid) ∈ s.vruntime → ∃ task, s.tasks pid = some task
  issued : ∀ pid task, s.tasks pid = some task → pid ≤ s.maxPid

structure Consistent (s : Scheduler M C F) : Prop extends Matched s where
  current : ∃ task, s.tasks s.currentPid = some task

theorem Matched.fresh (matched : Matched s) : s.tasks (s.maxPid + 1) = none := by
  cases found : s.tasks (s.maxPid + 1) with
  | none => rfl
  | some task =>
    have bound := matched.issued _ _ found
    omega

variable {old new task current next : Task M C F} {vruntime slice least : Nat} {nextSchedule : Option Nat}
  {page : M} {context : C} {pageAllocs : List PageAlloc} {fault : Fault}

theorem Matched.setTask (matched : Matched s) (found : s.tasks pid = some old) (same : new.pid = old.pid) :
    Matched (s.setTask pid new) := by
  have live (other : Nat) : (∃ task, (s.setTask pid new).tasks other = some task) ↔ ∃ task, s.tasks other = some task := by
    by_cases here : other = pid
    · subst here
      simp [Scheduler.setTask, found]
    · simp [Scheduler.setTask, here]
  refine ⟨?_, ?_, ?_, ?_⟩
  · intro other task entry
    by_cases here : other = pid
    · subst here
      have replaced : new = task := by simpa [Scheduler.setTask] using entry
      rw [← replaced, same]
      exact matched.keyed _ _ found
    · exact matched.keyed other task (by simpa [Scheduler.setTask, here] using entry)
  · intro other task entry
    obtain ⟨before, entry⟩ := (live other).mp ⟨task, entry⟩
    exact matched.entered other before entry
  · intro vruntime other member
    exact (live other).mpr (matched.live vruntime other member)
  · intro other task entry
    obtain ⟨before, entry⟩ := (live other).mp ⟨task, entry⟩
    exact matched.issued other before entry

theorem Consistent.setTask (consistent : Consistent s) (found : s.tasks pid = some old)
    (same : new.pid = old.pid) : Consistent (s.setTask pid new) := by
  refine ⟨consistent.toMatched.setTask found same, ?_⟩
  by_cases here : s.currentPid = pid
  · exact ⟨new, by simp [Scheduler.setTask, here]⟩
  · obtain ⟨task, current⟩ := consistent.current
    exact ⟨task, by simpa [Scheduler.setTask, here] using current⟩

theorem Matched.mem_advanced (matched : Matched s) (picks : s.Picks vruntime pid slice task)
    (other otherPid : Nat) :
    toLex (other, otherPid) ∈ (s.advanced vruntime pid slice task nextSchedule).vruntime ↔
      if otherPid = pid then other = vruntime + slice else toLex (other, otherPid) ∈ s.vruntime := by
  have only : ∀ other, toLex (other, pid) ∈ s.vruntime → other = vruntime := fun other member =>
    (matched.entered pid task picks.live).unique member picks.member
  simp only [Scheduler.advanced, Finset.mem_insert, Finset.mem_erase, ne_eq, toLex_inj, Prod.mk.injEq]
  by_cases here : otherPid = pid
  · subst here
    have none : ¬ (other ≠ vruntime ∧ toLex (other, otherPid) ∈ s.vruntime) := by
      rintro ⟨differs, member⟩
      exact differs (only other member)
    simpa using fun differs member => absurd ⟨differs, member⟩ none
  · simp [here]

theorem Matched.advanced (matched : Matched s) (picks : s.Picks vruntime pid slice task) :
    Consistent (s.advanced vruntime pid slice task nextSchedule) := by
  have moved : Matched (s.setTask pid { task with nextSchedule := nextSchedule }) := matched.setTask picks.live rfl
  have entries (other otherPid : Nat) :
      toLex (other, otherPid) ∈ (s.advanced vruntime pid slice task nextSchedule).vruntime ↔
        if otherPid = pid then other = vruntime + slice else toLex (other, otherPid) ∈ s.vruntime :=
    matched.mem_advanced picks other otherPid
  refine ⟨⟨moved.keyed, ?_, ?_, moved.issued⟩, ⟨_, update_self _ _ _⟩⟩
  · intro other found live
    by_cases here : other = pid
    · subst here
      exact ⟨vruntime + slice, by simp [entries], fun value member => by simpa [entries] using member⟩
    · simpa [entries, here] using moved.entered other found live
  · intro value other member
    by_cases here : other = pid
    · subst here
      exact ⟨_, update_self _ _ _⟩
    · exact moved.live value other (by simpa [entries, here] using member)

theorem Matched.forgotten (matched : Matched s) : Matched (s.forgotten pid) := by
  have live {other : Nat} {task : Task M C F} (found : (s.forgotten pid).tasks other = some task) :
      other ≠ pid ∧ s.tasks other = some task := by
    by_cases here : other = pid
    · subst here
      simp [Scheduler.forgotten] at found
    · exact ⟨here, by simpa [Scheduler.forgotten, here] using found⟩
  refine ⟨?_, ?_, ?_, ?_⟩
  · intro other task found
    exact matched.keyed other task (live found).2
  · intro other task found
    obtain ⟨differs, found⟩ := live found
    simpa [Scheduler.forgotten, differs] using matched.entered other task found
  · intro vruntime other member
    obtain ⟨member, differs⟩ : toLex (vruntime, other) ∈ s.vruntime ∧ other ≠ pid := by
      simpa [Scheduler.forgotten] using member
    simpa [Scheduler.forgotten, differs] using matched.live vruntime other member
  · intro other task found
    exact matched.issued other task (live found).2

theorem Matched.adds (matched : Matched s) (adds : s.Adds current least page context pageAllocs s') : Matched s' := by
  obtain rfl := adds.result
  have bare (vruntime : Nat) : toLex (vruntime, s.maxPid + 1) ∉ s.vruntime := by
    intro member
    obtain ⟨task, found⟩ := matched.live _ _ member
    rw [matched.fresh] at found
    cases found
  refine ⟨?_, ?_, ?_, ?_⟩
  · intro pid task found
    by_cases here : pid = s.maxPid + 1
    · subst here
      have child : current.child (s.maxPid + 1) page context pageAllocs = task := by simpa using found
      rw [← child, Task.child]
    · exact matched.keyed pid task (by simpa [here] using found)
  · intro pid task found
    by_cases here : pid = s.maxPid + 1
    · subst here
      refine ⟨least, by simp, fun vruntime member => ?_⟩
      simpa [bare vruntime] using member
    · simpa [here] using matched.entered pid task (by simpa [here] using found)
  · intro vruntime pid member
    by_cases here : pid = s.maxPid + 1
    · subst here
      exact ⟨_, update_self _ _ _⟩
    · simpa [here] using matched.live vruntime pid (by simpa [here] using member)
  · intro pid task found
    by_cases here : pid = s.maxPid + 1
    · exact here.le
    · have bound := matched.issued pid task (by simpa [here] using found)
      exact Nat.le_succ_of_le bound

theorem Consistent.adds (consistent : Consistent s) (adds : s.Adds current least page context pageAllocs s') :
    Consistent s' := by
  refine ⟨consistent.toMatched.adds adds, current, ?_⟩
  have here : s.currentPid ≠ s.maxPid + 1 := by
    intro same
    have none := consistent.fresh
    rw [← same, adds.parent] at none
    cases none
  simpa [adds.result, here] using adds.parent

theorem Matched.schedule (matched : Matched s) (run : s.schedule clock fuel = .ok (next, s')) : Consistent s' := by
  obtain ⟨kept, current⟩ := Scheduler.schedule_rule Matched (fun before after now done matched round => by
    obtain ⟨vruntime, pid, slice, task, nextSchedule, picks, rfl⟩ := round_ok round
    exact (matched.advanced picks).toMatched) matched run
  exact ⟨kept, next, current⟩

theorem Matched.switchTask {ctx written : C} (matched : Matched s)
    (run : s.switchTask clock fuel ctx = .ok (written, next, s')) : Consistent s' := by
  obtain ⟨current, found, _, schedule⟩ := switchTask_ok run
  refine Matched.schedule ?_ schedule
  exact matched.setTask found rfl

theorem Matched.round_error {now : Nat} (matched : Matched s) (some : ∃ pid task, s.tasks pid = some task)
    (run : s.round now = .error fault) : fault = .overflow := by
  rcases Scheduler.round_error run with overflow | empty | ⟨vruntime, pid, member, none⟩
  · exact overflow
  · obtain ⟨pid, task, live⟩ := some
    obtain ⟨vruntime, member, _⟩ := matched.entered pid task live
    simp [empty] at member
  · obtain ⟨task, live⟩ := matched.live vruntime pid member
    rw [none] at live
    cases live

theorem Matched.schedule_error (matched : Matched s) (some : ∃ pid task, s.tasks pid = some task)
    (run : s.schedule clock fuel = .error fault) : fault = .overflow ∨ fault = .recursion := by
  induction fuel generalizing s clock with
  | zero => exact .inr (Except.error.inj run).symm
  | succ fuel ih =>
    simp only [Scheduler.schedule, bind_error, Prod.exists] at run
    rcases run with failed | ⟨after, done, round, run⟩
    · exact .inl (matched.round_error some failed)
    · obtain ⟨vruntime, pid, slice, task, nextSchedule, picks, rfl⟩ := round_ok round
      have kept : Consistent (s.advanced vruntime pid slice task nextSchedule) := matched.advanced picks
      split at run
      · obtain ⟨current, found⟩ := kept.current
        rw [currentTask_ok.mpr found] at run
        cases run
      · exact ih kept.toMatched ⟨_, kept.current⟩ run

end Matched

section Runs

variable {A M E C F : Type} [Entry E] [Mapper M E] [PageAllocator A] [ArchContext C] [Mmu E] [AddressSpace E]
  {self after : Kernel A M C F} {op : Op C F} {result : Option Nat}

omit [ArchContext C] in
theorem Task.renice_pid (task : Task M C F) (nice : Int) : (task.renice nice).pid = task.pid := by
  unfold Task.renice
  split <;> rfl

theorem Step.consistent (step : Step self op result after) (consistent : Consistent self.scheduler)
    (other : op ≠ .kernelFork) : Consistent after.scheduler := by
  cases step with
  | create run =>
    obtain ⟨_, _, _, _, ⟨_, _, adds⟩, _⟩ := createFromElf_ok consistent.fresh run
    exact consistent.adds adds
  | refuse run => rwa [createFromElf_error run]
  | fork run =>
    obtain ⟨_, _, _, _, _, ⟨_, adds⟩, _⟩ := fork_ok consistent.fresh run
    exact consistent.adds adds
  | kernelFork => exact absurd rfl other
  | schedule run => exact consistent.toMatched.schedule run
  | switchTask run => exact consistent.toMatched.switchTask run
  | kill run =>
    obtain ⟨forgotten, next, scheduler, forget, schedule, rfl⟩ := kill_ok run
    rw [(forget_ok forget).1] at schedule
    exact consistent.toMatched.forgotten.schedule schedule
  | renice found => exact consistent.setTask found (Task.renice_pid _ _)
  | touch found => exact consistent.setTask found rfl
  | copyToUser => exact consistent

theorem Step.issues (step : Step self op result after) (consistent : Consistent self.scheduler) :
    (result = none ∧ after.scheduler.maxPid = self.scheduler.maxPid) ∨
      (result = some (self.scheduler.maxPid + 1) ∧ after.scheduler.maxPid = self.scheduler.maxPid + 1) := by
  cases step with
  | create run =>
    obtain ⟨rfl, _, _, _, ⟨_, _, adds⟩, _⟩ := createFromElf_ok consistent.fresh run
    exact .inr ⟨rfl, by rw [adds.result]⟩
  | refuse run => exact .inl ⟨rfl, by rw [createFromElf_error run]⟩
  | fork run =>
    obtain ⟨rfl, _, _, _, _, ⟨_, adds⟩, _⟩ := fork_ok consistent.fresh run
    exact .inr ⟨rfl, by rw [adds.result]⟩
  | kernelFork run =>
    obtain ⟨_, _, _, _, _, _, entered⟩ := kernelFork_ok consistent.fresh run
    exact .inr ⟨rfl, by rw [entered]⟩
  | schedule run => exact .inl ⟨rfl, schedule_maxPid run⟩
  | switchTask run =>
    obtain ⟨_, _, _, schedule⟩ := switchTask_ok run
    exact .inl ⟨rfl, (schedule_maxPid schedule).trans rfl⟩
  | kill run =>
    obtain ⟨forgotten, next, scheduler, forget, schedule, rfl⟩ := kill_ok run
    refine .inl ⟨rfl, (schedule_maxPid schedule).trans ?_⟩
    rw [(forget_ok forget).1, Scheduler.forgotten]
  | renice => exact .inl ⟨rfl, rfl⟩
  | touch => exact .inl ⟨rfl, rfl⟩
  | copyToUser => exact .inl ⟨rfl, rfl⟩

def IssuingStep (before after : Kernel A M C F × List Nat) : Prop :=
  ∃ op result, op ≠ Op.kernelFork ∧ Step before.1 op result after.1 ∧ after.2 = result.toList ++ before.2

structure Accounted (s : Scheduler M C F) (pids : List Nat) : Prop extends Consistent s where
  nodup : pids.Nodup
  bound : ∀ pid ∈ pids, pid ≤ s.maxPid

theorem IssuingStep.accounted {before after : Kernel A M C F × List Nat} (step : IssuingStep before after)
    (accounted : Accounted before.1.scheduler before.2) : Accounted after.1.scheduler after.2 := by
  obtain ⟨op, result, other, step, pids⟩ := step
  have consistent := step.consistent accounted.toConsistent other
  rcases step.issues accounted.toConsistent with ⟨rfl, same⟩ | ⟨rfl, next⟩
  · rw [pids]
    exact ⟨consistent, accounted.nodup, fun pid member => same ▸ accounted.bound pid member⟩
  · rw [pids]
    refine ⟨consistent, List.nodup_cons.mpr ⟨fun member => ?_, accounted.nodup⟩, fun pid member => ?_⟩
    · have old := accounted.bound _ member
      omega
    · rcases List.mem_cons.mp member with rfl | old
      · exact next.ge
      · have least := accounted.bound pid old
        omega

theorem taskInit_consistent {layout : KernelLayout} {kernelPt : M} {machine : Machine A}
    (run : taskInit layout kernelPt machine = .ok self) :
    Consistent self.scheduler ∧ self.scheduler.maxPid = 0 ∧ self.scheduler.vruntime = {toLex (0, kernelPid)} := by
  have only := @taskInit_only _ _ _ _ _ _ _ _ _ _ run
  obtain ⟨trapStack, alloc, _, _, _, _, scheduler⟩ := taskInit_ok run
  refine ⟨⟨⟨?_, ?_, ?_, ?_⟩, ?_⟩, by rw [scheduler], by rw [scheduler]⟩
  · intro pid task live
    obtain ⟨rfl, rfl⟩ := only live
    rfl
  · intro pid task live
    obtain ⟨rfl, rfl⟩ := only live
    rw [scheduler]
    exact ⟨0, by simp, fun vruntime member => by simpa using member⟩
  · intro vruntime pid member
    rw [scheduler] at member ⊢
    obtain ⟨_, rfl⟩ : vruntime = 0 ∧ pid = kernelPid := by simpa using member
    exact ⟨_, rfl⟩
  · intro pid task live
    obtain ⟨rfl, _⟩ := only live
    exact Nat.zero_le _
  · rw [scheduler]
    exact ⟨_, rfl⟩

/-- Without `kernel_fork` tasks and vruntimes belong together, no pid is issued twice, and nothing unwraps `None`. -/
theorem tasks_match_vruntime {layout : KernelLayout} {kernelPt : M} {machine : Machine A} {start self : Kernel A M C F}
    {issued : List Nat} (init : taskInit layout kernelPt machine = .ok start)
    (run : Relation.ReflTransGen IssuingStep (start, [kernelPid]) (self, issued)) :
    Consistent self.scheduler ∧ issued.Nodup ∧ (∃ task, self.scheduler.currentTask = .ok task) ∧
      (∀ clock fuel fault, self.scheduler.schedule clock fuel = .error fault → fault = .overflow ∨ fault = .recursion) ∧
      ∀ pid forgotten, self.forget pid = .ok forgotten →
        (∃ other task, other ≠ pid ∧ self.scheduler.tasks other = some task) →
        ∀ clock fuel fault, forgotten.scheduler.schedule clock fuel = .error fault →
          fault = .overflow ∨ fault = .recursion := by
  obtain ⟨consistent, zero, _⟩ := taskInit_consistent init
  have accounted := Runs.preserved (fun state : Kernel A M C F × List Nat => Accounted state.1.scheduler state.2)
    (fun _ _ kept step => step.accounted kept)
    ⟨consistent, List.nodup_singleton _, by simp [zero, kernelPid]⟩ run
  dsimp only at accounted
  obtain ⟨task, current⟩ := accounted.current
  refine ⟨accounted.toConsistent, accounted.nodup, ⟨task, currentTask_ok.mpr current⟩, ?_, ?_⟩
  · intro clock fuel fault
    exact accounted.toMatched.schedule_error ⟨_, task, current⟩
  · rintro pid forgotten forget ⟨other, left, differs, live⟩ clock fuel fault
    rw [(forget_ok forget).1]
    refine accounted.toMatched.forgotten.schedule_error ⟨other, left, ?_⟩
    simpa [Scheduler.forgotten, differs] using live

end Runs

def boot : Exec (Kernel Bump Sv39Mapper Trap.Riscv64.Context Empty) := do
  let (kernelPt, machine) ← Mapper.newWithAllocator bareMachine
  taskInit bareLayout kernelPt machine

theorem boot_ok {self : Kernel Bump Sv39Mapper Trap.Riscv64.Context Empty} (run : boot = .ok self) :
    ∃ kernelPt machine, taskInit bareLayout kernelPt machine = .ok self := by
  simp only [boot, bind_ok, Prod.exists] at run
  obtain ⟨kernelPt, machine, _, init⟩ := run
  exact ⟨kernelPt, machine, init⟩

theorem created_task_scheduled :
    ∃ start created self : Kernel Bump Sv39Mapper Trap.Riscv64.Context Empty, boot = .ok start ∧
      start.createFromElf (oneSegment 4096 16 32) (fun _ => 0) = .ok (.ok 1, created) ∧
      self.scheduler.currentPid = 1 ∧ Consistent self.scheduler := by
  obtain ⟨start, booted, passed⟩ := exists_of_passes (show passes boot (fun start =>
      passes (start.createFromElf (oneSegment 4096 16 32) (fun _ => 0)) fun (pid, created) =>
        pid.toOption = some 1 && passes (created.scheduler.schedule id 1) fun (_, first) =>
        passes (first.schedule id 1) fun (_, second) => second.currentPid = 1) = true by decide +kernel)
  obtain ⟨⟨pid, created⟩, create, passed⟩ := exists_of_passes passed
  simp only [Bool.and_eq_true, decide_eq_true_eq] at passed
  obtain ⟨issued, passed⟩ := passed
  obtain ⟨⟨_, first⟩, firstRun, passed⟩ := exists_of_passes passed
  obtain ⟨⟨_, second⟩, secondRun, current⟩ := exists_of_passes passed
  obtain ⟨kernelPt, machine, init⟩ := boot_ok booted
  obtain rfl := toOption_ok.mp issued
  refine ⟨start, created, { created with scheduler := second }, booted, create, by simpa using current, ?_⟩
  have creates : IssuingStep (start, [kernelPid]) (created, [1, kernelPid]) :=
    ⟨.create _ _, some 1, nofun, .create create, rfl⟩
  have schedules : IssuingStep (created, [1, kernelPid]) ({ created with scheduler := first }, [1, kernelPid]) :=
    ⟨.schedule, none, nofun, .schedule firstRun, rfl⟩
  have again : IssuingStep ({ created with scheduler := first }, [1, kernelPid])
      ({ created with scheduler := second }, [1, kernelPid]) :=
    ⟨.schedule, none, nofun, .schedule secondRun, rfl⟩
  exact (tasks_match_vruntime init (((Relation.ReflTransGen.single creates).tail schedules).tail again)).1

/-- When the kernel task is killed, `schedule` unwraps `None`. -/
theorem kernel_fork_never_scheduled :
    ∃ start forked forgotten : Kernel Bump Sv39Mapper Trap.Riscv64.Context Empty, boot = .ok start ∧
      start.kernelFork = .ok forked ∧ (forked.scheduler.tasks 1).isSome ∧
      (∀ vruntime, toLex (vruntime, 1) ∉ forked.scheduler.vruntime) ∧ forked.forget 0 = .ok forgotten ∧
      (forgotten.scheduler.tasks 1).isSome ∧ forgotten.scheduler.schedule id 1 = .error .unwrapNone := by
  obtain ⟨start, booted, passed⟩ := exists_of_passes (show passes boot (fun start =>
      passes start.kernelFork fun forked =>
        (forked.scheduler.tasks 1).isSome && decide (forked.scheduler.vruntime = {toLex (0, 0)}) &&
        passes (forked.forget 0) fun forgotten =>
        (forgotten.scheduler.tasks 1).isSome && decide (forgotten.scheduler.vruntime = ∅)) = true by decide +kernel)
  obtain ⟨forked, fork, passed⟩ := exists_of_passes passed
  simp only [Bool.and_eq_true, decide_eq_true_eq] at passed
  obtain ⟨⟨live, entries⟩, passed⟩ := passed
  obtain ⟨forgotten, forget, passed⟩ := exists_of_passes passed
  simp only [Bool.and_eq_true, decide_eq_true_eq] at passed
  obtain ⟨left, empty⟩ := passed
  refine ⟨start, forked, forgotten, booted, fork, live, ?_, forget, left, ?_⟩
  · intro vruntime member
    simp [entries] at member
  · rw [Scheduler.schedule, Scheduler.round, empty]
    rfl

end Kernel31.Sched
