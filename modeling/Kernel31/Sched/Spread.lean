import Kernel31.Sched.Vruntime

namespace Kernel31.Sched

open Page Paging Kernel31.Task OrderedSet Checked Kernel Scheduler

def Spread (vruntime : Finset (Nat ×ₗ Nat)) : Prop :=
  ∀ one ∈ vruntime, ∀ other ∈ vruntime, ((ofLex one).1 : Int) - (ofLex other).1 ≤ 2 * niceMax

theorem Spread.mono {all part : Finset (Nat ×ₗ Nat)} (spread : Spread all) (subset : part ⊆ all) : Spread part :=
  fun one oneIn other otherIn => spread one (subset oneIn) other (subset otherIn)

theorem Spread.of_least {vruntime : Finset (Nat ×ₗ Nat)} (least : Nat)
    (above : ∀ entry ∈ vruntime, least ≤ (ofLex entry).1 ∧ ((ofLex entry).1 : Int) ≤ least + 2 * niceMax) :
    Spread vruntime := by
  intro one oneIn other otherIn
  have upper := (above one oneIn).2
  have lower := (above other otherIn).1
  omega

section Scheduler

variable {M C F : Type} {s s' : Scheduler M C F}

def Fair (s : Scheduler M C F) : Prop := ∀ pid task, s.tasks pid = some task → -niceMax ≤ task.nice ∧ task.nice ≤ niceMax

variable {slice pid least : Nat} {current : Task M C F} {page : M} {context : C} {pageAllocs : List PageAlloc}

theorem timeSlice_le {nice : Int} (fair : -niceMax ≤ nice ∧ nice ≤ niceMax) (run : timeSlice nice = .ok slice) :
    (slice : Int) ≤ 2 * niceMax := by
  obtain rfl : (nice + niceMax).toNat = slice := ok_unique (timeSlice_eq fair.1 fair.2) run
  omega

theorem Spread.advanced {vruntime : Nat} {task : Task M C F} {nextSchedule : Option Nat}
    (spread : Spread s.vruntime) (fair : Fair s) (picks : s.Picks vruntime pid slice task) :
    Spread (s.advanced vruntime pid slice task nextSchedule).vruntime := by
  have short := timeSlice_le (fair _ _ picks.live) picks.slice
  refine Spread.of_least vruntime fun entry member => ?_
  rcases Finset.mem_insert.mp member with rfl | old
  · refine ⟨Nat.le_add_right _ _, ?_⟩
    have moved : ((vruntime + slice : Nat) : Int) ≤ vruntime + 2 * niceMax := by omega
    exact moved
  · have old := (Finset.mem_erase.mp old).2
    have upper : ((ofLex entry).1 : Int) - vruntime ≤ 2 * niceMax := spread entry old _ picks.member
    exact ⟨Prod.Lex.monotone_fst _ _ (picks.least entry old), by omega⟩

theorem Spread.adds (spread : Spread s.vruntime) (adds : s.Adds current least page context pageAllocs s') :
    Spread s'.vruntime := by
  obtain ⟨⟨pid, first⟩, below⟩ := adds.first
  obtain rfl := adds.result
  refine Spread.of_least least fun entry member => ?_
  rcases Finset.mem_insert.mp member with rfl | old
  · refine ⟨le_refl _, ?_⟩
    have same : (least : Int) ≤ least + 2 * niceMax := by simp [niceMax]
    exact same
  · have upper : ((ofLex entry).1 : Int) - least ≤ 2 * niceMax := spread entry old _ first
    exact ⟨below entry old, by omega⟩

theorem Fair.setTask {old new : Task M C F} (fair : Fair s) (found : s.tasks pid = some old)
    (same : new.nice = old.nice) : Fair (s.setTask pid new) := by
  intro other task live
  by_cases here : other = pid
  · subst here
    obtain rfl : new = task := by simpa [Scheduler.setTask] using live
    rw [same]
    exact fair _ _ found
  · exact fair other task (by simpa [Scheduler.setTask, here] using live)

theorem Fair.forgotten (fair : Fair s) : Fair (s.forgotten pid) := by
  intro other task live
  by_cases here : other = pid
  · subst here
    simp [Scheduler.forgotten] at live
  · exact fair other task (by simpa [Scheduler.forgotten, here] using live)

theorem Fair.adds (fair : Fair s) (adds : s.Adds current least page context pageAllocs s') : Fair s' := by
  obtain rfl := adds.result
  intro other task live
  by_cases here : other = s.maxPid + 1
  · subst here
    obtain rfl : current.child (s.maxPid + 1) page context pageAllocs = task := by simpa using live
    exact fair _ current adds.parent
  · exact fair other task (by simpa [here] using live)

end Scheduler

section Runs

variable {A M E C F : Type} [Entry E] [Mapper M E] [PageAllocator A] [ArchContext C] [Mmu E] [AddressSpace E]
  {self after : Kernel A M C F} {op : Op C F} {result : Option Nat}

def Op.Whole : Op C F → Prop
  | .schedule | .switchTask _ | .kill _ | .kernelFork => False
  | _ => True

/-- The calls cut into the rounds of the loop of `schedule` and what is done before it. -/
inductive SmallStep : Kernel A M C F → Kernel A M C F → Prop where
  | call {self after : Kernel A M C F} {op : Op C F} {result : Option Nat} (step : Step self op result after)
      (whole : op.Whole) : SmallStep self after
  | round {self : Kernel A M C F} {now : Nat} {scheduler : Scheduler M C F} {done : Bool}
      (run : self.scheduler.round now = .ok (scheduler, done)) : SmallStep self { self with scheduler := scheduler }
  | forget {self after : Kernel A M C F} {pid : Nat} (run : self.forget pid = .ok after) : SmallStep self after

def FairStep (before after : Kernel A M C F) : Prop := Fair before.scheduler ∧ SmallStep before after

theorem SmallStep.matched (step : SmallStep self after) (matched : Matched self.scheduler) : Matched after.scheduler := by
  cases step with
  | round run =>
    obtain ⟨vruntime, pid, slice, task, nextSchedule, picks, rfl⟩ := round_ok run
    exact (matched.advanced picks).toMatched
  | forget run =>
    rw [(forget_ok run).1]
    exact matched.forgotten
  | call step whole =>
    cases step with
    | create run =>
      obtain ⟨_, _, _, _, ⟨_, _, adds⟩, _⟩ := createFromElf_ok matched.fresh run
      exact matched.adds adds
    | refuse run => rwa [createFromElf_error run]
    | fork run =>
      obtain ⟨_, _, _, _, _, ⟨_, adds⟩, _⟩ := fork_ok matched.fresh run
      exact matched.adds adds
    | kernelFork | schedule | switchTask | kill => cases whole
    | renice found => exact matched.setTask found (Task.renice_pid _ _)
    | touch found => exact matched.setTask found rfl
    | copyToUser => exact matched

theorem FairStep.spread (step : FairStep self after) (matched : Matched self.scheduler)
    (spread : Spread self.scheduler.vruntime) : Spread after.scheduler.vruntime := by
  obtain ⟨fair, step⟩ := step
  cases step with
  | round run =>
    obtain ⟨vruntime, pid, slice, task, nextSchedule, picks, rfl⟩ := round_ok run
    exact spread.advanced fair picks
  | forget run =>
    rw [(forget_ok run).1]
    exact spread.mono (Finset.filter_subset _ _)
  | call step whole =>
    cases step with
    | create run =>
      obtain ⟨_, _, _, _, ⟨_, _, adds⟩, _⟩ := createFromElf_ok matched.fresh run
      exact spread.adds adds
    | refuse run => rwa [createFromElf_error run]
    | fork run =>
      obtain ⟨_, _, _, _, _, ⟨_, adds⟩, _⟩ := fork_ok matched.fresh run
      exact spread.adds adds
    | kernelFork | schedule | switchTask | kill => cases whole
    | renice | touch | copyToUser => exact spread

theorem fairSteps_of_schedule {clock : Nat → Nat} {fuel : Nat} {next : Task M C F} {scheduler : Scheduler M C F}
    (fair : Fair self.scheduler) (run : self.scheduler.schedule clock fuel = .ok (next, scheduler)) :
    Relation.ReflTransGen FairStep self { self with scheduler := scheduler } := by
  have rounds := Scheduler.schedule_rule
    (fun between => Fair between ∧ Relation.ReflTransGen FairStep self { self with scheduler := between })
    (by
      rintro before after now done ⟨fair, steps⟩ round
      refine ⟨?_, steps.tail ⟨fair, .round round⟩⟩
      obtain ⟨vruntime, pid, slice, task, nextSchedule, picks, rfl⟩ := round_ok round
      exact fair.setTask picks.live rfl)
    ⟨fair, .refl⟩ run
  exact rounds.1.2

theorem Step.fairSteps (step : Step self op result after) (fair : Fair self.scheduler) (other : op ≠ .kernelFork) :
    Relation.ReflTransGen FairStep self after := by
  cases step with
  | create run => exact .single ⟨fair, .call (.create run) trivial⟩
  | refuse run => exact .single ⟨fair, .call (.refuse run) trivial⟩
  | fork run => exact .single ⟨fair, .call (.fork run) trivial⟩
  | kernelFork => exact absurd rfl other
  | schedule run => exact fairSteps_of_schedule fair run
  | @switchTask clock fuel ctx written next scheduler run =>
    obtain ⟨current, found, _, schedule⟩ := Scheduler.switchTask_ok run
    have saved : SmallStep self
        { self with
          scheduler := self.scheduler.setTask self.scheduler.currentPid { current with context := ctx } } :=
      .call (.touch found) trivial
    exact .head ⟨fair, saved⟩ (fairSteps_of_schedule (fair.setTask found rfl) schedule)
  | kill run =>
    obtain ⟨forgotten, next, scheduler, forget, schedule, rfl⟩ := kill_ok run
    refine .head ⟨fair, .forget forget⟩ (fairSteps_of_schedule ?_ schedule)
    rw [(forget_ok forget).1]
    exact fair.forgotten
  | renice found => exact .single ⟨fair, .call (.renice found) trivial⟩
  | touch found => exact .single ⟨fair, .call (.touch found) trivial⟩
  | copyToUser found run => exact .single ⟨fair, .call (.copyToUser found run) trivial⟩

theorem taskInit_fair {layout : KernelLayout} {kernelPt : M} {machine : Machine A}
    (run : taskInit layout kernelPt machine = .ok self) : Fair self.scheduler := by
  intro pid task live
  obtain ⟨_, rfl⟩ := taskInit_only run live
  exact (by decide : -niceMax ≤ niceDefault ∧ niceDefault ≤ niceMax)

/-- In every state on the way two vruntimes are at most `2 * NICE_MAX` apart. -/
theorem vruntimes_within_slice {layout : KernelLayout} {kernelPt : M} {machine : Machine A} {start self : Kernel A M C F}
    (init : taskInit layout kernelPt machine = .ok start) (run : Relation.ReflTransGen FairStep start self) :
    Spread self.scheduler.vruntime ∧
      ∀ first rest, popFirst self.scheduler.vruntime = some (first, rest) → Spread rest := by
  obtain ⟨consistent, _, single⟩ := taskInit_consistent init
  have spread : Spread start.scheduler.vruntime := by
    rw [single]
    simp [Spread, niceMax]
  obtain ⟨_, spread⟩ := Runs.preserved (fun kernel => Matched kernel.scheduler ∧ Spread kernel.scheduler.vruntime)
    (by
      rintro _ _ ⟨matched, spread⟩ step
      exact ⟨step.2.matched matched, step.spread matched spread⟩)
    ⟨consistent.toMatched, spread⟩ run
  refine ⟨spread, fun first rest popped => ?_⟩
  obtain ⟨_, rfl, _⟩ := popFirst_some popped
  exact spread.mono (Finset.erase_subset _ _)

end Runs

theorem two_tasks_within_slice :
    ∃ start created self : Kernel Bump Sv39Mapper Trap.Riscv64.Context Empty, boot = .ok start ∧
      start.createFromElf (oneSegment 4096 16 32) (fun _ => 0) = .ok (.ok 1, created) ∧
      self.scheduler.vruntime = {toLex (0, 1), toLex (19, 0)} ∧ Spread self.scheduler.vruntime := by
  obtain ⟨start, booted, passed⟩ := exists_of_passes (show passes boot (fun start =>
      passes (start.createFromElf (oneSegment 4096 16 32) (fun _ => 0)) fun made =>
        decide (made.1.toOption = some 1) && passes (made.2.scheduler.schedule id 1) fun round =>
        round.2.vruntime = {toLex (0, 1), toLex (19, 0)}) = true by decide +kernel)
  obtain ⟨⟨pid, created⟩, create, passed⟩ := exists_of_passes passed
  simp only [Bool.and_eq_true, decide_eq_true_eq] at passed
  obtain ⟨issued, passed⟩ := passed
  obtain ⟨⟨next, scheduler⟩, schedule, entries⟩ := exists_of_passes passed
  obtain ⟨kernelPt, machine, init⟩ := boot_ok booted
  obtain rfl := toOption_ok.mp issued
  have fair := taskInit_fair init
  obtain ⟨consistent, _⟩ := taskInit_consistent init
  obtain ⟨_, _, _, _, ⟨_, _, adds⟩, _⟩ := createFromElf_ok consistent.fresh create
  have creates : FairStep start created := ⟨fair, .call (.create create) trivial⟩
  have run := (fairSteps_of_schedule (fair.adds adds) schedule).head creates
  exact ⟨start, created, _, booted, create, by simpa using entries, (vruntimes_within_slice init run).1⟩

end Kernel31.Sched
