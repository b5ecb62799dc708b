import Kernel31.Sched.Vruntime

namespace Kernel31.Sched

open Kernel31.Task OrderedSet Checked Scheduler Function

variable {M C F : Type} {s s' after : Scheduler M C F} {now vruntime pid least picked slice vruntime' : Nat}
  {task sleeper zero one : Task M C F}

def Advancing (s : Scheduler M C F) : Prop := ∀ pid task, s.tasks pid = some task → -18 ≤ task.nice ∧ task.nice ≤ niceMax

theorem timeSlice_of_advancing {nice : Int} (bounds : -18 ≤ nice ∧ nice ≤ niceMax) :
    timeSlice nice = .ok (nice + niceMax).toNat := by
  have lower : -niceMax ≤ nice := by
    simp only [niceMax]
    omega
  exact timeSlice_eq lower bounds.2

theorem Scheduler.Picks.slice_eq (picks : s.Picks vruntime pid slice task) (advancing : Advancing s) :
    slice = (task.nice + niceMax).toNat :=
  (ok_unique (timeSlice_of_advancing (advancing pid task picks.live)) picks.slice).symm

structure Scheduler.Selects (s : Scheduler M C F) (now vruntime pid : Nat) (task : Task M C F) : Prop where
  member : toLex (vruntime, pid) ∈ s.vruntime
  live : s.tasks pid = some task
  runnable : task.Runnable now
  least : ∀ value other found, toLex (value, other) ∈ s.vruntime → s.tasks other = some found → found.Runnable now →
    toLex (vruntime, pid) ≤ toLex (value, other)

/-- The selected task is woken up and its vruntime raised by `nice + 19`; the other runnable tasks keep theirs. -/
structure Scheduler.Selected (s : Scheduler M C F) (now vruntime pid : Nat) (task : Task M C F)
    (after : Scheduler M C F) : Prop where
  current : after.currentPid = pid
  tasks : after.tasks = update s.tasks pid (some { task with nextSchedule := none })
  raised : ∀ value : Nat, toLex (value, pid) ∈ after.vruntime ↔ (value : Int) = vruntime + (task.nice + 19)
  kept : ∀ other found, other ≠ pid → s.tasks other = some found → found.Runnable now →
    ∀ value, toLex (value, other) ∈ after.vruntime ↔ toLex (value, other) ∈ s.vruntime

theorem Matched.exists_selects (matched : Matched s) (some : ∃ pid task, s.tasks pid = some task ∧ task.Runnable now) :
    ∃ vruntime pid task, s.Selects now vruntime pid task := by
  classical
  let runnable := s.vruntime.filter fun entry => ∃ task, s.tasks (ofLex entry).2 = .some task ∧ task.Runnable now
  have nonempty : runnable.Nonempty := by
    obtain ⟨pid, task, live, runs⟩ := some
    obtain ⟨vruntime, member, _⟩ := matched.entered pid task live
    exact ⟨toLex (vruntime, pid), Finset.mem_filter.mpr ⟨member, task, live, runs⟩⟩
  obtain ⟨first, chosen, least⟩ := Finset.exists_min_image runnable id nonempty
  obtain ⟨member, task, live, runs⟩ := Finset.mem_filter.mp chosen
  refine ⟨(ofLex first).1, (ofLex first).2, task, member, live, runs, ?_⟩
  intro value other found entered alive awake
  exact least (toLex (value, other)) (Finset.mem_filter.mpr ⟨entered, found, alive, awake⟩)

def Scheduler.lag (s : Scheduler M C F) (goal : Nat) : Nat := ∑ entry ∈ s.vruntime, (goal + 1 - (ofLex entry).1)

theorem Scheduler.Selects.picked_le (selects : s.Selects now vruntime pid task)
    (picks : s.Picks least picked slice sleeper) : least ≤ vruntime :=
  Prod.Lex.monotone_fst _ _ (picks.least _ selects.member)

theorem Scheduler.Selects.lag_lt {nextSchedule : Option Nat} (selects : s.Selects now vruntime pid task)
    (advancing : Advancing s) (picks : s.Picks least picked slice sleeper) :
    (s.advanced least picked slice sleeper nextSchedule).lag vruntime < s.lag vruntime := by
  have below := selects.picked_le picks
  have raised := picks.slice_eq advancing
  have lower := (advancing picked sleeper picks.live).1
  simp only [niceMax] at raised
  refine sum_move_lt picks.member ?_
  simp only [ofLex_toLex]
  omega

theorem Scheduler.Picks.tasks_eq (picks : s.Picks least picked slice sleeper) :
    (s.advanced least picked slice sleeper sleeper.nextSchedule).tasks = s.tasks :=
  update_eq_self_iff.mpr picks.live.symm

theorem Scheduler.Selects.asleep (selects : s.Selects now vruntime pid task) (matched : Matched s)
    (picks : s.Picks least picked slice sleeper) (asleep : ¬ sleeper.Runnable now) :
    (s.advanced least picked slice sleeper sleeper.nextSchedule).Selects now vruntime pid task := by
  have awake {other : Nat} {found : Task M C F} (live : s.tasks other = some found) (runs : found.Runnable now) :
      other ≠ picked := by
    rintro rfl
    exact asleep (Option.mem_unique picks.live live ▸ runs)
  have others : pid ≠ picked := awake selects.live selects.runnable
  refine ⟨?_, by rw [picks.tasks_eq, selects.live], selects.runnable, ?_⟩
  · rw [matched.mem_advanced picks, if_neg others]
    exact selects.member
  · intro value other found entered live runs
    rw [picks.tasks_eq] at live
    rw [matched.mem_advanced picks, if_neg (awake live runs)] at entered
    exact selects.least value other found entered live runs

theorem Scheduler.Selected.of_asleep (matched : Matched s) (picks : s.Picks least picked slice sleeper)
    (asleep : ¬ sleeper.Runnable now)
    (selected : (s.advanced least picked slice sleeper sleeper.nextSchedule).Selected now vruntime pid task after) :
    s.Selected now vruntime pid task after := by
  refine ⟨selected.current, by rw [selected.tasks, picks.tasks_eq], selected.raised, ?_⟩
  intro other found differs live runs value
  have others : other ≠ picked := by
    rintro rfl
    exact asleep (Option.mem_unique picks.live live ▸ runs)
  rw [selected.kept other found differs (by rw [picks.tasks_eq, live]) runs value, matched.mem_advanced picks,
    if_neg others]

theorem Scheduler.Selects.awake (selects : s.Selects now vruntime pid task)
    (picks : s.Picks least picked slice sleeper) (awake : sleeper.Runnable now) :
    least = vruntime ∧ picked = pid ∧ sleeper = task := by
  have lower := picks.least _ selects.member
  have upper := selects.least least picked sleeper picks.member picks.live awake
  obtain ⟨rfl, rfl⟩ : least = vruntime ∧ picked = pid := by simpa using le_antisymm lower upper
  exact ⟨rfl, rfl, Option.mem_unique picks.live selects.live⟩

theorem Scheduler.Picks.selected (picks : s.Picks vruntime pid slice task) (matched : Matched s)
    (advancing : Advancing s) : s.Selected now vruntime pid task (s.advanced vruntime pid slice task none) := by
  have raised := picks.slice_eq advancing
  have lower := (advancing pid task picks.live).1
  simp only [niceMax] at raised
  refine ⟨rfl, rfl, ?_, ?_⟩
  · intro value
    rw [matched.mem_advanced picks, if_pos rfl]
    omega
  · intro other found differs live runs value
    rw [matched.mem_advanced picks, if_neg differs]

theorem Advancing.advanced (advancing : Advancing s) (picks : s.Picks least picked slice sleeper) :
    Advancing (s.advanced least picked slice sleeper sleeper.nextSchedule) := by
  intro pid task live
  rw [picks.tasks_eq] at live
  exact advancing pid task live

theorem Matched.schedule_rule (matched : Matched s) (advancing : Advancing s) (selects : s.Selects now vruntime pid task)
    (noOverflow : ∀ fuel, s.schedule (fun _ => now) fuel ≠ .error .overflow) :
    ∃ enough after, s.Selected now vruntime pid task after ∧ ∀ fuel, s.schedule (fun _ => now) fuel =
      if enough ≤ fuel then .ok ({ task with nextSchedule := none }, after) else .error .recursion := by
  -- a round that does not end the loop makes `lag` smaller
  induction size : s.lag vruntime using Nat.strong_induction_on generalizing s with
  | _ size ih =>
    subst size
    cases round : s.round now with
    | error fault =>
      obtain rfl := matched.round_error ⟨pid, task, selects.live⟩ round
      have failed : s.schedule (fun _ => now) 1 = .error .overflow := by
        rw [Scheduler.schedule, round]
        rfl
      exact absurd failed (noOverflow 1)
    | ok result =>
      obtain ⟨next, done⟩ := result
      obtain ⟨least, picked, slice, found, picks, ⟨rfl, awake, rfl⟩ | ⟨rfl, asleep, rfl⟩⟩ := round_cases round
      · obtain ⟨rfl, rfl, rfl⟩ := selects.awake picks awake
        refine ⟨1, _, picks.selected matched advancing, ?_⟩
        intro fuel
        cases fuel with
        | zero => rfl
        | succ fuel =>
          rw [if_pos (Nat.le_add_left 1 fuel)]
          exact schedule_last round (update_self _ _ _) fuel
      · obtain ⟨enough, after, selected, runs⟩ := ih _ (selects.lag_lt advancing picks)
          (matched.advanced picks).toMatched (advancing.advanced picks) (selects.asleep matched picks asleep)
          (fun fuel failed => noOverflow (fuel + 1) ((schedule_next round fuel).trans failed)) rfl
        refine ⟨enough + 1, after, .of_asleep matched picks asleep selected, ?_⟩
        intro fuel
        cases fuel with
        | zero => rfl
        | succ fuel =>
          rw [schedule_next round, runs]
          simp

theorem Matched.exists_picks (matched : Matched s) (nice : ∀ pid task, s.tasks pid = some task → task.nice ≤ niceMax)
    (some : ∃ pid task, s.tasks pid = some task) : ∃ least picked slice found, s.Picks least picked slice found := by
  obtain ⟨pid, task, live⟩ := some
  obtain ⟨vruntime, member, _⟩ := matched.entered pid task live
  obtain ⟨first, chosen, least⟩ := Finset.exists_min_image s.vruntime id ⟨_, member⟩
  obtain ⟨found, live⟩ := matched.live (ofLex first).1 (ofLex first).2 chosen
  have small : found.nice + niceMax < 2 ^ 63 := by
    have upper := nice _ _ live
    simp only [niceMax] at upper ⊢
    omega
  exact ⟨(ofLex first).1, (ofLex first).2, _, found, chosen, least, live, if_pos small⟩

theorem Scheduler.Selects.schedule_ne_overflow (selects : s.Selects now vruntime pid task) (matched : Matched s)
    (advancing : Advancing s) (low : vruntime + 38 < 2 ^ 64) (fuel : Nat) :
    s.schedule (fun _ => now) fuel ≠ .error .overflow := by
  induction fuel generalizing s with
  | zero => exact fun failed => nomatch Except.error.inj failed
  | succ fuel ih =>
    obtain ⟨least, picked, slice, found, picks⟩ :=
      matched.exists_picks (fun pid task live => (advancing pid task live).2) ⟨pid, task, selects.live⟩
    have below := selects.picked_le picks
    have raised := picks.slice_eq advancing
    have upper := (advancing picked found picks.live).2
    simp only [niceMax] at raised upper
    have fits : least + slice < 2 ^ 64 := by omega
    obtain ⟨next, done, round⟩ : ∃ next done, s.round now = .ok (next, done) := picks.round_returns fits
    obtain ⟨_, _, _, _, picks, ⟨rfl, _, rfl⟩ | ⟨rfl, asleep, rfl⟩⟩ := round_cases round
    · rw [schedule_last round (update_self _ _ _)]
      simp
    · rw [schedule_next round]
      exact ih (selects.asleep matched picks asleep) (matched.advanced picks).toMatched (advancing.advanced picks)

/-- `schedule` ends, and it selects the runnable task with the least pair of a vruntime and a pid. -/
theorem schedule_selects_least (matched : Matched s)
    (nice : ∀ pid task, s.tasks pid = some task → -18 ≤ task.nice ∧ task.nice ≤ 19)
    (noOverflow : ∀ fuel, s.schedule (fun _ => now) fuel ≠ .error .overflow)
    (some : ∃ pid task, s.tasks pid = some task ∧ task.Runnable now) :
    ∃ enough vruntime pid task after, s.Selects now vruntime pid task ∧ s.Selected now vruntime pid task after ∧
      ∀ fuel, s.schedule (fun _ => now) fuel =
        if enough ≤ fuel then .ok ({ task with nextSchedule := none }, after) else .error .recursion := by
  obtain ⟨vruntime, pid, task, selects⟩ := matched.exists_selects some
  obtain ⟨enough, after, selected, runs⟩ := matched.schedule_rule nice selects noOverflow
  exact ⟨enough, vruntime, pid, task, after, selects, selected, runs⟩

def pair {M C F : Type} (zero one : Task M C F) (vruntime vruntime' : Nat) : Scheduler M C F :=
  { tasks := fun pid => if pid = 0 then some zero else if pid = 1 then some one else none
    vruntime := {toLex (vruntime, 0), toLex (vruntime', 1)}
    currentPid := 0
    maxPid := 1
    trapStack := 0 }

theorem pair_cases (live : (pair zero one vruntime vruntime').tasks pid = some task) :
    pid = 0 ∧ task = zero ∨ pid = 1 ∧ task = one := by
  simp only [pair] at live
  split at live
  · exact .inl ⟨‹_›, (Option.some.inj live).symm⟩
  · split at live
    · exact .inr ⟨‹_›, (Option.some.inj live).symm⟩
    · cases live

theorem pair_entry {value : Nat} :
    toLex (value, pid) ∈ (pair zero one vruntime vruntime').vruntime ↔
      value = vruntime ∧ pid = 0 ∨ value = vruntime' ∧ pid = 1 := by simp [pair]

theorem pair_matched (first : zero.pid = 0) (second : one.pid = 1) : Matched (pair zero one vruntime vruntime') := by
  refine ⟨?_, ?_, ?_, ?_⟩
  · intro pid task live
    obtain ⟨rfl, rfl⟩ | ⟨rfl, rfl⟩ := pair_cases live
    · exact first
    · exact second
  · intro pid task live
    obtain ⟨rfl, rfl⟩ | ⟨rfl, rfl⟩ := pair_cases live
    · exact ⟨vruntime, by simp [pair_entry], fun value member => by simpa [pair_entry] using member⟩
    · exact ⟨vruntime', by simp [pair_entry], fun value member => by simpa [pair_entry] using member⟩
  · intro value pid member
    obtain ⟨_, rfl⟩ | ⟨_, rfl⟩ := pair_entry.mp member
    · exact ⟨zero, rfl⟩
    · exact ⟨one, rfl⟩
  · intro pid task live
    obtain ⟨rfl, rfl⟩ | ⟨rfl, rfl⟩ := pair_cases live
    · exact Nat.zero_le _
    · exact le_refl _

def napping : Scheduler Unit Trap.Riscv64.Context Empty :=
  pair { kernelTask () with nextSchedule := some 5 } { kernelTask () with pid := 1, nextSchedule := some 2 } 0 30

theorem napping_selects :
    napping.Selects 3 30 1 { kernelTask () with pid := 1, nextSchedule := some 2 } ∧
      ∃ enough vruntime pid task after, napping.Selects 3 vruntime pid task ∧
        napping.Selected 3 vruntime pid task after ∧ ∀ fuel, napping.schedule (fun _ => 3) fuel =
          if enough ≤ fuel then .ok ({ task with nextSchedule := none }, after) else .error .recursion := by
  have matched : Matched napping := pair_matched rfl rfl
  have nice (pid : Nat) (task : Task Unit Trap.Riscv64.Context Empty) (live : napping.tasks pid = some task) :
      -18 ≤ task.nice ∧ task.nice ≤ 19 := by
    obtain ⟨rfl, rfl⟩ | ⟨rfl, rfl⟩ := pair_cases live <;> decide
  have runnable : ({ kernelTask () with pid := 1, nextSchedule := some 2 } :
      Task Unit Trap.Riscv64.Context Empty).Runnable 3 := by simp [Task.Runnable]
  have selects : napping.Selects 3 30 1 { kernelTask () with pid := 1, nextSchedule := some 2 } := by
    refine ⟨pair_entry.mpr (.inr ⟨rfl, rfl⟩), rfl, runnable, ?_⟩
    intro vruntime pid task member live awake
    obtain ⟨rfl, rfl⟩ | ⟨rfl, rfl⟩ := pair_cases live
    · exact absurd (awake 5 rfl) (by decide)
    · obtain rfl : vruntime = 30 := by simpa [pair_entry, napping] using member
      exact le_refl _
  exact ⟨selects, schedule_selects_least matched nice (selects.schedule_ne_overflow matched nice (by decide))
    ⟨1, _, rfl, runnable⟩⟩

end Kernel31.Sched
