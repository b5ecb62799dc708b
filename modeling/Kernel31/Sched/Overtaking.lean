import Kernel31.Sched.Selection
import Kernel31.Sched.Spread

namespace Kernel31.Sched

open Page Paging Kernel31.Task OrderedSet Checked List Scheduler

section Rounds

variable {M C F : Type} {s after : Scheduler M C F} {now vruntime pid slice : Nat} {task : Task M C F}

def Accepted (s : Scheduler M C F) : Prop :=
  ∀ pid task, s.tasks pid = some task → niceMin ≤ task.nice ∧ task.nice ≤ niceMax

def Scheduler.Raises (s : Scheduler M C F) (now vruntime pid amount : Nat) : Prop :=
  ∃ after done, s.round now = .ok (after, done) ∧
    ∀ value other, toLex (value, other) ∈ after.vruntime ↔
      if other = pid then value = vruntime + amount else toLex (value, other) ∈ s.vruntime

theorem Scheduler.Picks.unique {vruntime' pid' slice' : Nat} {task' : Task M C F} (picks : s.Picks vruntime pid slice task)
    (again : s.Picks vruntime' pid' slice' task') : vruntime = vruntime' ∧ pid = pid' ∧ slice = slice' := by
  obtain ⟨rfl, rfl⟩ : vruntime = vruntime' ∧ pid = pid' := by
    simpa using le_antisymm (picks.least _ again.member) (again.least _ picks.member)
  obtain rfl : task = task' := Option.mem_unique picks.live again.live
  exact ⟨rfl, rfl, ok_unique picks.slice again.slice⟩

theorem Scheduler.Picks.raises (picks : s.Picks vruntime pid slice task) (matched : Matched s)
    (fits : vruntime + slice < 2 ^ 64) : s.Raises now vruntime pid slice := by
  obtain ⟨after, done, round⟩ : ∃ after done, s.round now = .ok (after, done) := picks.round_returns fits
  refine ⟨after, done, round, ?_⟩
  obtain ⟨_, _, _, _, nextSchedule, again, rfl⟩ := round_ok round
  obtain ⟨rfl, rfl, rfl⟩ := picks.unique again
  exact matched.mem_advanced again

theorem Scheduler.Picks.round_overflows (picks : s.Picks vruntime pid slice task) (large : 2 ^ 64 ≤ vruntime + slice) :
    s.round now = .error .overflow := by
  simp only [round, popFirst_eq picks.member picks.least, picks.live, picks.slice, ok_bind, ofLex_toLex,
    Nat.not_lt.mpr large, if_false]
  rfl

theorem Scheduler.Picks.round_stays (picks : s.Picks vruntime s.currentPid 0 task) (fits : vruntime < 2 ^ 64)
    (awake : task.nextSchedule = none) : s.round now = .ok (s, true) := by
  simp only [round, popFirst_eq picks.member picks.least, picks.live, picks.slice, ok_bind, ofLex_toLex,
    Nat.add_zero, fits, if_true, awake, Finset.insert_erase picks.member]
  rfl

theorem Scheduler.Raises.amount_eq {amount : Nat} (raises : s.Raises now vruntime pid amount) (matched : Matched s)
    (picks : s.Picks vruntime pid slice task) : amount = slice := by
  obtain ⟨after, done, round, entries⟩ := raises
  obtain ⟨_, _, _, _, nextSchedule, again, rfl⟩ := round_ok round
  obtain ⟨rfl, rfl, rfl⟩ := picks.unique again
  have here := entries (vruntime + amount) pid
  rw [matched.mem_advanced again, if_pos rfl, if_pos rfl] at here
  have same := here.mpr rfl
  omega

theorem Scheduler.Picks.raises_gentle (picks : s.Picks vruntime pid slice task) (matched : Matched s)
    (start : vruntime ≤ 2 ^ 63) (gentle : -18 ≤ task.nice) (upper : task.nice ≤ niceMax) :
    s.Raises now vruntime pid (task.nice + niceMax).toNat := by
  obtain rfl : (task.nice + niceMax).toNat = slice :=
    ok_unique (timeSlice_of_advancing ⟨gentle, upper⟩) picks.slice
  refine picks.raises matched ?_
  simp only [niceMax] at upper ⊢
  omega

theorem Matched.raises_iff (matched : Matched s) (accepted : Accepted s)
    (low : ∀ entry ∈ s.vruntime, (ofLex entry).1 ≤ 2 ^ 63) (picks : s.Picks vruntime pid slice task) :
    (∃ amount, s.Raises now vruntime pid amount ∧ 1 ≤ amount ∧ (amount : Int) ≤ niceMax - niceMin + 1) ↔
      -18 ≤ task.nice := by
  have start : vruntime ≤ 2 ^ 63 := low _ picks.member
  obtain ⟨lower, upper⟩ := accepted pid task picks.live
  have sliced := picks.slice
  simp only [niceMin, niceMax] at lower upper ⊢
  constructor
  · rintro ⟨amount, raises, positive, bounded⟩
    obtain rfl := raises.amount_eq matched picks
    by_contra steep
    obtain negative | zero : task.nice = -20 ∨ task.nice = -19 := by omega
    · obtain rfl : 2 ^ 64 - 1 = amount := ok_unique (by rw [negative]; rfl : timeSlice task.nice = _) sliced
      omega
    · obtain rfl : 0 = amount := ok_unique (by rw [zero]; rfl : timeSlice task.nice = _) sliced
      omega
  · intro gentle
    have raises : s.Raises now vruntime pid _ := picks.raises_gentle matched start gentle upper
    simp only [niceMax] at raises
    exact ⟨_, raises, by omega, by omega⟩

structure Waits (least vruntime pid : Nat) (s : Scheduler M C F) (pops : List Nat) : Prop where
  matched : Matched s
  issued : pid ≤ s.maxPid ∧ ∀ other ∈ pops, other ≤ s.maxPid
  raised : ∀ value other, toLex (value, other) ∈ s.vruntime → least + pops.count other ≤ value
  kept : pid ∉ pops → ∀ value, toLex (value, pid) ∈ s.vruntime → value = vruntime
  bound : pid ∉ pops → (∃ value, toLex (value, pid) ∈ s.vruntime) → ∀ other, pops.count other ≤ vruntime + 1 - least

variable {least start waiter : Nat} {pops : List Nat}

variable (waits : Waits least start waiter s pops)
include waits

theorem Waits.mono (matched : Matched after) (same : after.maxPid = s.maxPid) (entries : after.vruntime ⊆ s.vruntime) :
    Waits least start waiter after pops where
  matched := matched
  issued := same ▸ waits.issued
  raised := fun value other member => waits.raised value other (entries member)
  kept := fun waiting value member => waits.kept waiting value (entries member)
  bound := fun waiting ⟨value, member⟩ => waits.bound waiting ⟨value, entries member⟩

theorem Waits.adds {current : Task M C F} {first : Nat} {page : M} {context : C} {pageAllocs : List PageAlloc}
    (adds : s.Adds current first page context pageAllocs after) : Waits least start waiter after pops := by
  have matched := waits.matched.adds adds
  obtain ⟨⟨holder, member⟩, _⟩ := adds.first
  obtain rfl := adds.result
  have enough := waits.raised first holder member
  have older := waits.issued.1
  have old {value : Nat} (entry : toLex (value, waiter) ∈ insert (toLex (first, s.maxPid + 1)) s.vruntime) :
      toLex (value, waiter) ∈ s.vruntime := by
    rcases Finset.mem_insert.mp entry with new | old
    · have new : value = first ∧ waiter = s.maxPid + 1 := by simpa using new
      omega
    · exact old
  have never : pops.count (s.maxPid + 1) = 0 := by
    refine count_eq_zero.mpr fun member => ?_
    have bound := waits.issued.2 _ member
    omega
  refine ⟨matched, ⟨Nat.le_succ_of_le older, fun other member => Nat.le_succ_of_le (waits.issued.2 other member)⟩, ?_,
    fun waiting value entry => waits.kept waiting value (old entry),
    fun waiting ⟨value, entry⟩ => waits.bound waiting ⟨value, old entry⟩⟩
  intro value other entry
  rcases Finset.mem_insert.mp entry with new | before
  · obtain ⟨rfl, rfl⟩ : value = first ∧ other = s.maxPid + 1 := by simpa using new
    omega
  · exact waits.raised value other before

theorem Waits.advanced {nextSchedule : Option Nat} (advancing : Advancing s) (picks : s.Picks vruntime pid slice task) :
    Waits least start waiter (s.advanced vruntime pid slice task nextSchedule) (pid :: pops) := by
  have raised := picks.slice_eq advancing
  have lower := (advancing pid task picks.live).1
  simp only [niceMax] at raised
  have entries (value other : Nat) :
      toLex (value, other) ∈ (s.advanced vruntime pid slice task nextSchedule).vruntime ↔
        if other = pid then value = vruntime + slice else toLex (value, other) ∈ s.vruntime :=
    waits.matched.mem_advanced picks value other
  have old {value : Nat} (waiting : waiter ≠ pid)
      (entry : toLex (value, waiter) ∈ (s.advanced vruntime pid slice task nextSchedule).vruntime) :
      toLex (value, waiter) ∈ s.vruntime := by
    rwa [entries, if_neg waiting] at entry
  refine ⟨(waits.matched.advanced picks).toMatched, ⟨waits.issued.1, ?_⟩, ?_, ?_, ?_⟩
  · intro other member
    rcases mem_cons.mp member with rfl | before
    · exact waits.matched.issued _ _ picks.live
    · exact waits.issued.2 other before
  · intro value other entry
    rw [entries] at entry
    split at entry
    · rename_i here
      subst here
      have before := waits.raised vruntime other picks.member
      rw [count_cons_self]
      omega
    · rename_i elsewhere
      rw [count_cons_of_ne (Ne.symm elsewhere)]
      exact waits.raised value other entry
  · intro waiting value entry
    exact waits.kept (not_mem_of_not_mem_cons waiting) value (old (ne_of_not_mem_cons waiting) entry)
  · rintro absent ⟨value, entered⟩ other
    have entry := old (ne_of_not_mem_cons absent) entered
    have waiting := not_mem_of_not_mem_cons absent
    have bound := waits.bound waiting ⟨value, entry⟩ other
    by_cases here : other = pid
    · subst here
      obtain rfl := waits.kept waiting value entry
      have before := waits.raised vruntime other picks.member
      have behind : vruntime ≤ value := Prod.Lex.monotone_fst _ _ (picks.least _ entry)
      rw [count_cons_self]
      omega
    · rwa [count_cons_of_ne (Ne.symm here)]

end Rounds

section Runs

variable {A M E C F : Type} [Entry E] [Mapper M E] [PageAllocator A] [ArchContext C] [Mmu E] [AddressSpace E]
  {self after : Kernel A M C F}

/-- A small step, with the pids that the rounds took out so far; a round starts with nice values in -18..=19. -/
inductive PoppingStep : Kernel A M C F × List Nat → Kernel A M C F × List Nat → Prop where
  | call {self after : Kernel A M C F} {op : Op C F} {result : Option Nat} {pops : List Nat}
      (step : Step self op result after) (whole : op.Whole) : PoppingStep (self, pops) (after, pops)
  | round {self : Kernel A M C F} {now : Nat} {scheduler : Scheduler M C F} {done : Bool} {pops : List Nat}
      (advancing : Advancing self.scheduler) (run : self.scheduler.round now = .ok (scheduler, done)) :
      PoppingStep (self, pops) ({ self with scheduler := scheduler }, scheduler.currentPid :: pops)
  | forget {self after : Kernel A M C F} {pid : Nat} {pops : List Nat} (run : self.forget pid = .ok after) :
      PoppingStep (self, pops) (after, pops)

theorem PoppingStep.waits {least start waiter : Nat} {before after : Kernel A M C F × List Nat}
    (step : PoppingStep before after) (waits : Waits least start waiter before.1.scheduler before.2) :
    Waits least start waiter after.1.scheduler after.2 := by
  cases step with
  | round advancing run =>
    obtain ⟨vruntime, pid, slice, task, nextSchedule, picks, rfl⟩ := round_ok run
    exact waits.advanced advancing picks
  | forget run =>
    have matched := (SmallStep.forget run).matched waits.matched
    rw [(Kernel.forget_ok run).1] at matched ⊢
    exact waits.mono matched rfl (Finset.filter_subset _ _)
  | call step whole =>
    have matched := (SmallStep.call step whole).matched waits.matched
    cases step with
    | create run =>
      obtain ⟨_, _, _, _, ⟨_, _, adds⟩, _⟩ := Kernel.createFromElf_ok waits.matched.fresh run
      exact waits.adds adds
    | refuse run => rwa [Kernel.createFromElf_error run]
    | fork run =>
      obtain ⟨_, _, _, _, _, ⟨_, adds⟩, _⟩ := Kernel.fork_ok waits.matched.fresh run
      exact waits.adds adds
    | kernelFork | schedule | switchTask | kill => cases whole
    | renice | touch | copyToUser => exact waits.mono matched rfl (Finset.Subset.refl _)

theorem Matched.selections_le {pops : List Nat} {least vruntime pid : Nat} (matched : Matched self.scheduler)
    (member : toLex (vruntime, pid) ∈ self.scheduler.vruntime)
    (below : ∀ entry ∈ self.scheduler.vruntime, least ≤ (ofLex entry).1)
    (run : Relation.ReflTransGen PoppingStep (self, []) (after, pops)) (waiting : pid ∉ pops)
    (live : ∃ task, after.scheduler.tasks pid = some task) (other : Nat) : pops.count other ≤ vruntime + 1 - least := by
  obtain ⟨task, found⟩ := matched.live vruntime pid member
  have start : Waits least vruntime pid self.scheduler [] := by
    refine ⟨matched, ⟨matched.issued pid task found, by simp⟩, fun value other entry => below _ entry, ?_, by simp⟩
    exact fun _ value entry => (matched.entered pid task found).unique entry member
  have waits := Runs.preserved (fun state : Kernel A M C F × List Nat => Waits least vruntime pid state.1.scheduler state.2)
    (fun _ _ kept step => step.waits kept) start run
  obtain ⟨task, live⟩ := live
  obtain ⟨value, entry, _⟩ := waits.matched.entered pid task live
  exact waits.bound waiting ⟨value, entry⟩ other

/-- A round raises a vruntime by 1 to 40 if and only if the nice value is at least -18, and then by `nice + 19`; in
    such runs a waiting task is passed only a bounded number of times. -/
theorem vruntimes_raised_iff (matched : Matched self.scheduler) (accepted : Accepted self.scheduler)
    (low : ∀ entry ∈ self.scheduler.vruntime, (ofLex entry).1 ≤ 2 ^ 63) :
    (self.scheduler.vruntime.Nonempty → ∃ vruntime pid slice task, self.scheduler.Picks vruntime pid slice task ∧
      ∀ now, ((∃ amount, self.scheduler.Raises now vruntime pid amount ∧ 1 ≤ amount ∧
          (amount : Int) ≤ niceMax - niceMin + 1) ↔ -18 ≤ task.nice) ∧
        (-18 ≤ task.nice → self.scheduler.Raises now vruntime pid (task.nice + 19).toNat)) ∧
    (∀ (least vruntime pid : Nat) (after : Kernel A M C F) (pops : List Nat),
      toLex (vruntime, pid) ∈ self.scheduler.vruntime → (∀ entry ∈ self.scheduler.vruntime, least ≤ (ofLex entry).1) →
      Relation.ReflTransGen PoppingStep (self, []) (after, pops) → pid ∉ pops →
      (∃ task, after.scheduler.tasks pid = some task) → ∀ other, pops.count other ≤ vruntime + 1 - least) ∧
    ∀ (now : Nat) (scheduler : Scheduler M C F) (done : Bool) (after : Kernel A M C F) (pops : List Nat),
      Advancing self.scheduler → self.scheduler.round now = .ok (scheduler, done) →
      Relation.ReflTransGen PoppingStep ({ self with scheduler := scheduler }, []) (after, pops) →
      scheduler.currentPid ∉ pops → (∃ task, after.scheduler.tasks scheduler.currentPid = some task) →
      ∀ other, (pops.count other : Int) ≤ niceMax - niceMin + 1 := by
  refine ⟨?_, ?_, ?_⟩
  · rintro ⟨entry, member⟩
    obtain ⟨found, live⟩ := matched.live (ofLex entry).1 (ofLex entry).2 member
    obtain ⟨vruntime, pid, slice, task, picks⟩ :=
      matched.exists_picks (fun pid task live => (accepted pid task live).2) ⟨_, found, live⟩
    refine ⟨vruntime, pid, slice, task, picks, fun now => ⟨matched.raises_iff accepted low picks, fun gentle => ?_⟩⟩
    exact picks.raises_gentle matched (low _ picks.member) gentle (accepted pid task picks.live).2
  · intro least vruntime pid after pops member below run waiting live
    exact matched.selections_le member below run waiting live
  · intro now scheduler done after pops advancing round run waiting live other
    obtain ⟨vruntime, pid, slice, task, nextSchedule, picks, rfl⟩ := round_ok round
    have short := picks.slice_eq advancing
    have upper := (advancing pid task picks.live).2
    have below : ∀ entry ∈ (self.scheduler.advanced vruntime pid slice task nextSchedule).vruntime,
        vruntime ≤ (ofLex entry).1 := by
      intro entry member
      rcases Finset.mem_insert.mp member with rfl | old
      · exact Nat.le_add_right _ _
      · exact Prod.Lex.monotone_fst _ _ (picks.least entry (Finset.mem_of_mem_erase old))
    have bound := (matched.advanced picks).toMatched.selections_le (Finset.mem_insert_self _ _) below run waiting live other
    simp only [niceMax, niceMin] at short upper ⊢
    omega

end Runs

def reniced (vruntime : Nat) (nice : Int) : Scheduler Sv39Mapper Trap.Riscv64.Context Empty :=
  pair ((kernelTask ⟨⟨0⟩⟩).renice nice) { kernelTask ⟨⟨0⟩⟩ with pid := 1 } vruntime vruntime

section Reniced

variable {vruntime : Nat} {nice : Int}

theorem reniced_matched : Matched (reniced vruntime nice) := pair_matched (Task.renice_pid _ _) rfl

theorem reniced_picks {slice : Nat} (accepted : niceMin ≤ nice ∧ nice ≤ niceMax) (run : timeSlice nice = .ok slice) :
    (reniced vruntime nice).Picks vruntime 0 slice ((kernelTask ⟨⟨0⟩⟩).renice nice) := by
  refine ⟨pair_entry.mpr (.inl ⟨rfl, rfl⟩), ?_, rfl, by rwa [Task.renice, if_pos accepted]⟩
  intro entry member
  obtain rfl | rfl : entry = toLex (vruntime, 0) ∨ entry = toLex (vruntime, 1) := by
    simpa [reniced, pair] using member
  · exact le_refl _
  · exact Prod.Lex.toLex_le_toLex.mpr (.inr ⟨rfl, Nat.zero_le 1⟩)

end Reniced

theorem reniced_raised :
    ∃ self : Kernel Bump Sv39Mapper Trap.Riscv64.Context Empty, self.scheduler = reniced 5 (-18) ∧
      (reniced 5 (-18)).Raises 0 5 0 1 := by
  let self : Kernel Bump Sv39Mapper Trap.Riscv64.Context Empty :=
    ⟨reniced 5 (-18), ⟨0, fun _ => 0⟩, bareMachine, bareLayout, ⟨⟨0⟩⟩⟩
  refine ⟨self, rfl, ?_⟩
  have accepted : Accepted (reniced 5 (-18)) := by
    intro pid task live
    obtain ⟨rfl, rfl⟩ | ⟨rfl, rfl⟩ := pair_cases live <;> decide
  have low : ∀ entry ∈ (reniced 5 (-18)).vruntime, (ofLex entry).1 ≤ 2 ^ 63 := by
    intro entry member
    obtain rfl | rfl : entry = toLex (5, 0) ∨ entry = toLex (5, 1) := by simpa [reniced, pair] using member
    · decide
    · decide
  have matched : Matched self.scheduler := reniced_matched
  obtain ⟨vruntime, pid, slice, task, picks, raises⟩ :=
    (vruntimes_raised_iff matched accepted low).1 ⟨_, pair_entry.mpr (.inl ⟨rfl, rfl⟩)⟩
  obtain ⟨rfl, rfl, rfl⟩ := picks.unique (reniced_picks (by decide) rfl)
  obtain rfl : (kernelTask ⟨⟨0⟩⟩).renice (-18) = task := Option.some.inj picks.live
  exact (raises 0).2 (by decide)

/-- With the nice value -19 a task is selected forever; with -20 a round overflows or throws the task to the end of
    the range. -/
theorem reniced_extremes :
    (∀ now, (reniced 1 (-19)).round now = .ok (reniced 1 (-19), true)) ∧
      (∀ now, (reniced 1 (-20)).round now = .error .overflow) ∧ (reniced 0 (-20)).Raises 0 0 0 (2 ^ 64 - 1) := by
  refine ⟨fun now => ?_, fun now => ?_, ?_⟩
  · exact (reniced_picks (by decide) rfl).round_stays (by decide) rfl
  · exact (reniced_picks (by decide) rfl).round_overflows (by decide)
  · exact (reniced_picks (by decide) rfl).raises reniced_matched (by decide)

end Kernel31.Sched
