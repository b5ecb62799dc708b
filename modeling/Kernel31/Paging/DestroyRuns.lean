import Kernel31.Paging.Unmap

namespace Kernel31.Paging

open Page Checked Radix Function Relation List Mapper LawfulMapper
open Mapper (DestroyState destroyFuel destroyLoop destroyStep map4k maxSupportedLevel ptesPerDir rootTable)

variable {M E A : Type} {mem : Memory} {s s' : DestroyState E} {pages : List Nat}

section Rounds

variable [Entry E] [Mapper M E] [PageAllocator A]
variable {alloc alloc' : A}

def DestroyRound (M : Type) {E : Type} [Entry E] [Mapper M E] (mem : Memory)
    (before after : DestroyState E × A) : Prop :=
  destroyStep M mem before.1 before.2 = .ok (some after.1, after.2)

theorem freeAll_error {fault : Fault} (failed : freeAll alloc pages = .error fault) :
    ∃ (at' : A) (page : Nat), PageAllocator.freePages at' page 1 = .error fault := by
  induction pages generalizing alloc with
  | nil => nomatch failed
  | cons page pages ih =>
    rw [freeAll, foldlM_cons] at failed
    obtain here | ⟨after, _, later⟩ := bind_error.mp failed
    · exact ⟨alloc, page, here⟩
    · exact ih later

/-- A round fails only where `page_number` or `free_pages` does. -/
theorem destroyStep_error {fault : Fault} (failed : destroyStep M mem s alloc = .error fault) :
    fault = .overflow ∨ ∃ (at' : A) (page : Nat), PageAllocator.freePages at' page 1 = .error fault := by
  obtain ⟨pages, _, _, step⟩ | ⟨_, step⟩ := destroyStep_cases (A := A) M mem s
  · rw [step] at failed
    obtain failed | ⟨_, _, made⟩ := bind_error.mp failed
    · exact .inr (freeAll_error failed)
    · nomatch made
  · exact .inl (Except.error.inj (failed.symm.trans (step alloc)))

theorem destroyStep_congr {mem' : Memory} (same : mem' (s.pageTables s.currentLevel).page = mem (s.pageTables s.currentLevel).page)
    (alloc : A) : destroyStep M mem' s alloc = destroyStep M mem s alloc := by
  have entries : entryPage (E := E) mem' (s.pageTables s.currentLevel).page =
      entryPage (E := E) mem (s.pageTables s.currentLevel).page := by
    funext index
    rw [entryPage, entryPage, same]
  simp only [destroyStep, freeEntries_eq, entries, Table.getEntry, same]
  rfl

end Rounds

section Ends

variable [Entry E] [Mapper M E] [LawfulMapper M] [PageAllocator A]

/-- Enough rounds for any tables, cyclic ones included. -/
theorem destroyLoop_settled {fuel : Nat} (range : InRange M s) (enough : remaining M s ≤ fuel) (alloc : A) :
    (∀ extra, destroyLoop M mem (fuel + extra) s alloc = destroyLoop M mem fuel s alloc) ∧
      ∀ fault, destroyLoop M mem fuel s alloc = .error fault →
        fault = .overflow ∨ ∃ (at' : A) (page : Nat), PageAllocator.freePages at' page 1 = .error fault := by
  induction fuel generalizing s alloc with
  | zero => exact absurd enough (Nat.not_le.mpr remaining_pos)
  | succ fuel ih =>
    cases step : destroyStep M mem s alloc with
    | error fault =>
      refine ⟨fun extra => ?_, fun other failed => ?_⟩
      · rw [Nat.add_right_comm, destroyLoop, destroyLoop, step]
        rfl
      · rw [destroyLoop, step] at failed
        obtain rfl : fault = other := Except.error.inj failed
        exact destroyStep_error step
    | ok result =>
      obtain ⟨next, after⟩ := result
      obtain ⟨pages, round, _⟩ := Round.of_step step
      cases next with
      | none =>
        refine ⟨fun extra => ?_, fun other failed => ?_⟩
        · rw [Nat.add_right_comm, destroyLoop, destroyLoop, step]
          rfl
        · rw [destroyLoop, step] at failed
          cases failed
      | some s' =>
        obtain ⟨same, faults⟩ := ih (range.round round) (Nat.le_of_lt_succ ((round.lowers range).trans_le enough)) after
        refine ⟨fun extra => ?_, fun other failed => ?_⟩
        · rw [Nat.add_right_comm, destroyLoop, destroyLoop, step]
          exact same extra
        · rw [destroyLoop, step] at failed
          exact faults other failed

end Ends

/-- The arrays of five levels, and the tables of 512 entries. -/
def IndexesInRange (M : Type) {E : Type} [Mapper M E] (s : DestroyState E) : Prop :=
  0 < s.currentLevel ∧ s.currentLevel < maxSupportedLevel ∧
    (s.currentLevel ≠ level M - 1 → s.currentLevel + 1 < maxSupportedLevel) ∧
    ∀ level, s.indexes level ≤ ptesPerDir M

/-- Whatever the tables hold: more rounds change nothing, and only `page_number` and `free_pages` panic. -/
def DestroyEnds (M : Type) {E : Type} [Entry E] [Mapper M E] (A : Type) [PageAllocator A] : Prop :=
  ∀ (self : M) (mem : Memory) (alloc : A),
    (∀ fuel, destroyFuel M ≤ fuel → destroyLoop M mem fuel (destroyStart self) alloc =
      destroyLoop M mem (destroyFuel M) (destroyStart self) alloc) ∧
    (∀ fault, destroyLoop M mem (destroyFuel M) (destroyStart self) alloc = .error fault →
      fault = .overflow ∨ ∃ (at' : A) (page : Nat), PageAllocator.freePages at' page 1 = .error fault) ∧
    ∀ s after, ReflTransGen (DestroyRound M mem) (destroyStart self, alloc) (s, after) → IndexesInRange M s

/-- The freed pages are different tables of the tree, the root last. In every round the table that is read has not
    been freed, so that nothing depends on what freed pages hold by then. -/
def DestroyFreesTables (M : Type) {E : Type} [Entry E] [Mapper M E] (A : Type) [PageAllocator A] : Prop :=
  ∀ (self : M) (calls : List MapCall) (alloc : A) (mem : Memory) (begun built : Machine (Traced A)),
    newWithAllocator ⟨Traced.start alloc, mem⟩ = .ok (self, begun) →
    calls.foldlM (MapCall.run self) begun = .ok built →
    (∀ destroyed, destroyWithAllocator self built = .ok destroyed →
      ∃ pages : List Nat, destroyed.alloc.freed = (pages.map fun page => (page, 1)).reverse ∧ pages.Nodup ∧
        (∀ page ∈ pages, (scheme M).Reachable built.mem (rootTable self).page (height M) page) ∧
        (∀ call ∈ calls, ∀ mapping ∈ call.mappings,
          ¬ (scheme M).Reachable built.mem (rootTable self).page (height M) (virtPage mapping.ppn) →
          virtPage mapping.ppn ∉ pages) ∧
        pages.getLast? = some (rootTable self).page) ∧
    ∀ s after, ReflTransGen (DestroyRound M built.mem) (destroyStart self, built.alloc) (s, after) →
      ((s.pageTables s.currentLevel).page, 1) ∉ after.freed ∧
      (s.currentLevel = 1 → ∀ index < 512,
        entryPage (E := E) built.mem (s.pageTables s.currentLevel).page index ≠ some (s.pageTables s.currentLevel).page) ∧
      ∀ mem', (∀ page, (page, 1) ∉ after.freed → mem' page = built.mem page) →
        destroyStep M mem' s after = destroyStep M built.mem s after

section Destruction

variable [Entry E] [Mapper M E] [LawfulMapper M] [PageAllocator A]

theorem InRange.reached {self : M} {alloc after : A}
    (run : ReflTransGen (DestroyRound M mem) (destroyStart self, alloc) (s, after)) : InRange M s := by
  refine Runs.preserved (fun now : DestroyState E × A => InRange M now.1) (fun before now range step => ?_)
    (InRange.start self) run
  obtain ⟨pages, round, _⟩ := Round.of_step step
  exact range.round round

theorem destroyEnds : DestroyEnds M A := by
  intro self mem alloc
  obtain ⟨same, faults⟩ := destroyLoop_settled (InRange.start self) (remaining_start self) alloc
  refine ⟨fun fuel enough => ?_, faults, fun s after run => ?_⟩
  · obtain ⟨extra, rfl⟩ := Nat.exists_eq_add_of_le enough
    exact same extra
  · have range := InRange.reached run
    have high := range.high
    have shallow := (levels (M := M)).2
    have levels := height_succ M
    unfold maxSupportedLevel at shallow
    refine ⟨range.low, by unfold maxSupportedLevel; omega, fun inner => ?_, fun level => ?_⟩
    · unfold maxSupportedLevel
      omega
    · rw [ptes (M := M)]
      exact range.bound level

variable [Mmu E]

theorem OnWay.reached {self : M} {owned : Nat → Prop} {alloc after : Traced A}
    (tree : Tree M mem (rootTable self).page owned) (unfreed : alloc.freed = [])
    (run : ReflTransGen (DestroyRound M mem) (destroyStart self, alloc) (s, after)) :
    ∃ key, OnWay M mem (rootTable self).page (after.freed.map Prod.fst) key s := by
  refine (Runs.preserved (fun now : DestroyState E × Traced A => InRange M now.1 ∧
    ∃ key, OnWay M mem (rootTable self).page (now.2.freed.map Prod.fst) key now.1) (fun before now kept step => ?_)
    ⟨InRange.start self, 0, by simpa [unfreed] using OnWay.start self⟩ run).2
  obtain ⟨range, key, way⟩ := kept
  obtain ⟨pages, round, freed⟩ := Round.of_step step
  obtain ⟨key', way'⟩ := way.round tree range round
  refine ⟨range.round round, key', way'.path, way'.digits, fun page member => way'.passed page ?_⟩
  rw [(freeAll_freed freed).1] at member
  simpa using member

theorem destroyFreesTables [LawfulEntry E] {inUse : A → Nat → Prop} (sound : SoundAllocator inUse) : DestroyFreesTables M A := by
  intro self calls alloc mem begun built new run
  have represents := (Represents.new sound.traced new).runs sound.traced run
  have tree := represents.tree
  have unfreed : built.alloc.freed = [] := calls_rule (fun alloc => alloc.freed = [])
    (fun _ _ _ allocated empty => (Traced.allocPages_freed allocated).trans empty) (new_unreturned new) run
  have deep := (levels (M := M)).1
  have levels := height_succ M
  constructor
  · intro destroyed ended
    obtain ⟨frame, rooted⟩ := destroy_rooted ended
    rw [destroy_eq tree rooted] at ended
    obtain ⟨after, freed, made⟩ := bind_ok.mp ended
    obtain rfl := pure_ok.mp made
    have reached : ∀ page ∈ freedPages M built.mem (height M) (rootTable self).page, _ :=
      fun _ member => reachable_of_freed tree member
    obtain ⟨level, top⟩ : ∃ level, height M = level + 2 := ⟨height M - 2, by omega⟩
    have place : (scheme M).tableAt built.mem (rootTable self).page 0 0 = some (rootTable self).page := rfl
    have distinct := nodup_freedPages tree (show 0 + (level + 1 + 1) = height M by omega) place
    refine ⟨freedPages M built.mem (height M) (rootTable self).page, ?_, top ▸ distinct, reached, ?_, ?_⟩
    · rw [(freeAll_freed freed).1, unfreed, append_nil]
    · exact fun _ _ mapping _ unshared member => unshared (reached _ member)
    · rw [top, freedPages, getLast?_concat]
  · intro s after rounds
    obtain ⟨key, way⟩ := OnWay.reached tree unfreed rounds
    have range := InRange.reached rounds
    have current := way.current_unfreed tree range
    have unfreed' : ((s.pageTables s.currentLevel).page, 1) ∉ after.freed :=
      fun member => current (mem_map_of_mem (f := Prod.fst) member)
    refine ⟨unfreed', fun one index small same => ?_, fun mem' kept => destroyStep_congr (kept _ unfreed') after⟩
    have here := way.path s.currentLevel le_rfl range.high
    have high := range.high
    obtain ⟨other, _, _, next, entry⟩ := tree.entry (show height M - s.currentLevel < height M by omega) here small
    rw [← entry, same] at next
    obtain ⟨equal, _⟩ := tree.separate _ _ _ _ _ (by omega) (by omega) here next
    omega

end Destruction

end Kernel31.Paging
