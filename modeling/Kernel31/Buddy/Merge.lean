import Kernel31.Buddy.Loops

namespace Kernel31.Buddy

open Checked MemoryZone

variable {zone other : MemoryZone} {pow order pageRelative : Nat}

def MemoryZone.hasPartner (zone : MemoryZone) (pow pageRelative : Nat) : Bool :=
  (zone.pows pow).any (isPartner pow pageRelative)

/-- Order and first page of the block that the free buddies from level `pow` on merge into. -/
def MemoryZone.mergeStop (zone : MemoryZone) : Nat → Nat → Nat → Nat × Nat
  | 0, pow, pageRelative => (pow, pageRelative)
  | remaining + 1, pow, pageRelative =>
    if zone.hasPartner pow pageRelative then
      zone.mergeStop remaining (pow + 1)
        (if pageRelative % 2 ^ (pow + 1) = 0 then pageRelative else pageRelative - 2 ^ pow)
    else (pow, pageRelative)

/-- A block above the order where merging has to stop that passes the partner test although the sizes differ. -/
def MemoryZone.StrayPartner (zone : MemoryZone) (order pageRelative : Nat) : Prop :=
  ∃ level, order < level ∧ level < buddyAllocMaxPow ∧
    (∀ i, order ≤ i → i ≤ level → zone.pows i ≠ []) ∧ zone.hasPartner level pageRelative = true

instance (zone : MemoryZone) (order pageRelative : Nat) : Decidable (zone.StrayPartner order pageRelative) :=
  decidable_of_iff
    (∃ level, level < buddyAllocMaxPow ∧ order < level ∧ (∀ i, i < level + 1 → order ≤ i → zone.pows i ≠ []) ∧
      zone.hasPartner level pageRelative = true)
    ⟨fun ⟨level, bound, above, full, partner⟩ =>
        ⟨level, above, bound, fun i low high => full i (Nat.lt_succ_of_le high) low, partner⟩,
      fun ⟨level, above, bound, full, partner⟩ =>
        ⟨level, bound, above, fun i high low => full i low (Nat.le_of_lt_succ high), partner⟩⟩

def MemoryZone.CleanMerge (zone : MemoryZone) (order pageRelative : Nat) : Prop :=
  ¬ zone.StrayPartner (zone.mergeStop (buddyAllocMaxPow - order) order pageRelative).1
    (zone.mergeStop (buddyAllocMaxPow - order) order pageRelative).2

instance (zone : MemoryZone) (order pageRelative : Nat) : Decidable (zone.CleanMerge order pageRelative) :=
  inferInstanceAs (Decidable (¬ _))

theorem MemoryZone.hasPartner_iff (zone : MemoryZone) (pow pageRelative : Nat) :
    zone.hasPartner pow pageRelative = true ↔ ∃ node ∈ zone.pows pow, isPartner pow pageRelative node = true := by
  simp [hasPartner]

theorem MemoryZone.hasPartner_congr (same : zone.pows pow = other.pows pow) (pageRelative : Nat) :
    zone.hasPartner pow pageRelative = other.hasPartner pow pageRelative := by
  simp only [hasPartner, same]

theorem MemoryZone.mergeStop_congr (remaining : Nat) (pageRelative : Nat)
    (same : ∀ i, pow ≤ i → zone.pows i = other.pows i) :
    zone.mergeStop remaining pow pageRelative = other.mergeStop remaining pow pageRelative := by
  induction remaining generalizing pow pageRelative with
  | zero => rfl
  | succ remaining ih =>
    simp only [mergeStop, hasPartner_congr (same pow le_rfl)]
    split
    · exact ih _ fun i above => same i (by omega)
    · rfl

theorem MemoryZone.mergeStop_le (zone : MemoryZone) (remaining pow pageRelative : Nat) :
    pow ≤ (zone.mergeStop remaining pow pageRelative).1 := by
  induction remaining generalizing pow pageRelative with
  | zero => exact le_rfl
  | succ remaining ih =>
    simp only [mergeStop]
    split
    · exact Nat.le_of_succ_le (ih _ _)
    · exact le_rfl

theorem MemoryZone.StrayPartner.congr (same : ∀ i, order ≤ i → zone.pows i = other.pows i)
    (stray : zone.StrayPartner order pageRelative) : other.StrayPartner order pageRelative := by
  obtain ⟨level, above, bound, full, partner⟩ := stray
  refine ⟨level, above, bound, ?_, ?_⟩
  · intro i low high
    rw [← same i low]
    exact full i low high
  · rw [← hasPartner_congr (same level (by omega))]
    exact partner

theorem MemoryZone.CleanMerge.next (clean : zone.CleanMerge order pageRelative) (nodes : List FreeNode)
    (bound : order < buddyAllocMaxPow) (partner : zone.hasPartner order pageRelative = true) :
    (zone.setPow order nodes).CleanMerge (order + 1)
      (if pageRelative % 2 ^ (order + 1) = 0 then pageRelative else pageRelative - 2 ^ order) := by
  have levels : buddyAllocMaxPow - order = buddyAllocMaxPow - (order + 1) + 1 := by omega
  have same : ∀ i, order + 1 ≤ i → (zone.setPow order nodes).pows i = zone.pows i := by
    intro i above
    exact Function.update_of_ne (by omega) _ _
  unfold MemoryZone.CleanMerge at clean ⊢
  rw [levels, mergeStop, if_pos partner] at clean
  rw [mergeStop_congr _ _ same]
  intro stray
  apply clean
  refine stray.congr ?_
  intro i above
  exact same i (le_trans (mergeStop_le ..) above)

theorem MemoryZone.CleanMerge.stop (clean : zone.CleanMerge order pageRelative)
    (bound : order < buddyAllocMaxPow) (alone : zone.hasPartner order pageRelative = false) :
    ¬ zone.StrayPartner order pageRelative := by
  have levels : buddyAllocMaxPow - order = buddyAllocMaxPow - (order + 1) + 1 := by omega
  unfold MemoryZone.CleanMerge at clean
  rw [levels, mergeStop, alone] at clean
  simpa using clean

theorem mergeLoop_skips {remaining : Nat} {s : MergeState}
    (alone : ∀ level, pow ≤ level → level < pow + remaining →
      (∀ i, pow ≤ i → i ≤ level → s.zone.pows i ≠ []) → s.zone.hasPartner level s.pageRelative = false) :
    mergeLoop remaining pow s = .ok s := by
  induction remaining generalizing pow with
  | zero => rfl
  | succ remaining ih =>
    simp only [mergeLoop]
    split
    · rfl
    · rename_i current next list
      have here : s.zone.hasPartner pow s.pageRelative = false := by
        refine alone pow le_rfl (by omega) ?_
        intro i low high
        have same : i = pow := by omega
        simp [same, list]
      have none : unlinkPartner (isPartner pow s.pageRelative) (current :: next) = none := by
        rw [unlinkPartner_none, ← list]
        intro node member
        simpa using List.any_eq_false.mp here node member
      rw [none]
      apply ih
      intro level low high full
      refine alone level (by omega) (by omega) ?_
      intro i above below
      by_cases same : i = pow
      · simp [same, list]
      · exact full i (by omega) below

structure TakenPartner (zone : MemoryZone) (pow pageRelative : Nat) (partner : FreeNode) (nodes : List FreeNode) :
    Prop where
  bound : pow < buddyAllocMaxPow
  list : (zone.pows pow).Perm (partner :: nodes)
  test : isPartner pow pageRelative partner = true

/-- Without a stray partner the block grows by one true buddy a level. -/
theorem mergeLoop_rule (inv : Nat → MemoryZone → FreeNodePool → Nat → Prop)
    (step : ∀ pow zone pool pageRelative partner nodes, inv pow zone pool pageRelative →
      TakenPartner zone pow pageRelative partner nodes →
      inv (pow + 1) (zone.setPow pow nodes) (pool.recycleNode partner.ptr)
        (if pageRelative % 2 ^ (pow + 1) = 0 then pageRelative else pageRelative - 2 ^ pow)) {remaining : Nat}
    {s s' : MergeState} (levels : pow + remaining = buddyAllocMaxPow) (order : s.powFinal = pow)
    (size : s.pagesCount = 2 ^ pow) (clean : s.zone.CleanMerge pow s.pageRelative)
    (start : inv pow s.zone s.pool s.pageRelative) (run : mergeLoop remaining pow s = .ok s') :
    inv s'.powFinal s'.zone s'.pool s'.pageRelative ∧ s'.powFinal ≤ buddyAllocMaxPow ∧
      (s'.powFinal < buddyAllocMaxPow → s'.zone.hasPartner s'.powFinal s'.pageRelative = false) := by
  -- Induction on the levels to go: a merge re-establishes the hypotheses one level up, a miss ends it.
  induction remaining generalizing pow s with
  | zero =>
    simp only [mergeLoop, pure_ok] at run
    subst run
    exact ⟨by rw [order]; exact start, by omega, by omega⟩
  | succ remaining ih =>
    cases partner : s.zone.hasPartner pow s.pageRelative with
    | false =>
      have stray := clean.stop (by omega) partner
      have same : mergeLoop (remaining + 1) pow s = .ok s := by
        apply mergeLoop_skips
        intro level low high full
        by_cases here : level = pow
        · rw [here]; exact partner
        · rw [Bool.eq_false_iff]
          intro found
          exact stray ⟨level, by omega, by omega, full, found⟩
      rw [same] at run
      cases run
      exact ⟨by rw [order]; exact start, by omega, by rw [order]; exact fun _ => partner⟩
    | true =>
      simp only [mergeLoop] at run
      split at run
      · rename_i empty
        simp [hasPartner, empty] at partner
      · rename_i current next list
        split at run
        · rename_i missed
          rw [unlinkPartner_none, ← list] at missed
          obtain ⟨node, member, test⟩ := (s.zone.hasPartner_iff _ _).mp partner
          rw [missed node member] at test
          cases test
        · rename_i found nodes unlinked
          obtain ⟨test, perm⟩ := unlinkPartner_some unlinked
          have taken : TakenPartner s.zone pow s.pageRelative found nodes := ⟨by omega, by rw [list]; exact perm, test⟩
          have next := step pow s.zone s.pool s.pageRelative found nodes start taken
          have cleaner := clean.next nodes (by omega) partner
          have double : s.pagesCount <<< 1 = 2 ^ (pow + 1) := by
            rw [size, Nat.shiftLeft_eq]
            ring
          split at run
          · rename_i aligned
            rw [if_pos aligned] at next cleaner
            exact ih (by omega) (by simp only; omega) double cleaner next run
          · rename_i shifted
            rw [if_neg shifted] at next cleaner
            split at run
            · simp [throw_ok] at run
            · rw [size] at run
              exact ih (by omega) (by simp only; omega) (by rw [size] at double; exact double) cleaner next run

end Kernel31.Buddy
