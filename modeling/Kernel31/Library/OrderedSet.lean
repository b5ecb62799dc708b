import Mathlib.Data.Finset.Max
import Mathlib.Algebra.Order.BigOperators.Group.Finset

namespace Kernel31.OrderedSet

variable {α : Type} [LinearOrder α]

def popFirst (set : Finset α) : Option (α × Finset α) :=
  if some : set.Nonempty then
    let first := set.min' some
    Option.some (first, set.erase first)
  else none

variable {set rest : Finset α} {first : α}

theorem popFirst_eq_none : popFirst set = none ↔ set = ∅ := by
  unfold popFirst
  split
  · rename_i some
    simpa using some.ne_empty
  · rename_i empty
    simpa using Finset.not_nonempty_iff_eq_empty.mp empty

theorem popFirst_some (popped : popFirst set = some (first, rest)) :
    first ∈ set ∧ rest = set.erase first ∧ ∀ other ∈ set, first ≤ other := by
  unfold popFirst at popped
  split at popped
  · obtain ⟨rfl, rfl⟩ := Prod.mk.inj (Option.some.inj popped)
    exact ⟨set.min'_mem _, rfl, fun other member => set.min'_le other member⟩
  · cases popped

theorem popFirst_eq (member : first ∈ set) (least : ∀ other ∈ set, first ≤ other) :
    popFirst set = some (first, set.erase first) := by
  have nonempty : set.Nonempty := ⟨first, member⟩
  have minimum : set.min' nonempty = first := le_antisymm (set.min'_le first member) (least _ (set.min'_mem nonempty))
  rw [popFirst, dif_pos nonempty, minimum]

theorem sum_move_lt {weight : α → Nat} {old new : α} (member : old ∈ set) (less : weight new < weight old) :
    ∑ item ∈ insert new (set.erase old), weight item < ∑ item ∈ set, weight item := by
  have split := Finset.add_sum_erase set weight member
  have merged : ∑ item ∈ insert new (set.erase old), weight item ≤ weight new + ∑ item ∈ set.erase old, weight item := by
    by_cases again : new ∈ set.erase old
    · rw [Finset.insert_eq_of_mem again]
      exact Nat.le_add_left _ _
    · exact (Finset.sum_insert again).le
  omega

end Kernel31.OrderedSet
