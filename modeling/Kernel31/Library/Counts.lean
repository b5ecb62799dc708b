import Mathlib.Algebra.BigOperators.Group.Finset.Piecewise
import Mathlib.Algebra.Order.BigOperators.Group.Finset

namespace Kernel31.Counts

open Function List

variable {ι κ : Type} [DecidableEq ι] [DecidableEq κ] {lists : ι → List κ} {owners : Finset ι} {owner : ι}

def total (lists : ι → List κ) (owners : Finset ι) (key : κ) : Nat := ∑ owner ∈ owners, (lists owner).count key

theorem count_update (lists : ι → List κ) (owner : ι) (list : List κ) (key : κ) :
    (fun other => (update lists owner list other).count key) =
      update (fun other => (lists other).count key) owner (list.count key) := by
  funext other
  exact apply_update (fun _ (list : List κ) => list.count key) lists owner list other

theorem total_insert (new : owner ∉ owners) (list : List κ) (key : κ) :
    total (update lists owner list) (insert owner owners) key = total lists owners key + list.count key := by
  rw [total, count_update, Finset.sum_insert new, update_self, Finset.sum_update_of_notMem new, Nat.add_comm]
  rfl

theorem total_clear (member : owner ∈ owners) (key : κ) :
    total (update lists owner []) owners key + (lists owner).count key = total lists owners key := by
  have split := Finset.add_sum_erase owners (fun other => (lists other).count key) member
  rw [total, count_update, Finset.sum_update_of_mem member, count_nil, Nat.zero_add, Nat.add_comm, total,
    Finset.sdiff_singleton_eq_erase]
  exact split

omit [DecidableEq ι] in
theorem total_pos (member : owner ∈ owners) {key : κ} (held : key ∈ lists owner) : 0 < total lists owners key :=
  Finset.sum_pos' (fun _ _ => Nat.zero_le _) ⟨owner, member, count_pos_iff.mpr held⟩

omit [DecidableEq ι] in
theorem exists_of_total_pos {key : κ} (some : 0 < total lists owners key) : ∃ owner ∈ owners, key ∈ lists owner := by
  obtain ⟨owner, member, positive⟩ := Finset.exists_ne_zero_of_sum_ne_zero some.ne'
  exact ⟨owner, member, count_pos_iff.mp (Nat.pos_of_ne_zero positive)⟩

theorem two_le_total {other : ι} (member : owner ∈ owners) (member' : other ∈ owners) (differs : owner ≠ other) {key : κ}
    (held : key ∈ lists owner) (held' : key ∈ lists other) : 2 ≤ total lists owners key := by
  have rest : total (update lists owner []) owners key + (lists owner).count key = total lists owners key :=
    total_clear member key
  have here : 0 < (lists owner).count key := count_pos_iff.mpr held
  have there : 0 < total (update lists owner []) owners key :=
    total_pos member' (by rwa [update_of_ne differs.symm])
  omega

omit [DecidableEq ι] in
theorem total_eq_one (member : owner ∈ owners) {key : κ} (held : key ∈ lists owner) (nodup : (lists owner).Nodup)
    (only : ∀ other, key ∈ lists other → other = owner) : total lists owners key = 1 := by
  rw [total, Finset.sum_eq_single_of_mem owner member]
  · exact count_eq_one_of_mem nodup held
  · exact fun other _ differs => count_eq_zero.mpr fun again => differs (only other again)

end Kernel31.Counts
