import Mathlib.Tactic

namespace Kernel31.Maps

open List

open Std (ExtTreeMap TransOrd LawfulEqOrd)

variable {κ α : Type} [Ord κ] [TransOrd κ] [LawfulEqOrd κ] {table : ExtTreeMap κ α} {key other : κ} {value : α}

theorem getElem?_insert_of_ne (differ : key ≠ other) : (table.insert key value)[other]? = table[other]? := by
  rw [ExtTreeMap.getElem?_insert, if_neg fun same => differ (Std.LawfulEqCmp.eq_of_compare same)]

theorem getElem?_erase_of_ne (differ : key ≠ other) : (table.erase key)[other]? = table[other]? := by
  rw [ExtTreeMap.getElem?_erase, if_neg fun same => differ (Std.LawfulEqCmp.eq_of_compare same)]

theorem insert_of_getElem? (here : table[key]? = some value) : table.insert key value = table := by
  apply ExtTreeMap.ext_getElem?
  intro other
  by_cases same : key = other
  · rw [← same, ExtTreeMap.getElem?_insert_self, here]
  · exact getElem?_insert_of_ne same

omit [LawfulEqOrd κ] in
theorem compare_asymm (before : compare key other = .lt) : ¬ compare other key = .lt := by
  intro after
  have swapped : compare key other = (compare other key).swap := Std.OrientedCmp.eq_swap
  rw [before, after] at swapped
  cases swapped

theorem find?_toList {test : κ × α → Bool} : table.toList.find? test = some (key, value) ↔
    table[key]? = some value ∧ test (key, value) = true ∧
      ∀ (before : κ) (other : α), compare before key = .lt → table[before]? = some other →
        test (before, other) = false := by
  have ordered : table.toList.Pairwise fun a b => compare a.1 b.1 = .lt := ExtTreeMap.ordered_keys_toList
  have member (entry : κ × α) : entry ∈ table.toList ↔ table[entry.1]? = some entry.2 :=
    ExtTreeMap.mem_toList_iff_getElem?_eq_some
  rw [find?_eq_some_iff_append]
  constructor
  · rintro ⟨hit, front, back, split, missed⟩
    refine ⟨(member (key, value)).mp (by simp [split]), hit, fun before other below found => ?_⟩
    rw [split, pairwise_append, pairwise_cons] at ordered
    have inside := (member (before, other)).mpr found
    rw [split, mem_append, mem_cons] at inside
    rcases inside with inFront | same | inBack
    · exact (Bool.not_eq_true' _).mp (missed _ inFront)
    · obtain ⟨rfl, _⟩ := Prod.mk.inj same
      exact absurd below (compare_asymm below)
    · exact absurd below (compare_asymm (ordered.2.1.1 _ inBack))
  · rintro ⟨found, hit, missed⟩
    obtain ⟨front, back, split⟩ := append_of_mem ((member (key, value)).mpr found)
    refine ⟨hit, front, back, split, fun entry inFront => ?_⟩
    have inside : table[entry.1]? = some entry.2 := (member entry).mp (by simp [split, inFront])
    rw [split, pairwise_append] at ordered
    exact (Bool.not_eq_true' _).mpr
      (missed entry.1 entry.2 (ordered.2.2 entry inFront (key, value) (mem_cons_self ..)) inside)

theorem find?_toList_none {test : κ × α → Bool} : table.toList.find? test = none ↔
    ∀ (key : κ) (value : α), table[key]? = some value → test (key, value) = false := by
  rw [find?_eq_none]
  constructor
  · intro missed key value found
    exact Bool.eq_false_iff.mpr (missed (key, value) (ExtTreeMap.mem_toList_iff_getElem?_eq_some.mpr found))
  · rintro missed ⟨key, value⟩ inside
    exact Bool.eq_false_iff.mp (missed key value (ExtTreeMap.mem_toList_iff_getElem?_eq_some.mp inside))

theorem getElem?_insert_length {table : ExtTreeMap Nat α} {β : Type} {values : List β} {view : β → α}
    (same : ∀ place : Nat, table[place]? = values[place]?.map view) (value : β) (place : Nat) :
    (table.insert values.length (view value))[place]? = (values ++ [value])[place]?.map view := by
  by_cases last : values.length = place
  · rw [← last, ExtTreeMap.getElem?_insert_self, getElem?_concat_length]
    rfl
  · rw [getElem?_insert_of_ne last, same]
    congr 1
    grind

end Kernel31.Maps
