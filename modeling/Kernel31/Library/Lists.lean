import Mathlib.Tactic
import Mathlib.Data.List.Perm.Basic

namespace Kernel31.Lists

open List

variable {ι α : Type}

variable {value : α} {slots : List (Option α)} {place : Nat} {values : List α}

theorem flatMap_perm_cons {index : List ι} (nodup : index.Nodup) {i : ι} (member : i ∈ index)
    {before after : ι → List α} (here : (after i).Perm (value :: before i))
    (other : ∀ j, j ≠ i → after j = before j) : (index.flatMap after).Perm (value :: index.flatMap before) := by
  induction index with
  | nil => simp at member
  | cons head rest ih =>
    obtain ⟨fresh, nodup⟩ := nodup_cons.mp nodup
    simp only [flatMap_cons]
    rcases mem_cons.mp member with same | member
    · subst same
      have unchanged : rest.flatMap after = rest.flatMap before :=
        flatMap_congr fun j inside => other j fun equal => fresh (equal ▸ inside)
      rw [unchanged]
      exact here.append_right _
    · have different : head ≠ i := fun equal => fresh (equal ▸ member)
      rw [other head different]
      exact (List.Perm.append_left _ (ih nodup member)).trans perm_middle

variable {slot count : Nat} {relation : α → α → Prop} {found : α}

theorem reduceOption_set_some (empty : slots[slot]? = some none) (value : α) :
    (slots.set slot (some value)).reduceOption.Perm (value :: slots.reduceOption) := by
  induction slots generalizing slot with
  | nil => simp at empty
  | cons head rest ih =>
    cases slot with
    | zero =>
      obtain rfl : head = none := by simpa using empty
      exact List.Perm.refl _
    | succ slot =>
      have inner := ih (by simpa using empty : rest[slot]? = some none)
      cases head with
      | none => exact inner
      | some first => exact (inner.cons first).trans (List.Perm.swap value first _)

theorem reduceOption_set_none (full : slots[slot]? = some (some value)) :
    slots.reduceOption.Perm (value :: (slots.set slot none).reduceOption) := by
  have empty : (slots.set slot none)[slot]? = some none := by
    rw [getElem?_set_self (List.getElem?_eq_some_iff.mp full).1]
  have same : (slots.set slot none).set slot (some value) = slots := by
    obtain ⟨bound, here⟩ := List.getElem?_eq_some_iff.mp full
    rw [set_set, ← here, set_getElem_self]
  have filled := reduceOption_set_some empty value
  rwa [same] at filled

theorem getElem?_some_unique (nodup : slots.reduceOption.Nodup) {other : Nat}
    (here : slots[place]? = some (some value)) (there : slots[other]? = some (some value)) : place = other := by
  change (slots.filterMap id).Pairwise (· ≠ ·) at nodup
  rw [pairwise_filterMap, pairwise_iff_getElem] at nodup
  obtain ⟨low, first⟩ := List.getElem?_eq_some_iff.mp here
  obtain ⟨low', second⟩ := List.getElem?_eq_some_iff.mp there
  rcases Nat.lt_trichotomy place other with less | same | more
  · exact absurd rfl (nodup place other low low' less value first value second)
  · exact same
  · exact absurd rfl (nodup other place low' low more value second value first)

theorem exists_of_forall₂ {β : Type} {link : α → β → Prop} {values' : List β}
    (linked : List.Forall₂ link values values') (member : value ∈ values) : ∃ value' ∈ values', link value value' := by
  induction linked with
  | nil => cases member
  | cons first _ ih =>
    rcases mem_cons.mp member with rfl | inside
    · exact ⟨_, mem_cons_self, first⟩
    · obtain ⟨value', member', link⟩ := ih inside
      exact ⟨value', mem_cons_of_mem _ member', link⟩

theorem find?_forall₂ {β : Type} {link : α → β → Prop} {hit : α → Bool} {hit' : β → Bool} {values' : List β}
    (linked : List.Forall₂ link values values') (agree : ∀ a b, link a b → hit a = hit' b)
    (found : values.find? hit = some value) : ∃ value', values'.find? hit' = some value' ∧ link value value' := by
  induction linked with
  | nil => cases found
  | @cons first first' _ _ head _ ih =>
    rw [find?_cons] at found ⊢
    rw [← agree first first' head]
    cases here : hit first with
    | true =>
      rw [here] at found
      obtain rfl := Option.some.inj found
      exact ⟨first', rfl, head⟩
    | false =>
      rw [here] at found
      exact ih found

theorem pairwise_of_forall₂ {β : Type} {link : α → β → Prop} {relation' : β → β → Prop}
    (reflects : ∀ a a' b b', link a a' → link b b' → relation' a' b' → relation a b) {values' : List β}
    (linked : List.Forall₂ link values values') (pairs : values'.Pairwise relation') : values.Pairwise relation := by
  induction linked with
  | nil => exact .nil
  | cons first rest ih =>
    obtain ⟨head, tail⟩ := pairwise_cons.mp pairs
    refine pairwise_cons.mpr ⟨fun b member => ?_, ih tail⟩
    obtain ⟨b', member', link⟩ := exists_of_forall₂ rest member
    exact reflects _ _ _ _ first link (head b' member')

theorem pairwise_of_classes {κ : Type} (classes : List κ) (inside : κ → α → Bool)
    (same : ∀ c ∈ classes, (values.filter (inside c)).Pairwise relation)
    (cross : ∀ a ∈ values, ∀ b ∈ values, (∀ c ∈ classes, ¬ (inside c a = true ∧ inside c b = true)) → relation a b) :
    values.Pairwise relation := by
  induction values with
  | nil => exact .nil
  | cons head rest ih =>
    refine pairwise_cons.mpr ⟨?_, ?_⟩
    · intro other member
      by_cases together : ∃ c ∈ classes, inside c head = true ∧ inside c other = true
      · obtain ⟨c, chosen, first, second⟩ := together
        have pairs := same c chosen
        rw [filter_cons_of_pos first] at pairs
        exact (pairwise_cons.mp pairs).1 other (mem_filter.mpr ⟨member, second⟩)
      · exact cross head (by simp) other (by simp [member]) fun c chosen both => together ⟨c, chosen, both⟩
    · apply ih
      · intro c chosen
        exact (same c chosen).sublist (List.Sublist.filter _ (sublist_cons_self head rest))
      · intro a first b second
        exact cross a (by simp [first]) b (by simp [second])

theorem countP_of_one (nodup : values.Nodup) (member : value ∈ values) {holds holds' : α → Bool}
    (same : ∀ other ∈ values, other ≠ value → holds' other = holds other) :
    values.countP holds' + (holds value).toNat = values.countP holds + (holds' value).toNat := by
  obtain ⟨front, back, rfl⟩ := append_of_mem member
  have fresh : ∀ other ∈ front ++ back, holds' other = holds other := by
    intro other inside
    refine same other (perm_middle.symm.subset (mem_cons_of_mem _ inside)) ?_
    rintro rfl
    exact (nodup_cons.mp (perm_middle.nodup_iff.mp nodup)).1 inside
  rw [perm_middle.countP_eq, perm_middle.countP_eq, countP_cons, countP_cons, countP_congr
    fun other inside => by rw [fresh other inside]]
  cases holds value <;> cases holds' value <;> simp

theorem take_drop_eq_map (values : List α) {start : Nat} (value : α) (inside : start + count ≤ values.length) :
    (values.drop start).take count = (List.range count).map fun i => values.getD (start + i) value := by
  apply ext_getElem
  · simp only [length_take, length_drop, length_map, length_range]
    omega
  · intro i here _
    have bound : start + i < values.length := by
      simp only [length_take, length_drop] at here
      omega
    simp only [getElem_take, getElem_drop, getElem_map, getElem_range, getD_eq_getElem?_getD,
      getElem?_eq_getElem bound, Option.getD_some]

theorem getElem?_concat_cases (here : (values ++ [value])[place]? = some found) :
    values[place]? = some found ∨ place = values.length ∧ value = found := by
  grind

theorem getElem?_set_cases {place' : Nat} (here : (values.set place value)[place']? = some found) :
    values[place']? = some found ∧ place' ≠ place ∨ place' = place ∧ value = found := by
  grind

theorem foldl_finRange_rule {β : Type} {step : β → Fin count → β} (inv : Nat → β → Prop)
    (kept : ∀ (i : Fin count) state, inv i state → inv (i + 1) (step state i)) {state : β} (start : inv 0 state) :
    inv count ((finRange count).foldl step state) := by
  have each : ∀ turns, turns ≤ count → inv turns (((finRange count).take turns).foldl step state) := by
    intro turns
    induction turns with
    | zero => exact fun _ => start
    | succ turns ih =>
      intro inside
      have place : turns < (finRange count).length := by simpa using inside
      rw [take_succ_eq_append_getElem place, foldl_append, foldl_cons, foldl_nil, getElem_finRange]
      exact kept ⟨turns, inside⟩ _ (ih (by omega))
  have all := each count le_rfl
  rwa [take_of_length_le (by simp)] at all

theorem foldl_reverse_foldl {β : Type} (step undo : β → α → β) (undone : ∀ state value, undo (step state value) value = state)
    (values : List α) (state : β) : values.reverse.foldl undo (values.foldl step state) = state := by
  induction values generalizing state with
  | nil => rfl
  | cons value rest ih => rw [foldl_cons, reverse_cons, foldl_append, ih, foldl_cons, undone, foldl_nil]

theorem take_range' (start count taken : Nat) :
    (List.range' start count).take taken = List.range' start (min taken count) := by
  rcases Nat.le_total taken count with less | more
  · rw [take_range'_of_length_ge less, Nat.min_eq_left less]
  · rw [take_of_length_le (by simpa using more), Nat.min_eq_right more]

end Kernel31.Lists
