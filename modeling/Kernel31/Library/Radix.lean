import Mathlib.Tactic
import Mathlib.Logic.Function.Basic

namespace Kernel31.Radix

open Function

variable {κ ι π ω : Type} {mem mem' : π → ι → ω} {root table fresh : π} {height depth : Nat} {key : κ} {blank : ι → ω}
  {word : ω}

structure Scheme (κ ι π ω : Type) where
  digit : Nat → κ → ι
  child : ω → Option π

namespace Scheme

variable (scheme : Scheme κ ι π ω)

def tableAt (mem : π → ι → ω) (root : π) : Nat → κ → Option π
  | 0, _ => some root
  | depth + 1, key =>
    (tableAt mem root depth key).bind fun table => scheme.child (mem table (scheme.digit depth key))

def Agree (depth : Nat) (key other : κ) : Prop := ∀ i, i < depth → scheme.digit i key = scheme.digit i other

/-- No table is reached in two places: the table fixes its depth and the digits before it. -/
def Separate (mem : π → ι → ω) (root : π) (height : Nat) : Prop :=
  ∀ i j key other table, i ≤ height → j ≤ height → scheme.tableAt mem root i key = some table →
    scheme.tableAt mem root j other = some table → i = j ∧ scheme.Agree i key other

def Reachable (mem : π → ι → ω) (root : π) (height : Nat) (table : π) : Prop :=
  ∃ depth key, depth ≤ height ∧ scheme.tableAt mem root depth key = some table

variable {scheme}

variable {lower i : Nat} {other : κ}

theorem Agree.trans {middle : κ} (agree : scheme.Agree depth key middle)
    (agree' : scheme.Agree depth middle other) : scheme.Agree depth key other :=
  fun i bound => (agree i bound).trans (agree' i bound)

section

variable (agree : scheme.Agree depth key other)
include agree

theorem Agree.mono (below : lower ≤ depth) :
    scheme.Agree lower key other := fun i bound => agree i (by omega)

theorem Agree.symm :
    scheme.Agree depth other key := fun i bound => (agree i bound).symm

theorem Agree.succ (last : scheme.digit depth key = scheme.digit depth other) : scheme.Agree (depth + 1) key other := by
  intro i bound
  rcases Nat.lt_succ_iff_lt_or_eq.mp bound with below | rfl
  · exact agree i below
  · exact last

theorem tableAt_agree : scheme.tableAt mem root depth key = scheme.tableAt mem root depth other := by
  induction depth with
  | zero => rfl
  | succ depth ih =>
    simp only [tableAt, ih (agree.mono (by omega)), agree depth (by omega)]

end

theorem tableAt_frame (same : ∀ i table, i < depth → scheme.tableAt mem root i key = some table →
      mem' table (scheme.digit i key) = mem table (scheme.digit i key)) :
    scheme.tableAt mem' root depth key = scheme.tableAt mem root depth key := by
  induction depth with
  | zero => rfl
  | succ depth ih =>
    simp only [tableAt, ih fun i table bound => same i table (by omega)]
    cases found : scheme.tableAt mem root depth key with
    | none => rfl
    | some table => simp only [Option.bind_some, same depth table (by omega) found]

theorem tableAt_none (none : scheme.tableAt mem root lower key = none) (above : lower ≤ depth) :
    scheme.tableAt mem root depth key = .none := by
  induction above with
  | refl => exact none
  | step _ ih => simp [tableAt, ih]

variable [DecidableEq π] [DecidableEq ι]

instance (depth : Nat) (key other : κ) : Decidable (scheme.Agree depth key other) :=
  inferInstanceAs (Decidable (∀ i, i < depth → scheme.digit i key = scheme.digit i other))

def write (mem : π → ι → ω) (table : π) (index : ι) (word : ω) : π → ι → ω :=
  update mem table (update (mem table) index word)

theorem write_same (mem : π → ι → ω) (table : π) (index : ι) (word : ω) :
    write mem table index word table index = word := by
  simp [write]

theorem write_other {other : π} {index entry : ι} (mem : π → ι → ω) (word : ω)
    (different : ¬ (other = table ∧ entry = index)) : write mem table index word other entry = mem other entry := by
  by_cases same : other = table
  · subst same
    have apart : entry ≠ index := fun equal => different ⟨rfl, equal⟩
    simp [write, apart]
  · simp [write, same]

def leafAt (scheme : Scheme κ ι π ω) (mem : π → ι → ω) (root : π) (height : Nat) (key : κ) : Option ω :=
  (scheme.tableAt mem root height key).map fun table => mem table (scheme.digit height key)

section

variable (separate : scheme.Separate mem root height)
include separate

theorem Separate.tableAt_write (inside : depth ≤ height) (place : scheme.tableAt mem root depth key = some table) (word : ω)
    (bound : i ≤ height) (missed : ¬ (depth < i ∧ scheme.Agree (depth + 1) other key)) :
    scheme.tableAt (write mem table (scheme.digit depth key) word) root i other = scheme.tableAt mem root i other := by
  apply tableAt_frame
  intro j found below reached
  apply write_other
  rintro ⟨rfl, digit⟩
  obtain ⟨rfl, agree⟩ := separate j depth other key _ (by omega) inside reached place
  exact missed ⟨below, agree.succ digit⟩

variable (place : scheme.tableAt mem root height key = some table)
include place

theorem Separate.tableAt_write_last (word : ω) (other : κ) (bound : i ≤ height) :
    scheme.tableAt (write mem table (scheme.digit height key) word) root i other = scheme.tableAt mem root i other :=
  separate.tableAt_write le_rfl place word bound fun shared => by omega

theorem Separate.write_last (word : ω) : scheme.Separate (write mem table (scheme.digit height key) word) root height := by
  intro i j left right found iBound jBound first second
  rw [separate.tableAt_write_last place word left iBound] at first
  rw [separate.tableAt_write_last place word right jBound] at second
  exact separate i j left right found iBound jBound first second

theorem Separate.leafAt_write (word : ω) (other : κ) :
    scheme.leafAt (write mem table (scheme.digit height key) word) root height other =
      if scheme.Agree (height + 1) other key then some word
      else scheme.leafAt mem root height other := by
  unfold leafAt
  rw [separate.tableAt_write_last place word other le_rfl]
  split
  · rename_i agree
    rw [tableAt_agree (agree.mono (Nat.le_succ _)), place, Option.map_some, agree height (Nat.lt_succ_self _), write_same]
  · rename_i different
    cases reached : scheme.tableAt mem root height other with
    | none => rfl
    | some found =>
      rw [Option.map_some, Option.map_some, write_other]
      rintro ⟨rfl, digit⟩
      obtain ⟨_, agree⟩ := separate height height other key _ le_rfl le_rfl reached place
      exact different (agree.succ digit)

end

def attach (mem : π → ι → ω) (table : π) (index : ι) (word : ω) (fresh : π) (blank : ι → ω) : π → ι → ω :=
  write (update mem fresh blank) table index word

section Attach
variable (separate : scheme.Separate mem root height) (below : depth < height)
  (place : scheme.tableAt mem root depth key = some table)
  (free : scheme.child (mem table (scheme.digit depth key)) = none) (unused : ¬ scheme.Reachable mem root height fresh)
  (empty : ∀ index, scheme.child (blank index) = none) (refers : scheme.child word = some fresh)
include separate below place free unused empty refers

theorem Separate.tableAt_attach {i : Nat} (bound : i ≤ height) (other : κ) :
    scheme.tableAt (attach mem table (scheme.digit depth key) word fresh blank) root i other =
      if scheme.Agree (depth + 1) other key ∧ i = depth + 1 then some fresh
      else scheme.tableAt mem root i other := by
  have apart : ∀ {j found other}, j ≤ height → scheme.tableAt mem root j other = some found → found ≠ fresh := by
    rintro j found other inside reached rfl
    exact unused ⟨j, other, inside, reached⟩
  -- The blank page is on no old way, so putting it there changes no table.
  have cleared : ∀ {j : Nat} (other : κ), j ≤ height →
      scheme.tableAt (update mem fresh blank) root j other = scheme.tableAt mem root j other := by
    intro j other inside
    apply tableAt_frame
    intro k found bound reached
    rw [update_of_ne (apart (by omega) reached)]
  have separate' : scheme.Separate (update mem fresh blank) root height := by
    intro j k left right found jBound kBound first second
    rw [cleared left jBound] at first
    rw [cleared right kBound] at second
    exact separate j k left right found jBound kBound first second
  have place' : scheme.tableAt (update mem fresh blank) root depth key = some table := by
    rw [cleared key (by omega)]
    exact place
  by_cases shared : depth < i ∧ scheme.Agree (depth + 1) other key
  · obtain ⟨deeper, agree⟩ := shared
    have old : scheme.tableAt mem root (depth + 1) other = none := by
      rw [tableAt_agree agree]
      simp [tableAt, place, free]
    have first : scheme.tableAt (attach mem table (scheme.digit depth key) word fresh blank) root (depth + 1) other =
        some fresh := by
      have here : scheme.tableAt (attach mem table (scheme.digit depth key) word fresh blank) root depth other =
          some table := by
        rw [attach, separate'.tableAt_write (by omega) place' word (by omega) (by omega), cleared other (by omega),
          tableAt_agree (agree.mono (by omega))]
        exact place
      rw [tableAt, here, Option.bind_some, agree depth (by omega), attach, write_same, refers]
    by_cases last : i = depth + 1
    · rw [if_pos ⟨agree, last⟩, last, first]
    · have second : scheme.tableAt (attach mem table (scheme.digit depth key) word fresh blank) root (depth + 2) other =
          none := by
        rw [tableAt, first, Option.bind_some, attach, write_other, update_self, empty]
        rintro ⟨same, _⟩
        exact apart (by omega) place same.symm
      rw [if_neg fun both => last both.2, tableAt_none second (by omega), tableAt_none old (by omega)]
  · rw [if_neg (by rintro ⟨agree, rfl⟩; exact shared ⟨by omega, agree⟩), attach,
      separate'.tableAt_write (by omega) place' word bound shared, cleared other bound]

theorem Separate.attach : scheme.Separate (attach mem table (scheme.digit depth key) word fresh blank) root height := by
  intro i j left right found iBound jBound first second
  rw [separate.tableAt_attach below place free unused empty refers iBound] at first
  rw [separate.tableAt_attach below place free unused empty refers jBound] at second
  split at first
  · rename_i new
    obtain rfl := Option.some.inj first
    split at second
    · rename_i new'
      obtain ⟨agree, rfl⟩ := new
      obtain ⟨agree', rfl⟩ := new'
      exact ⟨rfl, agree.trans agree'.symm⟩
    · exact absurd ⟨j, right, jBound, second⟩ unused
  · split at second
    · obtain rfl := Option.some.inj second
      exact absurd ⟨i, left, iBound, first⟩ unused
    · exact separate i j left right found iBound jBound first second

theorem Separate.reachable_attach {found : π} :
    scheme.Reachable (Scheme.attach mem table (scheme.digit depth key) word fresh blank) root height found ↔
      found = fresh ∨ scheme.Reachable mem root height found := by
  constructor
  · rintro ⟨i, other, bound, reached⟩
    rw [separate.tableAt_attach below place free unused empty refers bound] at reached
    split at reached
    · exact Or.inl (Option.some.inj reached).symm
    · exact Or.inr ⟨i, other, bound, reached⟩
  · rintro (rfl | ⟨i, other, bound, reached⟩)
    · refine ⟨depth + 1, key, below, ?_⟩
      rw [separate.tableAt_attach below place free unused empty refers below, if_pos ⟨fun _ _ => rfl, rfl⟩]
    · refine ⟨i, other, bound, ?_⟩
      rw [separate.tableAt_attach below place free unused empty refers bound]
      split
      · rename_i new
        obtain ⟨agree, rfl⟩ := new
        rw [tableAt_agree agree] at reached
        simp [tableAt, place, free] at reached
      · exact reached

end Attach

end Scheme

end Kernel31.Radix
