import Kernel31.Sched.Ranges
import Mathlib.Data.List.TakeWhile

namespace Kernel31.Sched

open Page Paging Kernel31.Task Checked List

def Delivers (allocs : List PageAlloc) (mem : Memory) (userAddr : Nat) (text : List UInt8) : Prop :=
  copyFromUser allocs mem userAddr (text.length + 1) = .ok (text ++ [0]) ∨
    copyFromUser allocs mem userAddr (text.length + 1) = .ok text

def Holds (allocs : List PageAlloc) (mem : Memory) (userAddr : Nat) (bytes : List UInt8) : Prop :=
  ∀ i byte, bytes[i]? = some byte → ∃ place, Backs allocs ((userAddr + i) % 2 ^ 64) place ∧ loadByte mem place = byte

/-- `copy_user_string` returns the text, decoded, if it has less than 16 bytes, and otherwise it never returns. -/
def ReturnsShort (allocs : List PageAlloc) (mem : Memory) (userAddr : Nat) (text : List UInt8) : Prop :=
  ((∃ fuel, copyUserString fuel allocs mem userAddr = .ok (Utf8.lossy text)) ↔ text.length < 16) ∧
    (16 ≤ text.length → ∀ fuel, copyUserString fuel allocs mem userAddr = .error .recursion)

section Strings

variable {allocs : List PageAlloc} {mem : Memory} {userAddr : Nat} {text bytes : List UInt8}

theorem copyFromUser_take (fits : ∀ entry ∈ allocs, ∀ vpn, entry.info.Spans vpn → entry.Fits) {size fewer : Nat}
    (run : copyFromUser allocs mem userAddr size = .ok bytes) (short : fewer ≤ size) :
    copyFromUser allocs mem userAddr fewer = .ok (bytes.take fewer) := by
  rw [copyFromUser_eq, map_ok] at run
  obtain ⟨addresses, run, rfl⟩ := run
  rw [copyFromUser_eq, copyAddresses_take fits run short le_rfl, ← map_take]
  rfl

theorem takeWhile_text (nonzero : 0 ∉ text) (rest : List UInt8) :
    (text ++ rest).takeWhile (· ≠ 0) = text ++ rest.takeWhile (· ≠ 0) :=
  takeWhile_append_of_pos fun byte member => by
    rw [decide_eq_true_eq]
    rintro rfl
    exact nonzero member

section

variable (run : copyFromUser allocs mem userAddr 16 = .ok bytes)
include run

theorem copyUserStringLoop_recursion (full : bytes.length = 16) (nonzero : 0 ∉ bytes) (fuel : Nat) (stringVec : List UInt8) :
    copyUserStringLoop allocs mem userAddr fuel stringVec = .error .recursion := by
  have all : bytes.takeWhile (· ≠ 0) = bytes := by simpa using takeWhile_text nonzero []
  induction fuel generalizing stringVec with
  | zero => rfl
  | succ fuel ih =>
    simp only [copyUserStringLoop, run, ok_bind, all, full, Nat.lt_irrefl, or_self, if_false]
    exact ih _

theorem copyUserString_recursion (full : bytes.length = 16) (nonzero : 0 ∉ bytes) (fuel : Nat) :
    copyUserString fuel allocs mem userAddr = .error .recursion := by
  rw [copyUserString, copyUserStringLoop_recursion run full nonzero]
  rfl

theorem copyUserString_eq (ends : (bytes.takeWhile (· ≠ 0)).length < bytes.length ∨ bytes.length < 16) (fuel : Nat) :
    copyUserString (fuel + 1) allocs mem userAddr = .ok (Utf8.lossy (bytes.takeWhile (· ≠ 0))) := by
  simp only [copyUserString, copyUserStringLoop, run, ok_bind, if_pos ends]
  rfl

end

variable (fits : ∀ entry ∈ allocs, ∀ vpn, entry.info.Spans vpn → entry.Fits) (nonzero : 0 ∉ text)
include fits nonzero

theorem Delivers.chunk (delivers : Delivers allocs mem userAddr text) (short : text.length < 16) :
    ∃ bytes, copyFromUser allocs mem userAddr 16 = .ok bytes ∧ bytes.takeWhile (· ≠ 0) = text ∧
      (text.length < bytes.length ∨ bytes.length < 16) := by
  obtain ⟨addresses, run⟩ := copyAddresses_returns fits (le_refl 16) userAddr
  have read : copyFromUser allocs mem userAddr 16 = .ok (addresses.map (loadByte mem)) := by
    rw [copyFromUser_eq, run]
    rfl
  generalize addresses.map (loadByte mem) = bytes at read
  have first := copyFromUser_take fits read (show text.length + 1 ≤ 16 by omega)
  refine ⟨bytes, read, ?_⟩
  rcases delivers with ended | cut
  · have start := ok_unique first ended
    rw [← take_append_drop (text.length + 1) bytes, start, append_assoc, takeWhile_text nonzero]
    simp
  · have start := ok_unique first cut
    have count := congrArg List.length start
    rw [length_take] at count
    obtain rfl : bytes = text := by rwa [take_of_length_le (by omega)] at start
    exact ⟨by simpa using takeWhile_text nonzero [], .inr short⟩

theorem Delivers.returnsShort (delivers : Delivers allocs mem userAddr text) : ReturnsShort allocs mem userAddr text := by
  have long (enough : 16 ≤ text.length) (fuel : Nat) : copyUserString fuel allocs mem userAddr = .error .recursion := by
    have chunk : copyFromUser allocs mem userAddr 16 = .ok (text.take 16) := by
      rcases delivers with ended | cut
      · rw [copyFromUser_take fits ended (by omega), take_append_of_le_length enough]
      · exact copyFromUser_take fits cut (by omega)
    refine copyUserString_recursion chunk (length_take_of_le enough) ?_ fuel
    exact fun member => nonzero (mem_of_mem_take member)
  refine ⟨⟨?_, ?_⟩, long⟩
  · rintro ⟨fuel, run⟩
    by_contra enough
    rw [long (Nat.le_of_not_lt enough)] at run
    cases run
  · intro short
    obtain ⟨bytes, read, whole, ends⟩ := delivers.chunk fits nonzero short
    have returned := copyUserString_eq read (by rwa [whole]) 0
    rw [whole] at returned
    exact ⟨1, returned⟩

end Strings

section Ranged

variable {allocs : List PageAlloc} {mem : Memory} {userAddr : Nat} {bytes : List UInt8} (ranged : Ranged allocs)
include ranged

theorem Backs.functional {place other : Nat} (backs : Backs allocs userAddr place) (again : Backs allocs userAddr other) :
    place = other :=
  Option.mem_unique (ranged.blockAccess_iff.mpr backs) (ranged.blockAccess_iff.mpr again)

theorem Longest.unique {size : Nat} {places others : List Nat} (longest : Longest allocs userAddr size places)
    (again : Longest allocs userAddr size others) : places = others := by
  have bound := longest.length_le
  have bound' := again.length_le
  have length : places.length = others.length := by
    refine le_antisymm ?_ ?_ <;> by_contra more
    · exact again.maximal (by omega) _ (longest.covered _ _ (getElem?_eq_getElem (by omega)))
    · exact longest.maximal (by omega) _ (again.covered _ _ (getElem?_eq_getElem (by omega)))
  refine ext_getElem length fun i inside inside' => ?_
  exact Backs.functional ranged (longest.covered i _ (getElem?_eq_getElem inside))
    (again.covered i _ (getElem?_eq_getElem inside'))

omit ranged in
theorem Holds.length_le {size : Nat} {places : List Nat} (holds : Holds allocs mem userAddr bytes)
    (longest : Longest allocs userAddr size places) (fits : bytes.length ≤ size) : bytes.length ≤ places.length := by
  by_contra fewer
  have inside : places.length < bytes.length := by omega
  obtain ⟨place, backs, _⟩ := holds places.length _ (getElem?_eq_getElem inside)
  exact longest.maximal (by omega) place backs

theorem Holds.copyFromUser_eq (holds : Holds allocs mem userAddr bytes) (address : userAddr < 2 ^ 64) {size : Nat}
    (ends : size = bytes.length ∨
      bytes.length ≤ size ∧ ∀ place, ¬ Backs allocs ((userAddr + bytes.length) % 2 ^ 64) place) :
    copyFromUser allocs mem userAddr size = .ok bytes := by
  obtain ⟨places, run, longest⟩ := ranged.copyAddresses_longest address size
  rw [Sched.copyFromUser_eq, run]
  have bound := longest.length_le
  have count : places.length = bytes.length := by
    refine le_antisymm ?_ (holds.length_le longest (by omega))
    by_contra more
    rcases ends with same | ⟨_, unmapped⟩
    · omega
    · have inside : bytes.length < places.length := by omega
      exact unmapped _ (longest.covered _ _ (getElem?_eq_getElem inside))
  change Except.ok _ = _
  rw [Except.ok.injEq]
  refine ext_getElem? fun i => ?_
  rw [getElem?_map]
  by_cases inside : i < bytes.length
  · have taken : places[i]? = some (places[i]) := getElem?_eq_getElem (by omega)
    have read : bytes[i]? = some (bytes[i]) := getElem?_eq_getElem inside
    obtain ⟨place, backs, byte⟩ := holds i _ read
    rw [taken, read, Option.map_some, Backs.functional ranged (longest.covered i _ taken) backs, byte]
  · rw [getElem?_eq_none (by omega), getElem?_eq_none (by omega), Option.map_none]

theorem Holds.delivers (address : userAddr < 2 ^ 64) {text : List UInt8}
    (string : Holds allocs mem userAddr (text ++ [0]) ∨
      Holds allocs mem userAddr text ∧ ∀ place, ¬ Backs allocs ((userAddr + text.length) % 2 ^ 64) place) :
    Delivers allocs mem userAddr text := by
  rcases string with ended | ⟨cut, unmapped⟩
  · exact .inl (ended.copyFromUser_eq ranged address (.inl (by simp)))
  · exact .inr (cut.copyFromUser_eq ranged address (.inr ⟨Nat.le_succ _, unmapped⟩))

end Ranged

/-- A text that `copy_from_user` delivers is returned exactly if it is shorter than 16 bytes; longer ones keep it in
    its loop. -/
theorem user_string_returned_iff {allocs : List PageAlloc} {mem : Memory} {userAddr : Nat} {text : List UInt8}
    (nonzero : 0 ∉ text) :
    ((∀ entry ∈ allocs, ∀ vpn, entry.info.Spans vpn → entry.Fits) → Delivers allocs mem userAddr text →
      ReturnsShort allocs mem userAddr text) ∧
    (Ranged allocs → userAddr < 2 ^ 64 →
      (Holds allocs mem userAddr (text ++ [0]) ∨
        Holds allocs mem userAddr text ∧ ∀ place, ¬ Backs allocs ((userAddr + text.length) % 2 ^ 64) place) →
      ReturnsShort allocs mem userAddr text) := by
  refine ⟨fun fits delivers => delivers.returnsShort fits nonzero, fun ranged address string => ?_⟩
  exact (Holds.delivers ranged address string).returnsShort ranged.fits nonzero

def onesMemory (count : Nat) : Memory := storeByte (fun _ _ => 0x0101010101010101) (virtPage 7 * pageSize + count) 0

theorem short_string_returned :
    (∃ fuel, copyUserString fuel adjacent (onesMemory 2) 0x1000 = .ok [1, 1]) ↔ [1, 1].length < 16 := by
  have delivers : Delivers adjacent (onesMemory 2) 0x1000 [1, 1] := .inl rfl
  exact ((user_string_returned_iff (by decide)).1 adjacent_ranged.1.fits delivers).1

/-- A string of 16 bytes is never returned. -/
theorem long_string_never_returned :
    copyFromUser adjacent (onesMemory 16) 0x1000 17 = .ok (List.replicate 16 1 ++ [0]) ∧
      ∀ fuel, copyUserString fuel adjacent (onesMemory 16) 0x1000 = .error .recursion := by
  refine ⟨rfl, fun fuel => ?_⟩
  have chunk : copyFromUser adjacent (onesMemory 16) 0x1000 16 = .ok (List.replicate 16 1) := rfl
  exact copyUserString_recursion chunk rfl (by decide) fuel

end Kernel31.Sched
