import Kernel31.Elf.Parse

namespace Kernel31.Slices

open Elf (slice)

section Arrays
variable {α : Type} {n : Nat}

def index (values : Vector α n) (place : Nat) : Exec α :=
  if inside : place < n then pure values[place] else throw .indexOutOfBounds

def assign (values : Vector α n) (place : Nat) (value : α) : Exec (Vector α n) :=
  if inside : place < n then pure (values.set place value) else throw .indexOutOfBounds

def copyFromSlice (values : Vector α n) (start stop : Nat) (source : List α) : Exec (Vector α n) :=
  if fits : start ≤ stop ∧ stop ≤ n ∧ source.length = stop - start then
    pure ⟨(values.toList.take start ++ (source ++ values.toList.drop stop)).toArray, by
      simp only [List.size_toArray, List.length_append, List.length_take, List.length_drop, Vector.length_toList]
      omega⟩
  else throw .indexOutOfBounds

theorem index_ok {values : Vector α n} {place : Nat} {value : α} (here : values[place]? = some value) :
    index values place = .ok value := by
  obtain ⟨inside, rfl⟩ := Vector.getElem?_eq_some_iff.mp here
  rw [index, dif_pos inside]
  rfl

theorem assign_ok {values : Vector α n} {place : Nat} (inside : place < n) (value : α) :
    assign values place value = .ok (values.set place value) := dif_pos inside

theorem copyFromSlice_ok (values : Vector α n) {start stop : Nat} {source : List α} (ordered : start ≤ stop)
    (inside : stop ≤ n) (size : source.length = stop - start) :
    ∃ result, copyFromSlice values start stop source = .ok result ∧
      result.toList = values.toList.take start ++ (source ++ values.toList.drop stop) :=
  ⟨_, dif_pos ⟨ordered, inside, size⟩, rfl⟩

end Arrays

theorem slice_prefix {bytes : List UInt8} {stop : Nat} (inside : stop ≤ bytes.length) :
    slice bytes 0 stop = .ok (bytes.take stop) := by
  rw [slice, if_pos ⟨Nat.zero_le _, inside⟩]
  rfl

theorem slice_suffix {bytes : List UInt8} {start : Nat} (inside : start ≤ bytes.length) :
    slice bytes start bytes.length = .ok (bytes.drop start) := by
  rw [slice, if_pos ⟨inside, le_rfl⟩, List.take_of_length_le (by rw [List.length_drop])]
  rfl

def beBytes (count : Nat) (value : Nat) : List UInt8 :=
  (List.range count).map fun i => UInt8.ofNat (value >>> (8 * (count - 1 - i)))

end Kernel31.Slices
