import Kernel31.Elf.Fields

namespace Kernel31.Elf

open Checked List

def field (size : Nat) (bytes : List UInt8) (offset : Nat) (endian : UInt8) : Nat :=
  readInt endian ((bytes.drop offset).take size)

def classField (is32 : Bool) (bytes : List UInt8) (offset32 offset64 : Nat) (endian : UInt8) : Nat :=
  if is32 then field 4 bytes offset32 endian else field 8 bytes offset64 endian

section Reads
variable {α : Type} {bytes : List UInt8} {endian : UInt8} {offset size : Nat}

theorem int_inside (inside : offset + size ≤ bytes.length) :
    int size bytes offset endian = .ok (field size bytes offset endian) := by
  rw [int, slice, if_pos ⟨Nat.le_add_right _ _, inside⟩, Nat.add_sub_cancel_left, pure_eq, ok_bind, field, readInt]
  split <;> rfl

theorem int_outside (outside : ¬ offset + size ≤ bytes.length) : int size bytes offset endian = .error .indexOutOfBounds := by
  rw [int, slice, if_neg fun both => outside both.2]
  rfl

theorem returns_byteAt {place : Nat} {next : UInt8 → Exec α} :
    Returns (byteAt bytes place >>= next) ↔ place < bytes.length ∧ Returns (next (bytes.getD place 0)) := by
  rw [byteAt, getD_eq_getElem?_getD]
  by_cases inside : place < bytes.length
  · rw [getElem?_eq_getElem inside, and_iff_right inside]
    rfl
  · rw [getElem?_eq_none (Nat.not_lt.mp inside)]
    exact iff_of_false (by rintro ⟨_, ⟨⟩⟩) fun both => inside both.1

theorem returns_int {next : Nat → Exec α} :
    Returns (int size bytes offset endian >>= next) ↔
      offset + size ≤ bytes.length ∧ Returns (next (field size bytes offset endian)) := by
  by_cases inside : offset + size ≤ bytes.length
  · rw [int_inside inside, and_iff_right inside, ok_bind]
  · rw [int_outside inside]
    exact iff_of_false (by rintro ⟨_, ⟨⟩⟩) fun both => inside both.1

theorem returns_classInt {is32 : Bool} {offset32 offset64 : Nat} {next : Nat → Exec α} :
    Returns (classInt is32 bytes offset32 offset64 endian >>= next) ↔
      (if is32 then offset32 + 4 else offset64 + 8) ≤ bytes.length ∧
        Returns (next (classField is32 bytes offset32 offset64 endian)) := by
  cases is32 with
  | true => exact returns_int
  | false => exact returns_int

end Reads

section Headers
variable {bytes : List UInt8} {fileClass endian : UInt8}

def phSize (fileClass : UInt8) : Nat := if fileClass = elfClass32 then phSize32 else phSize64

theorem Program.parse_returns (sized : bytes.length = phSize fileClass) : Returns (Program.parse bytes fileClass endian) := by
  rw [Program.parse]
  by_cases is32 : fileClass = elfClass32
  · subst is32
    have sized : bytes.length = 32 := sized
    rw [returns_int, if_neg (by decide)]
    simp only [returns_int, returns_classInt, decide_true, if_true, sized]
    exact ⟨by decide, by decide, by decide, by decide, by decide, by decide, by decide, _, rfl⟩
  · have sized : bytes.length = 56 := by rw [sized, phSize, if_neg is32, phSize64]
    rw [returns_int]
    split
    all_goals
      simp only [returns_int, returns_classInt, is32, decide_false, Bool.false_eq_true, if_false, sized]
      exact ⟨by decide, by decide, by decide, by decide, by decide, by decide, by decide, _, rfl⟩

theorem headerOffset_ok {ePhoff offset place : Nat} :
    headerOffset ePhoff offset = .ok place ↔ ePhoff + offset < 2 ^ 64 ∧ ePhoff + offset = place := by
  rw [headerOffset]
  split
  case isTrue fits => rw [pure_ok, and_iff_right fits]
  case isFalse beyond => exact iff_of_false nofun fun both => beyond both.1

theorem parseHeaders_returns_iff {ePhoff : Nat} {secs : List Nat} :
    Returns (parseHeaders bytes fileClass endian ePhoff secs) ↔
      ∀ sec ∈ secs, ePhoff + (sec + 1) * phSize fileClass ≤ bytes.length ∧
        ePhoff + (sec + 1) * phSize fileClass < 2 ^ 64 := by
  induction secs with
  | nil => exact iff_of_true ⟨[], rfl⟩ (forall_mem_nil _)
  | cons sec rest ih =>
    rw [parseHeaders, forall_mem_cons, ← ih]
    change Returns (headerOffset ePhoff (sec * phSize fileClass) >>= fun start =>
      headerOffset ePhoff ((sec + 1) * phSize fileClass) >>= fun stop => _) ↔ _
    have next : (sec + 1) * phSize fileClass = sec * phSize fileClass + phSize fileClass := Nat.succ_mul _ _
    simp only [returns_bind, headerOffset_ok, slice]
    constructor
    · rintro ⟨_, ⟨_, rfl⟩, _, ⟨fits, rfl⟩, header, cut, _, _, others, later, _⟩
      split at cut
      case isTrue inside => exact ⟨⟨inside.2, fits⟩, others, later⟩
      case isFalse => cases cut
    · rintro ⟨⟨inside, fits⟩, others, later⟩
      have cut : ePhoff + sec * phSize fileClass ≤ ePhoff + (sec + 1) * phSize fileClass ∧
          ePhoff + (sec + 1) * phSize fileClass ≤ bytes.length := ⟨by omega, inside⟩
      have sized : ((bytes.drop (ePhoff + sec * phSize fileClass)).take
          (ePhoff + (sec + 1) * phSize fileClass - (ePhoff + sec * phSize fileClass))).length = phSize fileClass := by
        rw [length_take, length_drop]
        omega
      obtain ⟨program, parsed⟩ := @Program.parse_returns _ fileClass endian sized
      exact ⟨_, ⟨by omega, rfl⟩, _, ⟨fits, rfl⟩, _, if_pos cut, program, parsed, others, later, _, rfl⟩

end Headers

end Kernel31.Elf

namespace Kernel31

open Elf Checked List

section Bounds
variable (bytes : List UInt8)

def Elf.fileClass : UInt8 := bytes.getD 4 0
def Elf.endian : UInt8 := bytes.getD 5 0
def Elf.ePhoff : Nat := classField (Elf.fileClass bytes = elfClass32) bytes 28 32 (Elf.endian bytes)
def Elf.ePhnum : Nat := field 2 bytes (if Elf.fileClass bytes = elfClass32 then 44 else 56) (Elf.endian bytes)

/-- The bytes reach to the end of each field that is looked at, and of the program headers if the header is a known
    one. -/
def Elf.InBounds : Prop :=
  elfHeader <+: bytes → 8 ≤ bytes.length ∧ ((ElfAbi.decode (bytes.getD 7 0)).isOk →
    18 ≤ bytes.length ∧ ((ElfType.decode (field 2 bytes 16 (Elf.endian bytes))).isOk →
      20 ≤ bytes.length ∧ ((ElfMachine.decode (field 2 bytes 18 (Elf.endian bytes))).isOk →
        (if Elf.fileClass bytes = elfClass32 then 46 else 58) ≤ bytes.length ∧
          (Elf.ePhnum bytes = 0 ∨
            Elf.ePhoff bytes + Elf.ePhnum bytes * phSize (Elf.fileClass bytes) ≤ bytes.length ∧
              Elf.ePhoff bytes + Elf.ePhnum bytes * phSize (Elf.fileClass bytes) < 2 ^ 64))))

theorem Elf.headers_inside_iff {ePhoff count size : Nat} :
    (∀ sec ∈ range count, ePhoff + (sec + 1) * size ≤ bytes.length ∧ ePhoff + (sec + 1) * size < 2 ^ 64) ↔
      count = 0 ∨ ePhoff + count * size ≤ bytes.length ∧ ePhoff + count * size < 2 ^ 64 := by
  simp only [mem_range]
  cases count with
  | zero => exact iff_of_true (fun sec below => absurd below (Nat.not_lt_zero sec)) (.inl rfl)
  | succ last =>
    rw [or_iff_right (Nat.succ_ne_zero last)]
    refine ⟨fun all => all last (Nat.lt_succ_self last), fun ⟨inside, fits⟩ sec below => ?_⟩
    have before : (sec + 1) * size ≤ (last + 1) * size := Nat.mul_le_mul_right size below
    omega

theorem Elf.returns_headers {fileClass endian : UInt8} {ePhoff count : Nat} {elf : List Elf.Program → Except ElfError Elf} :
    Returns (parseHeaders bytes fileClass endian ePhoff (range count) >>= fun pHeaders => pure (elf pHeaders)) ↔
      count = 0 ∨ ePhoff + count * phSize fileClass ≤ bytes.length ∧ ePhoff + count * phSize fileClass < 2 ^ 64 := by
  rw [← Elf.headers_inside_iff, ← parseHeaders_returns_iff, returns_bind]
  exact ⟨fun ⟨headers, parsed, _⟩ => ⟨headers, parsed⟩, fun ⟨headers, parsed⟩ => ⟨headers, parsed, _, rfl⟩⟩

/-- `Elf::parse` returns, with a value or an error, exactly for these bytes. -/
theorem Elf.parse_returns_iff : Returns (Elf.parse bytes) ↔ Elf.InBounds bytes := by
  rw [Elf.parse, Elf.InBounds]
  by_cases magic : elfHeader <+: bytes
  case neg =>
    rw [if_pos (by rw [Bool.not_eq_true', ← Bool.not_eq_true, isPrefixOf_iff_prefix]; exact magic)]
    exact iff_of_true ⟨_, rfl⟩ fun found => absurd found magic
  rw [if_neg (by rw [Bool.not_eq_true', Bool.not_eq_false, isPrefixOf_iff_prefix]; exact magic), imp_iff_right magic,
    returns_byteAt, returns_byteAt, returns_byteAt, ← and_assoc, ← and_assoc]
  refine and_congr (by omega) ?_
  cases ElfAbi.decode (bytes.getD 7 0) with
  | error err => exact iff_of_true ⟨_, rfl⟩ nofun
  | ok eAbi =>
  refine (returns_int.trans (and_congr Iff.rfl ?_)).trans (imp_iff_right rfl).symm
  change _ ↔ ((ElfType.decode (field 2 bytes 16 (bytes.getD 5 0))).isOk → _)
  cases ElfType.decode (field 2 bytes 16 (bytes.getD 5 0)) with
  | error err => exact iff_of_true ⟨_, rfl⟩ nofun
  | ok eType =>
  refine (returns_int.trans (and_congr Iff.rfl ?_)).trans (imp_iff_right rfl).symm
  change _ ↔ ((ElfMachine.decode (field 2 bytes 18 (bytes.getD 5 0))).isOk → _)
  cases ElfMachine.decode (field 2 bytes 18 (bytes.getD 5 0)) with
  | error err => exact iff_of_true ⟨_, rfl⟩ nofun
  | ok eMachine =>
  refine (returns_classInt.trans (and_congr Iff.rfl returns_classInt)).trans (Iff.trans ?_ (imp_iff_right rfl).symm)
  by_cases is32 : Elf.fileClass bytes = elfClass32
  · have is32' : bytes.getD 4 0 = elfClass32 := is32
    simp only [Elf.ePhoff, Elf.ePhnum, Elf.endian, is32, is32', if_true, returns_int, Elf.returns_headers, decide_true]
    rw [← and_assoc, ← and_assoc]
    exact and_congr (by omega) Iff.rfl
  · have is64 : ¬ bytes.getD 4 0 = elfClass32 := is32
    simp only [Elf.ePhoff, Elf.ePhnum, Elf.endian, is32, is64, if_false, returns_int, Elf.returns_headers, decide_false,
      Bool.false_eq_true]
    rw [← and_assoc, ← and_assoc]
    exact and_congr (by omega) Iff.rfl

end Bounds

/-- Bytes that end after the first four make the parser index behind their end. -/
theorem Elf.header_alone_panics : Elf.parse elfHeader = .error .indexOutOfBounds := rfl

end Kernel31
