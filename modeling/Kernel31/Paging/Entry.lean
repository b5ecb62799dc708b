import Kernel31.Page.Basics

namespace Kernel31.Paging

open Page List

inductive PageACL where
  | read
  | write
  | execute
  | user
  deriving DecidableEq, Repr

/-- The trait `Entry`, with the 64-bit word an entry is stored as. -/
class Entry (E : Type) where
  ofBits : BitVec 64 → E
  bits : E → BitVec 64
  new : Nat → Bool → List PageACL → E
  empty : E
  pageNumber : E → Nat
  isValid : E → Bool

def flag (set : Bool) (bit word : BitVec 64) : BitVec 64 := if set then word ||| bit else word

structure PageTableEntry where
  bits : BitVec 64
  deriving DecidableEq, Repr

namespace PageTableEntry

def pteVFlag : BitVec 64 := 1
def pteRFlag : BitVec 64 := 1 <<< 1
def pteWFlag : BitVec 64 := 1 <<< 2
def pteXFlag : BitVec 64 := 1 <<< 3
def pteUFlag : BitVec 64 := 1 <<< 4

def new (pageNumber : Nat) (_leaf : Bool) (mode : List PageACL) : PageTableEntry :=
  let entry := BitVec.ofNat 64 pageNumber <<< 10
  let entry := flag (mode.contains .read) pteRFlag entry
  let entry := flag (mode.contains .write) pteWFlag entry
  let entry := flag (mode.contains .execute) pteXFlag entry
  let entry := flag (mode.contains .user) pteUFlag entry
  ⟨entry ||| pteVFlag⟩

def isValid (self : PageTableEntry) : Bool := 0 < self.bits &&& pteVFlag

def pageNumber (self : PageTableEntry) : Nat := (self.bits >>> 10).toNat

end PageTableEntry

instance : Entry PageTableEntry where
  ofBits := PageTableEntry.mk
  bits := PageTableEntry.bits
  new := PageTableEntry.new
  empty := ⟨0⟩
  pageNumber := PageTableEntry.pageNumber
  isValid := PageTableEntry.isValid

structure TableDescriptor where
  bits : BitVec 64
  deriving DecidableEq, Repr

namespace TableDescriptor

def typeValid : BitVec 64 := 0b01
def typeTableEntry : BitVec 64 := 0b10
def typePageEntry : BitVec 64 := 0b10
def ap1 : BitVec 64 := 0b1000000
def ap2Ro : BitVec 64 := 0b10000000
def ap2Rw : BitVec 64 := 0b00000000
def af : BitVec 64 := 1 <<< 10
def pxn : BitVec 64 := 1 <<< 53
def uxn : BitVec 64 := 1 <<< 54

def new (pageNumber : Nat) (leaf : Bool) (mode : List PageACL) : TableDescriptor :=
  let descriptor := BitVec.ofNat 64 pageNumber <<< 12
  if leaf then
    let descriptor := flag (mode.contains .user) ap1 descriptor
    let descriptor := if mode.contains .write then descriptor ||| ap2Rw else descriptor ||| ap2Ro
    let descriptor :=
      if !mode.contains .execute then descriptor ||| uxn ||| pxn
      else if !mode.contains .user then descriptor ||| uxn
      else descriptor
    ⟨descriptor ||| (af ||| typeValid ||| typePageEntry)⟩
  else ⟨descriptor ||| (typeValid ||| typeTableEntry)⟩

def isValid (self : TableDescriptor) : Bool := 0 < self.bits &&& typeValid

def pageNumber (self : TableDescriptor) : Nat := (self.bits >>> pageBits).toNat

end TableDescriptor

instance : Entry TableDescriptor where
  ofBits := TableDescriptor.mk
  bits := TableDescriptor.bits
  new := TableDescriptor.new
  empty := ⟨0⟩
  pageNumber := TableDescriptor.pageNumber
  isValid := TableDescriptor.isValid

inductive Descriptor (P : Type) where
  | invalid
  | table (frame : Nat)
  | block (frame : Nat) (perms : P)
  | page (frame : Nat) (perms : P)
  deriving DecidableEq, Repr

/-- `decode last` is for a word of the last level or of a level above it; `granted` are the permission bits of some
    access modes. -/
class Mmu (E : Type) where
  Perms : Type
  fieldBits : Nat
  decode : Bool → BitVec 64 → Descriptor Perms
  granted : List PageACL → Perms

structure Sv39Perms where
  read : Bool
  write : Bool
  execute : Bool
  user : Bool
  deriving DecidableEq, Repr

/-- Sv39: V is bit 0; R, W, X and U are the bits 1 to 4; R or X set makes a leaf, W alone is reserved; the page
    number is in the bits 10 to 53. -/
def sv39Decode (last : Bool) (word : BitVec 64) : Descriptor Sv39Perms :=
  let frame := (word.extractLsb' 10 44).toNat
  let perms : Sv39Perms := ⟨word.getLsbD 1, word.getLsbD 2, word.getLsbD 3, word.getLsbD 4⟩
  if !word.getLsbD 0 || (!word.getLsbD 1 && word.getLsbD 2) then .invalid
  else if word.getLsbD 1 || word.getLsbD 3 then
    if last then .page frame perms else .block frame perms
  else if last then .invalid else .table frame

instance : Mmu PageTableEntry where
  Perms := Sv39Perms
  fieldBits := 44
  decode := sv39Decode
  granted mode := ⟨mode.contains .read, mode.contains .write, mode.contains .execute, mode.contains .user⟩

structure Arm64Perms where
  user : Bool
  readOnly : Bool
  accessed : Bool
  privilegedExecuteNever : Bool
  userExecuteNever : Bool
  deriving DecidableEq, Repr

/-- VMSAv8-64, 4K pages: bit 0 is valid; bit 1 tells a table or page from a block; AP[1], AP[2] and AF are the bits
    6, 7 and 10, PXN and UXN 53 and 54; the address is in the bits 12 to 47. -/
def arm64Decode (last : Bool) (word : BitVec 64) : Descriptor Arm64Perms :=
  let frame := (word.extractLsb' 12 36).toNat
  let perms : Arm64Perms :=
    ⟨word.getLsbD 6, word.getLsbD 7, word.getLsbD 10, word.getLsbD 53, word.getLsbD 54⟩
  if !word.getLsbD 0 then .invalid
  else if word.getLsbD 1 then
    if last then .page frame perms else .table frame
  else if last then .invalid else .block frame perms

instance : Mmu TableDescriptor where
  Perms := Arm64Perms
  fieldBits := 36
  decode := arm64Decode
  granted mode :=
    { user := mode.contains .user
      readOnly := !mode.contains .write
      accessed := true
      privilegedExecuteNever := !mode.contains .execute
      userExecuteNever := !mode.contains .execute || !mode.contains .user }

/-- For table entries with a frame below `2 ^ 26`, all the linear map reaches, and for leaf entries with one that
    fits the field. -/
class LawfulEntry (E : Type) [Entry E] [Mmu E] : Prop where
  ofBits_bits : ∀ entry : E, Entry.ofBits (Entry.bits entry) = entry
  bits_empty : Entry.bits (Entry.empty : E) = 0
  zero_invalid : Entry.isValid (Entry.ofBits 0 : E) = false
  decode_zero : ∀ last, Mmu.decode (E := E) last 0 = .invalid
  new_valid : ∀ frame leaf mode, Entry.isValid (Entry.new frame leaf mode : E) = true
  table_pageNumber : ∀ frame, frame < 2 ^ 26 → Entry.pageNumber (Entry.new frame false [] : E) = frame
  decode_table : ∀ frame, frame < 2 ^ 26 → Mmu.decode (E := E) false (Entry.bits (Entry.new frame false [] : E)) = .table frame
  decode_page : ∀ frame mode, frame < 2 ^ Mmu.fieldBits E → PageACL.read ∈ mode →
    Mmu.decode (E := E) true (Entry.bits (Entry.new frame true mode : E)) = .page frame (Mmu.granted (E := E) mode)

theorem flag_getLsbD (set : Bool) (position : Nat) (bit word : BitVec 64) :
    (flag set bit word).getLsbD position = (word.getLsbD position || (set && bit.getLsbD position)) := by
  cases set <;> simp [flag]

variable {word : BitVec 64} {shift i : Nat}

theorem toNat_extractLsb'_of_bits {frame start length : Nat} (small : frame < 2 ^ length)
    (same : ∀ i, i < length → word.getLsbD (start + i) = frame.testBit i) :
    (word.extractLsb' start length).toNat = frame := by
  apply Nat.eq_of_testBit_eq
  intro i
  rw [BitVec.testBit_toNat, BitVec.getLsbD_extractLsb']
  by_cases inside : i < length
  · simp [inside, same i inside]
  · have high : frame.testBit i = false :=
      Nat.testBit_lt_two_pow (lt_of_lt_of_le small (Nat.pow_le_pow_right (by omega) (by omega)))
    simp [inside, high]

theorem toNat_ushiftRight_of_bits {frame : Nat} (small : frame < 2 ^ (64 - shift))
    (same : ∀ i, i < 64 - shift → word.getLsbD (shift + i) = frame.testBit i) : (word >>> shift).toNat = frame := by
  apply Nat.eq_of_testBit_eq
  intro i
  rw [BitVec.testBit_toNat, BitVec.getLsbD_ushiftRight]
  by_cases inside : i < 64 - shift
  · exact same i inside
  · rw [BitVec.getLsbD_of_ge _ _ (by omega), Nat.testBit_lt_two_pow
      (lt_of_lt_of_le small (Nat.pow_le_pow_right (by omega) (by omega)))]

theorem ofNat_shift_high {frame : Nat} (inside : shift + i < 64) :
    (BitVec.ofNat 64 frame <<< shift).getLsbD (shift + i) = frame.testBit i := by
  rw [BitVec.getLsbD_shiftLeft, BitVec.getLsbD_ofNat]
  simp [inside, show i < 64 by omega]

theorem ofNat_shift_low {frame : Nat} (low : i < shift) : (BitVec.ofNat 64 frame <<< shift).getLsbD i = false := by
  simp [low]

theorem getLsbD_of_small (width : Nat) (small : word.toNat < 2 ^ width) (high : width ≤ i) : word.getLsbD i = false :=
  Nat.testBit_lt_two_pow (lt_of_lt_of_le small (Nat.pow_le_pow_right (by omega) high))

theorem valid_bit (word : BitVec 64) : decide (0 < word &&& 1) = word.getLsbD 0 := by
  have bit : word &&& 1 = BitVec.setWidth 64 (BitVec.ofBool (word.getLsbD 0)) :=
    BitVec.and_one_eq_setWidth_ofBool_getLsbD
  rw [bit]
  cases word.getLsbD 0 <;> decide

open PageTableEntry TableDescriptor

section Sv39

variable (frame : Nat) (leaf : Bool) (mode : List PageACL)

theorem PageTableEntry.new_field {i : Nat} (inside : i < 54) :
    (PageTableEntry.new frame leaf mode).bits.getLsbD (10 + i) = frame.testBit i := by
  have flags : ∀ bit ∈ [pteVFlag, pteRFlag, pteWFlag, pteXFlag, pteUFlag], bit.getLsbD (10 + i) = false := by
    intro bit member
    refine getLsbD_of_small 5 ?_ (by omega)
    simp only [mem_cons, not_mem_nil, or_false] at member
    rcases member with rfl | rfl | rfl | rfl | rfl <;> decide
  simp only [forall_mem_cons] at flags
  obtain ⟨valid, read, write, execute, user, _⟩ := flags
  simp [PageTableEntry.new, flag_getLsbD, valid, read, write, execute, user, ofNat_shift_high (show 10 + i < 64 by omega)]

theorem PageTableEntry.new_pageNumber (small : frame < 2 ^ 54) :
    (PageTableEntry.new frame leaf mode).pageNumber = frame :=
  toNat_ushiftRight_of_bits small fun _ inside => new_field frame leaf mode inside

theorem PageTableEntry.new_flags :
    let word := (PageTableEntry.new frame leaf mode).bits
    word.getLsbD 0 = true ∧ word.getLsbD 1 = mode.contains .read ∧ word.getLsbD 2 = mode.contains .write ∧
      word.getLsbD 3 = mode.contains .execute ∧ word.getLsbD 4 = mode.contains .user := by
  have bits : ∀ i < 5, pteVFlag.getLsbD i = decide (i = 0) ∧ pteRFlag.getLsbD i = decide (i = 1) ∧
      pteWFlag.getLsbD i = decide (i = 2) ∧ pteXFlag.getLsbD i = decide (i = 3) ∧
      pteUFlag.getLsbD i = decide (i = 4) := by decide
  have value : ∀ i < 5, (PageTableEntry.new frame leaf mode).bits.getLsbD i =
      (mode.contains .read && decide (i = 1) || mode.contains .write && decide (i = 2) ||
        mode.contains .execute && decide (i = 3) || mode.contains .user && decide (i = 4) || decide (i = 0)) := by
    intro i inside
    obtain ⟨valid, read, write, execute, user⟩ := bits i inside
    simp only [PageTableEntry.new, BitVec.getLsbD_or, flag_getLsbD, valid, read, write, execute, user,
      ofNat_shift_low (show i < 10 by omega), Bool.false_or]
  refine ⟨?_, ?_, ?_, ?_, ?_⟩ <;> rw [value _ (by omega)] <;> simp

instance : LawfulEntry PageTableEntry where
  ofBits_bits _ := rfl
  bits_empty := rfl
  zero_invalid := rfl
  decode_zero last := by cases last <;> rfl
  new_valid frame leaf mode := by
    change decide (0 < _ &&& PageTableEntry.pteVFlag) = true
    rw [PageTableEntry.pteVFlag, valid_bit]
    exact (new_flags frame leaf mode).1
  table_pageNumber frame small := by
    exact new_pageNumber frame false [] (small.trans (by decide))
  decode_table frame small := by
    obtain ⟨valid, read, write, execute, user⟩ := new_flags frame false []
    have field : ((PageTableEntry.new frame false []).bits.extractLsb' 10 44).toNat = frame :=
      toNat_extractLsb'_of_bits (lt_of_lt_of_le small (Nat.pow_le_pow_right (by omega) (by omega)))
        fun i inside => new_field frame false [] (by omega)
    change sv39Decode false (PageTableEntry.new frame false []).bits = .table frame
    simp only [sv39Decode, valid, read, write, execute, field]
    rfl
  decode_page frame mode small readable := by
    obtain ⟨valid, read, write, execute, user⟩ := new_flags frame true mode
    have field : ((PageTableEntry.new frame true mode).bits.extractLsb' 10 44).toNat = frame :=
      toNat_extractLsb'_of_bits small fun i inside => new_field frame true mode (by omega)
    have allowed : mode.contains .read = true := by simpa using readable
    change sv39Decode true (PageTableEntry.new frame true mode).bits = .page frame _
    simp only [sv39Decode, valid, read, write, execute, user, field, allowed]
    simp [Mmu.granted, readable]

end Sv39

section Arm64

variable (frame : Nat) (mode : List PageACL)

theorem TableDescriptor.new_table_bit {i : Nat} (inside : i < 52) :
    (TableDescriptor.new frame false mode).bits.getLsbD (12 + i) = frame.testBit i := by
  have low : (typeValid ||| typeTableEntry).getLsbD (12 + i) = false := getLsbD_of_small 2 (by decide) (by omega)
  simp only [TableDescriptor.new, Bool.false_eq_true, if_false]
  rw [BitVec.getLsbD_or, ofNat_shift_high (by omega), low, Bool.or_false]

theorem TableDescriptor.new_table_pageNumber (small : frame < 2 ^ 52) :
    (TableDescriptor.new frame false mode).pageNumber = frame :=
  toNat_ushiftRight_of_bits small fun _ inside => new_table_bit frame mode inside

theorem TableDescriptor.new_leaf_bit (i : Nat) :
    (TableDescriptor.new frame true mode).bits.getLsbD i =
      ((BitVec.ofNat 64 frame <<< 12).getLsbD i || mode.contains .user && ap1.getLsbD i ||
        !mode.contains .write && ap2Ro.getLsbD i ||
        (!mode.contains .execute || !mode.contains .user) && uxn.getLsbD i ||
        !mode.contains .execute && pxn.getLsbD i || (af ||| typeValid ||| typePageEntry).getLsbD i) := by
  simp only [TableDescriptor.new, if_true, BitVec.getLsbD_or]
  cases mode.contains .user <;> cases mode.contains .write <;> cases mode.contains .execute <;>
    simp [flag, ap2Rw, Bool.or_assoc]

theorem TableDescriptor.new_leaf_field {i : Nat} (inside : i < 36) :
    (TableDescriptor.new frame true mode).bits.getLsbD (12 + i) = frame.testBit i := by
  have low : ∀ bit ∈ [ap1, ap2Ro, af ||| typeValid ||| typePageEntry], bit.getLsbD (12 + i) = false := by
    intro bit member
    refine getLsbD_of_small 12 ?_ (by omega)
    simp only [mem_cons, not_mem_nil, or_false] at member
    rcases member with rfl | rfl | rfl <;> decide
  have high : ∀ i < 36, uxn.getLsbD (12 + i) = false ∧ pxn.getLsbD (12 + i) = false := by decide
  simp only [forall_mem_cons] at low
  obtain ⟨user, write, type, _⟩ := low
  obtain ⟨never, privileged⟩ := high i inside
  rw [new_leaf_bit, ofNat_shift_high (by omega), user, write, type, never, privileged]
  simp

theorem TableDescriptor.new_leaf_flags (small : frame < 2 ^ 36) :
    let word := (TableDescriptor.new frame true mode).bits
    word.getLsbD 0 = true ∧ word.getLsbD 1 = true ∧ word.getLsbD 6 = mode.contains .user ∧
      word.getLsbD 7 = !mode.contains .write ∧ word.getLsbD 10 = true ∧
      word.getLsbD 53 = !mode.contains .execute ∧
      word.getLsbD 54 = (!mode.contains .execute || !mode.contains .user) := by
  have field : ∀ i, 36 ≤ i → frame.testBit i = false := fun i above =>
    Nat.testBit_lt_two_pow (lt_of_lt_of_le small (Nat.pow_le_pow_right (by omega) above))
  have bit53 : (BitVec.ofNat 64 frame <<< 12).getLsbD 53 = false := by
    rw [show 53 = 12 + 41 from rfl, ofNat_shift_high (by omega), field 41 (by omega)]
  have bit54 : (BitVec.ofNat 64 frame <<< 12).getLsbD 54 = false := by
    rw [show 54 = 12 + 42 from rfl, ofNat_shift_high (by omega), field 42 (by omega)]
  have none : ∀ {i}, i < 12 → (BitVec.ofNat 64 frame <<< 12).getLsbD i = false := ofNat_shift_low
  refine ⟨?_, ?_, ?_, ?_, ?_, ?_, ?_⟩ <;> rw [new_leaf_bit]
  · simp [af, typeValid]
  · simp [typePageEntry]
  · rw [none (by omega)]
    simp [ap1, ap2Ro, af, typeValid, typePageEntry, uxn, pxn]
  · rw [none (by omega)]
    simp [ap1, ap2Ro, af, typeValid, typePageEntry, uxn, pxn]
  · simp [af]
  · rw [bit53]
    simp [ap1, ap2Ro, af, typeValid, typePageEntry, uxn, pxn]
  · rw [bit54]
    simp [ap1, ap2Ro, af, typeValid, typePageEntry, uxn, pxn]

instance : LawfulEntry TableDescriptor where
  ofBits_bits _ := rfl
  bits_empty := rfl
  zero_invalid := rfl
  decode_zero last := by cases last <;> rfl
  new_valid frame leaf mode := by
    change decide (0 < (TableDescriptor.new frame leaf mode).bits &&& TableDescriptor.typeValid) = true
    rw [TableDescriptor.typeValid, show (0b01 : BitVec 64) = 1 from rfl, valid_bit]
    cases leaf with
    | true =>
      rw [new_leaf_bit]
      simp [TableDescriptor.typeValid]
    | false => simp [TableDescriptor.new, TableDescriptor.typeValid]
  table_pageNumber frame small := by
    exact new_table_pageNumber frame [] (small.trans (by decide))
  decode_table frame small := by
    have field : ((TableDescriptor.new frame false []).bits.extractLsb' 12 36).toNat = frame :=
      toNat_extractLsb'_of_bits (lt_of_lt_of_le small (Nat.pow_le_pow_right (by omega) (by omega)))
        fun i inside => new_table_bit frame [] (by omega)
    have valid : (TableDescriptor.new frame false []).bits.getLsbD 0 = true := by
      simp [TableDescriptor.new, TableDescriptor.typeValid]
    have table : (TableDescriptor.new frame false []).bits.getLsbD 1 = true := by
      simp [TableDescriptor.new, TableDescriptor.typeTableEntry]
    change arm64Decode false (TableDescriptor.new frame false []).bits = .table frame
    simp only [arm64Decode, valid, table, field]
    rfl
  decode_page frame mode small _ := by
    have field : ((TableDescriptor.new frame true mode).bits.extractLsb' 12 36).toNat = frame :=
      toNat_extractLsb'_of_bits small fun i inside => new_leaf_field frame mode inside
    obtain ⟨valid, page, user, write, accessed, privileged, never⟩ := new_leaf_flags frame mode small
    change arm64Decode true (TableDescriptor.new frame true mode).bits = .page frame _
    simp only [arm64Decode, valid, page, user, write, accessed, privileged, never, field]
    rfl

theorem TableDescriptor.new_leaf_pageNumber_iff (small : frame < 2 ^ 36) :
    (TableDescriptor.new frame true mode).pageNumber = frame ↔ PageACL.execute ∈ mode ∧ PageACL.user ∈ mode := by
  constructor
  · intro same
    have never : (TableDescriptor.new frame true mode).bits.getLsbD (12 + 42) = frame.testBit 42 := by
      rw [← BitVec.getLsbD_ushiftRight, ← BitVec.testBit_toNat]
      exact congrArg (Nat.testBit · 42) same
    obtain ⟨_, _, _, _, _, _, flag⟩ := new_leaf_flags frame mode small
    rw [Nat.testBit_lt_two_pow (small.trans (by decide)), flag] at never
    simpa using never
  · rintro ⟨execute, user⟩
    refine toNat_ushiftRight_of_bits (small.trans (by decide)) fun i (inside : i < 52) => ?_
    change (TableDescriptor.new frame true mode).bits.getLsbD (12 + i) = frame.testBit i
    have low : ∀ bit ∈ [ap1, af ||| typeValid ||| typePageEntry, ap2Ro], bit.getLsbD (12 + i) = false := by
      intro bit member
      refine getLsbD_of_small 12 ?_ (by omega)
      simp only [mem_cons, not_mem_nil, or_false] at member
      rcases member with rfl | rfl | rfl <;> decide
    simp only [forall_mem_cons] at low
    obtain ⟨access, type, readOnly, _⟩ := low
    rw [new_leaf_bit, ofNat_shift_high (by omega), access, type, readOnly]
    simp [execute, user]

end Arm64

def Decodes (E : Type) [Entry E] (pageNumber : Nat) (leaf : Bool) (mode : List PageACL) : Prop :=
  Entry.pageNumber (Entry.new pageNumber leaf mode : E) = pageNumber ∧
    Entry.isValid (Entry.new pageNumber leaf mode : E) = true

/-- Every Sv39 entry is decoded to its page number; a descriptor exactly when it is one of a table or of a page that
    user mode may execute. -/
theorem entries_decoded_iff (leaf : Bool) (mode : List PageACL) :
    (∀ pageNumber < 2 ^ 44, Decodes PageTableEntry pageNumber leaf mode) ∧
      ∀ pageNumber < 2 ^ 36, (Decodes TableDescriptor pageNumber leaf mode ↔
        leaf = false ∨ PageACL.execute ∈ mode ∧ PageACL.user ∈ mode) := by
  refine ⟨fun pageNumber small => ⟨?_, LawfulEntry.new_valid pageNumber leaf mode⟩, fun pageNumber small => ?_⟩
  · exact new_pageNumber pageNumber leaf mode (small.trans (by decide))
  · rw [Decodes, and_iff_left (LawfulEntry.new_valid pageNumber leaf mode)]
    cases leaf with
    | false => exact iff_of_true (new_table_pageNumber pageNumber mode (small.trans (by decide))) (.inl rfl)
    | true =>
      rw [or_iff_right (by decide)]
      exact new_leaf_pageNumber_iff pageNumber mode small

/-- A page that is only read is decoded with the bits PXN and UXN in its number. -/
theorem read_only_page_misread :
    Entry.pageNumber (Entry.new 0x40080 true [.read] : TableDescriptor) = 0x60000040080 := by
  decide

end Kernel31.Paging
