import Kernel31.Elf.Fields

namespace Kernel31.Elf

open Checked List Flags

inductive FileClass where
  | class32
  | class64
  deriving DecidableEq, Repr

def FileClass.code : FileClass → UInt8
  | .class32 => elfClass32
  | .class64 => elfClass64

def FileClass.width : FileClass → Nat
  | .class32 => 4
  | .class64 => 8

def FileClass.headerSize : FileClass → Nat
  | .class32 => phSize32
  | .class64 => phSize64

structure Header where
  type : Nat
  flags : Nat
  offset : Nat
  vAddr : Nat
  pAddr : Nat
  filesz : Nat
  memsz : Nat
  align : Nat

structure Header.Fits (header : Header) (fileClass : FileClass) : Prop where
  type : header.type < 256 ^ 4
  flags : header.flags < 256 ^ 4
  offset : header.offset < 256 ^ fileClass.width
  vAddr : header.vAddr < 256 ^ fileClass.width
  pAddr : header.pAddr < 256 ^ fileClass.width
  filesz : header.filesz < 256 ^ fileClass.width
  memsz : header.memsz < 256 ^ fileClass.width
  align : header.align < 256 ^ fileClass.width

def Header.fields (header : Header) : FileClass → List (Nat × Nat)
  | .class32 => [(4, header.type), (4, header.offset), (4, header.vAddr), (4, header.pAddr), (4, header.filesz),
      (4, header.memsz), (4, header.flags), (4, header.align)]
  | .class64 => [(4, header.type), (4, header.flags), (8, header.offset), (8, header.vAddr), (8, header.pAddr),
      (8, header.filesz), (8, header.memsz), (8, header.align)]

def Header.encode (header : Header) (fileClass : FileClass) (order : ByteOrder) : List UInt8 :=
  encodeFields order (header.fields fileClass)

def Header.program (header : Header) (flagsBits : Nat) : Program where
  pType := PType.decode header.type
  pFlags := decode flagsBits
  pOffset := header.offset
  vAddr := header.vAddr
  pAddr := header.pAddr
  pFilesz := header.filesz
  pMemsz := header.memsz

def Header.behind (header : Header) : FileClass → Nat
  | .class32 => header.align
  | .class64 => header.offset / 2 ^ 32

theorem length_encode (header : Header) (fileClass : FileClass) (order : ByteOrder) :
    (header.encode fileClass order).length = fileClass.headerSize := by
  rw [Header.encode, length_encodeFields]
  cases fileClass <;> rfl

theorem Flags.decode_low (flagsBits : Nat) : decode flagsBits = decode (flagsBits % 8) := by
  have bits (i : Nat) (low : i < 3) : flagsBits &&& 2 ^ i = flagsBits % 8 &&& 2 ^ i := by
    apply Nat.eq_of_testBit_eq
    intro j
    rw [Nat.testBit_and, Nat.testBit_and, show 8 = 2 ^ 3 from rfl, Nat.testBit_mod_two_pow, Nat.testBit_two_pow]
    by_cases same : i = j
    · subst same
      simp [low]
    · simp [same]
  have one : flagsBits &&& 1 = flagsBits % 8 &&& 1 := bits 0 (by decide)
  have two : flagsBits &&& 2 = flagsBits % 8 &&& 2 := bits 1 (by decide)
  have four : flagsBits &&& 4 = flagsBits % 8 &&& 4 := bits 2 (by decide)
  simp only [decode, flagsX, flagsW, flagsR, one, two, four]
  rfl

theorem Flags.decode_eq_iff {left right : Nat} : decode left = decode right ↔ left % 8 = right % 8 := by
  have injective : ∀ a b : Fin 8, decode a = decode b → a = b := by decide
  constructor
  · intro same
    rw [decode_low left, decode_low right] at same
    exact congrArg Fin.val (injective ⟨left % 8, Nat.mod_lt _ (by decide)⟩ ⟨right % 8, Nat.mod_lt _ (by decide)⟩ same)
  · intro same
    rw [decode_low left, decode_low right, same]

/-- What `int!(u64, ..)` makes of the flags and the four bytes behind them. -/
def Header.flagsBits (header : Header) (fileClass : FileClass) : ByteOrder → Nat
  | .little => match fileClass with
    | .class32 => header.flags + 2 ^ 32 * header.align
    | .class64 => header.flags + 2 ^ 32 * (header.offset % 2 ^ 32)
  | .big => header.behind fileClass + 2 ^ 32 * header.flags

theorem encodeInt_split (order : ByteOrder) (value : Nat) :
    ∃ first second, encodeInt order 8 value = encodeInt order 4 first ++ encodeInt order 4 second ∧
      first = match order with | .little => value | .big => value / 2 ^ 32 := by
  cases order with
  | little => exact ⟨value, value / 256 ^ 4, leBytes_add 4 4 value, rfl⟩
  | big =>
    refine ⟨value / 256 ^ 4, value, ?_, rfl⟩
    rw [encodeInt, leBytes_add 4 4 value, reverse_append]
    rfl

theorem readInt_pair (order : ByteOrder) (first second : Nat) :
    readInt order.code (encodeInt order 4 first ++ encodeInt order 4 second) =
      match order with
      | .little => first % 2 ^ 32 + 2 ^ 32 * (second % 2 ^ 32)
      | .big => second % 2 ^ 32 + 2 ^ 32 * (first % 2 ^ 32) := by
  cases order with
  | little =>
    rw [readInt, if_pos (by decide), encodeInt, fromLeBytes_append, fromLeBytes_leBytes, encodeInt, fromLeBytes_leBytes,
      length_leBytes]
    rfl
  | big =>
    rw [readInt, if_neg (by decide), fromBeBytes, reverse_append, encodeInt, encodeInt, reverse_reverse,
      reverse_reverse, fromLeBytes_append, fromLeBytes_leBytes, fromLeBytes_leBytes, length_leBytes]
    rfl

variable {fileClass : FileClass} {header : Header}

theorem Header.int_field (header : Header) (order : ByteOrder) (place : Nat) {offset size value : Nat}
    (found : (header.fields fileClass)[place]? = some (size, value))
    (start : offset = (((header.fields fileClass).take place).map Prod.fst).sum) (fits : value < 256 ^ size) :
    int size (header.encode fileClass order) offset order.code = .ok value :=
  (has_field order place found start).int order fits

theorem flags_class32 (fits : header.Fits .class32) (order : ByteOrder) :
    int 8 (header.encode .class32 order) 24 order.code = .ok (header.flagsBits .class32 order) := by
  have flags : Has (header.encode .class32 order) 24 (encodeInt order 4 header.flags) := has_field order 6 rfl rfl
  have align : Has (header.encode .class32 order) 28 (encodeInt order 4 header.align) := has_field order 7 rfl rfl
  have both := flags.append (by rw [length_encodeInt]; exact align)
  have small : header.flags % 2 ^ 32 = header.flags := Nat.mod_eq_of_lt fits.flags
  have small' : header.align % 2 ^ 32 = header.align := Nat.mod_eq_of_lt fits.align
  rw [both.read (by simp), readInt_pair, small, small']
  cases order <;> rfl

theorem flags_class64 (fits : header.Fits .class64) (order : ByteOrder) :
    int 8 (header.encode .class64 order) 4 order.code = .ok (header.flagsBits .class64 order) := by
  obtain ⟨first, second, halves, value⟩ := encodeInt_split order header.offset
  have flags : Has (header.encode .class64 order) 4 (encodeInt order 4 header.flags) := has_field order 1 rfl rfl
  have offset : Has (header.encode .class64 order) 8 (encodeInt order 8 header.offset) := has_field order 2 rfl rfl
  rw [halves] at offset
  have both := flags.append (by rw [length_encodeInt]; exact offset.front)
  have small : header.flags % 2 ^ 32 = header.flags := Nat.mod_eq_of_lt fits.flags
  have top : header.offset / 2 ^ 32 % 2 ^ 32 = header.offset / 2 ^ 32 := by
    have bound : header.offset < 256 ^ 8 := fits.offset
    apply Nat.mod_eq_of_lt
    omega
  rw [both.read (by simp), readInt_pair, small, value]
  cases order with
  | little => rfl
  | big =>
    simp only [top]
    rfl

theorem parse_encode (fits : header.Fits fileClass) (order : ByteOrder) :
    Program.parse (header.encode fileClass order) fileClass.code order.code =
      .ok (header.program (header.flagsBits fileClass order)) := by
  cases fileClass with
  | class32 =>
    have type : int 4 (header.encode .class32 order) 0 order.code = .ok header.type := header.int_field order 0 rfl rfl fits.type
    have offset : int 4 (header.encode .class32 order) 4 order.code = .ok header.offset :=
      header.int_field order 1 rfl rfl fits.offset
    have vAddr : int 4 (header.encode .class32 order) 8 order.code = .ok header.vAddr :=
      header.int_field order 2 rfl rfl fits.vAddr
    have pAddr : int 4 (header.encode .class32 order) 12 order.code = .ok header.pAddr :=
      header.int_field order 3 rfl rfl fits.pAddr
    have filesz : int 4 (header.encode .class32 order) 16 order.code = .ok header.filesz :=
      header.int_field order 4 rfl rfl fits.filesz
    have memsz : int 4 (header.encode .class32 order) 20 order.code = .ok header.memsz :=
      header.int_field order 5 rfl rfl fits.memsz
    simp only [Program.parse, type, ok_bind, FileClass.code, elfClass32, elfClass64, show (1 : UInt8) ≠ 2 by decide, if_false,
      flags_class32 fits, classInt, decide_true, if_true, offset, vAddr, pAddr, filesz, memsz]
    rfl
  | class64 =>
    have type : int 4 (header.encode .class64 order) 0 order.code = .ok header.type := header.int_field order 0 rfl rfl fits.type
    have offset : int 8 (header.encode .class64 order) 8 order.code = .ok header.offset :=
      header.int_field order 2 rfl rfl fits.offset
    have vAddr : int 8 (header.encode .class64 order) 16 order.code = .ok header.vAddr :=
      header.int_field order 3 rfl rfl fits.vAddr
    have pAddr : int 8 (header.encode .class64 order) 24 order.code = .ok header.pAddr :=
      header.int_field order 4 rfl rfl fits.pAddr
    have filesz : int 8 (header.encode .class64 order) 32 order.code = .ok header.filesz :=
      header.int_field order 5 rfl rfl fits.filesz
    have memsz : int 8 (header.encode .class64 order) 40 order.code = .ok header.memsz :=
      header.int_field order 6 rfl rfl fits.memsz
    simp only [Program.parse, type, ok_bind, FileClass.code, elfClass32, elfClass64, show (2 : UInt8) ≠ 1 by decide, if_true,
      flags_class64 fits, classInt, decide_false, Bool.false_eq_true, if_false, offset, vAddr, pAddr, filesz, memsz]
    rfl

theorem Header.program_eq_iff (header : Header) (fileClass : FileClass) (order : ByteOrder) :
    header.program (header.flagsBits fileClass order) = header.program header.flags ↔
      order = .little ∨ header.behind fileClass % 8 = header.flags % 8 := by
  have same : header.program (header.flagsBits fileClass order) = header.program header.flags ↔
      decode (header.flagsBits fileClass order) = decode header.flags := by
    simp [Header.program]
  rw [same, decode_eq_iff]
  cases order with
  | little =>
    simp only [true_or, iff_true]
    cases fileClass with
    | class32 =>
      simp only [Header.flagsBits]
      omega
    | class64 =>
      simp only [Header.flagsBits]
      omega
  | big =>
    simp only [Header.flagsBits, reduceCtorEq, false_or]
    omega

section Codes

def ElfAbi.code : ElfAbi → UInt8
  | .systemV => 0x00
  | .netBSD => 0x02
  | .linux => 0x03
  | .solaris => 0x06
  | .freeBSD => 0x09
  | .openBSD => 0x0c

def ElfType.code : ElfType → Nat
  | .none => 0x00
  | .rel => 0x01
  | .exec => 0x02
  | .dyn => 0x03

def ElfMachine.code : ElfMachine → Nat
  | .noSpec => 0x00
  | .x86 => 0x03
  | .arm => 0x28
  | .x86_64 => 0x3e
  | .arm64 => 0xb7
  | .riscv => 0xf3

theorem ElfAbi.decode_code (abi : ElfAbi) : ElfAbi.decode abi.code = .ok abi := by
  cases abi <;> rfl

theorem ElfType.decode_code (eType : ElfType) : ElfType.decode eType.code = .ok eType ∧ eType.code < 256 ^ 2 := by
  cases eType <;> exact ⟨rfl, by decide⟩

theorem ElfMachine.decode_code (machine : ElfMachine) :
    ElfMachine.decode machine.code = .ok machine ∧ machine.code < 256 ^ 2 := by
  cases machine <;> exact ⟨rfl, by decide⟩

end Codes

structure Image where
  fileClass : FileClass
  order : ByteOrder
  abi : ElfAbi
  eType : ElfType
  machine : ElfMachine
  entry : Nat
  phoff : Nat
  headers : List Header
  entryFits : entry < 256 ^ fileClass.width
  phoffFits : phoff < 256 ^ fileClass.width
  countFits : headers.length < 256 ^ 2
  headersFit : ∀ header ∈ headers, header.Fits fileClass

def FileClass.phoffAt : FileClass → Nat
  | .class32 => 28
  | .class64 => 32

def FileClass.phnumAt : FileClass → Nat
  | .class32 => 44
  | .class64 => 56

/-- The fields of an image at their places in a file, in which everything else is free. -/
structure Encodes (image : Image) (bytes : List UInt8) : Prop where
  size : bytes.length < 2 ^ 64
  magic : Has bytes 0 elfHeader
  fileClass : Has bytes 4 [image.fileClass.code]
  order : Has bytes 5 [image.order.code]
  abi : Has bytes 7 [image.abi.code]
  eType : Has bytes 16 (encodeInt image.order 2 image.eType.code)
  machine : Has bytes 18 (encodeInt image.order 2 image.machine.code)
  entry : Has bytes 24 (encodeInt image.order image.fileClass.width image.entry)
  phoff : Has bytes image.fileClass.phoffAt (encodeInt image.order image.fileClass.width image.phoff)
  phnum : Has bytes image.fileClass.phnumAt (encodeInt image.order 2 image.headers.length)
  headers : ∀ place header, image.headers[place]? = some header →
    Has bytes (image.phoff + place * image.fileClass.headerSize) (header.encode image.fileClass image.order)

def Image.programs (image : Image) : List Program := image.headers.map fun header => header.program header.flags

def Image.readPrograms (image : Image) : List Program :=
  image.headers.map fun header => header.program (header.flagsBits image.fileClass image.order)

section Files
variable {image : Image} {bytes : List UInt8}

theorem FileClass.size_eq (fileClass : FileClass) :
    (if fileClass.code = elfClass32 then phSize32 else phSize64) = fileClass.headerSize := by
  cases fileClass <;> rfl

theorem parseHeaders_range' (encodes : Encodes image bytes) (start : Nat) :
    parseHeaders bytes image.fileClass.code image.order.code image.phoff
      (List.range' start (image.headers.length - start)) = .ok (image.readPrograms.drop start) := by
  generalize left : image.headers.length - start = count
  induction count generalizing start with
  | zero =>
    have none : image.readPrograms.drop start = [] := by
      apply drop_of_length_le
      rw [Image.readPrograms, length_map]
      omega
    rw [none]
    rfl
  | succ count ih =>
    have inside : start < image.headers.length := by omega
    have found : image.headers[start]? = some image.headers[start] := getElem?_eq_getElem inside
    have here := encodes.headers start _ found
    have stop := here.stop_le
    have room := encodes.size
    have next : image.phoff + start * image.fileClass.headerSize + image.fileClass.headerSize =
        image.phoff + (start + 1) * image.fileClass.headerSize := by ring
    rw [length_encode, next] at stop
    have parsed := parse_encode (image.headersFit _ (getElem_mem inside)) image.order
    rw [List.range'_succ, parseHeaders]
    simp only [FileClass.size_eq, headerOffset]
    rw [if_pos (by omega), if_pos (by omega), pure_eq, ok_bind, pure_eq, ok_bind,
      here.slice (by rw [length_encode, next]), ok_bind, parsed, ok_bind, ih (start + 1) (by omega), ok_bind, pure_eq]
    have place : start < image.readPrograms.length := by rwa [Image.readPrograms, length_map]
    rw [drop_eq_getElem_cons place]
    simp [Image.readPrograms]

theorem classInt_encoded {fileClass : FileClass} {order : ByteOrder} {value offset32 offset64 : Nat}
    (has : Has bytes (match fileClass with | .class32 => offset32 | .class64 => offset64)
      (encodeInt order fileClass.width value)) (fits : value < 256 ^ fileClass.width) :
    classInt (fileClass.code = elfClass32) bytes offset32 offset64 order.code = .ok value := by
  cases fileClass with
  | class32 => exact has.int order fits
  | class64 => exact has.int order fits

def Image.elf (image : Image) (programs : List Program) : Elf where
  eAbi := image.abi
  eMachine := image.machine
  eType := image.eType
  eEntry := image.entry
  pHeaders := programs

theorem parse_encoded (encodes : Encodes image bytes) : Elf.parse bytes = .ok (.ok (image.elf image.readPrograms)) := by
  obtain ⟨decodedType, typeFits⟩ := image.eType.decode_code
  obtain ⟨decodedMachine, machineFits⟩ := image.machine.decode_code
  have entry : classInt (image.fileClass.code = elfClass32) bytes 24 24 image.order.code = .ok image.entry := by
    apply classInt_encoded _ image.entryFits
    have here := encodes.entry
    cases fileClass : image.fileClass <;> rw [fileClass] at here <;> exact here
  have phoff : classInt (image.fileClass.code = elfClass32) bytes 28 32 image.order.code = .ok image.phoff := by
    apply classInt_encoded _ image.phoffFits
    have here := encodes.phoff
    cases fileClass : image.fileClass <;> rw [fileClass] at here <;> exact here
  have phnum : (image.fileClass.code = elfClass32 → int 2 bytes 44 image.order.code = .ok image.headers.length) ∧
      (image.fileClass.code ≠ elfClass32 → int 2 bytes 56 image.order.code = .ok image.headers.length) := by
    have here := encodes.phnum.int image.order image.countFits
    cases fileClass : image.fileClass with
    | class32 =>
      rw [fileClass] at here
      exact ⟨fun _ => here, fun other => absurd rfl other⟩
    | class64 =>
      rw [fileClass] at here
      exact ⟨fun same => absurd same (by decide), fun _ => here⟩
  have headers := parseHeaders_range' encodes 0
  rw [Nat.sub_zero, ← range_eq_range', drop_zero] at headers
  rw [Elf.parse, encodes.magic.isPrefixOf]
  simp only [Bool.not_true, Bool.false_eq_true, if_false, encodes.fileClass.byteAt, encodes.order.byteAt,
    encodes.abi.byteAt, ok_bind, ElfAbi.decode_code, encodes.eType.int image.order typeFits, decodedType,
    encodes.machine.int image.order machineFits, decodedMachine, entry, phoff]
  split
  · rename_i is32
    rw [phnum.1 is32, ok_bind, headers]
    rfl
  · rename_i not32
    rw [phnum.2 not32, ok_bind, headers]
    rfl

end Files

def sampleHeader : Header where
  type := 1
  flags := 5
  offset := 0
  vAddr := 0x1000
  pAddr := 0x1000
  filesz := 84
  memsz := 84
  align := 0x1000

def sampleImage (order : ByteOrder) : Image where
  fileClass := .class32
  order := order
  abi := .systemV
  eType := .exec
  machine := .riscv
  entry := 0x1034
  phoff := 52
  headers := [sampleHeader]
  entryFits := by decide
  phoffFits := by decide
  countFits := by decide
  headersFit := by
    simp only [mem_singleton, forall_eq]
    constructor <;> decide

def sampleBytes (order : ByteOrder) : List UInt8 :=
  elfHeader ++ [1, order.code, 1, 0] ++ List.replicate 8 0 ++
    encodeFields order [(2, 2), (2, 0xf3), (4, 1), (4, 0x1034), (4, 52), (4, 0), (4, 0), (2, 52), (2, 32), (2, 1), (2, 0), (2, 0),
      (2, 0)] ++ sampleHeader.encode .class32 order

theorem sample_encodes (order : ByteOrder) : Encodes (sampleImage order) (sampleBytes order) := by
  cases order
  all_goals
    constructor
    case headers =>
      intro place header found
      obtain ⟨inside, rfl⟩ := List.getElem?_eq_some_iff.mp found
      obtain rfl : place = 0 := Nat.lt_one_iff.mp inside
      show Has _ 52 (sampleHeader.encode _ _)
      exact has_of_slice (by decide) (by decide)
    case size => decide
    all_goals exact has_of_slice (by decide) (by decide)

/-- Exactly if it is little-endian, or the bytes that a big-endian read takes for the flags have the flags' lowest
    bits. -/
theorem parse_eq_iff {image : Image} {bytes : List UInt8} (encodes : Encodes image bytes) :
    Elf.parse bytes = .ok (.ok (image.elf image.programs)) ↔
      image.order = .little ∨ ∀ header ∈ image.headers, header.behind image.fileClass % 8 = header.flags % 8 := by
  have same : Elf.parse bytes = .ok (.ok (image.elf image.programs)) ↔ image.readPrograms = image.programs := by
    rw [parse_encoded encodes]
    simp [Image.elf]
  rw [same, Image.readPrograms, Image.programs, map_inj_left]
  simp only [Header.program_eq_iff]
  by_cases little : image.order = .little
  · simp [little]
  · simp [little]

theorem little_sample_read_back :
    Elf.parse (sampleBytes .little) = .ok (.ok ((sampleImage .little).elf (sampleImage .little).programs)) :=
  (parse_eq_iff (sample_encodes .little)).mpr (Or.inl rfl)

/-- Big-endian, the readable and executable segment is read without any flag. -/
theorem big_sample_loses_flags :
    Encodes (sampleImage .big) (sampleBytes .big) ∧
      (sampleImage .big).programs.map Program.pFlags = [[.exec, .read]] ∧
      ∃ elf, Elf.parse (sampleBytes .big) = .ok (.ok elf) ∧ elf.pHeaders.map Program.pFlags = [[]] :=
  ⟨sample_encodes .big, by decide, _, parse_encoded (sample_encodes .big), by decide⟩

end Kernel31.Elf
