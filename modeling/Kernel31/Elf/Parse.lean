import Kernel31.Page.Basics

namespace Kernel31.Elf

open Checked List

def elfHeader : List UInt8 := [0x7f, 0x45, 0x4c, 0x46]
def elfClass32 : UInt8 := 1
def elfClass64 : UInt8 := 2
def phSize32 : Nat := 32
def phSize64 : Nat := 56

def slice (bytes : List UInt8) (start stop : Nat) : Exec (List UInt8) :=
  if start ≤ stop ∧ stop ≤ bytes.length then pure ((bytes.drop start).take (stop - start))
  else throw .indexOutOfBounds

def byteAt (bytes : List UInt8) (index : Nat) : Exec UInt8 :=
  match bytes[index]? with
  | some byte => pure byte
  | none => throw .indexOutOfBounds

def fromLeBytes (bytes : List UInt8) : Nat := bytes.foldr (fun byte rest => byte.toNat + 256 * rest) 0

def fromBeBytes (bytes : List UInt8) : Nat := fromLeBytes bytes.reverse

def int (size : Nat) (bytes : List UInt8) (offset : Nat) (endian : UInt8) : Exec Nat := do
  let field ← slice bytes offset (offset + size)
  if endian = 1 then pure (fromLeBytes field) else pure (fromBeBytes field)

def classInt (is32 : Bool) (bytes : List UInt8) (offset32 offset64 : Nat) (endian : UInt8) : Exec Nat :=
  if is32 then int 4 bytes offset32 endian else int 8 bytes offset64 endian

inductive PType where
  | null
  | load
  | dynamic
  | interp
  | note
  deriving DecidableEq, Repr

inductive Flags where
  | exec
  | write
  | read
  deriving DecidableEq, Repr

structure Program where
  pType : PType
  pFlags : List Flags
  pOffset : Nat
  vAddr : Nat
  pAddr : Nat
  pFilesz : Nat
  pMemsz : Nat
  deriving DecidableEq, Repr

def flagsX : Nat := 0x01
def flagsW : Nat := 0x02
def flagsR : Nat := 0x04

def PType.decode : Nat → PType
  | 0x00 => .null
  | 0x01 => .load
  | 0x02 => .dynamic
  | 0x03 => .interp
  | 0x04 => .note
  | _ => .null

def Flags.decode (flagsBits : Nat) : List Flags :=
  (if flagsBits &&& flagsX > 0 then [.exec] else []) ++ (if flagsBits &&& flagsW > 0 then [.write] else []) ++
    if flagsBits &&& flagsR > 0 then [.read] else []

/-- The flags are read as eight bytes in both classes. -/
def Program.parse (bytes : List UInt8) (fileClass endian : UInt8) : Exec Program := do
  let is32 := fileClass = elfClass32
  let pType ← int 4 bytes 0 endian
  let flagsBits ← if fileClass = elfClass64 then int 8 bytes 4 endian else int 8 bytes 24 endian
  let pOffset ← classInt is32 bytes 4 8 endian
  let vAddr ← classInt is32 bytes 8 16 endian
  let pAddr ← classInt is32 bytes 12 24 endian
  let pFilesz ← classInt is32 bytes 16 32 endian
  let pMemsz ← classInt is32 bytes 20 40 endian
  pure
    { pType := PType.decode pType
      pFlags := Flags.decode flagsBits
      pOffset := pOffset
      vAddr := vAddr
      pAddr := pAddr
      pFilesz := pFilesz
      pMemsz := pMemsz }

inductive ElfError where
  | invalidHeader
  | invalidAbi (abi : UInt8)
  | invalidType (etype : Nat)
  | invalidArchitecture (arch : Nat)
  deriving DecidableEq, Repr

inductive ElfAbi where
  | systemV
  | netBSD
  | linux
  | solaris
  | freeBSD
  | openBSD
  deriving DecidableEq, Repr

inductive ElfType where
  | none
  | rel
  | exec
  | dyn
  deriving DecidableEq, Repr

inductive ElfMachine where
  | noSpec
  | x86
  | arm
  | x86_64
  | arm64
  | riscv
  deriving DecidableEq, Repr

def ElfAbi.decode : UInt8 → Except ElfError ElfAbi
  | 0x00 => .ok .systemV
  | 0x02 => .ok .netBSD
  | 0x03 => .ok .linux
  | 0x06 => .ok .solaris
  | 0x09 => .ok .freeBSD
  | 0x0c => .ok .openBSD
  | abi => .error (.invalidAbi abi)

def ElfType.decode : Nat → Except ElfError ElfType
  | 0x00 => .ok .none
  | 0x01 => .ok .rel
  | 0x02 => .ok .exec
  | 0x03 => .ok .dyn
  | etype => .error (.invalidType etype)

def ElfMachine.decode : Nat → Except ElfError ElfMachine
  | 0x00 => .ok .noSpec
  | 0x03 => .ok .x86
  | 0x28 => .ok .arm
  | 0x3e => .ok .x86_64
  | 0xb7 => .ok .arm64
  | 0xf3 => .ok .riscv
  | arch => .error (.invalidArchitecture arch)

def headerOffset (ePhoff offset : Nat) : Exec Nat :=
  if ePhoff + offset < 2 ^ 64 then pure (ePhoff + offset) else throw .overflow

def parseHeaders (bytes : List UInt8) (fileClass endian : UInt8) (ePhoff : Nat) : List Nat → Exec (List Program)
  | [] => pure []
  | sec :: rest => do
    let size := if fileClass = elfClass32 then phSize32 else phSize64
    let start ← headerOffset ePhoff (sec * size)
    let stop ← headerOffset ePhoff ((sec + 1) * size)
    let header ← slice bytes start stop
    let program ← Program.parse header fileClass endian
    pure (program :: (← parseHeaders bytes fileClass endian ePhoff rest))

theorem fromLeBytes_lt (bytes : List UInt8) : fromLeBytes bytes < 256 ^ bytes.length := by
  induction bytes with
  | nil => decide
  | cons byte rest ih =>
    have small := byte.toNat_lt
    have next : fromLeBytes (byte :: rest) = byte.toNat + 256 * fromLeBytes rest := rfl
    rw [next, length_cons, pow_succ]
    omega

variable {value : Nat} {bytes : List UInt8} {endian : UInt8}

theorem int_lt {size offset : Nat} (run : int size bytes offset endian = .ok value) : value < 256 ^ size := by
  obtain ⟨field, sliced, run⟩ := bind_ok.mp run
  have length : field.length = size := by
    unfold slice at sliced
    split at sliced
    · obtain rfl := pure_ok.mp sliced
      rw [length_take, length_drop]
      omega
    · simp [throw_ok] at sliced
  split at run
  · obtain rfl := pure_ok.mp run
    exact length ▸ fromLeBytes_lt field
  · obtain rfl := pure_ok.mp run
    have bound := fromLeBytes_lt field.reverse
    rwa [length_reverse, length] at bound

theorem classInt_lt {is32 : Bool} {offset32 offset64 : Nat}
    (run : classInt is32 bytes offset32 offset64 endian = .ok value) : value < 2 ^ 64 := by
  unfold classInt at run
  split at run
  · exact (int_lt run).trans (by decide)
  · exact int_lt run

theorem parseHeaders_vAddr_lt {fileClass : UInt8} {ePhoff : Nat} {secs : List Nat} {programs : List Program}
    (run : parseHeaders bytes fileClass endian ePhoff secs = .ok programs) :
    ∀ program ∈ programs, program.vAddr < 2 ^ 64 := by
  induction secs generalizing programs with
  | nil =>
    obtain rfl := pure_ok.mp run
    simp
  | cons sec rest ih =>
    simp only [parseHeaders, bind_ok, pure_ok] at run
    obtain ⟨start, _, stop, _, header, _, program, parsed, later, parsesRest, rfl⟩ := run
    refine forall_mem_cons.mpr ⟨?_, ih parsesRest⟩
    obtain ⟨_, _, parsed⟩ := bind_ok.mp parsed
    -- the two branches read the flags at different offsets, and the rest the same way
    split at parsed
    all_goals
      simp only [bind_ok, pure_ok] at parsed
      obtain ⟨_, _, _, _, vAddr, read, _, _, _, _, _, _, rfl⟩ := parsed
      exact classInt_lt read

end Kernel31.Elf

namespace Kernel31

structure Elf where
  eAbi : Elf.ElfAbi
  eMachine : Elf.ElfMachine
  eType : Elf.ElfType
  eEntry : Nat
  pHeaders : List Elf.Program
  deriving DecidableEq, Repr

open Elf Checked

/-- The outer `Except` is a panic, the inner one the error returned. -/
def Elf.parse (bytes : List UInt8) : Exec (Except ElfError Elf) :=
  if !elfHeader.isPrefixOf bytes then pure (.error .invalidHeader)
  else do
    let fileClass ← byteAt bytes 4
    let endian ← byteAt bytes 5
    let is32 := fileClass = elfClass32
    match ElfAbi.decode (← byteAt bytes 7) with
    | .error error => pure (.error error)
    | .ok eAbi =>
    match ElfType.decode (← int 2 bytes 16 endian) with
    | .error error => pure (.error error)
    | .ok eType =>
    match ElfMachine.decode (← int 2 bytes 18 endian) with
    | .error error => pure (.error error)
    | .ok eMachine =>
    let eEntry ← classInt is32 bytes 24 24 endian
    let ePhoff ← classInt is32 bytes 28 32 endian
    let ePhnum ← if is32 then int 2 bytes 44 endian else int 2 bytes 56 endian
    let pHeaders ← parseHeaders bytes fileClass endian ePhoff (List.range ePhnum)
    pure (.ok { eAbi := eAbi, eMachine := eMachine, eType := eType, eEntry := eEntry, pHeaders := pHeaders })

theorem Elf.parse_vAddr_lt {bytes : List UInt8} {elf : Elf} (run : Elf.parse bytes = .ok (.ok elf)) :
    ∀ program ∈ elf.pHeaders, program.vAddr < 2 ^ 64 := by
  unfold Elf.parse at run
  split at run
  · cases pure_ok.mp run
  · simp only [bind_ok] at run
    obtain ⟨_, _, _, _, _, _, run⟩ := run
    split at run
    · cases pure_ok.mp run
    · obtain ⟨_, _, run⟩ := bind_ok.mp run
      split at run
      · cases pure_ok.mp run
      · obtain ⟨_, _, run⟩ := bind_ok.mp run
        split at run
        · cases pure_ok.mp run
        · simp only [bind_ok] at run
          obtain ⟨_, _, _, _, run⟩ := run
          split at run
          all_goals
            simp only [bind_ok] at run
            obtain ⟨_, _, headers, parsed, run⟩ := run
            cases pure_ok.mp run
            exact parseHeaders_vAddr_lt parsed

end Kernel31
