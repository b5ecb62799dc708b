import Kernel31.Library.Utf8
import Kernel31.Rand.Mt19937
import Kernel31.Vfs.Kmsg
import Kernel31.Vfs.Path

namespace Kernel31.Vfs

open Checked Slices
open Elf (slice)
open Std (ExtTreeMap)

inductive FsError where
  | noSuchFile
  | notSupported
  | permissionDenied
  | other
  deriving DecidableEq, Repr

inductive FileType where
  | regularFile
  | directory
  | charDev
  | blockDev
  | symbolLink
  deriving DecidableEq, Repr

structure File where
  fd : Nat
  type : FileType
  deriving DecidableEq, Repr

structure Devices where
  kmsg : KernelMessage
  rng : Rand.MT19937
  charDevs : List (List UInt8)

def Devices.default : Devices := ⟨KernelMessage.default, ⟨Vector.replicate Rand.stateSize 0, 0⟩, []⟩

structure DevFS where
  fds : ExtTreeMap Nat Path
  devs : ExtTreeMap Path (Nat × Nat)

def nameZero : Path := [0x7a, 0x65, 0x72, 0x6f]
def nameNull : Path := [0x6e, 0x75, 0x6c, 0x6c]
def nameKmsg : Path := [0x6b, 0x6d, 0x73, 0x67]
def nameRandom : Path := [0x72, 0x61, 0x6e, 0x64, 0x6f, 0x6d]
def nameUrandom : Path := [0x75, 0x72, 0x61, 0x6e, 0x64, 0x6f, 0x6d]

def devfsFiles : List Path := [nameZero, nameNull, nameKmsg, nameRandom, nameUrandom]

namespace DevFS

def default : DevFS := ⟨∅, ∅⟩

def has (self : DevFS) (dev : Path) : Bool := devfsFiles.contains dev || self.devs.contains dev

end DevFS

def DevFS.open (self : DevFS) (path : Path) : Exec (Except FsError File × DevFS) :=
  match (Path.iter path)[1]? with
  | none => throw .unwrapNone
  | some dev =>
    if self.has dev then
      let fd := self.fds.size
      pure (.ok ⟨fd, .charDev⟩, { self with fds := self.fds.insert fd dev })
    else pure (.error .noSuchFile, self)

theorem DevFS.open_ok {self self' : DevFS} {path : Path} {result : Except FsError File} :
    self.open path = .ok (result, self') ↔
      (∃ dev, (Path.iter path)[1]? = some dev ∧ self.has dev = true ∧ result = .ok ⟨self.fds.size, .charDev⟩ ∧
        self' = { self with fds := self.fds.insert self.fds.size dev }) ∨
      ∃ dev, (Path.iter path)[1]? = some dev ∧ self.has dev = false ∧ result = .error .noSuchFile ∧ self' = self := by
  rw [DevFS.open]
  cases found : (Path.iter path)[1]? with
  | none => simp [throw_ok]
  | some dev =>
    cases known : self.has dev with
    | true =>
      simp only [known, if_true, pure_ok, Prod.mk.injEq, Option.some.injEq]
      constructor
      · rintro ⟨rfl, rfl⟩
        exact .inl ⟨dev, rfl, known, rfl, rfl⟩
      · rintro (⟨_, rfl, _, rfl, rfl⟩ | ⟨_, rfl, unknown, _⟩)
        · exact ⟨rfl, rfl⟩
        · exact absurd (known.symm.trans unknown) (by decide)
    | false =>
      simp only [known, Bool.false_eq_true, if_false, pure_ok, Prod.mk.injEq, Option.some.injEq]
      constructor
      · rintro ⟨rfl, rfl⟩
        exact .inr ⟨dev, rfl, known, rfl, rfl⟩
      · rintro (⟨_, rfl, found, _⟩ | ⟨_, rfl, _, rfl, rfl⟩)
        · exact absurd (known.symm.trans found) (by decide)
        · exact ⟨rfl, rfl⟩

namespace DevFS

/-- The loop of `read` over the messages of the log. -/
def readKmsg {n : Nat} : List KernelMessageEntry → Nat → Nat → Vector UInt8 n → Exec (Nat × Vector UInt8 n)
  | [], _, bufOff, buf => pure (bufOff, buf)
  | entry :: entries, offset, bufOff, buf =>
    if bufOff = n then pure (bufOff, buf)
    else
      let msg := entry.text
      if msg.length ≤ offset then readKmsg entries (offset - msg.length) bufOff buf
      else do
        let readSize := min (n - bufOff) (msg.length - offset)
        let piece ← slice msg offset (offset + readSize)
        let buf ← copyFromSlice buf bufOff (bufOff + readSize) piece
        readKmsg entries 0 (bufOff + readSize) buf

/-- `read` of the device with a name. -/
def readDevice {n : Nat} (world : Devices) (name : Path) (buf : Vector UInt8 n) (offset : Nat) :
    Exec (Except FsError Nat × Vector UInt8 n × Devices) :=
  if name = nameZero then pure (.ok n, Vector.replicate n 0, world)
  else if name = nameKmsg then do
    let (size, buf) ← readKmsg world.kmsg.msgs offset 0 buf
    pure (.ok size, buf, world)
  else if name = nameRandom ∨ name = nameUrandom then do
    let (buf, rng) ← world.rng.genBytes buf
    pure (.ok n, buf, { world with rng := rng })
  else pure (.error .permissionDenied, buf, world)

def read {n : Nat} (self : DevFS) (world : Devices) (file : File) (buf : Vector UInt8 n) (offset : Nat) :
    Exec (Except FsError Nat × Vector UInt8 n × Devices) :=
  match self.fds[file.fd]? with
  | some name => readDevice world name buf offset
  | none => pure (.error .noSuchFile, buf, world)

/-- `write` to the device with a name. -/
def writeDevice (self : DevFS) (world : Devices) (name : Path) (buf : List UInt8) : Exec (Except FsError Nat × Devices) :=
  if name = nameNull then pure (.ok buf.length, world)
  else
    match self.devs[name]? with
    | some (_, minor) =>
      match world.charDevs[minor]? with
      | none => throw .indexOutOfBounds
      | some printed => pure (.ok buf.length, { world with charDevs := world.charDevs.set minor (printed ++ Utf8.lossy buf) })
    | none => pure (.error .permissionDenied, world)

def write (self : DevFS) (world : Devices) (file : File) (buf : List UInt8) : Exec (Except FsError Nat × Devices) :=
  match self.fds[file.fd]? with
  | some name => self.writeDevice world name buf
  | none => pure (.error .noSuchFile, world)

def close (self : DevFS) (file : File) : Except FsError Unit × DevFS :=
  (.ok (), { self with fds := self.fds.erase file.fd })

/-- `mknod`; the first component of a path always exists. -/
def mknod (self : DevFS) (path : Path) (id : Nat × Nat) : DevFS :=
  { self with devs := self.devs.insert ((Path.iter path).headD []) id }

end DevFS

end Kernel31.Vfs
