import Kernel31.Sched.Syscall
import Kernel31.Vfs.Devfs

namespace Kernel31.Vfs

open Checked
open Std (ExtTreeMap)

inductive VfsError where
  | notMounted
  | fsError (err : FsError)
  deriving DecidableEq, Repr

structure VfsFile where
  fd : File
  offset : Nat
  fsId : Nat
  deriving DecidableEq, Repr

/-- What the virtual file system asks of the trait `FileSystem`; `W` is what lies outside the file systems. -/
class FileSystem (S : Type) (W : outParam Type) where
  openPath : S → Path → Exec (Except FsError File × S)
  read {n : Nat} : S → W → File → Vector UInt8 n → Nat → Exec (Except FsError Nat × Vector UInt8 n × S × W)
  write : S → W → File → List UInt8 → Nat → Exec (Except FsError Nat × S × W)
  close : S → File → Exec (Except FsError Unit × S)

instance : FileSystem DevFS Devices where
  openPath := DevFS.open
  read self world file buf offset := do
    let (result, buf, world) ← self.read world file buf offset
    pure (result, buf, self, world)
  write self world file buf _ := do
    let (result, world) ← self.write world file buf
    pure (result, self, world)
  close self file := pure (self.close file)

structure VirtualFileSystem (S : Type) where
  maxId : Nat
  mountPoints : ExtTreeMap Nat Path
  mountedFs : ExtTreeMap Nat S

namespace VirtualFileSystem

variable {S : Type}

def default : VirtualFileSystem S := ⟨0, ∅, ∅⟩

def findMount (self : VirtualFileSystem S) (path : Path) : Option (Nat × Path) :=
  self.mountPoints.toList.find? fun entry => Path.startsWith path entry.2

/-- The file system that `open` asks, and the path it passes on. -/
def dispatch (self : VirtualFileSystem S) (path : Path) : Exec (Option (Nat × S × Path)) :=
  match self.findMount path with
  | none => pure none
  | some (fsId, mpoint) =>
    match self.mountedFs[fsId]? with
    | none => pure none
    | some fs =>
      match Path.stripPrefix path mpoint with
      | none => throw .unwrapNone
      | some rest => pure (some (fsId, fs, rest))

def mount (self : VirtualFileSystem S) (fs : S) (mountPoint : Path) : Exec (VirtualFileSystem S) :=
  if mountPoint.isAbsolute then
    if self.maxId + 1 < 2 ^ 64 then
      pure ⟨self.maxId + 1, self.mountPoints.insert self.maxId mountPoint, self.mountedFs.insert self.maxId fs⟩
    else throw .overflow
  else throw .assertion

def umount (self : VirtualFileSystem S) (mountPoint : Path) : VirtualFileSystem S :=
  match self.findMount mountPoint with
  | none => self
  | some (fsId, _) => { self with mountedFs := self.mountedFs.erase fsId, mountPoints := self.mountPoints.erase fsId }

def getFsMut (self : VirtualFileSystem S) (mountPoint : Path) : Option S :=
  match self.findMount mountPoint with
  | none => none
  | some (fsId, _) => self.mountedFs[fsId]?

end VirtualFileSystem

def VirtualFileSystem.open {S W : Type} [FileSystem S W] (self : VirtualFileSystem S) (path : Path) :
    Exec (Except VfsError VfsFile × VirtualFileSystem S) :=
  if path.isAbsolute then do
    match ← self.dispatch path with
    | none => pure (.error .notMounted, self)
    | some (fsId, fs, rest) =>
      let (result, fs) ← FileSystem.openPath fs rest
      let self := { self with mountedFs := self.mountedFs.insert fsId fs }
      match result with
      | .ok fd => pure (.ok ⟨fd, 0, fsId⟩, self)
      | .error err => pure (.error (.fsError err), self)
  else throw .assertion

namespace VirtualFileSystem

variable {S W : Type} [FileSystem S W]

def advance (file : VfsFile) (size : Nat) : Exec VfsFile :=
  if file.offset + size < 2 ^ 64 then pure { file with offset := file.offset + size } else throw .overflow

def read {n : Nat} (self : VirtualFileSystem S) (world : W) (file : VfsFile) (buf : Vector UInt8 n) :
    Exec (Except FsError Nat × Vector UInt8 n × VfsFile × VirtualFileSystem S × W) :=
  match self.mountedFs[file.fsId]? with
  | none => throw .unwrapNone
  | some fs => do
    let (result, buf, fs, world) ← FileSystem.read fs world file.fd buf file.offset
    let self := { self with mountedFs := self.mountedFs.insert file.fsId fs }
    match result with
    | .ok size => do
      let file ← advance file size
      pure (.ok size, buf, file, self, world)
    | .error err => pure (.error err, buf, file, self, world)

def write (self : VirtualFileSystem S) (world : W) (file : VfsFile) (buf : List UInt8) :
    Exec (Except FsError Nat × VfsFile × VirtualFileSystem S × W) :=
  match self.mountedFs[file.fsId]? with
  | none => throw .unwrapNone
  | some fs => do
    let (result, fs, world) ← FileSystem.write fs world file.fd buf file.offset
    let self := { self with mountedFs := self.mountedFs.insert file.fsId fs }
    match result with
    | .ok size => do
      let file ← advance file size
      pure (.ok size, file, self, world)
    | .error err => pure (.error err, file, self, world)

def close (self : VirtualFileSystem S) (file : VfsFile) : Exec (Except FsError Unit × VirtualFileSystem S) :=
  match self.mountedFs[file.fsId]? with
  | none => throw .unwrapNone
  | some fs => do
    let (result, fs) ← FileSystem.close fs file.fd
    pure (result, { self with mountedFs := self.mountedFs.insert file.fsId fs })

end VirtualFileSystem

def VfsFile.advanced (self : VfsFile) : Except FsError Nat → VfsFile
  | .ok size => { self with offset := self.offset + size }
  | .error _ => self

section Calls
variable {S W : Type} [FileSystem S W] {self self' : VirtualFileSystem S} {world world' : W} {file file' : VfsFile}

namespace VirtualFileSystem

theorem advance_ok {size : Nat} : advance file size = .ok file' ↔
    file.offset + size < 2 ^ 64 ∧ file' = { file with offset := file.offset + size } := by
  rw [advance]
  split
  case isTrue fits => rw [pure_ok, and_iff_right fits, eq_comm]
  case isFalse beyond => exact iff_of_false nofun fun both => beyond both.1

variable {result : Except FsError Nat}

theorem settle_ok {α : Type} (out : Except FsError Nat → VfsFile → α) {value : α} :
    (match result with
      | .ok size => advance file size >>= fun file => pure (out (.ok size) file)
      | .error err => pure (out (.error err) file) : Exec α) = .ok value ↔
      (∀ size, result = .ok size → file.offset + size < 2 ^ 64) ∧ value = out result (file.advanced result) := by
  cases result with
  | error err =>
    rw [pure_ok, eq_comm]
    exact (and_iff_right nofun).symm
  | ok size =>
    simp only [bind_ok, advance_ok, pure_ok, Except.ok.injEq, forall_eq']
    constructor
    · rintro ⟨_, ⟨fits, rfl⟩, rfl⟩
      exact ⟨fits, rfl⟩
    · rintro ⟨fits, rfl⟩
      exact ⟨_, ⟨fits, rfl⟩, rfl⟩

theorem read_ok {n : Nat} {buf buf' : Vector UInt8 n} :
    self.read world file buf = .ok (result, buf', file', self', world') ↔
      ∃ fs fs', self.mountedFs[file.fsId]? = some fs ∧
        FileSystem.read fs world file.fd buf file.offset = .ok (result, buf', fs', world') ∧
        (∀ size, result = .ok size → file.offset + size < 2 ^ 64) ∧ file' = file.advanced result ∧
        self' = { self with mountedFs := self.mountedFs.insert file.fsId fs' } := by
  rw [read]
  cases found : self.mountedFs[file.fsId]? with
  | none => exact iff_of_false nofun (by rintro ⟨_, _, ⟨⟩, _⟩)
  | some fs =>
    simp only [bind_ok, Prod.exists, Option.some.injEq]
    constructor
    · rintro ⟨_, buf', fs', world', own, rest⟩
      obtain ⟨fits, same⟩ := (settle_ok fun result file => (result, buf', file, _, world')).mp rest
      simp only [Prod.mk.injEq] at same
      obtain ⟨rfl, rfl, rfl, rfl, rfl⟩ := same
      exact ⟨fs, fs', rfl, own, fits, rfl, rfl⟩
    · rintro ⟨_, fs', rfl, own, fits, rfl, rfl⟩
      exact ⟨result, buf', fs', world', own, (settle_ok fun result file => (result, buf', file, _, world')).mpr ⟨fits, rfl⟩⟩

theorem write_ok {buf : List UInt8} :
    self.write world file buf = .ok (result, file', self', world') ↔
      ∃ fs fs', self.mountedFs[file.fsId]? = some fs ∧
        FileSystem.write fs world file.fd buf file.offset = .ok (result, fs', world') ∧
        (∀ size, result = .ok size → file.offset + size < 2 ^ 64) ∧ file' = file.advanced result ∧
        self' = { self with mountedFs := self.mountedFs.insert file.fsId fs' } := by
  rw [write]
  cases found : self.mountedFs[file.fsId]? with
  | none => exact iff_of_false nofun (by rintro ⟨_, _, ⟨⟩, _⟩)
  | some fs =>
    simp only [bind_ok, Prod.exists, Option.some.injEq]
    constructor
    · rintro ⟨_, fs', world', own, rest⟩
      obtain ⟨fits, same⟩ := (settle_ok fun result file => (result, file, _, world')).mp rest
      simp only [Prod.mk.injEq] at same
      obtain ⟨rfl, rfl, rfl, rfl⟩ := same
      exact ⟨fs, fs', rfl, own, fits, rfl, rfl⟩
    · rintro ⟨_, fs', rfl, own, fits, rfl, rfl⟩
      exact ⟨result, fs', world', own, (settle_ok fun result file => (result, file, _, world')).mpr ⟨fits, rfl⟩⟩

theorem close_ok {result : Except FsError Unit} :
    self.close file = .ok (result, self') ↔ ∃ fs fs', self.mountedFs[file.fsId]? = some fs ∧
      FileSystem.close fs file.fd = .ok (result, fs') ∧
      self' = { self with mountedFs := self.mountedFs.insert file.fsId fs' } := by
  rw [close]
  cases found : self.mountedFs[file.fsId]? with
  | none => exact iff_of_false nofun (by rintro ⟨_, _, ⟨⟩, _⟩)
  | some fs =>
    simp only [bind_ok, Prod.exists, Option.some.injEq, pure_ok, Prod.mk.injEq]
    constructor
    · rintro ⟨_, fs', own, rfl, rfl⟩
      exact ⟨fs, fs', rfl, own, rfl⟩
    · rintro ⟨_, fs', rfl, own, rfl⟩
      exact ⟨result, fs', own, rfl, rfl⟩

end VirtualFileSystem

end Calls

def pointDev : Path := [slash, 0x64, 0x65, 0x76]

def vfsInit : Exec (VirtualFileSystem DevFS) := VirtualFileSystem.default.mount DevFS.default pointDev

/-- Errors without their kinds, and a buffer of zeros to read into. -/
instance {S W : Type} [FileSystem S W] : Sched.Vfs (VirtualFileSystem S × W) VfsFile where
  openFile vfs path := do
    let (result, self) ← vfs.1.open path
    pure (result.toOption, self, vfs.2)
  read vfs file size := do
    let (result, buf, file, self, world) ← vfs.1.read vfs.2 file (Vector.replicate size 0)
    pure (result.toOption, buf, file, self, world)
  write vfs file buf := do
    let (result, file, self, world) ← vfs.1.write vfs.2 file buf
    pure (result.toOption, file, self, world)
  close vfs file := do
    let (result, self) ← vfs.1.close file
    pure (result.toOption, self, vfs.2)
  seek file offset := { file with offset := offset }

end Kernel31.Vfs
