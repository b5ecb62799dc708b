import Kernel31.Vfs.Descriptors

namespace Kernel31.Vfs

open Checked Sched Function Relation VirtualFileSystem FileSystem
open Std (ExtTreeMap)

inductive FdCall where
  | openPath (path : Path)
  | read (fd size : Nat)
  | write (fd : Nat) (buf : List UInt8)
  | lseek (fd position : Nat)
  | close (fd : Nat)
  deriving DecidableEq

def FdCall.fd? : FdCall → Option Nat
  | .openPath _ => none
  | .read fd _ | .write fd _ | .lseek fd _ | .close fd => some fd

def returned : Except FsError Nat → UInt64
  | .ok size => UInt64.ofNat size
  | .error _ => syscallRetErr

section Serve
variable {M C : Type} (s : Serving M C VfsFile (VirtualFileSystem DevFS × Devices))

def serve : FdCall → Exec (UInt64 × Serving M C VfsFile (VirtualFileSystem DevFS × Devices))
  | .openPath path => syscallOpen s path
  | .read fd size => do
    let (ret, _, s) ← syscallRead s fd size
    pure (ret, s)
  | .write fd buf => syscallWrite s fd buf
  | .lseek fd position => pure (syscallLseek s fd position)
  | .close fd => syscallClose s fd

def fileSet (fd : Nat) (file : VfsFile) (self : VirtualFileSystem DevFS) (world : Devices) :
    Serving M C VfsFile (VirtualFileSystem DevFS × Devices) :=
  { s with task := { s.task with fds := s.task.fds.set fd file }, vfs := (self, world) }

variable {s} {fd : Nat} {file : VfsFile}

theorem serve_absent (absent : s.task.fds.fds fd = none) {call : FdCall} (names : call.fd? = some fd) :
    serve s call = .ok (syscallRetErr, s) := by
  cases call with
  | openPath path => cases names
  | read | write | lseek | close =>
    obtain rfl := Option.some.inj names
    simp only [serve, syscallRead, syscallWrite, syscallLseek, syscallClose, absent]
    rfl

variable (found : s.task.fds.fds fd = some file)
include found

theorem syscallRead_eq (size : Nat) :
    syscallRead s fd size = (s.vfs.1.read s.vfs.2 file (Vector.replicate size 0)).map fun answer =>
      (returned answer.1, answer.2.1.toList, fileSet s fd answer.2.2.1 answer.2.2.2.1 answer.2.2.2.2) := by
  simp only [syscallRead, found]
  change (s.vfs.1.read s.vfs.2 file (Vector.replicate size 0) >>= fun _ => _) >>= _ = _
  rcases s.vfs.1.read s.vfs.2 file (Vector.replicate size 0) with _ | ⟨_ | _, _⟩ <;> rfl

theorem serve_read (size : Nat) :
    serve s (.read fd size) = (s.vfs.1.read s.vfs.2 file (Vector.replicate size 0)).map fun answer =>
      (returned answer.1, fileSet s fd answer.2.2.1 answer.2.2.2.1 answer.2.2.2.2) := by
  rw [serve, syscallRead_eq found]
  cases s.vfs.1.read s.vfs.2 file (Vector.replicate size 0) <;> rfl

theorem serve_write (buf : List UInt8) :
    serve s (.write fd buf) = (s.vfs.1.write s.vfs.2 file buf).map fun answer =>
      (returned answer.1, fileSet s fd answer.2.1 answer.2.2.1 answer.2.2.2) := by
  simp only [serve, syscallWrite, found]
  change (s.vfs.1.write s.vfs.2 file buf >>= fun _ => _) >>= _ = _
  rcases s.vfs.1.write s.vfs.2 file buf with _ | ⟨_ | _, _⟩ <;> rfl

theorem serve_close :
    serve s (.close fd) = (s.vfs.1.close file).map fun answer =>
      (returned (answer.1.map fun _ => 0), { s with vfs := (answer.2, s.vfs.2) }) := by
  simp only [serve, syscallClose, found]
  change (s.vfs.1.close file >>= fun _ => _) >>= _ = _
  rcases s.vfs.1.close file with _ | ⟨_ | _, _⟩ <;> rfl

theorem serve_lseek (position : Nat) :
    serve s (.lseek fd position) = .ok (syscallRetOk, fileSet s fd { file with offset := position } s.vfs.1 s.vfs.2) := by
  simp only [serve, syscallLseek, found]
  rfl

theorem fileSet_self : fileSet s fd file s.vfs.1 s.vfs.2 = s := by
  have same : s.task.fds.set fd file = s.task.fds := by
    rw [FdTable.set, ← found, update_eq_self]
  rw [fileSet, same]

theorem returned_ne_of_unchanged {size : Nat} {self : VirtualFileSystem DevFS} {world : Devices}
    (same : fileSet s fd (file.advanced (.ok size)) self world = s) : returned (.ok size) ≠ syscallRetErr := by
  have entry := congrArg (fun s => s.task.fds.fds fd) same
  change update s.task.fds.fds fd (some (file.advanced (.ok size))) fd = s.task.fds.fds fd at entry
  rw [update_self, found] at entry
  have offset : file.offset + size = file.offset := congrArg VfsFile.offset (Option.some.inj entry)
  obtain rfl : size = 0 := Nat.add_left_cancel offset
  decide

end Serve

section Devices
variable (fs : DevFS) (file : File)

def readable (name : Path) : Prop := name = nameZero ∨ name = nameKmsg ∨ name = nameRandom ∨ name = nameUrandom

def writable (name : Path) : Prop := name = nameNull ∨ fs.devs[name]? ≠ none

def Harmless : FdCall → Prop
  | .read _ _ => ∀ name, fs.fds[file.fd]? = some name → ¬ readable name
  | .write _ _ => ∀ name, fs.fds[file.fd]? = some name → ¬ writable fs name
  | .openPath _ | .lseek _ _ | .close _ => False

variable {fs file} {n : Nat}

theorem read_refused (world : Devices) (unreadable : ∀ name, fs.fds[file.fd]? = some name → ¬ readable name)
    (buf : Vector UInt8 n) (offset : Nat) :
    ∃ err, read fs world file buf offset = .ok (.error err, buf, fs, world) := by
  have device : ∃ err, fs.read world file buf offset = .ok (.error err, buf, world) := by
    rw [DevFS.read]
    cases found : fs.fds[file.fd]? with
    | none => exact ⟨_, rfl⟩
    | some name =>
      have missed := unreadable name found
      simp only [readable, not_or] at missed
      obtain ⟨zero, kmsg, random, urandom⟩ := missed
      refine ⟨.permissionDenied, ?_⟩
      change DevFS.readDevice world name buf offset = _
      rw [DevFS.readDevice, if_neg zero, if_neg kmsg, if_neg (not_or.mpr ⟨random, urandom⟩)]
      rfl
  obtain ⟨err, device⟩ := device
  refine ⟨err, ?_⟩
  change (fs.read world file buf offset >>= fun _ => _) = _
  rw [device]
  rfl

variable {world world' : Devices} {offset : Nat} {result : Except FsError Nat} {fs' : DevFS}

theorem read_served {name : Path} (found : fs.fds[file.fd]? = some name) (known : readable name)
    {buf buf' : Vector UInt8 n}
    (run : read fs world file buf offset = .ok (result, buf', fs', world')) : ∃ size, result = .ok size := by
  change (fs.read world file buf offset >>= fun _ => _) = _ at run
  simp only [bind_ok, Prod.exists, pure_ok, Prod.mk.injEq] at run
  obtain ⟨_, _, _, device, rfl, _⟩ := run
  rw [DevFS.read, found] at device
  change DevFS.readDevice world name buf offset = _ at device
  rw [DevFS.readDevice] at device
  split at device
  · obtain ⟨rfl, _⟩ := Prod.mk.inj (pure_ok.mp device)
    exact ⟨n, rfl⟩
  split at device
  · simp only [bind_ok, Prod.exists, pure_ok, Prod.mk.injEq] at device
    obtain ⟨size, _, _, rfl, _⟩ := device
    exact ⟨size, rfl⟩
  split at device
  · simp only [bind_ok, Prod.exists, pure_ok, Prod.mk.injEq] at device
    obtain ⟨_, _, _, rfl, _⟩ := device
    exact ⟨n, rfl⟩
  case isFalse notZero notKmsg notRandom =>
    rcases known with zero | kmsg | random
    · exact absurd zero notZero
    · exact absurd kmsg notKmsg
    · exact absurd random notRandom

theorem write_refused (world : Devices) (unwritable : ∀ name, fs.fds[file.fd]? = some name → ¬ writable fs name)
    (buf : List UInt8) (offset : Nat) : ∃ err, write fs world file buf offset = .ok (.error err, fs, world) := by
  have device : ∃ err, fs.write world file buf = .ok (.error err, world) := by
    rw [DevFS.write]
    cases found : fs.fds[file.fd]? with
    | none => exact ⟨_, rfl⟩
    | some name =>
      have missed := unwritable name found
      rw [writable, not_or, not_not] at missed
      refine ⟨.permissionDenied, ?_⟩
      change fs.writeDevice world name buf = _
      rw [DevFS.writeDevice, if_neg missed.1, missed.2]
      rfl
  obtain ⟨err, device⟩ := device
  refine ⟨err, ?_⟩
  change (fs.write world file buf >>= fun _ => _) = _
  rw [device]
  rfl

def Received (fs : DevFS) (name : Path) (world : Devices) (data : List UInt8) (world' : Devices) : Prop :=
  name = nameNull ∧ world' = world ∨
    name ≠ nameNull ∧ ∃ major minor printed, fs.devs[name]? = some (major, minor) ∧
      world.charDevs[minor]? = some printed ∧ world' = { world with charDevs := world.charDevs.set minor (printed ++ data) }

theorem write_cases {buf : List UInt8}
    (run : write fs world file buf offset = .ok (result, fs', world')) :
    fs' = fs ∧ ((∃ name, fs.fds[file.fd]? = some name ∧ writable fs name ∧ result = .ok buf.length ∧
        Received fs name world (Utf8.lossy buf) world') ∨
      ((∀ name, fs.fds[file.fd]? = some name → ¬ writable fs name) ∧ (∃ err, result = .error err) ∧ world' = world)) := by
  change (fs.write world file buf >>= fun _ => _) = _ at run
  simp only [bind_ok, Prod.exists, pure_ok, Prod.mk.injEq] at run
  obtain ⟨_, _, device, rfl, rfl, rfl⟩ := run
  refine ⟨rfl, ?_⟩
  rw [DevFS.write] at device
  split at device
  case h_2 closed =>
    obtain ⟨⟩ := pure_ok.mp device
    refine .inr ⟨fun name found => ?_, ⟨_, rfl⟩, rfl⟩
    rw [closed] at found
    cases found
  case h_1 name found =>
    rw [DevFS.writeDevice] at device
    split at device
    case isTrue null =>
      obtain ⟨⟩ := pure_ok.mp device
      exact .inl ⟨name, found, .inl null, rfl, .inl ⟨null, rfl⟩⟩
    case isFalse other =>
      split at device
      case h_1 major minor listed =>
        split at device
        · cases device
        case h_2 printed here =>
          obtain ⟨⟩ := pure_ok.mp device
          refine .inl ⟨name, found, .inr ?_, rfl, .inr ⟨other, major, minor, printed, listed, here, rfl⟩⟩
          rw [listed]
          exact Option.some_ne_none _
      case h_2 unlisted =>
        obtain ⟨⟩ := pure_ok.mp device
        refine .inr ⟨fun name' found' known => ?_, ⟨_, rfl⟩, rfl⟩
        obtain rfl := Option.mem_unique found found'
        exact known.elim other fun known => known unlisted

theorem write_served {name : Path} (found : fs.fds[file.fd]? = some name) (known : writable fs name)
    {buf : List UInt8} (run : write fs world file buf offset = .ok (result, fs', world')) :
    ∃ size, result = .ok size := by
  obtain ⟨_, ⟨_, _, _, same, _⟩ | ⟨unwritable, _⟩⟩ := write_cases run
  · exact ⟨_, same⟩
  · exact absurd known (unwritable name found)

end Devices

section Refused
variable {M C : Type} {s : Serving M C VfsFile (VirtualFileSystem DevFS × Devices)} {fd : Nat} {file : VfsFile} {fs : DevFS}

theorem vfs_unchanged (mounted : s.vfs.1.mountedFs[file.fsId]? = some fs) :
    { s.vfs.1 with mountedFs := s.vfs.1.mountedFs.insert file.fsId fs } = s.vfs.1 := by
  rw [Maps.insert_of_getElem? mounted]

variable (found : s.task.fds.fds fd = some file)
include found

variable (mounted : s.vfs.1.mountedFs[file.fsId]? = some fs)
include mounted

theorem serve_read_refused_iff (size : Nat) :
    serve s (.read fd size) = .ok (syscallRetErr, s) ↔ ∀ name, fs.fds[file.fd.fd]? = some name → ¬ readable name := by
  rw [serve_read found]
  constructor
  · intro run name here known
    obtain ⟨⟨result, buf, file', self, world⟩, read, run⟩ := map_ok.mp run
    obtain ⟨refused, kept⟩ := Prod.mk.inj run
    obtain ⟨fs₁, _, there, own, _, rfl, _⟩ := read_ok.mp read
    obtain rfl := Option.mem_unique mounted there
    obtain ⟨count, rfl⟩ := read_served here known own
    exact returned_ne_of_unchanged found kept refused
  · intro unreadable
    obtain ⟨err, own⟩ := read_refused s.vfs.2 unreadable (Vector.replicate size 0) file.offset
    rw [read_ok.mpr ⟨fs, fs, mounted, own, nofun, rfl, rfl⟩, vfs_unchanged mounted]
    exact congrArg (fun after => Except.ok (syscallRetErr, after)) (fileSet_self found)

theorem serve_write_refused_iff (buf : List UInt8) :
    serve s (.write fd buf) = .ok (syscallRetErr, s) ↔ ∀ name, fs.fds[file.fd.fd]? = some name → ¬ writable fs name := by
  rw [serve_write found]
  constructor
  · intro run name here known
    obtain ⟨⟨result, file', self, world⟩, write, run⟩ := map_ok.mp run
    obtain ⟨refused, kept⟩ := Prod.mk.inj run
    obtain ⟨fs₁, _, there, own, _, rfl, _⟩ := write_ok.mp write
    obtain rfl := Option.mem_unique mounted there
    obtain ⟨count, rfl⟩ := write_served here known own
    exact returned_ne_of_unchanged found kept refused
  · intro unwritable
    obtain ⟨err, own⟩ := write_refused s.vfs.2 unwritable buf file.offset
    rw [write_ok.mpr ⟨fs, fs, mounted, own, nofun, rfl, rfl⟩, vfs_unchanged mounted]
    exact congrArg (fun after => Except.ok (syscallRetErr, after)) (fileSet_self found)

theorem serve_refused_iff {call : FdCall} (names : call.fd? = some fd) :
    serve s call = .ok (syscallRetErr, s) ↔ Harmless fs file.fd call := by
  cases call with
  | openPath path => cases names
  | read fd size =>
    obtain rfl := Option.some.inj names
    exact serve_read_refused_iff found mounted size
  | write fd buf =>
    obtain rfl := Option.some.inj names
    exact serve_write_refused_iff found mounted buf
  | lseek fd position =>
    obtain rfl := Option.some.inj names
    rw [serve_lseek found]
    refine iff_of_false (fun run => ?_) not_false
    have ret : syscallRetOk = syscallRetErr := (Prod.mk.inj (Except.ok.inj run)).1
    exact absurd ret (by decide)
  | close fd =>
    obtain rfl := Option.some.inj names
    rw [serve_close found, close_ok.mpr ⟨fs, (fs.close file.fd).2, mounted, rfl, rfl⟩]
    refine iff_of_false (fun run => ?_) not_false
    have ret : syscallRetOk = syscallRetErr := (Prod.mk.inj (Except.ok.inj run)).1
    exact absurd ret (by decide)

end Refused

section Effects
variable {M C : Type} {s s' : Serving M C VfsFile (VirtualFileSystem DevFS × Devices)}

structure Keeps (before after : Serving M C VfsFile (VirtualFileSystem DevFS × Devices)) : Prop where
  mounted : ∀ fsId : Nat, fsId ∈ before.vfs.1.mountedFs → fsId ∈ after.vfs.1.mountedFs
  used : ∀ fd, before.task.fds.fds fd ≠ none → after.task.fds.fds fd ≠ none
  numbered : before.task.fds.Numbered → after.task.fds.Numbered
  files : ∀ fd file', after.task.fds.fds fd = some file' → file'.fsId ∈ after.vfs.1.mountedFs ∨
    ∃ file, before.task.fds.fds fd = some file ∧ file'.fsId = file.fsId

section Tables
variable {F : Type} {fds : Nat → Option F} {fd other : Nat} {file file' : F}

theorem update_ne_none (used : fds other ≠ none) : update fds fd (some file) other ≠ none := by
  by_cases equal : other = fd
  · rw [equal, update_self]
    exact nofun
  · rwa [update_of_ne equal]

theorem update_eq_some (there : update fds fd (some file) other = some file') :
    (other = fd ∧ file' = file) ∨ fds other = some file' := by
  by_cases equal : other = fd
  · rw [equal, update_self] at there
    exact .inl ⟨equal, (Option.some.inj there).symm⟩
  · exact .inr ((update_of_ne equal ..).symm.trans there)

end Tables

theorem Keeps.refl (s : Serving M C VfsFile (VirtualFileSystem DevFS × Devices)) : Keeps s s :=
  ⟨fun _ => id, fun _ => id, id, fun _ file found => .inr ⟨file, found, rfl⟩⟩

theorem Keeps.fileSet {fd : Nat} {file file' : VfsFile} (found : s.task.fds.fds fd = some file)
    (same : file'.fsId = file.fsId) {self : VirtualFileSystem DevFS}
    (kept : ∀ fsId : Nat, fsId ∈ s.vfs.1.mountedFs → fsId ∈ self.mountedFs) (world : Devices) :
    Keeps s (fileSet s fd file' self world) := by
  refine ⟨kept, fun other used => update_ne_none used, fun numbered => numbered.set found file',
    fun other file₁ there => ?_⟩
  rcases update_eq_some there with ⟨rfl, rfl⟩ | before
  · exact .inr ⟨file, found, same⟩
  · exact .inr ⟨file₁, before, rfl⟩

theorem mem_insert_of_mem {table : ExtTreeMap Nat DevFS} {fsId other : Nat} {fs : DevFS} (here : fsId ∈ table) :
    fsId ∈ table.insert other fs := ExtTreeMap.mem_insert.mpr (.inr here)

theorem open_mounted {self self' : VirtualFileSystem DevFS} {path : Path} {result : Except VfsError VfsFile}
    (run : self.open path = .ok (result, self')) :
    (∀ fsId : Nat, fsId ∈ self.mountedFs → fsId ∈ self'.mountedFs) ∧
      ∀ file, result = .ok file → file.fsId ∈ self'.mountedFs := by
  obtain ⟨_, target, _, asked⟩ := open_ok.mp run
  match target with
  | none =>
    obtain ⟨⟩ := pure_ok.mp asked
    exact ⟨fun _ => id, nofun⟩
  | some (fsId, fs, rest) =>
    simp only [openAt, bind_ok, Prod.exists, pure_ok, Prod.mk.injEq] at asked
    obtain ⟨answer, fs', _, rfl, rfl⟩ := asked
    refine ⟨fun _ => mem_insert_of_mem, fun file opened => ?_⟩
    cases answer with
    | error err => cases opened
    | ok fd =>
      obtain rfl := Except.ok.inj opened
      exact ExtTreeMap.mem_insert_self

theorem Keeps.openPath {path : Path} {ret : UInt64} (run : syscallOpen s path = .ok (ret, s')) : Keeps s s' := by
  simp only [syscallOpen, openFile_eq, bind_ok, map_ok, Prod.exists, Prod.mk.injEq] at run
  obtain ⟨_, _, _, ⟨result, self, opened, rfl, rfl, rfl⟩, run⟩ := run
  obtain ⟨kept, mounted⟩ := open_mounted opened
  cases result with
  | error err =>
    obtain ⟨_, rfl⟩ := Prod.mk.inj (pure_ok.mp run)
    exact ⟨kept, fun _ => id, id, fun _ file found => .inr ⟨file, found, rfl⟩⟩
  | ok file =>
    simp only [Except.toOption, bind_ok, Prod.exists, pure_ok, Prod.mk.injEq] at run
    obtain ⟨fd, fds, added, _, rfl⟩ := run
    have numbers (numbered : s.task.fds.Numbered) : fds.Numbered := (numbered.add added).2
    rw [FdTable.add] at added
    split at added
    case isTrue =>
      obtain ⟨⟩ := pure_ok.mp added
      refine ⟨kept, fun other used => update_ne_none used, numbers, fun other file₁ there => ?_⟩
      rcases update_eq_some there with ⟨rfl, rfl⟩ | before
      · exact .inl (mounted _ rfl)
      · exact .inr ⟨file₁, before, rfl⟩
    case isFalse => cases added

theorem advanced_fsId (file : VfsFile) (result : Except FsError Nat) : (file.advanced result).fsId = file.fsId := by
  cases result <;> rfl

theorem serve_keeps {call : FdCall} {ret : UInt64} (run : serve s call = .ok (ret, s')) : Keeps s s' := by
  cases names : call.fd? with
  | none =>
    cases call with
    | openPath path => exact .openPath run
    | read | write | lseek | close => cases names
  | some fd =>
    cases found : s.task.fds.fds fd with
    | none =>
      rw [serve_absent found names] at run
      obtain ⟨_, rfl⟩ := Prod.mk.inj (Except.ok.inj run)
      exact .refl s
    | some file =>
      cases call with
      | openPath path => cases names
      | read _ size =>
        obtain rfl := Option.some.inj names
        rw [serve_read found] at run
        obtain ⟨⟨result, buf, file', self, world⟩, read, run⟩ := map_ok.mp run
        obtain ⟨_, rfl⟩ := Prod.mk.inj run
        obtain ⟨_, fs, _, _, _, rfl, rfl⟩ := read_ok.mp read
        exact .fileSet found (advanced_fsId file result) (fun _ => mem_insert_of_mem) world
      | write _ buf =>
        obtain rfl := Option.some.inj names
        rw [serve_write found] at run
        obtain ⟨⟨result, file', self, world⟩, write, run⟩ := map_ok.mp run
        obtain ⟨_, rfl⟩ := Prod.mk.inj run
        obtain ⟨_, fs, _, _, _, rfl, rfl⟩ := write_ok.mp write
        exact .fileSet found (advanced_fsId file result) (fun _ => mem_insert_of_mem) world
      | lseek _ position =>
        obtain rfl := Option.some.inj names
        rw [serve_lseek found] at run
        obtain ⟨_, rfl⟩ := Prod.mk.inj (Except.ok.inj run)
        have same : ({ file with offset := position } : VfsFile).fsId = file.fsId := rfl
        exact .fileSet found same (fun _ => id) s.vfs.2
      | close _ =>
        obtain rfl := Option.some.inj names
        rw [serve_close found] at run
        obtain ⟨⟨result, self⟩, closed, run⟩ := map_ok.mp run
        obtain ⟨_, rfl⟩ := Prod.mk.inj run
        obtain ⟨_, fs, _, _, rfl⟩ := close_ok.mp closed
        exact ⟨fun _ => mem_insert_of_mem, fun _ => id, id, fun _ file found => .inr ⟨file, found, rfl⟩⟩

end Effects

/-- The tasks, the file systems, and the descriptors whose `close` has returned `0`. -/
structure Descriptors (M C : Type) where
  tasks : Nat → Task M C VfsFile
  mem : Paging.Memory
  vfs : VirtualFileSystem DevFS × Devices
  closed : Nat → Nat → Bool

namespace Descriptors

variable {M C : Type}

def serving (s : Descriptors M C) (pid : Nat) : Serving M C VfsFile (VirtualFileSystem DevFS × Devices) :=
  ⟨s.tasks pid, s.mem, s.vfs⟩

def after (s : Descriptors M C) (pid : Nat) (call : FdCall) (ret : UInt64)
    (served : Serving M C VfsFile (VirtualFileSystem DevFS × Devices)) : Descriptors M C where
  tasks := update s.tasks pid served.task
  mem := served.mem
  vfs := served.vfs
  closed other fd := s.closed other fd || decide (ret = syscallRetOk ∧ other = pid ∧ call = .close fd)

def call (s : Descriptors M C) (pid : Nat) (call : FdCall) : Exec (UInt64 × Descriptors M C) := do
  let (ret, served) ← serve (s.serving pid) call
  pure (ret, s.after pid call ret served)

def Step (s s' : Descriptors M C) : Prop := ∃ pid call ret, s.call pid call = .ok (ret, s')

structure Fresh (now : Descriptors M C) : Prop where
  files : ∀ pid, (now.tasks pid).fds = FdTable.default
  closed : ∀ pid fd, now.closed pid fd = false

structure Sound (now : Descriptors M C) : Prop where
  numbered : ∀ pid, (now.tasks pid).fds.Numbered
  mounted : ∀ pid fd file, (now.tasks pid).fds.fds fd = some file → file.fsId ∈ now.vfs.1.mountedFs
  used : ∀ pid fd, now.closed pid fd = true → (now.tasks pid).fds.fds fd ≠ none

section Runs
variable {s s' start : Descriptors M C}

theorem Fresh.sound (fresh : s.Fresh) : s.Sound := by
  refine ⟨fun pid => fresh.files pid ▸ FdTable.Numbered.default, fun pid fd file found => ?_, fun pid fd closed => ?_⟩
  · rw [fresh.files pid] at found
    cases found
  · rw [fresh.closed pid fd] at closed
    cases closed

theorem closes_used {served served' : Serving M C VfsFile (VirtualFileSystem DevFS × Devices)} {fd : Nat}
    (run : serve served (.close fd) = .ok (syscallRetOk, served')) : served.task.fds.fds fd ≠ none := by
  intro absent
  rw [serve_absent absent rfl] at run
  have ret : syscallRetErr = syscallRetOk := (Prod.mk.inj (Except.ok.inj run)).1
  exact absurd ret (by decide)

theorem Sound.call (sound : s.Sound) {pid : Nat} {call : FdCall} {ret : UInt64} (run : s.call pid call = .ok (ret, s')) :
    s'.Sound := by
  simp only [Descriptors.call, bind_ok, Prod.exists, pure_ok, Prod.mk.injEq] at run
  obtain ⟨_, served, run, rfl, rfl⟩ := run
  have keeps := serve_keeps run
  refine ⟨fun other => ?_, fun other fd file found => ?_, fun other fd closed => ?_⟩
  · change (update s.tasks pid served.task other).fds.Numbered
    by_cases equal : other = pid
    · subst equal
      rw [update_self]
      exact keeps.numbered (sound.numbered other)
    · rw [update_of_ne equal]
      exact sound.numbered other
  · change (update s.tasks pid served.task other).fds.fds fd = some file at found
    by_cases equal : other = pid
    · subst equal
      rw [update_self] at found
      rcases keeps.files fd file found with mounted | ⟨old, before, same⟩
      · exact mounted
      · exact same ▸ keeps.mounted _ (sound.mounted other fd old before)
    · rw [update_of_ne equal] at found
      exact keeps.mounted _ (sound.mounted other fd file found)
  · simp only [after, Bool.or_eq_true, decide_eq_true_eq] at closed
    change (update s.tasks pid served.task other).fds.fds fd ≠ none
    by_cases equal : other = pid
    · subst equal
      rw [update_self]
      rcases closed with before | ⟨rfl, _, rfl⟩
      · exact keeps.used fd (sound.used other fd before)
      · exact keeps.used fd (closes_used run)
    · rw [update_of_ne equal]
      rcases closed with before | ⟨_, same, _⟩
      · exact sound.used other fd before
      · exact absurd same equal

theorem sound_of_run (fresh : start.Fresh) (run : ReflTransGen Step start s) : s.Sound :=
  Runs.preserved Sound (fun _ _ sound ⟨_, _, _, step⟩ => sound.call step) fresh.sound run

end Runs

theorem call_refused_iff {s : Descriptors M C} {pid : Nat} {call : FdCall} :
    s.call pid call = .ok (syscallRetErr, s) ↔ serve (s.serving pid) call = .ok (syscallRetErr, s.serving pid) := by
  constructor
  · intro run
    simp only [Descriptors.call, bind_ok, Prod.exists, pure_ok, Prod.mk.injEq] at run
    obtain ⟨_, ⟨task, mem, vfs⟩, run, rfl, same⟩ := run
    have tasks : update s.tasks pid task pid = s.tasks pid := congrArg (fun after => after.tasks pid) same
    rw [update_self] at tasks
    obtain rfl : mem = s.mem := congrArg Descriptors.mem same
    obtain rfl : vfs = s.vfs := congrArg Descriptors.vfs same
    rw [run, tasks, serving]
  · intro run
    have closed : (fun other fd =>
        s.closed other fd || decide (syscallRetErr = syscallRetOk ∧ other = pid ∧ call = .close fd)) =
        s.closed := by
      funext other fd
      have differ : ¬ (syscallRetErr = syscallRetOk ∧ other = pid ∧ call = .close fd) := fun both => absurd both.1 (by decide)
      rw [decide_eq_false differ, Bool.or_false]
    have same : s.after pid call syscallRetErr (s.serving pid) = s := by
      rw [after, closed, serving, update_eq_self]
    rw [Descriptors.call, run, ok_bind]
    exact congrArg (fun after => Except.ok (syscallRetErr, after)) same

/-- A read or a write through a closed descriptor fails exactly if the file system has no device under its number;
    seeking and closing never fail. -/
theorem closed_descriptor_refused_iff {start s : Descriptors M C} (fresh : start.Fresh)
    (run : ReflTransGen Step start s) {pid fd : Nat} (closed : s.closed pid fd = true) {call : FdCall}
    (names : call.fd? = some fd) :
    s.call pid call = .ok (syscallRetErr, s) ↔ ∀ file fs, (s.tasks pid).fds.fds fd = some file →
      s.vfs.1.mountedFs[file.fsId]? = some fs → Harmless fs file.fd call := by
  have sound := sound_of_run fresh run
  obtain ⟨file, found⟩ := Option.ne_none_iff_exists'.mp (sound.used pid fd closed)
  obtain ⟨fs, mounted⟩ : ∃ fs, s.vfs.1.mountedFs[file.fsId]? = some fs :=
    Option.isSome_iff_exists.mp (ExtTreeMap.mem_iff_isSome_getElem?.mp (sound.mounted pid fd file found))
  rw [call_refused_iff, serve_refused_iff found mounted names]
  constructor
  · rintro harmless file' fs' found' mounted'
    obtain rfl := Option.mem_unique found found'
    obtain rfl := Option.mem_unique mounted mounted'
    exact harmless
  · intro harmless
    exact harmless file fs found mounted

def boot (root : VirtualFileSystem DevFS) : Descriptors Unit Unit where
  tasks pid := ⟨0, pid, 0, (), 0, (), [], none, FdTable.default⟩
  mem _ _ := 0
  vfs := (root, Devices.default)
  closed _ _ := false

theorem boot_fresh (root : VirtualFileSystem DevFS) : (boot root).Fresh := ⟨fun _ => rfl, fun _ _ => rfl⟩

def calls (s : Descriptors M C) : List (Nat × FdCall) → Exec (List UInt64 × Descriptors M C)
  | [] => pure ([], s)
  | (pid, call) :: rest => do
    let (ret, s) ← s.call pid call
    let (rets, s) ← s.calls rest
    pure (ret :: rets, s)

theorem run_of_calls {s s' : Descriptors M C} {list : List (Nat × FdCall)} {rets : List UInt64}
    (run : s.calls list = .ok (rets, s')) : ReflTransGen Step s s' := by
  induction list generalizing s rets with
  | nil =>
    obtain ⟨_, rfl⟩ := Prod.mk.inj (pure_ok.mp run)
    exact .refl
  | cons entry rest ih =>
    obtain ⟨pid, call⟩ := entry
    simp only [calls, bind_ok, Prod.exists, pure_ok, Prod.mk.injEq] at run
    obtain ⟨ret, next, first, others, _, run, _, rfl⟩ := run
    exact .head ⟨pid, call, ret, first⟩ (ih run)

theorem closed_descriptor_unread :
    ∃ root s, vfsInit = .ok root ∧ ReflTransGen Step (boot root) s ∧ s.closed 1 0 = true ∧
      s.call 1 (.read 0 4) = .ok (syscallRetErr, s) := by
  have played : passes vfsInit (fun root => passes ((boot root).calls
      [(1, .openPath (pointDev ++ slash :: nameNull)), (1, .close 0)]) fun answer => answer.2.closed 1 0 &&
        decide ((answer.2.vfs.1.mountedFs[0]?.bind fun fs => fs.fds[0]?) = none ∧
          (answer.2.tasks 1).fds.fds 0 = some ⟨⟨0, .charDev⟩, 0, 0⟩)) = true := by
    decide +kernel
  obtain ⟨root, init, played⟩ := exists_of_passes played
  obtain ⟨⟨rets, s⟩, called, test⟩ := exists_of_passes played
  obtain ⟨closed, test⟩ := (Bool.and_eq_true _ _).mp test
  obtain ⟨empty, entry⟩ := of_decide_eq_true test
  have run := run_of_calls called
  refine ⟨root, s, init, run, closed, (closed_descriptor_refused_iff (boot_fresh root) run closed rfl).mpr ?_⟩
  intro file fs found mounted name here
  obtain rfl := Option.mem_unique entry found
  rw [mounted, Option.bind_some, here] at empty
  cases empty

/-- A closed descriptor reads the file that another task opened, is moved, and closes that file. -/
theorem closed_descriptor_used :
    ∃ root s, vfsInit = .ok root ∧ (boot root).calls
      [(1, .openPath (pointDev ++ slash :: nameNull)), (1, .close 0), (2, .openPath (pointDev ++ slash :: nameZero)),
        (1, .read 0 4), (1, .lseek 0 7), (1, .close 0), (2, .read 0 4)] = .ok ([0, 0, 0, 4, 0, 0, syscallRetErr], s) := by
  have played : passes vfsInit (fun root => passes ((boot root).calls
      [(1, .openPath (pointDev ++ slash :: nameNull)), (1, .close 0), (2, .openPath (pointDev ++ slash :: nameZero)),
        (1, .read 0 4), (1, .lseek 0 7), (1, .close 0), (2, .read 0 4)]) fun answer =>
          decide (answer.1 = [0, 0, 0, 4, 0, 0, syscallRetErr])) = true := by
    decide +kernel
  obtain ⟨root, init, played⟩ := exists_of_passes played
  obtain ⟨⟨rets, s⟩, called, test⟩ := exists_of_passes played
  obtain rfl := of_decide_eq_true test
  exact ⟨root, s, init, called⟩

end Descriptors


end Kernel31.Vfs
