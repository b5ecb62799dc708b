import Kernel31.Vfs.Transfers

namespace Kernel31.Vfs

open Checked Sched Slices Function VirtualFileSystem
open Elf (slice)

section Indices

variable {n : Nat}

def subUsize (left right : Nat) : Exec Nat := if right ≤ left then pure (left - right) else throw .overflow

def addUsize (left right : Nat) : Exec Nat := if left + right < 2 ^ 64 then pure (left + right) else throw .overflow

/-- The loop of `read` over the log, with the operations on indices checked. -/
def readKmsgChecked : List KernelMessageEntry → Nat → Nat → Vector UInt8 n → Exec (Nat × Vector UInt8 n)
  | [], _, bufOff, buf => pure (bufOff, buf)
  | entry :: entries, offset, bufOff, buf =>
    if bufOff = n then pure (bufOff, buf)
    else
      let msg := entry.text
      if msg.length ≤ offset then do
        let offset ← subUsize offset msg.length
        readKmsgChecked entries offset bufOff buf
      else do
        let room ← subUsize n bufOff
        let rest ← subUsize msg.length offset
        let readSize := min room rest
        let stop ← addUsize offset readSize
        let piece ← slice msg offset stop
        let bufStop ← addUsize bufOff readSize
        let buf ← copyFromSlice buf bufOff bufStop piece
        readKmsgChecked entries 0 bufStop buf

/-- The loop of `gen_bytes`, with the operations on indices checked. -/
def genBytesLoopChecked : Nat → Nat → Rand.MT19937 → Vector UInt8 n → Exec (Vector UInt8 n × Rand.MT19937)
  | 0, ptr, self, buf => if ptr < n then throw .recursion else pure (buf, self)
  | fuel + 1, ptr, self, buf =>
    if ptr < n then do
      let next ← addUsize ptr 4
      let stop := min n next
      let (word, self) ← self.randomUint32
      let size ← subUsize stop ptr
      let bytes ← slice (beBytes 4 word.toNat) 0 size
      let buf ← copyFromSlice buf ptr stop bytes
      genBytesLoopChecked fuel next self buf
    else pure (buf, self)

theorem subUsize_ok {left right : Nat} (le : right ≤ left) : subUsize left right = .ok (left - right) := if_pos le

theorem addUsize_ok {left right : Nat} (small : left + right < 2 ^ 64) : addUsize left right = .ok (left + right) :=
  if_pos small

theorem readKmsgChecked_eq (small : n < 2 ^ 64) {entries : List KernelMessageEntry}
    (texts : ∀ entry ∈ entries, entry.text.length < 2 ^ 64) (offset : Nat) {bufOff : Nat} (inside : bufOff ≤ n)
    (buf : Vector UInt8 n) : readKmsgChecked entries offset bufOff buf = DevFS.readKmsg entries offset bufOff buf := by
  induction entries generalizing offset bufOff buf with
  | nil => rfl
  | cons entry entries ih =>
    obtain ⟨short, texts⟩ := List.forall_mem_cons.mp texts
    rw [readKmsgChecked, DevFS.readKmsg]
    dsimp only
    split
    case isTrue full => rfl
    case isFalse room =>
      split
      case isTrue past =>
        rw [subUsize_ok past, ok_bind]
        exact ih texts _ inside buf
      case isFalse within =>
        have fits : bufOff + min (n - bufOff) (entry.text.length - offset) ≤ n := by omega
        rw [subUsize_ok inside, ok_bind, subUsize_ok (by omega), ok_bind, addUsize_ok (by omega), ok_bind]
        refine bind_congr fun piece => ?_
        rw [addUsize_ok (by omega), ok_bind]
        exact bind_congr fun buf => ih texts 0 fits buf

theorem genBytesLoopChecked_eq (small : n + 4 ≤ 2 ^ 64) (fuel ptr : Nat) (self : Rand.MT19937) (buf : Vector UInt8 n) :
    genBytesLoopChecked fuel ptr self buf = Rand.MT19937.genBytesLoop fuel ptr self buf := by
  induction fuel generalizing ptr self buf with
  | zero => rfl
  | succ fuel ih =>
    rw [genBytesLoopChecked, Rand.MT19937.genBytesLoop]
    split
    case isFalse done => rfl
    case isTrue more =>
      rw [addUsize_ok (by omega), ok_bind]
      refine bind_congr fun answer => ?_
      dsimp only
      rw [subUsize_ok (by omega), ok_bind]
      exact bind_congr fun bytes => bind_congr fun buf => ih (ptr + 4) answer.2 buf

structure IndicesInRange (world : Devices) (offset size : Nat) : Prop where
  kmsg (buf : Vector UInt8 size) :
    readKmsgChecked world.kmsg.msgs offset 0 buf = DevFS.readKmsg world.kmsg.msgs offset 0 buf
  random (buf : Vector UInt8 size) : genBytesLoopChecked size 0 world.rng buf = world.rng.genBytes buf
  state : world.rng.stateIndex < Rand.stateSize

end Indices

structure Devices.Formed (world : Devices) : Prop where
  state : world.rng.stateIndex < Rand.stateSize
  texts : ∀ entry ∈ world.kmsg.msgs, entry.text.length < 2 ^ 63

section Device

variable {world : Devices} {fs : DevFS} {file : File}

theorem Devices.Formed.indicesInRange (formed : world.Formed) (offset : Nat) {size : Nat} (small : size < 2 ^ 63) :
    IndicesInRange world offset size where
  kmsg buf := readKmsgChecked_eq (by omega) (fun entry member => Nat.lt_trans (formed.texts entry member) (by decide)) offset
    (Nat.zero_le size) buf
  random buf := genBytesLoopChecked_eq (by omega) size 0 world.rng buf
  state := formed.state

theorem Devices.Formed.read (formed : world.Formed) {n : Nat} (buf : Vector UInt8 n) (offset : Nat) :
    ∃ result buf' world', FileSystem.read fs world file buf offset = .ok (result, buf', fs, world') ∧ world'.Formed := by
  have device : ∃ result buf' world', fs.read world file buf offset = .ok (result, buf', world') ∧ world'.Formed := by
    rw [DevFS.read]
    cases fs.fds[file.fd]? with
    | none => exact ⟨_, buf, world, rfl, formed⟩
    | some name =>
      change ∃ result buf' world', DevFS.readDevice world name buf offset = .ok (result, buf', world') ∧ world'.Formed
      rw [DevFS.readDevice]
      split
      · exact ⟨_, _, world, rfl, formed⟩
      split
      · obtain ⟨size, buf', run, _⟩ := readKmsg_ok world.kmsg.msgs offset buf (Nat.zero_le n)
        rw [run]
        exact ⟨_, buf', world, rfl, formed⟩
      split
      · obtain ⟨buf', rng, run, state⟩ := world.rng.genBytes_ok formed.state buf
        rw [run]
        exact ⟨_, buf', _, rfl, state, formed.texts⟩
      · exact ⟨_, buf, world, rfl, formed⟩
  obtain ⟨result, buf', world', run, formed'⟩ := device
  refine ⟨result, buf', world', ?_, formed'⟩
  change (fs.read world file buf offset >>= fun _ => _) = _
  rw [run]
  rfl

theorem Devices.Formed.write (formed : world.Formed) {buf : List UInt8} {offset : Nat} {result : Except FsError Nat}
    {fs' : DevFS} {world' : Devices} (run : FileSystem.write fs world file buf offset = .ok (result, fs', world')) :
    fs' = fs ∧ world'.Formed := by
  obtain ⟨same, ⟨_, _, _, _, received⟩ | ⟨_, _, rfl⟩⟩ := write_cases run
  · refine ⟨same, ?_⟩
    rcases received with ⟨_, rfl⟩ | ⟨_, _, _, _, _, _, rfl⟩
    · exact formed
    · exact ⟨formed.state, formed.texts⟩
  · exact ⟨same, formed⟩

end Device

namespace VirtualFileSystem

variable {self : VirtualFileSystem DevFS} {world : Devices} {file : VfsFile} {fs : DevFS} {size : Nat}

theorem read_beyond {n : Nat} {buf buf' : Vector UInt8 n} {rest : DevFS × Devices}
    (mounted : self.mountedFs[file.fsId]? = some fs)
    (own : FileSystem.read fs world file.fd buf file.offset = .ok (.ok size, buf', rest))
    (beyond : ¬ file.offset + size < 2 ^ 64) : self.read world file buf = .error .overflow := by
  rw [read, mounted]
  change (FileSystem.read fs world file.fd buf file.offset >>= fun _ => _) = _
  rw [own]
  change (advance file size >>= fun _ => _) = _
  rw [advance, if_neg beyond]
  rfl

theorem write_beyond {buf : List UInt8} {rest : DevFS × Devices} (mounted : self.mountedFs[file.fsId]? = some fs)
    (own : FileSystem.write fs world file.fd buf file.offset = .ok (.ok size, rest))
    (beyond : ¬ file.offset + size < 2 ^ 64) : self.write world file buf = .error .overflow := by
  rw [write, mounted]
  change (FileSystem.write fs world file.fd buf file.offset >>= fun _ => _) = _
  rw [own]
  change (advance file size >>= fun _ => _) = _
  rw [advance, if_neg beyond]
  rfl

end VirtualFileSystem

section Runs

variable {M C : Type} {s s' start : Serving M C VfsFile (VirtualFileSystem DevFS × Devices)}
variable {fd : Nat} {file : VfsFile} {fs : DevFS}

structure OnDevice (s : Serving M C VfsFile (VirtualFileSystem DevFS × Devices)) (fd : Nat) (file : VfsFile) (fs : DevFS) :
    Prop where
  found : s.task.fds.fds fd = some file
  mounted : s.vfs.1.mountedFs[file.fsId]? = some fs
  named : fs.fds[file.fd.fd]? ≠ none
  offset : file.offset < 2 ^ 64
  formed : s.vfs.2.Formed

/-- `lseek` with a 64-bit position, `read` and `write` on a descriptor. -/
def Seeks (fd : Nat) : FdCall → Prop
  | .read used _ | .write used _ => used = fd
  | .lseek used position => used = fd ∧ position < 2 ^ 64
  | .openPath _ | .close _ => False

def SeekStep (fd : Nat) (s s' : Serving M C VfsFile (VirtualFileSystem DevFS × Devices)) : Prop :=
  ∃ call ret, Seeks fd call ∧ serve s call = .ok (ret, s')

def storedOffset (s : Serving M C VfsFile (VirtualFileSystem DevFS × Devices)) (fd : Nat) : Option Nat :=
  (s.task.fds.fds fd).map VfsFile.offset

/-- A call returns what the device answers and moves the offset by that if the offset can hold it, and overflows
    otherwise. -/
structure Moves (s : Serving M C VfsFile (VirtualFileSystem DevFS × Devices)) (fd : Nat) (call : FdCall) (offset : Nat)
    (result : Except FsError Nat) : Prop where
  exact_iff : (∃ s', serve s call = .ok (returned result, s') ∧ storedOffset s' fd = some (offset + transferred result)) ↔
    offset + transferred result < 2 ^ 64
  overflows : ¬ offset + transferred result < 2 ^ 64 → serve s call = .error .overflow

theorem storedOffset_fileSet (s : Serving M C VfsFile (VirtualFileSystem DevFS × Devices)) (fd : Nat) (file : VfsFile)
    (self : VirtualFileSystem DevFS) (world : Devices) :
    storedOffset (fileSet s fd file self world) fd = some file.offset := by
  change (update s.task.fds.fds fd (some file) fd).map VfsFile.offset = _
  rw [update_self, Option.map_some]

theorem advanced_offset (file : VfsFile) (result : Except FsError Nat) :
    (file.advanced result).offset = file.offset + transferred result := by
  cases result <;> rfl

theorem fits_iff {offset : Nat} (small : offset < 2 ^ 64) (result : Except FsError Nat) :
    (∀ size, result = .ok size → offset + size < 2 ^ 64) ↔ offset + transferred result < 2 ^ 64 := by
  cases result with
  | error err => exact iff_of_true nofun small
  | ok size => simp only [Except.ok.injEq, forall_eq', transferred]

def moved (s : Serving M C VfsFile (VirtualFileSystem DevFS × Devices)) (fd : Nat) (file : VfsFile)
    (result : Except FsError Nat) (world : Devices) : Exec (UInt64 × Serving M C VfsFile (VirtualFileSystem DevFS × Devices)) :=
  if file.offset + transferred result < 2 ^ 64 then
    .ok (returned result, fileSet s fd (file.advanced result) s.vfs.1 world)
  else .error .overflow

theorem moves_of_eq {call : FdCall} {result : Except FsError Nat} {world : Devices}
    (run : serve s call = moved s fd file result world) : Moves s fd call file.offset result := by
  rw [moved] at run
  split at run
  case isTrue fits =>
    refine ⟨iff_of_true ⟨_, run, ?_⟩ fits, fun beyond => absurd fits beyond⟩
    rw [storedOffset_fileSet, advanced_offset]
  case isFalse beyond =>
    refine ⟨iff_of_false ?_ beyond, fun _ => run⟩
    rintro ⟨s', returns, _⟩
    cases run.symm.trans returns

namespace OnDevice

variable (opened : OnDevice s fd file fs)
include opened

variable {result : Except FsError Nat}

theorem serve_read {size : Nat} {buf : Vector UInt8 size} {world : Devices}
    (own : FileSystem.read fs s.vfs.2 file.fd (Vector.replicate size 0) file.offset = .ok (result, buf, fs, world)) :
    serve s (.read fd size) = moved s fd file result world := by
  rw [Vfs.serve_read opened.found, moved]
  split
  case isTrue fits =>
    have read := read_ok.mpr
      ⟨fs, fs, opened.mounted, own, (fits_iff opened.offset result).mpr fits, rfl, rfl⟩
    rw [read, vfs_unchanged opened.mounted]
    rfl
  case isFalse beyond =>
    cases result with
    | error err => exact absurd opened.offset beyond
    | ok count =>
      rw [read_beyond opened.mounted own beyond]
      rfl

theorem serve_write {buf : List UInt8} {world : Devices}
    (own : FileSystem.write fs s.vfs.2 file.fd buf file.offset = .ok (result, fs, world)) :
    serve s (.write fd buf) = moved s fd file result world := by
  rw [Vfs.serve_write opened.found, moved]
  split
  case isTrue fits =>
    have write := write_ok.mpr
      ⟨fs, fs, opened.mounted, own, (fits_iff opened.offset result).mpr fits, rfl, rfl⟩
    rw [write, vfs_unchanged opened.mounted]
    rfl
  case isFalse beyond =>
    cases result with
    | error err => exact absurd opened.offset beyond
    | ok count =>
      rw [write_beyond opened.mounted own beyond]
      rfl

theorem fileSet (file' : VfsFile) (same : file'.fsId = file.fsId ∧ file'.fd = file.fd) (offset : file'.offset < 2 ^ 64)
    {world : Devices} (formed : world.Formed) : OnDevice (fileSet s fd file' s.vfs.1 world) fd file' fs where
  found := update_self ..
  mounted := same.1 ▸ opened.mounted
  named := same.2 ▸ opened.named
  offset := offset
  formed := formed

theorem moved {world : Devices} (formed : world.Formed) {ret : UInt64}
    (run : moved s fd file result world = .ok (ret, s')) : ∃ file', OnDevice s' fd file' fs := by
  rw [Vfs.moved] at run
  split at run
  case isTrue fits =>
    obtain ⟨_, rfl⟩ := Prod.mk.inj (Except.ok.inj run)
    refine ⟨_, opened.fileSet (file.advanced result) ⟨advanced_fsId file result, ?_⟩ ?_ formed⟩
    · cases result <;> rfl
    · rwa [advanced_offset]
  case isFalse beyond => cases run

theorem step (step : SeekStep fd s s') : ∃ file', OnDevice s' fd file' fs := by
  obtain ⟨call, ret, seeks, run⟩ := step
  cases call with
  | openPath | close => exact seeks.elim
  | lseek used position =>
    obtain ⟨rfl, small⟩ := seeks
    rw [serve_lseek opened.found] at run
    obtain ⟨_, rfl⟩ := Prod.mk.inj (Except.ok.inj run)
    exact ⟨_, opened.fileSet { file with offset := position } ⟨rfl, rfl⟩ small opened.formed⟩
  | read used size =>
    obtain rfl : used = fd := seeks
    obtain ⟨result, buf, world, own, formed⟩ := opened.formed.read (Vector.replicate size 0) file.offset
    exact opened.moved formed ((opened.serve_read own).symm.trans run)
  | write used buf =>
    obtain rfl : used = fd := seeks
    have served := run
    rw [Vfs.serve_write opened.found, map_ok] at run
    obtain ⟨⟨result, file', self, world⟩, write, _⟩ := run
    obtain ⟨_, _, there, own, _⟩ := write_ok.mp write
    obtain rfl := Option.mem_unique opened.mounted there
    obtain ⟨rfl, formed⟩ := opened.formed.write own
    exact opened.moved formed ((opened.serve_write own).symm.trans served)

end OnDevice

end Runs

theorem threeOpen_zero :
    ∃ s, threeOpen = .ok s ∧ decide ((device s 2).map Prod.snd = some nameZero ∧ storedOffset s 2 = some 0 ∧
      s.vfs.2.rng.stateIndex < Rand.stateSize ∧ s.vfs.2.kmsg.msgs.length = 0 ∧
      passes (serve s (.read 2 4)) (·.1 = 4) ∧
      passes (serve s (.lseek 2 (2 ^ 64 - 1))) fun answer =>
        decide (answer.1 = syscallRetOk ∧ fails (serve answer.2 (.read 2 1)) = some .overflow)) = true :=
  exists_of_passes (by decide +kernel)

end Kernel31.Vfs
