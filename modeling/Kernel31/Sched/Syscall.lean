import Kernel31.Sched.Steps

namespace Kernel31.Sched

open Page Paging Kernel31.Task Checked Function

variable {size fd now fuel : Nat} {buf : List UInt8} {ret a0 a1 a2 : UInt64} {unameMachine : String}

def SyscallNum.exit : UInt64 := 0
def SyscallNum.open : UInt64 := 1
def SyscallNum.read : UInt64 := 2
def SyscallNum.write : UInt64 := 3
def SyscallNum.lseek : UInt64 := 4
def SyscallNum.close : UInt64 := 5
def SyscallNum.sleep : UInt64 := 6
def SyscallNum.fork : UInt64 := 7
def SyscallNum.uname : UInt64 := 8

def syscallRetOk : UInt64 := 0

def syscallRetErr : UInt64 := 0xffffffffffffffff

/-- What the syscalls ask of it: `None` is an error, and `read` fills a buffer of the given size. -/
class Vfs (V F : Type) where
  openFile : V → (path : List UInt8) → Exec (Option F × V)
  read : V → F → (size : Nat) → Exec (Option Nat × Vector UInt8 size × F × V)
  write : V → F → List UInt8 → Exec (Option Nat × F × V)
  close : V → F → Exec (Option Unit × V)
  seek : F → Nat → F

def FdTable.add {F : Type} (self : FdTable F) (file : F) : Exec (Nat × FdTable F) :=
  if self.maxFd + 1 < 2 ^ 64 then
    pure (self.maxFd, { maxFd := self.maxFd + 1, fds := update self.fds self.maxFd (some file) })
  else throw .overflow

def FdTable.set {F : Type} (self : FdTable F) (fd : Nat) (file : F) : FdTable F :=
  { self with fds := update self.fds fd (some file) }

structure Serving (M C F V : Type) where
  task : Task M C F
  mem : Memory
  vfs : V

/-- `alloc::vec![0; size]` panics past `isize::MAX`. -/
def zeroed (size : Nat) : Exec (List UInt8) :=
  if size < 2 ^ 63 then pure (List.replicate size 0) else throw .overflow

theorem zeroed_ok : zeroed size = .ok buf ↔ size < 2 ^ 63 ∧ buf = List.replicate size 0 := by
  rw [zeroed]
  split
  case isTrue small => rw [pure_ok, and_iff_right small, eq_comm]
  case isFalse large => exact iff_of_false nofun fun both => large both.1

section Calls

variable {M C F V : Type} [Vfs V F]

def syscallOpen (s : Serving M C F V) (path : List UInt8) : Exec (UInt64 × Serving M C F V) := do
  let (file, vfs) ← Vfs.openFile s.vfs path
  match (file : Option F) with
  | some file =>
    let (fd, fds) ← s.task.fds.add file
    pure (UInt64.ofNat fd, { s with task := { s.task with fds := fds }, vfs := vfs })
  | none => pure (syscallRetErr, { s with vfs := vfs })

/-- `syscall_read` returns what it left in the buffer, too. -/
def syscallRead (s : Serving M C F V) (fd size : Nat) : Exec (UInt64 × List UInt8 × Serving M C F V) := do
  match s.task.fds.fds fd with
  | none => pure (syscallRetErr, List.replicate size 0, s)
  | some file =>
    let (result, buf, file, vfs) ← Vfs.read s.vfs file size
    let s := { s with task := { s.task with fds := s.task.fds.set fd file }, vfs := vfs }
    match result with
    | some count => pure (UInt64.ofNat count, buf.toList, s)
    | none => pure (syscallRetErr, buf.toList, s)

def syscallWrite (s : Serving M C F V) (fd : Nat) (buf : List UInt8) : Exec (UInt64 × Serving M C F V) := do
  match s.task.fds.fds fd with
  | none => pure (syscallRetErr, s)
  | some file =>
    let (result, file, vfs) ← Vfs.write s.vfs file buf
    let s := { s with task := { s.task with fds := s.task.fds.set fd file }, vfs := vfs }
    match result with
    | some count => pure (UInt64.ofNat count, s)
    | none => pure (syscallRetErr, s)

def syscallLseek (s : Serving M C F V) (fd position : Nat) : UInt64 × Serving M C F V :=
  match s.task.fds.fds fd with
  | none => (syscallRetErr, s)
  | some file =>
    (syscallRetOk, { s with task := { s.task with fds := s.task.fds.set fd (Vfs.seek V file position) } })

/-- `syscall_close` leaves the descriptor in the table. -/
def syscallClose (s : Serving M C F V) (fd : Nat) : Exec (UInt64 × Serving M C F V) := do
  match s.task.fds.fds fd with
  | none => pure (syscallRetErr, s)
  | some file =>
    let (result, vfs) ← Vfs.close s.vfs file
    match result with
    | some _ => pure (syscallRetOk, { s with vfs := vfs })
    | none => pure (syscallRetErr, { s with vfs := vfs })

def syscallSleep (s : Serving M C F V) (now timestamp : Nat) : Exec (Serving M C F V) :=
  if now + timestamp < 2 ^ 64 then pure { s with task := { s.task with nextSchedule := some (now + timestamp) } }
  else throw .overflow

end Calls

def utsStringLen : Nat := 65

def unameSysname : String := "31kernel"
def unameRelease : String := "0.1.0"
def unameVersion : String := "31kernel version 0.1.0 (Debug channel)"

def utsField (text : String) : List UInt8 :=
  let bytes := text.toUTF8.toList
  bytes ++ List.replicate (utsStringLen - bytes.length) 0

/-- The bytes of `Utsname`: `sysname`, `nodename`, `release`, `version` and `machine`. -/
def utsname (unameMachine : String) : List UInt8 :=
  utsField unameSysname ++ utsField "" ++ utsField unameRelease ++ utsField unameVersion ++ utsField unameMachine

section Dispatch

variable {M C F V : Type} [Vfs V F]

/-- `copy_to_user` of the task, whose count is dropped. -/
def Serving.copyToUser (s : Serving M C F V) (userAddr : UInt64) (kernelBuf : List UInt8) : Exec (Serving M C F V) := do
  let (_, mem) ← Sched.copyToUser s.task.pageAllocs s.mem userAddr.toNat kernelBuf
  pure { s with mem := mem }

/-- A buffer of zeros with what `copy_from_user` puts in front. -/
def Serving.copyFromUser (s : Serving M C F V) (userAddr : UInt64) (size : Nat) : Exec (List UInt8) := do
  let buf ← zeroed size
  let bytes ← Sched.copyFromUser s.task.pageAllocs s.mem userAddr.toNat size
  pure (bytes ++ buf.drop bytes.length)

def syscallUname (unameMachine : String) (s : Serving M C F V) (utsPtr : UInt64) : Exec (Serving M C F V) :=
  s.copyToUser utsPtr (utsname unameMachine)

/-- `dispatch_with_task`, at the time `now`; `fuel` bounds the rounds of `copy_user_string`. -/
def dispatchWithTask (unameMachine : String) (now fuel : Nat) (s : Serving M C F V) (syscallNum a0 a1 a2 : UInt64) :
    Exec (Option UInt64 × Serving M C F V) := do
  if syscallNum = SyscallNum.open then
    let path ← copyUserString fuel s.task.pageAllocs s.mem a0.toNat
    let (ret, s) ← syscallOpen s path
    pure (some ret, s)
  else if syscallNum = SyscallNum.read then
    let _ ← zeroed a2.toNat
    let (ret, buf, s) ← syscallRead s a0.toNat a2.toNat
    pure (some ret, ← s.copyToUser a1 buf)
  else if syscallNum = SyscallNum.write then
    let buf ← s.copyFromUser a1 a2.toNat
    let (ret, s) ← syscallWrite s a0.toNat buf
    pure (some ret, s)
  else if syscallNum = SyscallNum.lseek then
    let (ret, s) := syscallLseek s a0.toNat a1.toNat
    pure (some ret, s)
  else if syscallNum = SyscallNum.close then
    let _ ← s.copyFromUser a1 a2.toNat
    let (ret, s) ← syscallClose s a0.toNat
    pure (some ret, s)
  else if syscallNum = SyscallNum.sleep then pure (none, ← syscallSleep s now a0.toNat)
  else if syscallNum = SyscallNum.uname then pure (none, ← syscallUname unameMachine s a0)
  else pure (none, s)

end Dispatch

section Effects

variable {M C F V : Type} [Vfs V F] {s s' : Serving M C F V}

structure Serving.Keeps (before after : Serving M C F V) : Prop where
  mem : after.mem = before.mem
  task : ∃ nextSchedule fds, after.task = { before.task with nextSchedule := nextSchedule, fds := fds }

omit [Vfs V F] in
theorem Serving.Keeps.refl (s : Serving M C F V) : s.Keeps s := ⟨rfl, _, _, rfl⟩

theorem syscallOpen_keeps {path : List UInt8} (run : syscallOpen s path = .ok (ret, s')) : s.Keeps s' := by
  simp only [syscallOpen, bind_ok, Prod.exists] at run
  obtain ⟨file, vfs, _, run⟩ := run
  cases file with
  | none =>
    obtain ⟨_, rfl⟩ := Prod.mk.inj (pure_ok.mp run)
    exact ⟨rfl, _, _, rfl⟩
  | some file =>
    simp only [bind_ok, Prod.exists] at run
    obtain ⟨fd, fds, _, run⟩ := run
    obtain ⟨_, rfl⟩ := Prod.mk.inj (pure_ok.mp run)
    exact ⟨rfl, _, _, rfl⟩

theorem syscallRead_keeps (run : syscallRead s fd size = .ok (ret, buf, s')) : s.Keeps s' := by
  unfold syscallRead at run
  split at run
  · obtain ⟨_, _, rfl⟩ : syscallRetErr = ret ∧ List.replicate size 0 = buf ∧ s = s' := by simpa using pure_ok.mp run
    exact .refl s
  · simp only [bind_ok, Prod.exists] at run
    obtain ⟨result, bytes, file, vfs, _, run⟩ := run
    cases result with
    | none | some =>
      obtain ⟨_, rest⟩ := Prod.mk.inj (pure_ok.mp run)
      obtain ⟨_, rfl⟩ := Prod.mk.inj rest
      exact ⟨rfl, _, _, rfl⟩

theorem syscallWrite_keeps (run : syscallWrite s fd buf = .ok (ret, s')) : s.Keeps s' := by
  unfold syscallWrite at run
  split at run
  · obtain ⟨_, rfl⟩ := Prod.mk.inj (pure_ok.mp run)
    exact .refl s
  · simp only [bind_ok, Prod.exists] at run
    obtain ⟨result, file, vfs, _, run⟩ := run
    cases result with
    | none | some =>
      obtain ⟨_, rfl⟩ := Prod.mk.inj (pure_ok.mp run)
      exact ⟨rfl, _, _, rfl⟩

theorem syscallLseek_keeps (s : Serving M C F V) (fd position : Nat) : s.Keeps (syscallLseek s fd position).2 := by
  unfold syscallLseek
  split
  · exact .refl s
  · exact ⟨rfl, _, _, rfl⟩

theorem syscallClose_keeps (run : syscallClose s fd = .ok (ret, s')) : s.Keeps s' := by
  unfold syscallClose at run
  split at run
  · obtain ⟨_, rfl⟩ := Prod.mk.inj (pure_ok.mp run)
    exact .refl s
  · simp only [bind_ok, Prod.exists] at run
    obtain ⟨result, vfs, _, run⟩ := run
    cases result with
    | none | some =>
      obtain ⟨_, rfl⟩ := Prod.mk.inj (pure_ok.mp run)
      exact ⟨rfl, _, _, rfl⟩

omit [Vfs V F] in
theorem syscallSleep_keeps {timestamp : Nat} (run : syscallSleep s now timestamp = .ok s') : s.Keeps s' := by
  unfold syscallSleep at run
  split at run
  · obtain rfl := pure_ok.mp run
    exact ⟨rfl, _, _, rfl⟩
  · simp [throw_ok] at run

structure Serving.Writes (before after : Serving M C F V) : Prop where
  mem : after.mem = before.mem ∨ ∃ userAddr kernelBuf count,
    Sched.copyToUser before.task.pageAllocs before.mem userAddr kernelBuf = .ok (count, after.mem)
  task : ∃ nextSchedule fds, after.task = { before.task with nextSchedule := nextSchedule, fds := fds }

structure Serving.WritesTo (buffer : Nat × Nat) (before after : Serving M C F V) : Prop where
  mem : after.mem = before.mem ∨ ∃ kernelBuf count, kernelBuf.length = buffer.2 ∧
    Sched.copyToUser before.task.pageAllocs before.mem buffer.1 kernelBuf = .ok (count, after.mem)
  task : ∃ nextSchedule fds, after.task = { before.task with nextSchedule := nextSchedule, fds := fds }

def destination (unameMachine : String) (syscallNum a0 a1 a2 : UInt64) : Nat × Nat :=
  if syscallNum = SyscallNum.read then (a1.toNat, a2.toNat)
  else if syscallNum = SyscallNum.uname then (a0.toNat, (utsname unameMachine).length)
  else (0, 0)

omit [Vfs V F] in
theorem Serving.Keeps.writesTo (keeps : s.Keeps s') (buffer : Nat × Nat) : s.WritesTo buffer s' := ⟨.inl keeps.mem, keeps.task⟩

omit [Vfs V F] in
theorem Serving.Keeps.copyToUser {userAddr : UInt64} {kernelBuf : List UInt8} {between : Serving M C F V}
    (keeps : s.Keeps between) (run : between.copyToUser userAddr kernelBuf = .ok s') :
    s.WritesTo (userAddr.toNat, kernelBuf.length) s' := by
  simp only [Serving.copyToUser, bind_ok, pure_ok, Prod.exists] at run
  obtain ⟨count, mem, copied, rfl⟩ := run
  obtain ⟨nextSchedule, fds, same⟩ := keeps.task
  rw [same, keeps.mem] at copied
  exact ⟨.inr ⟨kernelBuf, count, rfl, copied⟩, nextSchedule, fds, same⟩

theorem syscallRead_length (run : syscallRead s fd size = .ok (ret, buf, s')) : buf.length = size := by
  unfold syscallRead at run
  split at run
  · obtain ⟨_, rfl, _⟩ : syscallRetErr = ret ∧ List.replicate size 0 = buf ∧ s = s' := by simpa using pure_ok.mp run
    exact List.length_replicate
  · simp only [bind_ok, Prod.exists] at run
    obtain ⟨result, bytes, file, vfs, _, run⟩ := run
    cases result with
    | none | some =>
      obtain ⟨_, rest⟩ := Prod.mk.inj (pure_ok.mp run)
      obtain ⟨rfl, _⟩ := Prod.mk.inj rest
      exact Vector.length_toList

theorem dispatchWithTask_writesTo {syscallNum : UInt64} {ret : Option UInt64}
    (run : dispatchWithTask unameMachine now fuel s syscallNum a0 a1 a2 = .ok (ret, s')) :
    s.WritesTo (destination unameMachine syscallNum a0 a1 a2) s' := by
  unfold dispatchWithTask at run
  split_ifs at run with opens reads writes seeks closes sleeps names
  · simp only [bind_ok, pure_ok, Prod.exists, Prod.mk.injEq] at run
    obtain ⟨_, _, _, _, opened, _, rfl⟩ := run
    exact (syscallOpen_keeps opened).writesTo _
  · simp only [bind_ok, pure_ok, Prod.exists, Prod.mk.injEq] at run
    obtain ⟨_, _, _, buf, _, read, _, copied, _, rfl⟩ := run
    rw [destination, if_pos reads, ← syscallRead_length read]
    exact (syscallRead_keeps read).copyToUser copied
  · simp only [bind_ok, pure_ok, Prod.exists, Prod.mk.injEq] at run
    obtain ⟨_, _, _, _, written, _, rfl⟩ := run
    exact (syscallWrite_keeps written).writesTo _
  · obtain ⟨_, rfl⟩ := Prod.mk.inj (pure_ok.mp run)
    exact (syscallLseek_keeps s _ _).writesTo _
  · simp only [bind_ok, pure_ok, Prod.exists, Prod.mk.injEq] at run
    obtain ⟨_, _, _, _, closed, _, rfl⟩ := run
    exact (syscallClose_keeps closed).writesTo _
  · simp only [bind_ok, pure_ok, Prod.mk.injEq] at run
    obtain ⟨_, slept, _, rfl⟩ := run
    exact (syscallSleep_keeps slept).writesTo _
  · simp only [bind_ok, pure_ok, Prod.mk.injEq] at run
    obtain ⟨_, copied, _, rfl⟩ := run
    rw [destination, if_neg reads, if_pos names]
    exact (Serving.Keeps.refl s).copyToUser copied
  · obtain ⟨_, rfl⟩ := Prod.mk.inj (pure_ok.mp run)
    exact (Serving.Keeps.refl s).writesTo _

theorem dispatchWithTask_writes {syscallNum : UInt64} {ret : Option UInt64}
    (run : dispatchWithTask unameMachine now fuel s syscallNum a0 a1 a2 = .ok (ret, s')) : s.Writes s' := by
  obtain ⟨mem, task⟩ := dispatchWithTask_writesTo run
  exact ⟨mem.imp_right fun ⟨kernelBuf, count, _, copied⟩ => ⟨_, kernelBuf, count, copied⟩, task⟩

theorem dispatchWithTask_fork (unameMachine : String) (now fuel : Nat) (s : Serving M C F V) (a0 a1 a2 : UInt64) :
    dispatchWithTask unameMachine now fuel s SyscallNum.fork a0 a1 a2 = .ok (none, s) := rfl

theorem dispatchWithTask_read
    (run : dispatchWithTask unameMachine now fuel s SyscallNum.read a0 a1 a2 = .ok (some ret, s')) :
    a2.toNat < 2 ^ 63 ∧ ∃ buf between, syscallRead s a0.toNat a2.toNat = .ok (ret, buf, between) ∧
        between.copyToUser a1 buf = .ok s' := by
  change (zeroed a2.toNat >>= fun _ => _) = _ at run
  simp only [bind_ok, Prod.exists, pure_ok, Prod.mk.injEq, Option.some.injEq, zeroed_ok] at run
  obtain ⟨_, ⟨small, _⟩, ret, buf, between, read, _, copied, rfl, rfl⟩ := run
  exact ⟨small, buf, between, read, copied⟩

theorem dispatchWithTask_write
    (run : dispatchWithTask unameMachine now fuel s SyscallNum.write a0 a1 a2 = .ok (some ret, s')) :
    a2.toNat < 2 ^ 63 ∧ ∃ bytes, copyFromUser s.task.pageAllocs s.mem a1.toNat a2.toNat = .ok bytes ∧
      syscallWrite s a0.toNat (bytes ++ List.replicate (a2.toNat - bytes.length) 0) = .ok (ret, s') := by
  change (s.copyFromUser a1 a2.toNat >>= fun _ => _) = _ at run
  simp only [Serving.copyFromUser, bind_ok, Prod.exists, pure_ok, Prod.mk.injEq, Option.some.injEq, zeroed_ok] at run
  obtain ⟨_, ⟨_, ⟨small, rfl⟩, bytes, read, rfl⟩, _, _, written, rfl, rfl⟩ := run
  rw [List.drop_replicate] at written
  exact ⟨small, bytes, read, written⟩

theorem dispatchWithTask_sleep (unameMachine : String) (now fuel : Nat) (s : Serving M C F V) (a0 a1 a2 : UInt64) :
    dispatchWithTask unameMachine now fuel s SyscallNum.sleep a0 a1 a2 =
      if now + a0.toNat < 2 ^ 64 then
        .ok (none, { s with task := { s.task with nextSchedule := some (now + a0.toNat) } })
      else .error .overflow := by
  change (do pure (none, ← syscallSleep s now a0.toNat)) = _
  rw [syscallSleep]
  split
  · rfl
  · rfl

end Effects

end Kernel31.Sched
