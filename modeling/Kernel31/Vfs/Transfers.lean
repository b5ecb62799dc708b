import Kernel31.Sched.UserString
import Kernel31.Vfs.Closed
import Kernel31.Vfs.LogReader

namespace Kernel31.Vfs

open Checked Sched Slices Kernel31.Task VirtualFileSystem FileSystem
open List hiding Vector
open Page (pageSize)
open Paging (Memory virtPage)

variable {allocs : List PageAlloc} {userAddr size count place n offset fd now fuel : Nat} {places : List Nat}
  {fs fs' : DevFS} {world world' : Devices} {file : File} {buf : Vector UInt8 n} {result : Except FsError Nat}
  {M C : Type} {s s' : Serving M C VfsFile (VirtualFileSystem DevFS × Devices)} {ret a0 a1 a2 : UInt64}
  {unameMachine : String}

def Among (allocs : List PageAlloc) (userAddr count place : Nat) : Prop :=
  ∃ i < count, Backs allocs ((userAddr + i) % 2 ^ 64) place

theorem among_iff (ranged : Ranged allocs) (longest : Longest allocs userAddr size places) (covered : count ≤ places.length) :
    Among allocs userAddr count place ↔ place ∈ places.take count := by
  rw [mem_take_iff_getElem]
  constructor
  · rintro ⟨i, below, backs⟩
    have inside : i < places.length := by omega
    refine ⟨i, by omega, ?_⟩
    exact Backs.functional ranged (longest.covered i _ (getElem?_eq_getElem inside)) backs
  · rintro ⟨i, below, rfl⟩
    exact ⟨i, by omega, longest.covered i _ (getElem?_eq_getElem (by omega))⟩

theorem holds_take (longest : Longest allocs userAddr size places) (mem : Memory) (count : Nat) :
    Holds allocs mem userAddr ((places.take count).map (loadByte mem)) := by
  intro i byte found
  rw [getElem?_map, Option.map_eq_some_iff] at found
  obtain ⟨place, there, rfl⟩ := found
  rw [getElem?_take] at there
  split at there
  · exact ⟨place, longest.covered i place there, rfl⟩
  · cases there

variable {data other : List UInt8} {name : Path}

theorem copied_iff (ranged : Ranged allocs) (unshared : allocs.Pairwise PageAlloc.Unshared)
    (address : userAddr < 2 ^ 64) (usize : size < 2 ^ 64) (fits : data.length ≤ size) {mem after : Memory}
    (run : copyToUser allocs mem userAddr (data ++ List.replicate (size - data.length) 0) = .ok (count, after)) :
    (Holds allocs after userAddr data ∧
        ∀ place, ¬ Among allocs userAddr data.length place → loadByte after place = loadByte mem place) ↔
      ∃ places, Longest allocs userAddr size places ∧ data.length ≤ places.length ∧
        ∀ place ∈ places.drop data.length, loadByte mem place = 0 := by
  have length : (data ++ List.replicate (size - data.length) (0 : UInt8)).length = size := by
    rw [length_append, length_replicate]
    omega
  obtain ⟨places, walked, longest⟩ := ranged.copyAddresses_longest address size
  rw [copyToUser_eq, length, walked] at run
  obtain ⟨_, rfl⟩ := Prod.mk.inj (Except.ok.inj run)
  have stored : storeBytes mem places (data ++ List.replicate (size - data.length) 0) =
      storeBytes mem (places.take data.length ++ places.drop data.length) (data ++ List.replicate (size - data.length) 0) := by
    rw [take_append_drop]
  have nodup : (places.take data.length ++ places.drop data.length).Nodup := by
    rw [take_append_drop]
    exact longest.nodup unshared usize
  have room : (places.drop data.length).length ≤ size - data.length := by
    rw [length_drop]
    exact Nat.sub_le_sub_right longest.length_le _
  have split (covered : data.length ≤ places.length) :=
    storeBytes_zeros_iff nodup (length_take_of_le covered) room mem stored
  constructor
  · rintro ⟨holds, rest⟩
    have covered := holds.length_le longest fits
    refine ⟨places, longest, covered, (split covered).2.mp fun place other => ?_⟩
    exact rest place fun among => other ((among_iff ranged longest covered).mp among)
  · rintro ⟨others, longest', covered, zero⟩
    obtain rfl := longest.unique ranged longest'
    obtain ⟨written, kept⟩ := split covered
    refine ⟨?_, fun place other => kept.mpr zero place fun there => other ((among_iff ranged longest covered).mpr there)⟩
    have taken := holds_take longest (storeBytes mem places (data ++ List.replicate (size - data.length) 0)) data.length
    rwa [written] at taken

def transferred : Except FsError Nat → Nat
  | .ok size => size
  | .error _ => 0

def Filled (buf : Vector UInt8 n) (count : Nat) : Prop :=
  count ≤ n ∧ buf.toList = buf.toList.take count ++ List.replicate (n - count) 0

theorem filled_full (buf : Vector UInt8 n) : Filled buf n := by
  refine ⟨le_rfl, ?_⟩
  rw [Nat.sub_self, replicate_zero, append_nil, take_of_length_le (Vector.length_toList.le)]

theorem filled_zeros : Filled (Vector.replicate n 0) 0 := ⟨Nat.zero_le n, by simp⟩

theorem read_rest (run : read fs world file (Vector.replicate n 0) offset = .ok (result, buf, fs', world')) :
    fs' = fs ∧ Filled buf (transferred result) := by
  change (fs.read world file (Vector.replicate n 0) offset >>= fun _ => _) = _ at run
  simp only [bind_ok, Prod.exists, pure_ok, Prod.mk.injEq] at run
  obtain ⟨_, _, _, device, rfl, rfl, rfl, _⟩ := run
  refine ⟨rfl, ?_⟩
  rw [DevFS.read] at device
  split at device
  · rw [DevFS.readDevice] at device
    split at device
    · simp only [pure_ok, Prod.mk.injEq] at device
      obtain ⟨rfl, _⟩ := device
      exact filled_full _
    split at device
    · obtain ⟨size, buf', read, _, fits, _, after⟩ := readKmsg_ok world.kmsg.msgs offset (Vector.replicate n 0) (Nat.zero_le n)
      rw [read, ok_bind] at device
      simp only [pure_ok, Prod.mk.injEq] at device
      obtain ⟨rfl, rfl, _⟩ := device
      refine ⟨fits, ?_⟩
      rw [Vector.toList_replicate, drop_replicate] at after
      change _ = buf'.toList.take size ++ List.replicate (n - size) 0
      rw [← after, take_append_drop]
    split at device
    · simp only [bind_ok, Prod.exists, pure_ok, Prod.mk.injEq] at device
      obtain ⟨_, _, _, rfl, rfl, _⟩ := device
      exact filled_full _
    · simp only [pure_ok, Prod.mk.injEq] at device
      obtain ⟨rfl, rfl, _⟩ := device
      exact filled_zeros
  · simp only [pure_ok, Prod.mk.injEq] at device
    obtain ⟨rfl, rfl, _⟩ := device
    exact filled_zeros

theorem Received.unique (received : Received fs name world data world')
    (again : Received fs name world other world') (some : name ≠ nameNull) : data = other := by
  obtain ⟨_, _, minor, printed, found, here, rfl⟩ := received.resolve_left fun null => some null.1
  obtain ⟨_, _, minor', printed', found', here', same⟩ := again.resolve_left fun null => some null.1
  obtain ⟨rfl, rfl⟩ := Prod.mk.inj (Option.mem_unique found found')
  obtain rfl := Option.mem_unique here here'
  have inside := (List.getElem?_eq_some_iff.mp here).1
  have place := congrArg (fun devices => devices.charDevs[minor]?) same
  simp only [getElem?_set_self inside, Option.some.injEq] at place
  exact append_cancel_left place

theorem write_received {bytes : List UInt8}
    (run : write fs world file bytes offset = .ok (.ok n, fs', world')) :
    n = bytes.length ∧ ∃ name, fs.fds[file.fd]? = some name ∧ Received fs name world (Utf8.lossy bytes) world' := by
  obtain ⟨_, ⟨name, found, _, same, received⟩ | ⟨_, ⟨_, failed⟩, _⟩⟩ := write_cases run
  · exact ⟨Except.ok.inj same, name, found, received⟩
  · cases failed

def Reads (s : Serving M C VfsFile (VirtualFileSystem DevFS × Devices)) (fd size : Nat) (data : List UInt8) : Prop :=
  ∃ file buf rest, s.task.fds.fds fd = some file ∧
    s.vfs.1.read s.vfs.2 file (Vector.replicate size 0) = .ok (.ok data.length, buf, rest) ∧
    buf.toList.take data.length = data

def device (s : Serving M C VfsFile (VirtualFileSystem DevFS × Devices)) (fd : Nat) : Option (DevFS × Path) :=
  (s.task.fds.fds fd).bind fun file => s.vfs.1.mountedFs[file.fsId]?.bind fun fs => fs.fds[file.fd.fd]?.map (fs, ·)

/-- After `-1` no byte has changed; after a number that many bytes of the file are at the start of the buffer, and
    no other byte has changed. -/
def ReadTold (s s' : Serving M C VfsFile (VirtualFileSystem DevFS × Devices)) (fd userAddr size : Nat) (ret : UInt64) : Prop :=
  (ret = syscallRetErr → ∀ place, loadByte s'.mem place = loadByte s.mem place) ∧
    (ret ≠ syscallRetErr → ∃ data, Reads s fd size data ∧ ret = UInt64.ofNat data.length ∧
      Holds s.task.pageAllocs s'.mem userAddr data ∧
      ∀ place, ¬ Among s.task.pageAllocs userAddr data.length place → loadByte s'.mem place = loadByte s.mem place)

/-- After a write that returns a number, the file has that many bytes from the start of the user buffer. -/
def WriteTold (s s' : Serving M C VfsFile (VirtualFileSystem DevFS × Devices)) (fd userAddr size : Nat) (ret : UInt64) : Prop :=
  ret ≠ syscallRetErr → ∃ data fs name, ret = UInt64.ofNat data.length ∧ data.length ≤ size ∧
    Holds s.task.pageAllocs s.mem userAddr data ∧ device s fd = some (fs, name) ∧ Received fs name s.vfs.2 data s'.vfs.2

def told (ret : UInt64) : Nat := if ret = syscallRetErr then 0 else ret.toNat

/-- What the read gave fits into the mapped part of the buffer, and the rest of that part is zero anyway. -/
def ReadFits (s : Serving M C VfsFile (VirtualFileSystem DevFS × Devices)) (userAddr size : Nat) (ret : UInt64) : Prop :=
  ∃ places, Longest s.task.pageAllocs userAddr size places ∧ told ret ≤ places.length ∧
    ∀ place ∈ places.drop (told ret), loadByte s.mem place = 0

/-- The write failed, or all of the buffer is mapped and, unless it goes to the null device, is valid UTF-8. -/
def WriteFits (s : Serving M C VfsFile (VirtualFileSystem DevFS × Devices)) (fd userAddr size : Nat) (ret : UInt64) : Prop :=
  ret ≠ syscallRetErr → ∃ places, Longest s.task.pageAllocs userAddr size places ∧ places.length = size ∧
    ((device s fd).map Prod.snd = some nameNull ∨ Utf8.valid (places.map (loadByte s.mem)) = true)

theorem told_ofNat (small : count < 2 ^ 63) :
    UInt64.ofNat count ≠ syscallRetErr ∧ told (UInt64.ofNat count) = count := by
  have same : (UInt64.ofNat count).toNat = count := UInt64.toNat_ofNat_of_lt (Nat.lt_trans small (by decide))
  have nonnegative : UInt64.ofNat count ≠ syscallRetErr := by
    intro minus
    rw [minus] at same
    exact absurd (same ▸ small) (by decide)
  exact ⟨nonnegative, by rw [told, if_neg nonnegative, same]⟩

theorem told_returned (small : transferred result < 2 ^ 63) : told (returned result) = transferred result := by
  cases result with
  | error err => rfl
  | ok count => exact (told_ofNat small).2

theorem device_eq_some : device s fd = some (fs, name) ↔
    ∃ file, s.task.fds.fds fd = some file ∧ s.vfs.1.mountedFs[file.fsId]? = some fs ∧ fs.fds[file.fd.fd]? = some name := by
  simp only [device, Option.bind_eq_some_iff, Option.map_eq_some_iff, Prod.mk.injEq]
  constructor
  · rintro ⟨file, found, _, mounted, _, here, rfl, rfl⟩
    exact ⟨file, found, mounted, here⟩
  · rintro ⟨file, found, mounted, here⟩
    exact ⟨file, found, fs, mounted, name, here, rfl, rfl⟩

theorem syscallRead_filled (small : size < 2 ^ 63) {buf : List UInt8} (run : syscallRead s fd size = .ok (ret, buf, s')) :
    ∃ data, buf = data ++ List.replicate (size - data.length) 0 ∧ data.length ≤ size ∧ told ret = data.length ∧
      (ret ≠ syscallRetErr → Reads s fd size data ∧ ret = UInt64.ofNat data.length) := by
  cases found : s.task.fds.fds fd with
  | none =>
    simp only [syscallRead, found, pure_ok, Prod.mk.injEq] at run
    obtain ⟨rfl, rfl, _⟩ := run
    exact ⟨[], rfl, Nat.zero_le _, rfl, fun nonnegative => absurd rfl nonnegative⟩
  | some file =>
    rw [syscallRead_eq found, map_ok] at run
    obtain ⟨⟨result, buf', rest⟩, read, same⟩ := run
    simp only [Prod.mk.injEq] at same
    obtain ⟨rfl, rfl, _⟩ := same
    obtain ⟨fs, fs', _, own, _⟩ := read_ok.mp read
    obtain ⟨_, fits, filled⟩ := read_rest own
    have length : (buf'.toList.take (transferred result)).length = transferred result := by
      rw [length_take, Vector.length_toList, Nat.min_eq_left fits]
    refine ⟨buf'.toList.take (transferred result), ?_, ?_, ?_, ?_⟩
    · rwa [length]
    · rwa [length]
    · rw [length, told_returned (Nat.lt_of_le_of_lt fits small)]
    · intro nonnegative
      cases result with
      | ok count => exact ⟨⟨file, buf', rest, found, by rw [length]; exact read, by rw [length]⟩, by rw [length]; rfl⟩
      | error err => exact absurd rfl nonnegative

theorem Reads.unique (reads : Reads s fd size data) (again : Reads s fd size other) : data = other := by
  obtain ⟨file, buf, rest, found, read, taken⟩ := reads
  obtain ⟨file', buf', rest', found', read', taken'⟩ := again
  obtain rfl := Option.mem_unique found found'
  have same := read.symm.trans read'
  simp only [Except.ok.injEq, Prod.mk.injEq] at same
  obtain ⟨length, rfl, _⟩ := same
  rw [← taken, ← taken', length]

theorem syscallWrite_received {buf : List UInt8} (run : syscallWrite s fd buf = .ok (ret, s'))
    (success : ret ≠ syscallRetErr) :
    ret = UInt64.ofNat buf.length ∧
      ∃ fs name, device s fd = some (fs, name) ∧ Received fs name s.vfs.2 (Utf8.lossy buf) s'.vfs.2 := by
  change serve s (.write fd buf) = _ at run
  cases found : s.task.fds.fds fd with
  | none =>
    rw [serve_absent found rfl] at run
    exact absurd (Prod.mk.inj (Except.ok.inj run)).1.symm success
  | some file =>
    rw [serve_write found, map_ok] at run
    obtain ⟨⟨result, rest⟩, write, same⟩ := run
    simp only [Prod.mk.injEq] at same
    obtain ⟨rfl, rfl⟩ := same
    cases result with
    | error err => exact absurd rfl success
    | ok count =>
      obtain ⟨fs, fs', mounted, own, _⟩ := write_ok.mp write
      obtain ⟨rfl, name, opened, received⟩ := write_received own
      exact ⟨rfl, fs, name, device_eq_some.mpr ⟨file, found, mounted, opened⟩, received⟩

section Ranged

variable (ranged : Ranged s.task.pageAllocs)
include ranged

theorem readTold_iff (unshared : s.task.pageAllocs.Pairwise PageAlloc.Unshared)
    (run : dispatchWithTask unameMachine now fuel s SyscallNum.read a0 a1 a2 = .ok (some ret, s')) :
    ReadTold s s' a0.toNat a1.toNat a2.toNat ret ↔ ReadFits s a1.toNat a2.toNat ret := by
  obtain ⟨small, buf, between, read, copied⟩ := dispatchWithTask_read run
  obtain ⟨data, rfl, fits, count, gave⟩ := syscallRead_filled small read
  obtain ⟨mem, _, _, task⟩ := syscallRead_keeps read
  simp only [Serving.copyToUser, bind_ok, pure_ok, Prod.exists, task, mem] at copied
  obtain ⟨_, _, copied, rfl⟩ := copied
  have core := copied_iff ranged unshared a1.toNat_lt (Nat.lt_trans small (by decide)) fits copied
  rw [ReadFits, count, ← core]
  constructor
  · rintro ⟨failed, succeeded⟩
    by_cases minus : ret = syscallRetErr
    · obtain rfl : data = [] := eq_nil_of_length_eq_zero (by rw [← count, told, if_pos minus])
      exact ⟨by simp [Sched.Holds], fun place _ => failed minus place⟩
    · obtain ⟨other, reads, _, holds, rest⟩ := succeeded minus
      obtain rfl := reads.unique (gave minus).1
      exact ⟨holds, rest⟩
  · rintro ⟨holds, rest⟩
    refine ⟨fun minus place => ?_, fun success => ⟨data, (gave success).1, (gave success).2, holds, rest⟩⟩
    obtain rfl : data = [] := eq_nil_of_length_eq_zero (by rw [← count, told, if_pos minus])
    refine rest place ?_
    rintro ⟨_, below, _⟩
    exact absurd below (Nat.not_lt_zero _)

theorem writeTold_iff (run : dispatchWithTask unameMachine now fuel s SyscallNum.write a0 a1 a2 = .ok (some ret, s')) :
    WriteTold s s' a0.toNat a1.toNat a2.toNat ret ↔ WriteFits s a0.toNat a1.toNat a2.toNat ret := by
  obtain ⟨small, bytes, copied, write⟩ := dispatchWithTask_write run
  obtain ⟨places, walked, longest⟩ := ranged.copyAddresses_longest a1.toNat_lt a2.toNat
  obtain rfl : places.map (loadByte s.mem) = bytes := by
    rw [copyFromUser_eq, walked] at copied
    exact Except.ok.inj copied
  rw [length_map] at write
  refine forall_congr' fun success => ?_
  obtain ⟨value, fs, name, opened, received⟩ := syscallWrite_received write success
  have length : (places.map (loadByte s.mem) ++ List.replicate (a2.toNat - places.length) (0 : UInt8)).length = a2.toNat := by
    rw [length_append, length_map, length_replicate]
    exact Nat.add_sub_cancel' longest.length_le
  rw [length] at value
  constructor
  · rintro ⟨data, fs', name', value', fits, holds, opened', received'⟩
    obtain ⟨rfl, rfl⟩ := Prod.mk.inj (Option.mem_unique opened opened')
    have all : data.length = a2.toNat := by
      rw [← (told_ofNat (Nat.lt_of_le_of_lt fits small)).2, ← value', value, (told_ofNat small).2]
    have full : places.length = a2.toNat := le_antisymm longest.length_le (all ▸ holds.length_le longest fits)
    have read := holds.copyFromUser_eq ranged a1.toNat_lt (.inl all.symm)
    obtain rfl : places.map (loadByte s.mem) = data := ok_unique copied read
    refine ⟨places, longest, full, ?_⟩
    by_cases null : name = nameNull
    · exact .inl (by rw [opened, Option.map_some, null])
    · rw [full, Nat.sub_self, replicate_zero, append_nil] at received
      exact .inr ((Utf8.lossy_eq_self_iff _).mp (received.unique received' null))
  · rintro ⟨others, longest', full, accepted⟩
    obtain rfl := longest.unique ranged longest'
    rw [full, Nat.sub_self, replicate_zero, append_nil] at received
    have sized : (places.map (loadByte s.mem)).length = a2.toNat := by rw [length_map, full]
    have holds := holds_take longest s.mem places.length
    rw [take_length] at holds
    refine ⟨_, fs, name, by rw [sized]; exact value, sized.le, holds, opened, ?_⟩
    rcases accepted with null | valid
    · rw [opened, Option.map_some, Option.some.injEq] at null
      exact .inl ⟨null, (received.resolve_right fun other => other.1 null).2⟩
    · rwa [(Utf8.lossy_eq_self_iff _).mpr valid] at received

end Ranged

def threeOpen : Exec (Serving Unit Unit VfsFile (VirtualFileSystem DevFS × Devices)) := do
  let root ← vfsInit
  let (_, s) ← syscallOpen (serving root) (pointDev ++ slash :: nameKmsg)
  let (_, s) ← syscallOpen s (pointDev ++ slash :: nameNull)
  let (_, s) ← syscallOpen s (pointDev ++ slash :: nameZero)
  pure { s with task := { s.task with pageAllocs := adjacent }, mem := fun _ _ => 0x0101010101010101 }

def Returns (s : Serving Unit Unit VfsFile (VirtualFileSystem DevFS × Devices)) (num a0 a1 a2 ret : UInt64) : Bool :=
  passes (dispatchWithTask "" 0 0 s num a0 a1 a2) fun answer => answer.1 = some ret

theorem threeOpen_calls :
    ∃ s, threeOpen = .ok s ∧ decide (s.task.pageAllocs = adjacent ∧ loadByte s.mem (virtPage 7 * pageSize) = 1 ∧
      (device s 1).map Prod.snd = some nameNull ∧
      (Returns s SyscallNum.read 2 0x1000 4 4 ∧ Returns s SyscallNum.write 1 0x1000 4 4) ∧
      Returns s SyscallNum.read 0 0x1000 4 0 ∧ Returns s SyscallNum.read 9 0x1000 4 syscallRetErr ∧
      Returns s SyscallNum.write 1 0x2fff 2 2) = true :=
  exists_of_passes (by decide +kernel)

theorem Returns.run {s : Serving Unit Unit VfsFile (VirtualFileSystem DevFS × Devices)} {num : UInt64}
    (returns : Returns s num a0 a1 a2 ret) : ∃ s', dispatchWithTask "" 0 0 s num a0 a1 a2 = .ok (some ret, s') := by
  obtain ⟨⟨value, s'⟩, run, test⟩ := exists_of_passes returns
  obtain rfl : value = some ret := of_decide_eq_true test
  exact ⟨s', run⟩

def lowPlaces : List Nat := [0, 1, 2, 3].map (virtPage 7 * pageSize + ·)

theorem lowPlaces_longest : Longest adjacent 0x1000 4 lowPlaces := by
  obtain ⟨places, walked, longest⟩ := adjacent_ranged.1.copyAddresses_longest (by decide : 0x1000 < 2 ^ 64) 4
  have same : copyAddresses adjacent 4 0x1000 4 = .ok lowPlaces := rfl
  rwa [← ok_unique walked same]

end Kernel31.Vfs
