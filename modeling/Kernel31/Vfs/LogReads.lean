import Kernel31.Vfs.LogReader

namespace Kernel31.Vfs

open Checked
open List hiding Vector

section Cuts
variable {α : Type}

def cuts : List α → List Nat → List (List α)
  | _, [] => []
  | text, size :: sizes => text.take size :: cuts (text.drop size) sizes

theorem cuts_take (text : List α) (sizes : List Nat) (count : Nat) :
    (cuts text sizes).take count = cuts text (sizes.take count) := by
  induction sizes generalizing text count with
  | nil => rw [cuts, take_nil, take_nil, cuts]
  | cons size sizes ih =>
    cases count with
    | zero => rfl
    | succ count => rw [cuts, take_succ_cons, ih, take_succ_cons, cuts]

theorem flatten_cuts (text : List α) (sizes : List Nat) : (cuts text sizes).flatten = text.take sizes.sum := by
  induction sizes generalizing text with
  | nil => rw [cuts, flatten_nil, sum_nil, take_zero]
  | cons size sizes ih => rw [cuts, flatten_cons, ih, sum_cons, take_add]

theorem getElem?_cuts (text : List α) (sizes : List Nat) (place : Nat) :
    (cuts text sizes)[place]? = sizes[place]?.map fun size => (text.drop (sizes.take place).sum).take size := by
  induction sizes generalizing text place with
  | nil => rfl
  | cons size sizes ih =>
    cases place with
    | zero => rfl
    | succ place =>
      rw [cuts, getElem?_cons_succ, getElem?_cons_succ, ih, take_succ_cons, sum_cons]
      simp only [drop_drop]

theorem cuts_eq_nil_iff {text piece : List α} {sizes : List Nat} (positive : ∀ size ∈ sizes, 0 < size) {place : Nat}
    (here : (cuts text sizes)[place]? = some piece) : piece = [] ↔ ((cuts text sizes).take place).flatten = text := by
  rw [getElem?_cuts, Option.map_eq_some_iff] at here
  obtain ⟨size, member, rfl⟩ := here
  have large := positive size (mem_of_getElem? member)
  rw [cuts_take, flatten_cuts, take_eq_nil_iff, drop_eq_nil_iff, take_eq_self_iff]
  exact or_iff_right large.ne'

end Cuts

structure Reading where
  vfs : VirtualFileSystem DevFS
  world : Devices
  size : Nat
  buf : Vector UInt8 size

def Reading.Opens (reading : Reading) (file : VfsFile) (text : List UInt8) : Prop :=
  (∃ fs, reading.vfs.mountedFs[file.fsId]? = some fs ∧ fs.fds[file.fd.fd]? = some nameKmsg) ∧
    reading.world.kmsg.text = text

def readAll : VfsFile → List Reading → Exec (List (Except FsError (List UInt8)) × VfsFile)
  | file, [] => pure ([], file)
  | file, reading :: readings => do
    let (result, buf, file, _, _) ← reading.vfs.read reading.world file reading.buf
    let (outputs, file) ← readAll file readings
    pure (result.map (fun size => buf.toList.take size) :: outputs, file)

section Reads
variable {text : List UInt8}

theorem Reading.Opens.read {reading : Reading} {file : VfsFile} (opens : reading.Opens file text)
    (fits : file.offset + min reading.size (text.length - file.offset) < 2 ^ 64) :
    ∃ buf vfs, reading.vfs.read reading.world file reading.buf =
        .ok (.ok (min reading.size (text.length - file.offset)), buf,
          { file with offset := file.offset + min reading.size (text.length - file.offset) }, vfs, reading.world) ∧
      buf.toList.take (min reading.size (text.length - file.offset)) = (text.drop file.offset).take reading.size ∧
      Opens { reading with vfs := vfs } file text := by
  obtain ⟨⟨fs, mounted, known⟩, rfl⟩ := opens
  obtain ⟨buf, device, content⟩ := read_kmsg known reading.world reading.buf file.offset
  refine ⟨buf, _, VirtualFileSystem.read_ok.mpr ⟨fs, fs, mounted, device, ?_, rfl, rfl⟩, content, ⟨fs, ?_, known⟩, rfl⟩
  · rintro size ⟨⟩
    exact fits
  · exact Std.ExtTreeMap.getElem?_insert_self

theorem readAll_cuts {readings : List Reading} {file : VfsFile} (opens : ∀ reading ∈ readings, reading.Opens file text)
    (fits : file.offset + min (readings.map Reading.size).sum (text.length - file.offset) < 2 ^ 64) :
    ∃ file', readAll file readings =
      .ok ((cuts (text.drop file.offset) (readings.map Reading.size)).map Except.ok, file') := by
  induction readings generalizing file with
  | nil => exact ⟨file, rfl⟩
  | cons reading readings ih =>
    rw [map_cons, sum_cons] at fits
    have first : reading.Opens file text := opens reading mem_cons_self
    obtain ⟨buf, vfs, read, content, -⟩ := first.read (by omega)
    generalize count : min reading.size (text.length - file.offset) = size at read content
    have rest : text.drop (file.offset + size) = (text.drop file.offset).drop reading.size := by
      rw [drop_drop]
      rcases Nat.le_total reading.size (text.length - file.offset) with inside | past
      · rw [← count, Nat.min_eq_left inside]
      · rw [drop_of_length_le (by omega), drop_of_length_le (by omega)]
    obtain ⟨file', later⟩ := @ih { file with offset := file.offset + size }
      (fun reading mem => opens reading (mem_cons_of_mem _ mem)) (by simp only; omega)
    rw [rest] at later
    refine ⟨file', ?_⟩
    rw [readAll, read, ok_bind]
    dsimp only
    rw [later, ok_bind, Except.map, content]
    rfl

/-- A read returns the bytes of the text in its range, and reads from the start on return the text once and then
    nothing, while the offset fits a `u64`. -/
theorem log_reads_exact :
    (∀ (fs : DevFS) (world : Devices) (file : File) (n : Nat) (buf : Vector UInt8 n) (offset : Nat),
      fs.fds[file.fd]? = some nameKmsg →
      ∃ buf', fs.read world file buf offset = .ok (.ok (min n (world.kmsg.text.length - offset)), buf', world) ∧
        buf'.toList = (world.kmsg.text.drop offset).take n ++ buf.toList.drop (min n (world.kmsg.text.length - offset))) ∧
    ∀ (text : List UInt8) (file : VfsFile) (readings : List Reading), file.offset = 0 →
      (∀ reading ∈ readings, reading.Opens file text ∧ 0 < reading.size) →
      min (readings.map Reading.size).sum text.length < 2 ^ 64 →
      ∃ (chunks : List (List UInt8)) (file' : VfsFile), readAll file readings = .ok (chunks.map Except.ok, file') ∧
        chunks.flatten = text.take (readings.map Reading.size).sum ∧
        ∀ place chunk, chunks[place]? = some chunk → (chunk = [] ↔ (chunks.take place).flatten = text) := by
  refine ⟨fun fs world file n buf offset known => DevFS.read_log known world buf offset, ?_⟩
  intro text file readings start opens fits
  obtain ⟨file', run⟩ := readAll_cuts (fun reading mem => (opens reading mem).1)
    (by rw [start, Nat.zero_add, Nat.sub_zero]; exact fits)
  rw [start, drop_zero] at run
  refine ⟨_, file', run, flatten_cuts _ _, fun place chunk here => cuts_eq_nil_iff (fun size mem => ?_) here⟩
  obtain ⟨reading, member, rfl⟩ := mem_map.mp mem
  exact (opens reading member).2

theorem message_read_in_three :
    ∃ (s : LogReader) (chunks : List (List UInt8)) (file' : VfsFile),
      (LogReader.openLog 2 >>= fun start => start.call (.append 0 none .debug [0x61])) = .ok s ∧
      s.world.kmsg.text.length = 16 ∧
      readAll s.file (List.replicate 3 ⟨s.vfs, s.world, 10, Vector.replicate 10 0⟩) = .ok (chunks.map Except.ok, file') ∧
      chunks.flatten = s.world.kmsg.text.take 30 := by
  have played : passes (LogReader.openLog 2 >>= fun start => start.call (.append 0 none .debug [0x61])) (fun s =>
      decide ((s.vfs.mountedFs[s.file.fsId]?.bind fun fs => fs.fds[s.file.fd.fd]?) = some nameKmsg ∧
        s.file.offset = 0 ∧ s.world.kmsg.text.length = 16)) = true := by
    decide +kernel
  obtain ⟨s, run, test⟩ := exists_of_passes played
  obtain ⟨known, start, length⟩ := of_decide_eq_true test
  obtain ⟨chunks, file', read, whole, -⟩ := log_reads_exact.2 s.world.kmsg.text s.file
    (List.replicate 3 ⟨s.vfs, s.world, 10, Vector.replicate 10 0⟩) start
    (fun reading mem => by
      obtain rfl := eq_of_mem_replicate mem
      exact ⟨⟨Option.bind_eq_some_iff.mp known, rfl⟩, Nat.succ_pos 9⟩)
    (by rw [length]; exact Nat.lt_of_le_of_lt (Nat.min_le_right _ _) (by decide))
  exact ⟨s, chunks, file', run, length, read, whole⟩

end Reads

end Kernel31.Vfs
