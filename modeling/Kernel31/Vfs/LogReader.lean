import Kernel31.Library.Lists
import Kernel31.Library.Maps
import Kernel31.Vfs.Model

namespace Kernel31.Vfs

open Checked Slices KernelMessageEntry
open List hiding Vector
open Elf (slice)

variable {α : Type} {n : Nat} {s s' : LogReader}

/-- Values of a stream in its order; of those before the last one only some of the first `gone` ones are missing. -/
def DeliveredInOrder (stream : List α) (gone : Nat) (delivered : List α) : Prop :=
  ∃ positions : List Nat, positions.Pairwise (· < ·) ∧ delivered.map some = positions.map (stream[·]?) ∧
    ∀ missing last, last ∈ positions → missing < last → missing ∉ positions → missing < gone

theorem deliveredInOrder_take (front back : List α) (count : Nat) :
    DeliveredInOrder (front ++ back) front.length (back.take count) := by
  refine ⟨List.range' front.length (back.take count).length, pairwise_lt_range', ?_, ?_⟩
  · refine ext_getElem (by simp) fun place here _ => ?_
    rw [length_map, length_take] at here
    simp only [getElem_map, getElem_take, getElem_range', Nat.one_mul]
    rw [getElem?_append_right (Nat.le_add_right _ _), Nat.add_sub_cancel_left,
      getElem?_eq_getElem (Nat.lt_of_lt_of_le here (Nat.min_le_right _ _))]
  · intro missing last member before absent
    rw [mem_range'_1] at member absent
    omega

theorem not_deliveredInOrder {stream delivered : List α} {gone missing : Nat} {lost last : α} (later : gone ≤ missing)
    (here : stream[missing]? = some lost) (skipped : lost ∉ delivered) (read : last ∈ delivered)
    (after : last ∉ stream.take (missing + 1)) : ¬ DeliveredInOrder stream gone delivered := by
  rintro ⟨positions, _, same, complete⟩
  have mapped (value : α) : value ∈ delivered ↔ ∃ place ∈ positions, stream[place]? = some value := by
    rw [← mem_map, ← same, mem_map]
    simp
  obtain ⟨place, member, found⟩ := (mapped last).mp read
  have beyond : missing < place := by
    by_contra before
    have inside := getElem?_take_of_lt (l := stream) (show place < missing + 1 by omega)
    exact after (mem_of_getElem? (inside.trans found))
  have absent : missing ∉ positions := fun there => skipped ((mapped lost).mpr ⟨missing, there, here⟩)
  exact absurd (complete missing place member beyond absent) (Nat.not_lt.mpr later)

theorem take_append_min (front back : List α) (count : Nat) :
    front.take (min count front.length) ++ back.take (count - min count front.length) = (front ++ back).take count := by
  rw [take_append, ← take_eq_take_min]
  congr 2
  omega

theorem readKmsg_ok (entries : List KernelMessageEntry) (offset : Nat) {bufOff : Nat} (buf : Vector UInt8 n)
    (inside : bufOff ≤ n) :
    ∃ size buf', DevFS.readKmsg entries offset bufOff buf = .ok (size, buf') ∧ bufOff ≤ size ∧ size ≤ n ∧
      buf'.toList.take size = buf.toList.take bufOff ++
        ((entries.flatMap text).drop offset).take (n - bufOff) ∧
      buf'.toList.drop size = buf.toList.drop size := by
  induction entries generalizing offset bufOff buf with
  | nil => exact ⟨bufOff, buf, rfl, le_rfl, inside, by simp, rfl⟩
  | cons entry entries ih =>
    rw [DevFS.readKmsg]
    split
    case isTrue full =>
      subst full
      exact ⟨bufOff, buf, rfl, le_rfl, le_rfl, by simp, rfl⟩
    case isFalse room =>
      rw [flatMap_cons, drop_append]
      dsimp only
      split
      case isTrue past =>
        rw [drop_of_length_le past, nil_append]
        exact ih _ buf inside
      case isFalse within =>
        have rest : offset - entry.text.length = 0 := by omega
        rw [rest, drop_zero]
        have whole := take_append_min (entry.text.drop offset) (entries.flatMap text) (n - bufOff)
        rw [length_drop] at whole
        rw [← whole]
        generalize length : min (n - bufOff) (entry.text.length - offset) = readSize
        have cut : slice entry.text offset (offset + readSize) = .ok ((entry.text.drop offset).take readSize) := by
          rw [slice, if_pos ⟨Nat.le_add_right _ _, by omega⟩, Nat.add_sub_cancel_left]
          rfl
        have bounded : bufOff + readSize ≤ n := by omega
        have sized : ((entry.text.drop offset).take readSize).length = bufOff + readSize - bufOff := by
          rw [length_take, length_drop]
          omega
        obtain ⟨filled, copied, bytes⟩ := copyFromSlice_ok buf (Nat.le_add_right bufOff readSize) bounded sized
        have front : (buf.toList.take bufOff ++ (entry.text.drop offset).take readSize).length = bufOff + readSize := by
          simp only [length_append, length_take, length_drop, Vector.length_toList]
          omega
        rw [← append_assoc] at bytes
        obtain ⟨size, buf', run, later, fits, content, after⟩ := ih 0 filled bounded
        refine ⟨size, buf', ?_, by omega, fits, ?_, ?_⟩
        · rw [cut, ok_bind, copied, ok_bind, run]
        · rw [content, bytes, drop_zero, Nat.sub_add_eq, ← append_assoc]
          congr 1
          exact take_left' front
        · rw [after, bytes, drop_append, front, drop_of_length_le (front.trans_le later), nil_append,
            drop_drop, Nat.add_sub_cancel' later]

theorem DevFS.read_log {fs : DevFS} {file : File} (known : fs.fds[file.fd]? = some nameKmsg) (world : Devices)
    (buf : Vector UInt8 n) (offset : Nat) :
    ∃ buf', fs.read world file buf offset = .ok (.ok (min n (world.kmsg.text.length - offset)), buf', world) ∧
      buf'.toList = (world.kmsg.text.drop offset).take n ++ buf.toList.drop (min n (world.kmsg.text.length - offset)) := by
  obtain ⟨size, buf', run, _, fits, content, after⟩ := readKmsg_ok world.kmsg.msgs offset buf (Nat.zero_le n)
  rw [take_zero, nil_append] at content
  change buf'.toList.take size = (world.kmsg.text.drop offset).take n at content
  have count : size = min n (world.kmsg.text.length - offset) := by
    have lengths := congrArg List.length content
    rw [length_take, length_take, length_drop, Vector.length_toList] at lengths
    omega
  subst count
  refine ⟨buf', ?_, ?_⟩
  · rw [DevFS.read, known]
    change DevFS.readDevice world nameKmsg buf offset = _
    rw [DevFS.readDevice, if_neg (by decide), if_pos rfl, run]
    rfl
  · rw [← content, ← after, take_append_drop]

theorem read_kmsg {fs : DevFS} {file : File} (known : fs.fds[file.fd]? = some nameKmsg) (world : Devices)
    (buf : Vector UInt8 n) (offset : Nat) :
    ∃ buf', FileSystem.read fs world file buf offset = .ok (.ok (min n (world.kmsg.text.length - offset)), buf', fs, world) ∧
      buf'.toList.take (min n (world.kmsg.text.length - offset)) = (world.kmsg.text.drop offset).take n := by
  obtain ⟨buf', device, content⟩ := DevFS.read_log known world buf offset
  refine ⟨buf', ?_, ?_⟩
  · change (fs.read world file buf offset >>= fun _ => _) = _
    rw [device]
    rfl
  · rw [content]
    exact take_left' (by rw [length_take, length_drop])

theorem KernelMessage.addMessage_ok {self self' : KernelMessage} {time : Nat} {module : Option (List UInt8)}
    {level : KernelMessageLevel} {msg : List UInt8} (run : self.addMessage time module level msg = .ok self') :
    self'.maxLog = self.maxLog ∧ self'.msgs = (if self.maxLog < self.msgs.length + 1
      then (self.msgs ++ [KernelMessageEntry.mk level time msg module]).tail
      else self.msgs ++ [KernelMessageEntry.mk level time msg module]) := by
  rw [addMessage, length_append, length_singleton] at run
  split at run
  · obtain rfl := pure_ok.mp run
    exact ⟨rfl, rfl⟩
  · split at run
    · cases run
    · obtain rfl := pure_ok.mp run
      exact ⟨rfl, rfl⟩

structure LogReader where
  vfs : VirtualFileSystem DevFS
  world : Devices
  file : VfsFile
  history : List KernelMessageEntry
  delivered : List UInt8

inductive LogOp where
  | append (time : Nat) (module : Option (List UInt8)) (level : KernelMessageLevel) (msg : List UInt8)
  | read (n : Nat) (buf : Vector UInt8 n)

namespace LogReader

def call (s : LogReader) : LogOp → Exec LogReader
  | .append time module level msg => do
    let kmsg ← s.world.kmsg.addMessage time module level msg
    pure { s with world := { s.world with kmsg := kmsg }, history := s.history ++ [⟨level, time, msg, module⟩] }
  | .read _ buf => do
    let (result, buf, file, vfs, world) ← s.vfs.read s.world s.file buf
    match result with
    | .ok size => pure ⟨vfs, world, file, s.history, s.delivered ++ buf.toList.take size⟩
    | .error _ => pure ⟨vfs, world, file, s.history, s.delivered⟩

def evictedBytes (s : LogReader) : Nat :=
  ((s.history.take (s.history.length - s.world.kmsg.msgs.length)).flatMap text).length

def Safe (s : LogReader) : LogOp → Prop
  | .append _ _ _ _ => s.world.kmsg.msgs.length < s.world.kmsg.maxLog ∨ s.file.offset = 0
  | .read _ _ => True

instance (s : LogReader) : (op : LogOp) → Decidable (s.Safe op)
  | .append _ _ _ _ => inferInstanceAs (Decidable (_ ∨ _))
  | .read _ _ => inferInstanceAs (Decidable True)

def SafeStep (s s' : LogReader) : Prop := ∃ op, s.Safe op ∧ s.call op = .ok s'

structure Sound (now : LogReader) : Prop where
  kmsg : ∃ fs, now.vfs.mountedFs[now.file.fsId]? = some fs ∧ fs.fds[now.file.fd.fd]? = some nameKmsg
  suffix : now.world.kmsg.msgs <:+ now.history
  inside : now.file.offset ≤ now.world.kmsg.text.length
  delivered : now.delivered = now.world.kmsg.text.take now.file.offset

structure Opened (now : LogReader) : Prop where
  kmsg : ∃ fs, now.vfs.mountedFs[now.file.fsId]? = some fs ∧ fs.fds[now.file.fd.fd]? = some nameKmsg
  suffix : now.world.kmsg.msgs <:+ now.history
  offset : now.file.offset = 0
  delivered : now.delivered = []

theorem Opened.sound (opened : s.Opened) : s.Sound :=
  ⟨opened.kmsg, opened.suffix, opened.offset ▸ Nat.zero_le _, by rw [opened.delivered, opened.offset, take_zero]⟩

theorem Sound.append (sound : s.Sound) {time : Nat} {module : Option (List UInt8)} {level : KernelMessageLevel}
    {msg : List UInt8} (safe : s.Safe (.append time module level msg))
    (run : s.call (.append time module level msg) = .ok s') : s'.Sound := by
  simp only [call, bind_ok, pure_ok] at run
  obtain ⟨kmsg, added, rfl⟩ := run
  obtain ⟨_, msgs⟩ := KernelMessage.addMessage_ok added
  obtain ⟨gone, split⟩ := sound.suffix
  have kept : (s.world.kmsg.msgs ++ [⟨level, time, msg, module⟩]) <:+ s.history ++ [⟨level, time, msg, module⟩] :=
    ⟨gone, by rw [← split, append_assoc]⟩
  split at msgs
  case isTrue evicts =>
    have unread : s.file.offset = 0 := by
      rcases safe with room | unread
      · omega
      · exact unread
    refine ⟨sound.kmsg, ?_, unread ▸ Nat.zero_le _, ?_⟩
    · rw [msgs]
      exact (tail_suffix _).trans kept
    · have nothing := sound.delivered
      rw [unread, take_zero] at nothing
      rw [nothing, unread, take_zero]
  case isFalse =>
    have text : kmsg.text = s.world.kmsg.text ++ text ⟨level, time, msg, module⟩ := by
      rw [KernelMessage.text, msgs, flatMap_append, flatMap_singleton]
      rfl
    refine ⟨sound.kmsg, msgs ▸ kept, ?_, ?_⟩
    · rw [text, length_append]
      exact Nat.le_add_right_of_le sound.inside
    · rw [text, take_append_of_le_length sound.inside]
      exact sound.delivered

theorem Sound.read (sound : s.Sound) {buf : Vector UInt8 n} (run : s.call (.read n buf) = .ok s') : s'.Sound := by
  simp only [call, bind_ok, Prod.exists] at run
  obtain ⟨result, buf', file, vfs, world, read, run⟩ := run
  obtain ⟨fs, mounted, known⟩ := sound.kmsg
  obtain ⟨fs', next, found, own, _, rfl, rfl⟩ := VirtualFileSystem.read_ok.mp read
  obtain rfl := Option.mem_unique mounted found
  obtain ⟨bytes, device, content⟩ := read_kmsg known s.world buf s.file.offset
  generalize count : min n (s.world.kmsg.text.length - s.file.offset) = size at device content
  rw [device] at own
  simp only [Except.ok.injEq, Prod.mk.injEq] at own
  obtain ⟨rfl, rfl, rfl, rfl⟩ := own
  obtain rfl := pure_ok.mp run
  refine ⟨⟨fs, ?_, known⟩, sound.suffix, ?_, ?_⟩
  · exact Std.ExtTreeMap.getElem?_insert_self
  · have inside := sound.inside
    change s.file.offset + size ≤ s.world.kmsg.text.length
    omega
  · change s.delivered ++ bytes.toList.take size = s.world.kmsg.text.take (s.file.offset + size)
    rw [content, sound.delivered, take_add, ← count, ← length_drop, ← take_eq_take_min]

theorem Sound.safeStep (sound : s.Sound) (step : s.SafeStep s') : s'.Sound := by
  obtain ⟨op, safe, run⟩ := step
  cases op with
  | append time module level msg => exact sound.append safe run
  | read n buf => exact sound.read run

/-- While messages leave the log only before the first read, the bytes are the stream in order, without only those
    that left. -/
theorem log_delivered_in_order {start s : LogReader} (opened : start.Opened)
    (run : Relation.ReflTransGen SafeStep start s) :
    DeliveredInOrder (s.history.flatMap text) s.evictedBytes s.delivered := by
  have sound : s.Sound := Runs.preserved Sound (fun _ _ sound step => sound.safeStep step) opened.sound run
  obtain ⟨gone, split⟩ := sound.suffix
  have evicted : s.history.take (s.history.length - s.world.kmsg.msgs.length) = gone := by
    rw [← split, length_append, Nat.add_sub_cancel, take_left]
  rw [evictedBytes, evicted, ← split, flatMap_append, sound.delivered]
  exact deliveredInOrder_take _ _ _

def openLog (maxLog : Nat) : Exec LogReader := do
  let root ← vfsInit
  let (result, vfs) ← root.open (pointDev ++ slash :: nameKmsg)
  match result with
  | .ok file => pure ⟨vfs, { Devices.default with kmsg := KernelMessage.default.setMaxLog maxLog }, file, [], []⟩
  | .error _ => throw .assertion

def atStart (s : LogReader) : Bool :=
  decide ((s.vfs.mountedFs[s.file.fsId]?.bind fun fs => fs.fds[s.file.fd.fd]?) = some nameKmsg ∧
    s.world.kmsg.msgs = [] ∧ s.file.offset = 0 ∧ s.delivered = [])

theorem opened_of_atStart (test : s.atStart = true) : s.Opened := by
  obtain ⟨known, empty, offset, delivered⟩ := of_decide_eq_true test
  exact ⟨Option.bind_eq_some_iff.mp known, empty ▸ nil_suffix, offset, delivered⟩

def twoMessages : List LogOp :=
  [.append 0 none .debug [0x61], .read 16 (Vector.replicate 16 0), .append 0 none .debug [0x62, 0x63],
    .read 32 (Vector.replicate 32 0)]

theorem both_messages_read :
    ∃ start s, openLog 2 = .ok start ∧ Relation.ReflTransGen SafeStep start s ∧ s.delivered.length = 33 ∧
      DeliveredInOrder (s.history.flatMap text) s.evictedBytes s.delivered := by
  have played : passes (openLog 2) (fun start => start.atStart && (twoMessages.foldlM (Runs.play Safe call) start).any
      fun s => decide (s.delivered.length = 33)) = true := by
    decide +kernel
  obtain ⟨start, opened, test⟩ := exists_of_passes played
  obtain ⟨fresh, played⟩ := (Bool.and_eq_true _ _).mp test
  obtain ⟨s, played, length⟩ := (Option.any_eq_true _ _).mp played
  have run := Runs.of_play played
  exact ⟨start, s, opened, run, of_decide_eq_true length, log_delivered_in_order (opened_of_atStart fresh) run⟩

/-- With room for one message, the second one is read from the place where the first one ended. -/
theorem second_message_skipped :
    ∃ start s, openLog 1 = .ok start ∧ start.Opened ∧ twoMessages.foldlM call start = .ok s ∧
      ¬ DeliveredInOrder (s.history.flatMap text) s.evictedBytes s.delivered := by
  have played : passes (openLog 1) (fun start => start.atStart && passes (twoMessages.foldlM call start)
      fun s => decide (s.evictedBytes ≤ 31 ∧ (s.history.flatMap text)[31]? = some 0x62 ∧
        0x62 ∉ s.delivered ∧ 0x63 ∈ s.delivered ∧ 0x63 ∉ (s.history.flatMap text).take 32)) = true := by
    decide +kernel
  obtain ⟨start, opened, test⟩ := exists_of_passes played
  obtain ⟨fresh, played⟩ := (Bool.and_eq_true _ _).mp test
  obtain ⟨s, run, test⟩ := exists_of_passes played
  obtain ⟨later, here, skipped, read, after⟩ := of_decide_eq_true test
  exact ⟨start, s, opened, opened_of_atStart fresh, run, not_deliveredInOrder later here skipped read after⟩

end LogReader

end Kernel31.Vfs
