import Kernel31.Vfs.LogReader

namespace Kernel31.Vfs

open Checked List

/-- `add_message`, `set_max_log`, or an assignment to `output_handler` of a device that may have printed already, or
    of none. -/
inductive MessageOp where
  | addMessage (entry : KernelMessageEntry)
  | setMaxLog (max : Nat)
  | setHandler (outputHandler : Option (List UInt8))
  deriving DecidableEq, Repr

structure MessageLog where
  kmsg : KernelMessage
  history : List KernelMessageEntry
  deriving DecidableEq, Repr

namespace MessageOp

def added : MessageOp → List KernelMessageEntry
  | .addMessage entry => [entry]
  | .setMaxLog _ => []
  | .setHandler _ => []

def limit (maxLog : Nat) : MessageOp → Nat
  | .addMessage _ => maxLog
  | .setMaxLog max => max
  | .setHandler _ => maxLog

def output (outputHandler : Option (List UInt8)) : MessageOp → Option (List UInt8)
  | .addMessage entry => outputHandler.map (· ++ entry.text)
  | .setMaxLog _ => outputHandler
  | .setHandler outputHandler => outputHandler

end MessageOp

namespace MessageLog

def default : MessageLog := ⟨KernelMessage.default, []⟩

def call (s : MessageLog) : MessageOp → Exec MessageLog
  | .addMessage entry => do
    let kmsg ← s.kmsg.addMessage entry.time entry.module entry.level entry.message
    pure ⟨kmsg, s.history ++ [entry]⟩
  | .setMaxLog max => pure { s with kmsg := s.kmsg.setMaxLog max }
  | .setHandler outputHandler => pure { s with kmsg := { s.kmsg with outputHandler := outputHandler } }

def Step (s s' : MessageLog) : Prop := ∃ op, s.call op = .ok s'

structure Keeps (s : MessageLog) (op : MessageOp) (s' : MessageLog) : Prop where
  history : s'.history = s.history ++ op.added
  suffix : s'.kmsg.msgs <:+ s'.history
  limit : s'.kmsg.maxLog = op.limit s.kmsg.maxLog
  length : s'.kmsg.msgs.length = min (s.kmsg.msgs.length + op.added.length) s'.kmsg.maxLog
  output : s'.kmsg.outputHandler = op.output s.kmsg.outputHandler

def Printable (s : MessageLog) : MessageOp → Prop
  | .addMessage _ => s.kmsg.outputHandler = none ∨ 0 < s.kmsg.maxLog
  | .setMaxLog _ => True
  | .setHandler _ => True

structure Bounded (now : MessageLog) : Prop where
  suffix : now.kmsg.msgs <:+ now.history
  length : now.kmsg.msgs.length ≤ now.kmsg.maxLog

section Calls
variable {s s' : MessageLog}

theorem bounded_default : default.Bounded := ⟨suffix_rfl, Nat.zero_le _⟩

theorem Keeps.bounded {op : MessageOp} (keeps : s.Keeps op s') : s'.Bounded :=
  ⟨keeps.suffix, keeps.length ▸ Nat.min_le_right _ _⟩

theorem Bounded.pushed (bounded : s.Bounded) (entry : KernelMessageEntry) :
    (if s.kmsg.maxLog < (s.kmsg.msgs ++ [entry]).length then (s.kmsg.msgs ++ [entry]).tail else s.kmsg.msgs ++ [entry]) =
      (s.kmsg.msgs ++ [entry]).drop (s.kmsg.msgs.length + 1 - s.kmsg.maxLog) := by
  have inside := bounded.length
  rw [length_append, length_singleton]
  split
  · rw [show s.kmsg.msgs.length + 1 - s.kmsg.maxLog = 1 by omega, drop_one]
  · rw [show s.kmsg.msgs.length + 1 - s.kmsg.maxLog = 0 by omega, drop_zero]

theorem Bounded.addMessage (bounded : s.Bounded) (entry : KernelMessageEntry) (printable : s.Printable (.addMessage entry)) :
    s.call (.addMessage entry) = .ok ⟨⟨(s.kmsg.msgs ++ [entry]).drop (s.kmsg.msgs.length + 1 - s.kmsg.maxLog), s.kmsg.maxLog,
      s.kmsg.outputHandler.map (· ++ entry.text)⟩, s.history ++ [entry]⟩ := by
  rw [call, KernelMessage.addMessage, bounded.pushed]
  cases handler : s.kmsg.outputHandler with
  | none => rfl
  | some printed =>
    have room : 0 < s.kmsg.maxLog := printable.resolve_left (by rw [handler]; exact Option.some_ne_none _)
    have last : ((s.kmsg.msgs ++ [entry]).drop (s.kmsg.msgs.length + 1 - s.kmsg.maxLog)).getLast? = some entry := by
      rw [getLast?_drop, if_neg (by simp; omega), getLast?_concat]
    dsimp only
    rw [last]
    rfl

theorem Bounded.keeps (bounded : s.Bounded) {op : MessageOp} (printable : s.Printable op) :
    ∃ s', s.call op = .ok s' ∧ s.Keeps op s' := by
  cases op with
  | addMessage entry =>
    refine ⟨_, bounded.addMessage entry printable, rfl, ?_, rfl, ?_, rfl⟩
    · obtain ⟨gone, split⟩ := bounded.suffix
      exact (drop_suffix _ _).trans ⟨gone, by rw [← split, append_assoc]⟩
    · rw [length_drop, length_append, length_singleton]
      change _ = min (s.kmsg.msgs.length + 1) s.kmsg.maxLog
      omega
  | setMaxLog max =>
    refine ⟨_, rfl, (append_nil _).symm, (drop_suffix _ _).trans bounded.suffix, rfl, ?_, rfl⟩
    change (s.kmsg.msgs.drop (s.kmsg.msgs.length - max)).length = min (s.kmsg.msgs.length + 0) max
    rw [length_drop]
    omega
  | setHandler outputHandler =>
    exact ⟨_, rfl, (append_nil _).symm, bounded.suffix, rfl, (Nat.min_eq_left bounded.length).symm, rfl⟩

theorem Bounded.panics (bounded : s.Bounded) {op : MessageOp} (unprintable : ¬ s.Printable op) :
    s.call op = .error .unwrapNone := by
  cases op with
  | addMessage entry =>
    obtain ⟨handler, full⟩ := not_or.mp unprintable
    obtain ⟨printed, handler⟩ := Option.ne_none_iff_exists'.mp handler
    rw [call, KernelMessage.addMessage, bounded.pushed, handler, Nat.eq_zero_of_not_pos full, Nat.sub_zero,
      drop_of_length_le (by rw [length_append, length_singleton])]
    rfl
  | setMaxLog max => exact absurd trivial unprintable
  | setHandler outputHandler => exact absurd trivial unprintable

theorem Bounded.step (bounded : s.Bounded) (step : s.Step s') : s'.Bounded := by
  obtain ⟨op, run⟩ := step
  by_cases printable : s.Printable op
  · obtain ⟨after, same, keeps⟩ := bounded.keeps printable
    rw [run] at same
    cases same
    exact keeps.bounded
  · rw [bounded.panics printable] at run
    cases run

/-- The log keeps the last messages, and a call returns unless a message is to be printed of which none is kept. -/
theorem messages_kept_iff (run : Relation.ReflTransGen Step default s) :
    s.kmsg.msgs <:+ s.history ∧ ∀ op, (∃ s', s.call op = .ok s' ∧ s.Keeps op s') ↔ s.Printable op := by
  have bounded : s.Bounded := Runs.preserved Bounded (fun _ _ bounded step => bounded.step step) bounded_default run
  refine ⟨bounded.suffix, fun op => ⟨?_, bounded.keeps⟩⟩
  rintro ⟨s', returned, -⟩
  by_contra unprintable
  rw [bounded.panics unprintable] at returned
  cases returned

theorem message_printed : ∃ s, Relation.ReflTransGen Step default s ∧
    ∃ s', s.call (.addMessage ⟨.debug, 0, [0x61], none⟩) = .ok s' ∧ s.Keeps (.addMessage ⟨.debug, 0, [0x61], none⟩) s' := by
  have run : Relation.ReflTransGen Step default ⟨⟨[], 1, some []⟩, []⟩ :=
    (Relation.ReflTransGen.single ⟨.setMaxLog 1, rfl⟩).tail ⟨.setHandler (some []), rfl⟩
  refine ⟨_, run, ((messages_kept_iff run).2 _).mpr ?_⟩
  exact Or.inr Nat.one_pos

theorem limit_zero_panics :
    ([.setHandler (some []), .setMaxLog 0, .addMessage ⟨.debug, 0, [0x61], none⟩] : List MessageOp).foldlM call default =
      .error .unwrapNone := by
  rfl

end Calls

end MessageLog

end Kernel31.Vfs
