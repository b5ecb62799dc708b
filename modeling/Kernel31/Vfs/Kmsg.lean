import Kernel31.Page.Basics

namespace Kernel31.Vfs

def kmsgMax : Nat := 1024

inductive KernelMessageLevel where
  | fatal
  | error
  | warning
  | debug
  deriving DecidableEq, Repr

structure KernelMessageEntry where
  level : KernelMessageLevel
  time : Nat
  message : List UInt8
  module : Option (List UInt8)
  deriving DecidableEq, Repr

def decimal (fill : Char) (width value : Nat) : List Char :=
  let digits := Nat.toDigits 10 value
  List.replicate (width - digits.length) fill ++ digits

/-- `"[{:5}.{:06}] "` -/
def KernelMessageEntry.stamp (self : KernelMessageEntry) : List Char :=
  ['['] ++ decimal ' ' 5 (self.time / 1000000000) ++ ['.'] ++ decimal '0' 6 (self.time % 1000000000 / 1000) ++ [']', ' ']

/-- The bytes of `to_string`. -/
def KernelMessageEntry.text (self : KernelMessageEntry) : List UInt8 :=
  self.stamp.map (fun char => UInt8.ofNat char.toNat) ++
    (match self.module with
    | some module => module ++ [0x3a, 0x20]
    | none => []) ++ self.message

structure KernelMessage where
  msgs : List KernelMessageEntry
  maxLog : Nat
  /-- what `output_handler`, if there is one, has printed -/
  outputHandler : Option (List UInt8)
  deriving DecidableEq, Repr

namespace KernelMessage

def default : KernelMessage := ⟨[], kmsgMax, none⟩

/-- `add_message` at a system time. -/
def addMessage (self : KernelMessage) (time : Nat) (module : Option (List UInt8)) (level : KernelMessageLevel)
    (msg : List UInt8) : Exec KernelMessage :=
  let msgs := self.msgs ++ [⟨level, time, msg, module⟩]
  let msgs := if self.maxLog < msgs.length then msgs.tail else msgs
  match self.outputHandler with
  | none => pure { self with msgs := msgs }
  | some printed =>
    match msgs.getLast? with
    | none => throw .unwrapNone
    | some entry => pure { self with msgs := msgs, outputHandler := some (printed ++ entry.text) }

def setMaxLog (self : KernelMessage) (max : Nat) : KernelMessage :=
  { self with maxLog := max, msgs := self.msgs.drop (self.msgs.length - max) }

end KernelMessage

def KernelMessage.text (self : KernelMessage) : List UInt8 := self.msgs.flatMap KernelMessageEntry.text

end Kernel31.Vfs
