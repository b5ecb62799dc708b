import Kernel31.Sched.Model

namespace Kernel31.Trap

open Sched

namespace Riscv64

structure Context where
  x : Vector UInt64 31
  epc : UInt64
  deriving DecidableEq, Repr

theorem sp_inside : 2 < 31 := by decide

instance : ArchContext Context where
  default := ⟨Vector.replicate 31 0, 0⟩
  start entry sp := ⟨(Vector.replicate 31 0).set 2 sp sp_inside, entry⟩

end Riscv64

namespace Arm64

structure Context where
  x : Vector UInt64 31
  sp : UInt64
  elrEl1 : UInt64
  pstate : UInt64
  deriving DecidableEq, Repr

instance : ArchContext Context where
  default := ⟨Vector.replicate 31 0, 0, 0, 0⟩
  start entry sp := ⟨Vector.replicate 31 0, sp, entry, 0⟩

end Arm64

end Kernel31.Trap
