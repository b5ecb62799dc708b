import Kernel31.Page.Basics
import Kernel31.Library.Runs

namespace Kernel31.Lock

open Page Checked Function Relation List BitVec

/-- The functions on the register that holds the interrupt flag, for one architecture. -/
class Interrupts (R : Type) where
  disableInterrupts : R → R
  irqSave : R → BitVec 64
  irqLoad : BitVec 64 → R → R
  enabled : R → Bool

structure Sstatus where
  bits : BitVec 64
  deriving DecidableEq, Repr

namespace Sstatus

def csrc (self : Sstatus) (mask : BitVec 64) : Sstatus := ⟨self.bits &&& ~~~mask⟩

def csrs (self : Sstatus) (mask : BitVec 64) : Sstatus := ⟨self.bits ||| mask⟩

/-- SIE is bit 1. -/
instance : Interrupts Sstatus where
  disableInterrupts self := self.csrc 2
  irqSave self := self.bits &&& (1#64 <<< 1)
  irqLoad irq self := self.csrs irq
  enabled self := self.bits.getLsbD 1

end Sstatus

structure Daif where
  bits : BitVec 64
  deriving DecidableEq, Repr

namespace Daif

/-- `msr DAIFSet` and `msr DAIFClr` have four bits for D, A, I and F, which are the bits 9 to 6. -/
def mask (imm : BitVec 4) : BitVec 64 := imm.setWidth 64 <<< 6

def daifSet (self : Daif) (imm : BitVec 4) : Daif := ⟨self.bits ||| mask imm⟩

def daifClr (self : Daif) (imm : BitVec 4) : Daif := ⟨self.bits &&& ~~~mask imm⟩

/-- I is bit 7, and interrupts are taken while it is clear. -/
instance : Interrupts Daif where
  disableInterrupts self := self.daifSet 2
  irqSave self := self.bits &&& (1#64 <<< 7)
  irqLoad irq self := if irq = 0 then self.daifClr 2 else self
  enabled self := !self.bits.getLsbD 7

end Daif

open Interrupts

structure SpinGuard (L : Type) where
  lock : L
  irq : BitVec 64

structure Cpu (R L : Type) where
  register : R
  locked : L → Bool

section Calls

variable {R L : Type} [Interrupts R] [DecidableEq L]

/-- `while self.locked.swap(true, Ordering::Acquire)` -/
def spin (lock : L) : Nat → (L → Bool) → Exec (L → Bool)
  | 0, _ => throw .recursion
  | fuel + 1, locked =>
    if locked lock then spin lock fuel (update locked lock true) else pure (update locked lock true)

def Cpu.lock (fuel : Nat) (cpu : Cpu R L) (lock : L) : Exec (SpinGuard L × Cpu R L) := do
  let irq := irqSave cpu.register
  let register := disableInterrupts cpu.register
  let locked ← spin lock fuel cpu.locked
  pure (⟨lock, irq⟩, { register := register, locked := locked })

def Cpu.unlock (cpu : Cpu R L) (lock : L) : Cpu R L := { cpu with locked := update cpu.locked lock false }

def SpinGuard.drop (guard : SpinGuard L) (cpu : Cpu R L) : Cpu R L :=
  let cpu := cpu.unlock guard.lock
  { cpu with register := irqLoad guard.irq cpu.register }

end Calls

section Points

/-- Where the CPU is in a call of `lock` or in the drop of its last guard. -/
inductive Point (L : Type) where
  | outside
  | saved (lock : L) (irq : BitVec 64)
  | spinning (lock : L) (irq : BitVec 64)
  | unlocked

/-- A CPU between two accesses, and the guards that are alive, the last one first. -/
structure Core (R L : Type) where
  cpu : Cpu R L
  guards : List (SpinGuard L)
  point : Point L

variable {R L : Type} [Interrupts R] [DecidableEq L]

/-- The accesses of `lock` and of drops, last taken, first dropped. A guard is alive until its drop is over. -/
inductive Access : Core R L → Core R L → Prop where
  | save (cpu : Cpu R L) (guards : List (SpinGuard L)) (lock : L) :
      Access ⟨cpu, guards, .outside⟩ ⟨cpu, guards, .saved lock (irqSave cpu.register)⟩
  | disable (cpu : Cpu R L) (guards : List (SpinGuard L)) (lock : L) (irq : BitVec 64) :
      Access ⟨cpu, guards, .saved lock irq⟩
        ⟨{ cpu with register := disableInterrupts cpu.register }, guards, .spinning lock irq⟩
  | wait (cpu : Cpu R L) (guards : List (SpinGuard L)) (lock : L) (irq : BitVec 64) (held : cpu.locked lock = true) :
      Access ⟨cpu, guards, .spinning lock irq⟩
        ⟨{ cpu with locked := update cpu.locked lock true }, guards, .spinning lock irq⟩
  | take (cpu : Cpu R L) (guards : List (SpinGuard L)) (lock : L) (irq : BitVec 64) (free : cpu.locked lock = false) :
      Access ⟨cpu, guards, .spinning lock irq⟩
        ⟨{ cpu with locked := update cpu.locked lock true }, ⟨lock, irq⟩ :: guards, .outside⟩
  | unlock (cpu : Cpu R L) (guard : SpinGuard L) (guards : List (SpinGuard L)) :
      Access ⟨cpu, guard :: guards, .outside⟩ ⟨cpu.unlock guard.lock, guard :: guards, .unlocked⟩
  | load (cpu : Cpu R L) (guard : SpinGuard L) (guards : List (SpinGuard L)) :
      Access ⟨cpu, guard :: guards, .unlocked⟩
        ⟨{ cpu with register := irqLoad guard.irq cpu.register }, guards, .outside⟩

theorem spin_accesses (register : R) (guards : List (SpinGuard L)) (lock : L) (irq : BitVec 64) {fuel : Nat}
    {locked locked' : L → Bool} (run : spin lock fuel locked = .ok locked') :
    ReflTransGen Access ⟨⟨register, locked⟩, guards, .spinning lock irq⟩
      ⟨⟨register, locked'⟩, ⟨lock, irq⟩ :: guards, .outside⟩ := by
  induction fuel generalizing locked with
  | zero => exact absurd run throw_ok.mp
  | succ fuel ih =>
    rw [spin] at run
    cases held : locked lock with
    | true =>
      rw [held, if_pos rfl] at run
      exact .head (.wait ⟨register, locked⟩ guards lock irq held) (ih run)
    | false =>
      rw [held, if_neg Bool.false_ne_true] at run
      obtain rfl := pure_ok.mp run
      exact .single (.take ⟨register, locked⟩ guards lock irq held)

theorem lock_accesses {cpu cpu' : Cpu R L} {guard : SpinGuard L} {lock : L} {fuel : Nat} (guards : List (SpinGuard L))
    (run : cpu.lock fuel lock = .ok (guard, cpu')) :
    ReflTransGen Access ⟨cpu, guards, .outside⟩ ⟨cpu', guard :: guards, .outside⟩ := by
  obtain ⟨locked, spun, result⟩ := bind_ok.mp run
  obtain ⟨⟩ := pure_ok.mp result
  exact .head (.save cpu guards lock) (.head (.disable cpu guards lock _) (spin_accesses _ guards lock _ spun))

theorem drop_accesses (cpu : Cpu R L) (guard : SpinGuard L) (guards : List (SpinGuard L)) :
    ReflTransGen Access ⟨cpu, guard :: guards, .outside⟩ ⟨guard.drop cpu, guards, .outside⟩ :=
  .head (.unlock cpu guard guards) (.single (.load (cpu.unlock guard.lock) guard guards))

theorem lock_returns (cpu : Cpu R L) {lock : L} (free : cpu.locked lock = false) {fuel : Nat} (some : 0 < fuel) :
    cpu.lock fuel lock = .ok (⟨lock, irqSave cpu.register⟩,
      { register := disableInterrupts cpu.register, locked := update cpu.locked lock true }) := by
  obtain ⟨less, rfl⟩ := Nat.exists_eq_add_of_le' some
  rw [Cpu.lock, spin, free, if_neg Bool.false_ne_true]
  rfl

end Points

section Nesting

/-- What a guard saves is enough to bring the register back. -/
class LawfulInterrupts (R : Type) [Interrupts R] : Prop where
  disabled : ∀ register : R, enabled (disableInterrupts register) = false
  restored : ∀ register : R, irqLoad (irqSave register) (disableInterrupts register) = register

theorem and_not_or_and (bits mask : BitVec 64) : (bits &&& ~~~mask) ||| (bits &&& mask) = bits := by
  ext i inside
  simp only [getElem_or, getElem_and, getElem_not]
  cases bits[i] <;> simp

theorem or_and_not {bits mask : BitVec 64} (clear : bits &&& mask = 0) : (bits ||| mask) &&& ~~~mask = bits := by
  ext i inside
  have bit := congrArg (·[i]) clear
  simp only [getElem_and, getElem_or, getElem_not] at bit ⊢
  cases here : bits[i] with
  | true => simpa [here] using bit
  | false => simp

theorem or_twoPow {bits : BitVec 64} {place : Nat} (set : bits &&& twoPow 64 place ≠ 0) :
    bits ||| twoPow 64 place = bits := by
  rw [and_twoPow] at set
  split at set
  · rename_i bit
    ext i inside
    simp only [getElem_or, getElem_twoPow, Bool.or_eq_left_iff_imp, decide_eq_true_eq]
    rintro rfl
    rw [← getLsbD_eq_getElem]
    exact bit
  · exact absurd rfl set

instance : LawfulInterrupts Sstatus where
  disabled register := by simp [enabled, disableInterrupts, Sstatus.csrc]
  restored register := congrArg Sstatus.mk (and_not_or_and register.bits 2)

theorem Daif.mask_two : Daif.mask 2 = twoPow 64 7 := rfl

instance : LawfulInterrupts Daif where
  disabled register := by
    simp only [enabled, disableInterrupts, Daif.daifSet, Daif.mask_two]
    simp
  restored register := by
    have saved : irqSave register = register.bits &&& twoPow 64 7 := rfl
    simp only [irqLoad, disableInterrupts, Daif.daifSet, Daif.daifClr, Daif.mask_two, saved]
    split
    · rename_i clear
      rw [or_and_not clear]
    · rename_i set
      rw [or_twoPow set]

variable {R L : Type} [Interrupts R]

/-- The guards, dropped one after the other, lead back to `start` through registers with interrupts disabled. -/
def Unwinds (start : R) : List (SpinGuard L) → R → Prop
  | [], register => register = start
  | guard :: guards, register => enabled register = false ∧ Unwinds start guards (irqLoad guard.irq register)

def Nested (start : R) (core : Core R L) : Prop :=
  match core.point with
  | .outside => Unwinds start core.guards core.cpu.register
  | .saved _ irq => irq = irqSave core.cpu.register ∧ Unwinds start core.guards core.cpu.register
  | .spinning lock irq => Unwinds start (⟨lock, irq⟩ :: core.guards) core.cpu.register
  | .unlocked => Unwinds start core.guards core.cpu.register

theorem Unwinds.disabled {start register : R} {guards : List (SpinGuard L)} (unwinds : Unwinds start guards register)
    (alive : guards ≠ []) : enabled register = false := by
  cases guards with
  | nil => exact absurd rfl alive
  | cons guard guards => exact unwinds.1

theorem Nested.disabled {start : R} {core : Core R L} (nested : Nested start core) (alive : core.guards ≠ []) :
    enabled core.cpu.register = false := by
  rcases core with ⟨cpu, guards, _ | _ | _ | _⟩
  · exact Unwinds.disabled nested alive
  · exact Unwinds.disabled nested.2 alive
  · exact nested.1
  · exact Unwinds.disabled nested alive

theorem Nested.step [LawfulInterrupts R] [DecidableEq L] {start : R} {core core' : Core R L} (nested : Nested start core)
    (access : Access core core') : Nested start core' := by
  cases access with
  | save cpu guards lock => exact ⟨rfl, nested⟩
  | disable cpu guards lock irq =>
    obtain ⟨saved, unwinds⟩ := nested
    refine ⟨LawfulInterrupts.disabled _, ?_⟩
    dsimp only at saved ⊢
    rw [saved, LawfulInterrupts.restored]
    exact unwinds
  | wait => exact nested
  | take => exact nested
  | unlock => exact nested
  | load => exact nested.2

section Flags

variable [DecidableEq L]

/-- Without the lock of a guard whose drop has already released it. -/
def Core.held (core : Core R L) : List L :=
  match core.point with
  | .unlocked => core.guards.tail.map SpinGuard.lock
  | _ => core.guards.map SpinGuard.lock

/-- A lock is locked exactly if one guard holds it. -/
def Flagged (core : Core R L) : Prop := core.held.Nodup ∧ ∀ lock, core.cpu.locked lock = true ↔ lock ∈ core.held

theorem update_true_iff {locked : L → Bool} {held : List L} (flags : ∀ lock, locked lock = true ↔ lock ∈ held) (taken lock : L) :
    update locked taken true lock = true ↔ lock ∈ taken :: held := by
  rw [mem_cons, update_apply]
  split
  · simp [*]
  · rename_i other
    rw [flags lock]
    exact ⟨.inr, fun either => either.resolve_left other⟩

theorem Flagged.step {core core' : Core R L} (flagged : Flagged core) (access : Access core core') : Flagged core' := by
  obtain ⟨distinct, flags⟩ := flagged
  cases access with
  | save => exact ⟨distinct, flags⟩
  | disable => exact ⟨distinct, flags⟩
  | wait cpu guards lock irq held =>
    refine ⟨distinct, fun other => ?_⟩
    rw [update_true_iff flags, mem_cons]
    exact or_iff_right_of_imp fun same => same ▸ (flags lock).mp held
  | take cpu guards lock irq free =>
    have apart : lock ∉ guards.map SpinGuard.lock := fun member => Bool.false_ne_true (free ▸ (flags lock).mpr member)
    exact ⟨nodup_cons.mpr ⟨apart, distinct⟩, update_true_iff flags lock⟩
  | unlock cpu guard guards =>
    obtain ⟨apart, distinct⟩ := nodup_cons.mp distinct
    refine ⟨distinct, fun other => ?_⟩
    change update cpu.locked guard.lock false other = true ↔ other ∈ guards.map SpinGuard.lock
    rw [update_apply]
    split
    · rename_i same
      exact iff_of_false Bool.false_ne_true (same ▸ apart)
    · rename_i different
      rw [flags other]
      exact ⟨fun member => (mem_cons.mp member).resolve_left different, mem_cons_of_mem _⟩
  | load => exact ⟨distinct, flags⟩

end Flags

/-- At every point of every nesting; a lock that no guard holds is taken at once if all were free at the start. -/
def InterruptsNest (R : Type) [Interrupts R] : Prop :=
  ∀ (L : Type) [DecidableEq L] (cpu : Cpu R L) (core : Core R L),
    ReflTransGen Access ⟨cpu, [], .outside⟩ core →
      (core.guards ≠ [] → enabled core.cpu.register = false) ∧
        (core.guards = [] → core.point = .outside → core.cpu.register = cpu.register) ∧
        ((∀ lock, cpu.locked lock = false) → core.point = .outside → ∀ lock, lock ∉ core.guards.map SpinGuard.lock →
          ∃ guard after, (∀ fuel, 0 < fuel → core.cpu.lock fuel lock = .ok (guard, after)) ∧
            ReflTransGen Access core ⟨after, guard :: core.guards, .outside⟩)

theorem interruptsNest (R : Type) [Interrupts R] [LawfulInterrupts R] : InterruptsNest R := by
  intro L _ cpu core run
  have start : Nested cpu.register (⟨cpu, [], .outside⟩ : Core R L) := rfl
  have nested := Runs.preserved (Nested cpu.register) (fun _ _ nested access => nested.step access) start run
  rcases core with ⟨now, guards, point⟩
  refine ⟨nested.disabled, ?_, ?_⟩
  · rintro rfl rfl
    exact nested
  · rintro unlocked rfl lock apart
    have clear : Flagged (⟨cpu, [], .outside⟩ : Core R L) := ⟨nodup_nil, fun lock => by simp [Core.held, unlocked lock]⟩
    obtain ⟨_, flags⟩ := Runs.preserved Flagged (fun _ _ flagged access => flagged.step access) clear run
    have free : now.locked lock = false := Bool.eq_false_iff.mpr fun held => apart ((flags lock).mp held)
    exact ⟨_, _, fun fuel some => lock_returns now free some, lock_accesses guards (lock_returns now free Nat.one_pos)⟩

end Nesting

end Kernel31.Lock
