import Kernel31.Library.Rv64
import Kernel31.Trap.Context

namespace Kernel31.Trap.Riscv64

open Rv64

def sp : Reg := 2
def t0 : Reg := 5
def a0 : Reg := 10

/-- `SAVE n` and `LOAD n` use the slot `n - 1`. -/
def slotOf (n : Reg) : Nat := n.val - 1

def savedRegs : List Reg := 1 :: (List.range 29).map fun n => Fin.ofNat 32 (n + 3)

def switchStack : List Instr := [.csrrw sp .sscratch sp, .addi sp sp (-32 * 8)]

def saveCsrs : List Instr :=
  [ -- save task sp to ctx.x2
    .csrr t0 .sscratch, .sd t0 (2 * 8) sp,
    -- save sepc to ctx.epc
    .csrr t0 .sepc, .sd t0 (31 * 8) sp,
    -- recover trap sp to sscratch
    .addi t0 sp (32 * 8), .csrw .sscratch t0, .mv a0 sp]

/-- `strap` up to `call strap_handler`. -/
def strapEntry : List Instr := switchStack ++ savedRegs.map (save slotOf sp) ++ saveCsrs

def loadSepc : List Instr := [.ld t0 (31 * 8) sp, .csrw .sepc t0]

/-- `strap` from there to `sret`, which goes on at `sepc`. -/
def strapExit : List Instr := loadSepc ++ savedRegs.map (restore slotOf sp) ++ [.ld sp (2 * 8) sp]

def contextAt (mem : Bytes) (address : Word) : Context :=
  ⟨Vector.ofFn fun i => ⟨slot mem address i⟩, ⟨slot mem address 31⟩⟩

/-- `strap_handler` comes back with the stack pointer, `sscratch` and the context as they were. -/
structure Returns (before after : Hart) : Prop where
  stack : after.read sp = before.read sp
  sscratch : after.csr .sscratch = before.csr .sscratch
  context : contextAt after.mem (before.read sp) = contextAt before.mem (before.read sp)

theorem slot_of_contextAt {mem mem' : Bytes} {address : Word} (same : contextAt mem address = contextAt mem' address)
    {k : Nat} (inside : k < 32) : slot mem address k = slot mem' address k := by
  obtain ⟨registers, epc⟩ := Context.mk.inj same
  by_cases last : k = 31
  · rw [last]
    exact UInt64.ofBitVec.inj epc
  · have place : k < 31 := by omega
    have entry := congrArg (fun x : Vector UInt64 31 => x[k]) registers
    simpa using entry

theorem savedRegs_find (k : Nat) (inside : k < 32) :
    savedRegs.find? (fun r => slotOf r = k) =
      if k = 1 ∨ k = 31 then none else some (Fin.ofNat 32 (k + 1)) := by
  decide +revert

theorem mem_savedRegs (r : Reg) : r ∈ savedRegs ↔ r ≠ 0 ∧ r ≠ sp := by
  decide +revert

def frame (h : Hart) : Word := h.csr .sscratch + BitVec.ofInt 64 (-32 * 8)

theorem run_switchStack (h : Hart) :
    (∀ r, (run switchStack h).read r = if r = sp then frame h else h.read r) ∧
      (run switchStack h).csr .sscratch = h.read sp ∧ (run switchStack h).csr .sepc = h.csr .sepc ∧
      (run switchStack h).mem = h.mem := by
  refine ⟨fun r => ?_, by simp [run, switchStack, exec], by simp [run, switchStack, exec], by simp [run, switchStack, exec]⟩
  simp only [run, switchStack, List.foldl_cons, List.foldl_nil, exec, Hart.read_write, Hart.setCsr_read]
  by_cases stack : r = sp
  · simp [stack, sp, frame]
  · simp [stack]

theorem run_saveCsrs (h : Hart) :
    (run saveCsrs h).read sp = h.read sp ∧
      (run saveCsrs h).csr .sscratch = h.read sp + BitVec.ofInt 64 (32 * 8) ∧
      (run saveCsrs h).mem = store (store h.mem (h.read sp + BitVec.ofNat 64 (2 * 8)) (h.csr .sscratch))
        (h.read sp + BitVec.ofNat 64 (31 * 8)) (h.csr .sepc) := by
  simp [run, saveCsrs, exec, sp, t0, a0]

theorem slot_saveRegs (h : Hart) {k : Nat} (inside : k < 32) :
    slot (run (savedRegs.map (save slotOf sp)) h).mem (h.read sp) k =
      if k = 1 ∨ k = 31 then slot h.mem (h.read sp) k else h.read (Fin.ofNat 32 (k + 1)) := by
  have bounded (r : Reg) : slotOf r < 2 ^ 60 := by
    unfold slotOf
    omega
  have apart : (savedRegs.map slotOf).Nodup := by decide
  rw [slot_run_saves slotOf sp bounded apart h (by omega), savedRegs_find k inside]
  by_cases out : k = 1 ∨ k = 31
  · rw [if_pos out, if_pos out]
  · rw [if_neg out, if_neg out]

theorem strapEntry_spec (h : Hart) :
    (run strapEntry h).read sp = frame h ∧ (run strapEntry h).csr .sscratch = h.csr .sscratch ∧
      ∀ k < 32, slot (run strapEntry h).mem (frame h) k =
        if k = 31 then h.csr .sepc else if k = 2 then h.read sp
        else if k = 1 then slot h.mem (frame h) 1 else h.read (Fin.ofNat 32 (k + 1)) := by
  obtain ⟨reads, scratch, pc, bytes⟩ := run_switchStack h
  have stack : (run switchStack h).read sp = frame h := (reads sp).trans (if_pos rfl)
  obtain ⟨savedReads, savedCsrs⟩ := run_saves slotOf sp savedRegs (run switchStack h)
  obtain ⟨endStack, endScratch, endBytes⟩ := run_saveCsrs (run (savedRegs.map (save slotOf sp)) (run switchStack h))
  rw [savedReads, stack] at endStack endScratch endBytes
  rw [strapEntry, run_append, run_append]
  refine ⟨endStack, ?_, fun k inside => ?_⟩
  · rw [endScratch, frame]
    simp [BitVec.add_assoc]
  · have slots := slot_saveRegs (run switchStack h) inside
    rw [stack, bytes] at slots
    rw [endBytes, slot_store _ _ _ (by decide) (by omega), slot_store _ _ _ (by decide) (by omega), savedCsrs, scratch, pc,
      slots]
    by_cases last : k = 31
    · rw [if_pos last, if_pos last]
    · rw [if_neg last, if_neg last]
      by_cases second : k = 2
      · rw [if_pos second, if_pos second]
      · rw [if_neg second, if_neg second]
        by_cases first : k = 1
        · rw [if_pos (.inl first), if_pos first, first]
        · have other : Fin.ofNat 32 (k + 1) ≠ sp := by
            intro same
            have place := congrArg Fin.val same
            simp only [Fin.val_ofNat, sp, Fin.isValue, Fin.val_two] at place
            omega
          rw [if_neg (by omega), if_neg first, reads, if_neg other]

theorem strapExit_spec (h : Hart) :
    (∀ r, r ≠ 0 → (run strapExit h).read r = slot h.mem (h.read sp) (if r = sp then 2 else slotOf r)) ∧
      (run strapExit h).csr .sepc = slot h.mem (h.read sp) 31 ∧
      (run strapExit h).csr .sscratch = h.csr .sscratch := by
  have stack : (run loadSepc h).read sp = h.read sp := by simp [run, loadSepc, exec, sp, t0]
  have bytes : (run loadSepc h).mem = h.mem := by simp [run, loadSepc, exec]
  have scratch : (run loadSepc h).csr .sscratch = h.csr .sscratch := by simp [run, loadSepc, exec]
  have pc : (run loadSepc h).csr .sepc = slot h.mem (h.read sp) 31 := by simp [run, loadSepc, exec, t0, slot]
  have apart : sp ∉ savedRegs := by decide
  have nonzero : 0 ∉ savedRegs := by decide
  obtain ⟨keptBytes, keptCsrs, reads⟩ := run_restores slotOf sp apart nonzero (run loadSepc h)
  rw [strapExit, run_append, run_append]
  generalize run (savedRegs.map (restore slotOf sp)) (run loadSepc h) = restored at keptBytes keptCsrs reads
  have last (r : Reg) : (run [.ld sp (2 * 8) sp] restored).read r =
      if r = sp then slot h.mem (h.read sp) 2 else restored.read r := by
    have kept : restored.read sp = h.read sp := by rw [reads, if_neg apart, stack]
    rw [← bytes, ← keptBytes, ← kept]
    by_cases pointer : r = sp
    · simp [pointer, run, exec, sp, slot]
    · simp [pointer, run, exec]
  refine ⟨fun r some => ?_, ?_, ?_⟩
  · rw [last]
    by_cases pointer : r = sp
    · rw [if_pos pointer, if_pos pointer]
    · rw [if_neg pointer, if_neg pointer, reads, if_pos ((mem_savedRegs r).mpr ⟨some, pointer⟩), stack, bytes]
  · rw [← pc, ← keptCsrs]
    simp [run, exec]
  · rw [← scratch, ← keptCsrs]
    simp [run, exec]

/-- A trap is over: what the hart had at the trap is back. -/
structure Restored (before after : Hart) : Prop where
  registers : ∀ r, r ≠ 0 → after.read r = before.read r
  sepc : after.csr .sepc = before.csr .sepc
  sscratch : after.csr .sscratch = before.csr .sscratch

def Indexed (h : Hart) (n : Fin 31) : Prop :=
  (contextAt (run strapEntry h).mem ((run strapEntry h).read sp)).x[n] = ⟨h.read n.succ⟩

theorem run_strap (h after : Hart) (returns : Returns (run strapEntry h) after) :
    (∀ r, r ≠ 0 → (run strapExit after).read r = if r = 3 then h.read sp else h.read r) ∧
      (run strapExit after).csr .sepc = h.csr .sepc ∧ (run strapExit after).csr .sscratch = h.csr .sscratch := by
  obtain ⟨stack, scratch, slots⟩ := strapEntry_spec h
  obtain ⟨reads, pc, kept⟩ := strapExit_spec after
  have same {k : Nat} (inside : k < 32) : slot after.mem (after.read sp) k = slot (run strapEntry h).mem (frame h) k := by
    rw [returns.stack, ← stack]
    exact slot_of_contextAt returns.context inside
  refine ⟨fun r some => ?_, ?_, ?_⟩
  · rw [reads r some]
    by_cases pointer : r = sp
    · subst pointer
      rw [if_pos rfl, same (by decide), slots 2 (by decide)]
      rfl
    · rw [if_neg pointer, same (by unfold slotOf; omega), slots _ (by unfold slotOf; omega)]
      clear slots same reads
      have next : Fin.ofNat 32 (slotOf r + 1) = r := by
        revert some
        revert r
        decide
      have facts : slotOf r ≠ 31 ∧ slotOf r ≠ 1 ∧ (slotOf r = 2 ↔ r = 3) := by
        revert some pointer
        revert r
        decide
      rw [if_neg facts.1, if_neg facts.2.1, next]
      simp only [facts.2.2]
  · rw [pc, same (by decide), slots 31 (by decide), if_pos rfl]
  · rw [kept, returns.sscratch, scratch]

theorem indexed_iff (h : Hart) (n : Fin 31) :
    Indexed h n ↔ (n = 1 → slot h.mem (frame h) 1 = h.read sp) ∧ (n = 2 → h.read sp = h.read 3) := by
  obtain ⟨stack, _, slots⟩ := strapEntry_spec h
  have entry : Indexed h n ↔ slot (run strapEntry h).mem (frame h) n = h.read n.succ := by
    simp [Indexed, contextAt, stack, ← UInt64.toBitVec_inj]
  have next : Fin.ofNat 32 (n + 1) = n.succ := Fin.ext (Nat.mod_eq_of_lt (by omega))
  rw [entry, slots n (by omega), if_neg (by omega), next]
  by_cases second : n = 2
  · subst second
    simp [sp]
  · by_cases first : n = 1
    · subst first
      simp [sp]
    · have places : n.val ≠ 2 ∧ n.val ≠ 1 := ⟨fun same => second (Fin.ext same), fun same => first (Fin.ext same)⟩
      simp [places, first, second]

/-- Exactly when `x3` equals `x2` and the memory under the frame already held `x2` in its second slot. -/
theorem strap_restores_iff (h : Hart) :
    (∀ after, Returns (run strapEntry h) after →
      (∀ r, r ≠ 0 → r ≠ 3 → (run strapExit after).read r = h.read r) ∧
        (run strapExit after).csr .sepc = h.csr .sepc ∧ (run strapExit after).csr .sscratch = h.csr .sscratch) ∧
      (∀ n, n ≠ 1 → n ≠ 2 → Indexed h n) ∧
      ((∀ after, Returns (run strapEntry h) after → Restored h (run strapExit after)) ↔ h.read 3 = h.read sp) ∧
      ((∀ n, Indexed h n) ↔ h.read 3 = h.read sp ∧ slot h.mem (frame h) 1 = h.read sp) := by
  refine ⟨fun after returns => ?_, fun n first second => ?_, ⟨fun all => ?_, fun same after returns => ?_⟩, ?_⟩
  · obtain ⟨registers, pc, scratch⟩ := run_strap h after returns
    exact ⟨fun r some other => (registers r some).trans (if_neg other), pc, scratch⟩
  · exact (indexed_iff h n).mpr ⟨fun here => absurd here first, fun here => absurd here second⟩
  · have returns : Returns (run strapEntry h) (run strapEntry h) := ⟨rfl, rfl, rfl⟩
    exact ((all _ returns).registers 3 (by decide)).symm.trans ((run_strap h _ returns).1 3 (by decide))
  · obtain ⟨registers, pc, scratch⟩ := run_strap h after returns
    refine ⟨fun r some => (registers r some).trans ?_, pc, scratch⟩
    split
    · rename_i third
      rw [third, same]
    · rfl
  · simp only [indexed_iff]
    constructor
    · intro all
      exact ⟨((all 2).2 rfl).symm, (all 1).1 rfl⟩
    · rintro ⟨third, second⟩ n
      exact ⟨fun _ => second, fun _ => third.symm⟩

def oneInX3 : Hart := ⟨Function.update (fun _ => 0) 3 1, 0, 0, fun _ => 0⟩

theorem strap_loses_x3 :
    Returns (run strapEntry oneInX3) (run strapEntry oneInX3) ∧ oneInX3.read 3 = 1 ∧
      (run strapExit (run strapEntry oneInX3)).read 3 = 0 := by
  have returns : Returns (run strapEntry oneInX3) (run strapEntry oneInX3) := ⟨rfl, rfl, rfl⟩
  exact ⟨returns, rfl, (run_strap oneInX3 _ returns).1 3 (by decide)⟩

end Kernel31.Trap.Riscv64
