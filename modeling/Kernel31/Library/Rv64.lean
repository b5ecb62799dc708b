import Mathlib.Tactic

namespace Kernel31.Rv64

open List

abbrev Word := BitVec 64

abbrev Reg := Fin 32

local instance neZero_regs : NeZero 32 := ⟨by decide⟩

abbrev Bytes := Word → BitVec 8

def load (mem : Bytes) (address : Word) : Word :=
  let byte (place : Nat) : Nat := (mem (address + BitVec.ofNat 64 place)).toNat
  BitVec.ofNat 64 (byte 0 + 2 ^ 8 * byte 1 + 2 ^ 16 * byte 2 + 2 ^ 24 * byte 3 + 2 ^ 32 * byte 4 + 2 ^ 40 * byte 5 +
    2 ^ 48 * byte 6 + 2 ^ 56 * byte 7)

def store (mem : Bytes) (address value : Word) : Bytes := fun other =>
  let place := (other - address).toNat
  if place < 8 then BitVec.ofNat 8 (value.toNat >>> (8 * place)) else mem other

theorem load_congr {mem mem' : Bytes} {address : Word}
    (same : ∀ place < 8, mem (address + BitVec.ofNat 64 place) = mem' (address + BitVec.ofNat 64 place)) :
    load mem address = load mem' address := by
  simp only [load]
  rw [same 0 (by decide), same 1 (by decide), same 2 (by decide), same 3 (by decide), same 4 (by decide),
    same 5 (by decide), same 6 (by decide), same 7 (by decide)]

theorem store_byte (mem : Bytes) (address value : Word) {place : Nat} (small : place < 8) :
    (store mem address value (address + BitVec.ofNat 64 place)).toNat = value.toNat >>> (8 * place) % 2 ^ 8 := by
  have here : (address + BitVec.ofNat 64 place - address).toNat = place := by bv_omega
  rw [store, here, if_pos small, BitVec.toNat_ofNat]

theorem load_store_same (mem : Bytes) (address value : Word) : load (store mem address value) address = value := by
  apply BitVec.eq_of_toNat_eq
  simp only [load, store_byte _ _ _ (show 0 < 8 by decide), store_byte _ _ _ (show 1 < 8 by decide),
    store_byte _ _ _ (show 2 < 8 by decide), store_byte _ _ _ (show 3 < 8 by decide),
    store_byte _ _ _ (show 4 < 8 by decide), store_byte _ _ _ (show 5 < 8 by decide),
    store_byte _ _ _ (show 6 < 8 by decide), store_byte _ _ _ (show 7 < 8 by decide), BitVec.toNat_ofNat,
    Nat.shiftRight_eq_div_pow]
  have bound := value.isLt
  omega

def slot (mem : Bytes) (base : Word) (place : Nat) : Word := load mem (base + BitVec.ofNat 64 (place * 8))

theorem slot_store (mem : Bytes) (base value : Word) {place other : Nat} (inside : place < 2 ^ 60) (within : other < 2 ^ 60) :
    slot (store mem (base + BitVec.ofNat 64 (place * 8)) value) base other =
      if other = place then value else slot mem base other := by
  by_cases same : other = place
  · subst same
    rw [if_pos rfl, slot, load_store_same]
  · rw [if_neg same, slot, slot]
    refine load_congr fun byte small => ?_
    rw [store, if_neg]
    have away : (base + BitVec.ofNat 64 (other * 8) + BitVec.ofNat 64 byte - (base + BitVec.ofNat 64 (place * 8))).toNat =
        (other * 8 + byte + (2 ^ 64 - place * 8)) % 2 ^ 64 := by
      bv_omega
    omega

inductive Csr where
  | sepc
  | sscratch
  deriving DecidableEq, Repr

inductive Instr where
  | csrrw (rd : Reg) (csr : Csr) (rs : Reg)
  | csrr (rd : Reg) (csr : Csr)
  | csrw (csr : Csr) (rs : Reg)
  | addi (rd rs : Reg) (imm : Int)
  | sd (rs : Reg) (offset : Int) (base : Reg)
  | ld (rd : Reg) (offset : Int) (base : Reg)
  | mv (rd rs : Reg)
  deriving DecidableEq, Repr

structure Hart where
  x : Reg → Word
  sepc : Word
  sscratch : Word
  mem : Bytes

def Hart.read (h : Hart) (r : Reg) : Word := if r = 0 then 0 else h.x r

def Hart.write (h : Hart) (r : Reg) (value : Word) : Hart :=
  if r = 0 then h else { h with x := Function.update h.x r value }

def Hart.csr (h : Hart) : Csr → Word
  | .sepc => h.sepc
  | .sscratch => h.sscratch

def Hart.setCsr (h : Hart) (value : Word) : Csr → Hart
  | .sepc => { h with sepc := value }
  | .sscratch => { h with sscratch := value }

def Hart.setMem (h : Hart) (mem : Bytes) : Hart := { h with mem := mem }

def exec (h : Hart) : Instr → Hart
  | .csrrw rd csr rs => (h.setCsr (h.read rs) csr).write rd (h.csr csr)
  | .csrr rd csr => h.write rd (h.csr csr)
  | .csrw csr rs => h.setCsr (h.read rs) csr
  | .addi rd rs imm => h.write rd (h.read rs + BitVec.ofInt 64 imm)
  | .sd rs offset base => h.setMem (store h.mem (h.read base + BitVec.ofInt 64 offset) (h.read rs))
  | .ld rd offset base => h.write rd (load h.mem (h.read base + BitVec.ofInt 64 offset))
  | .mv rd rs => h.write rd (h.read rs)

def run (code : List Instr) (h : Hart) : Hart := code.foldl exec h

theorem run_append (first second : List Instr) (h : Hart) : run (first ++ second) h = run second (run first h) := by
  rw [run, foldl_append]
  rfl

theorem run_cons (instr : Instr) (rest : List Instr) (h : Hart) : run (instr :: rest) h = run rest (exec h instr) := rfl

section

variable (h : Hart)

@[simp]
theorem Hart.read_write (r other : Reg) (value : Word) :
    (h.write r value).read other = if other = r ∧ r ≠ 0 then value else h.read other := by
  unfold Hart.write Hart.read
  by_cases zero : r = 0
  · simp [zero]
  · by_cases same : other = r
    · subst same
      simp [zero]
    · simp [zero, same]

@[simp]
theorem Hart.write_mem (r : Reg) (value : Word) : (h.write r value).mem = h.mem := by
  unfold Hart.write
  split <;> rfl

@[simp]
theorem Hart.write_csr (r : Reg) (value : Word) (csr : Csr) : (h.write r value).csr csr = h.csr csr := by
  unfold Hart.write
  split
  · rfl
  · cases csr <;> rfl

@[simp]
theorem Hart.setCsr_read (value : Word) (csr : Csr) (r : Reg) : (h.setCsr value csr).read r = h.read r := by
  cases csr <;> rfl

@[simp]
theorem Hart.setCsr_mem (value : Word) (csr : Csr) : (h.setCsr value csr).mem = h.mem := by
  cases csr <;> rfl

@[simp]
theorem Hart.setCsr_csr (value : Word) (csr other : Csr) :
    (h.setCsr value csr).csr other = if other = csr then value else h.csr other := by
  cases csr <;> cases other <;> rfl

@[simp]
theorem Hart.setMem_read (mem : Bytes) (r : Reg) : (h.setMem mem).read r = h.read r := rfl

@[simp]
theorem Hart.setMem_mem (mem : Bytes) : (h.setMem mem).mem = mem := rfl

@[simp]
theorem Hart.setMem_csr (mem : Bytes) (csr : Csr) : (h.setMem mem).csr csr = h.csr csr := by
  cases csr <;> rfl

end

section Frames

variable (place : Reg → Nat) (base : Reg)

def save (r : Reg) : Instr := .sd r (place r * 8 : Nat) base

def restore (r : Reg) : Instr := .ld r (place r * 8 : Nat) base

theorem run_saves (regs : List Reg) (h : Hart) :
    (run (regs.map (save place base)) h).read = h.read ∧ (run (regs.map (save place base)) h).csr = h.csr := by
  induction regs generalizing h with
  | nil => exact ⟨rfl, rfl⟩
  | cons r rest ih =>
    obtain ⟨reads, csrs⟩ := ih (exec h (save place base r))
    exact ⟨reads, csrs.trans (funext fun csr => Hart.setMem_csr _ _ csr)⟩

theorem slot_run_saves (bounded : ∀ r, place r < 2 ^ 60) {regs : List Reg} (apart : (regs.map place).Nodup) (h : Hart)
    {k : Nat} (inside : k < 2 ^ 60) :
    slot (run (regs.map (save place base)) h).mem (h.read base) k =
      match regs.find? fun r => place r = k with
      | some r => h.read r
      | none => slot h.mem (h.read base) k := by
  induction regs generalizing h with
  | nil => rfl
  | cons r rest ih =>
    obtain ⟨new, apart⟩ := nodup_cons.mp apart
    have next := ih apart (exec h (save place base r))
    have stored : slot (exec h (save place base r)).mem (h.read base) k =
        if k = place r then h.read r else slot h.mem (h.read base) k := by
      rw [← slot_store _ _ _ (bounded r) inside]
      simp only [exec, save, BitVec.ofInt_natCast, Hart.setMem_mem]
    rw [map_cons, run_cons]
    refine next.trans ?_
    by_cases here : place r = k
    · have none : rest.find? (fun other => place other = k) = none := by
        rw [find?_eq_none]
        intro other member same
        exact new (mem_map.mpr ⟨other, member, (of_decide_eq_true same).trans here.symm⟩)
      rw [none, find?_cons_of_pos (by simpa using here)]
      exact stored.trans (if_pos here.symm)
    · rw [find?_cons_of_neg (by simpa using here)]
      split
      · rfl
      · exact stored.trans (if_neg (Ne.symm here))

theorem run_restores {regs : List Reg} (apart : base ∉ regs) (nonzero : 0 ∉ regs) (h : Hart) :
    (run (regs.map (restore place base)) h).mem = h.mem ∧ (run (regs.map (restore place base)) h).csr = h.csr ∧
      ∀ r, (run (regs.map (restore place base)) h).read r =
        if r ∈ regs then slot h.mem (h.read base) (place r) else h.read r := by
  induction regs generalizing h with
  | nil => exact ⟨rfl, rfl, fun r => by simp [run]⟩
  | cons first rest ih =>
    have loaded (r : Reg) : (exec h (restore place base first)).read r =
        if r = first then slot h.mem (h.read base) (place first) else h.read r := by
      have some : first ≠ 0 := fun zero => nonzero (zero ▸ mem_cons_self)
      simp only [exec, restore, Hart.read_write, BitVec.ofInt_natCast, some, ne_eq, not_false_eq_true, and_true, slot]
    have kept : (exec h (restore place base first)).read base = h.read base := by
      have other : base ≠ first := fun same => apart (same ▸ mem_cons_self)
      rw [loaded, if_neg other]
    obtain ⟨mem, csr, reads⟩ := ih (fun member => apart (mem_cons_of_mem _ member))
      (fun member => nonzero (mem_cons_of_mem _ member)) (exec h (restore place base first))
    have same : (exec h (restore place base first)).mem = h.mem := Hart.write_mem _ _ _
    rw [map_cons, run_cons]
    refine ⟨mem.trans same, csr.trans (funext fun other => Hart.write_csr _ _ _ other), fun r => ?_⟩
    rw [reads, kept, same, loaded]
    by_cases member : r ∈ rest
    · rw [if_pos member, if_pos (mem_cons_of_mem _ member)]
    · by_cases here : r = first
      · rw [if_neg member, if_pos here, if_pos (here ▸ mem_cons_self), here]
      · rw [if_neg member, if_neg here, if_neg]
        rintro (_ | ⟨_, later⟩)
        · exact here rfl
        · exact member later

end Frames

end Kernel31.Rv64
