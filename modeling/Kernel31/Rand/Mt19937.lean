import Kernel31.Elf.Slices

namespace Kernel31.Rand

open Elf (slice)
open Checked Slices

def stateSize : Nat := 624
def middle : Nat := 397
def umask : BitVec 32 := 0xffffffff#32 <<< 31
def lmask : BitVec 32 := 0xffffffff#32 >>> 1
def coefA : BitVec 32 := 0x9908b0df
def coefB : BitVec 32 := 0x9d2c5680
def coefC : BitVec 32 := 0xefc60000
def coefF : BitVec 32 := 1812433253

structure MT19937 where
  stateArray : Vector (BitVec 32) stateSize
  stateIndex : Nat

namespace MT19937

def seedWord (state : Vector (BitVec 32) stateSize × BitVec 32) (i : Nat) : Exec (Vector (BitVec 32) stateSize × BitVec 32) := do
  let seed := coefF * (state.2 ^^^ (state.2 >>> 30)) + BitVec.ofNat 32 i
  let array ← assign state.1 i seed
  pure (array, seed)

/-- `seed` fills the array and leaves the index. -/
def seed (self : MT19937) (seed : BitVec 32) : Exec MT19937 := do
  let array ← assign self.stateArray 0 seed
  let (array, _) ← (List.range' 1 623).foldlM seedWord (array, seed)
  pure { self with stateArray := array }

def new (seed : BitVec 32) : Exec MT19937 := MT19937.seed ⟨Vector.replicate stateSize 0, 0⟩ seed

def tempering (y : BitVec 32) : BitVec 32 :=
  let y := y ^^^ (y >>> 11)
  let y := y ^^^ ((y <<< 7) &&& coefB)
  let y := y ^^^ ((y <<< 15) &&& coefC)
  y ^^^ (y >>> 18)

def randomUint32 (self : MT19937) : Exec (BitVec 32 × MT19937) := do
  let k := self.stateIndex
  let upper ← index self.stateArray k
  let lower ← index self.stateArray ((k + 1) % stateSize)
  let y := (upper &&& umask) ||| (lower &&& lmask)
  let a := if y &&& 1 = 1 then (y >>> 1) ^^^ coefA else y >>> 1
  let far ← index self.stateArray ((k + middle) % stateSize)
  let y := far ^^^ a
  let array ← assign self.stateArray k y
  pure (tempering y, ⟨array, (k + 1) % stateSize⟩)

def genBytesLoop {n : Nat} : Nat → Nat → MT19937 → Vector UInt8 n → Exec (Vector UInt8 n × MT19937)
  | 0, ptr, self, buf => if ptr < n then throw .recursion else pure (buf, self)
  | fuel + 1, ptr, self, buf =>
    if ptr < n then do
      let stop := min n (ptr + 4)
      let (word, self) ← self.randomUint32
      let bytes ← slice (beBytes 4 word.toNat) 0 (stop - ptr)
      let buf ← copyFromSlice buf ptr stop bytes
      genBytesLoop fuel (ptr + 4) self buf
    else pure (buf, self)

def genBytes {n : Nat} (self : MT19937) (buf : Vector UInt8 n) : Exec (Vector UInt8 n × MT19937) :=
  genBytesLoop n 0 self buf

theorem randomUint32_ok (self : MT19937) (inside : self.stateIndex < stateSize) :
    ∃ word self', self.randomUint32 = .ok (word, self') ∧ self'.stateIndex < stateSize := by
  have around (count : Nat) : (self.stateIndex + count) % stateSize < stateSize := Nat.mod_lt _ (by decide)
  rw [randomUint32]
  simp only [index_ok (Vector.getElem?_eq_getElem inside), index_ok (Vector.getElem?_eq_getElem (around 1)),
    index_ok (Vector.getElem?_eq_getElem (around middle)), assign_ok inside, ok_bind]
  exact ⟨_, _, rfl, around 1⟩

theorem genBytesLoop_ok {n fuel ptr : Nat} (self : MT19937) (inside : self.stateIndex < stateSize)
    (enough : n ≤ ptr + 4 * fuel) (buf : Vector UInt8 n) :
    ∃ buf' self', genBytesLoop fuel ptr self buf = .ok (buf', self') ∧ self'.stateIndex < stateSize := by
  induction fuel generalizing ptr self buf with
  | zero =>
    rw [genBytesLoop, if_neg (by omega)]
    exact ⟨buf, self, rfl, inside⟩
  | succ fuel ih =>
    rw [genBytesLoop]
    split
    case isFalse done => exact ⟨buf, self, rfl, inside⟩
    case isTrue more =>
      obtain ⟨word, self', random, inside'⟩ := self.randomUint32_ok inside
      have short : min n (ptr + 4) - ptr ≤ (beBytes 4 word.toNat).length := by
        rw [beBytes, List.length_map, List.length_range]
        omega
      obtain ⟨filled, copied, _⟩ := copyFromSlice_ok buf (by omega : ptr ≤ min n (ptr + 4)) (Nat.min_le_left _ _)
        (List.length_take_of_le short)
      simp only [random, slice_prefix short, copied, ok_bind]
      exact ih self' inside' (by omega) filled

theorem genBytes_ok {n : Nat} (self : MT19937) (inside : self.stateIndex < stateSize) (buf : Vector UInt8 n) :
    ∃ buf' self', self.genBytes buf = .ok (buf', self') ∧ self'.stateIndex < stateSize :=
  genBytesLoop_ok self inside (by omega) buf

end MT19937

end Kernel31.Rand
