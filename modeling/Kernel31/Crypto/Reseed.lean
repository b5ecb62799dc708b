import Kernel31.Crypto.Chacha20
import Kernel31.Elf.Slices

namespace Kernel31.Crypto

open Checked
open List hiding Vector
open Elf (slice)

/-- The trait `StreamCipher`. -/
class StreamCipher (T : Type) where
  keySize : Nat
  nonceSize : Nat
  setKey : T → List UInt8 → Exec T
  setNonce : T → List UInt8 → Exec T
  encrypt : T → List UInt8 → Exec (List UInt8 × T)

instance : StreamCipher ChaCha20 where
  keySize := ChaCha20.keySize
  nonceSize := ChaCha20.nonceSize
  setKey := ChaCha20.setKey
  setNonce := ChaCha20.setNonce
  encrypt := ChaCha20.encrypt

namespace CryptoRandgen

section Model
variable {T : Type} [StreamCipher T]

def seedSize (T : Type) [StreamCipher T] : Nat := StreamCipher.keySize T + StreamCipher.nonceSize T

def reseed (now : T) (seed : List UInt8) : Exec T := do
  let key ← slice seed 0 (StreamCipher.keySize T)
  let now ← StreamCipher.setKey now key
  let nonce ← slice seed (StreamCipher.keySize T) seed.length
  StreamCipher.setNonce now nonce

def genBytes (now : T) (buf : List UInt8) : Exec (List UInt8 × T) := StreamCipher.encrypt now buf

inductive Request where
  | encrypt (block : List UInt8)
  | genBytes (buf : List UInt8)
  deriving DecidableEq, Repr

def Request.run (now : T) : Request → Exec (List UInt8 × T)
  | .encrypt block => StreamCipher.encrypt now block
  | .genBytes buf => CryptoRandgen.genBytes now buf

def outputs : T → List Request → Exec (List (List UInt8))
  | _, [] => pure []
  | now, request :: requests => do
    let (output, now) ← request.run now
    let rest ← outputs now requests
    pure (output :: rest)

inductive Call where
  | setKey (key : List UInt8)
  | setNonce (nonce : List UInt8)
  | request (made : Request)
  deriving DecidableEq, Repr

def Call.run (now : T) : Call → Exec T
  | .setKey key => StreamCipher.setKey now key
  | .setNonce nonce => StreamCipher.setNonce now nonce
  | .request made => Prod.snd <$> made.run now

def history (now : T) (calls : List Call) : Exec T := calls.foldlM Call.run now

end Model

end CryptoRandgen

namespace ChaCha20

section

local instance neZero_bytes : NeZero 64 := ⟨by decide⟩

def buffered (now : ChaCha20) : List UInt8 := if now.statePtr = 0 then [] else now.state.toList.drop now.statePtr

end

def blocksFrom (key : Vector (BitVec 32) 8) (nonce : Vector (BitVec 32) 3) (counter count : Nat) : List UInt8 :=
  (List.range' counter count).flatMap fun number =>
    (stateBytes (chachaC ++ key ++ #v[BitVec.ofNat 32 number] ++ nonce)).toList

/-- The key stream up to the block at which `self.counter += 1` overflows. -/
def unread (now : ChaCha20) : List UInt8 :=
  now.buffered ++ blocksFrom now.key now.nonce now.counter.toNat (2 ^ 32 - 1 - now.counter.toNat)

theorem length_buffered (now : ChaCha20) : now.buffered.length = (64 - now.statePtr) % 64 := by
  have bound := now.statePtr.isLt
  unfold buffered
  split
  · rename_i zero
    simp [zero]
  · rename_i partly
    have positive : now.statePtr.val ≠ 0 := fun zero => partly (Fin.ext zero)
    rw [length_drop, Vector.length_toList]
    omega

theorem length_blocksFrom (key : Vector (BitVec 32) 8) (nonce : Vector (BitVec 32) 3) (counter count : Nat) :
    (blocksFrom key nonce counter count).length = 64 * count := by
  induction count generalizing counter with
  | zero => simp [blocksFrom]
  | succ count ih =>
    rw [blocksFrom, List.range'_succ, flatMap_cons, length_append, Vector.length_toList]
    have rest := ih (counter + 1)
    rw [blocksFrom] at rest
    omega

theorem length_unread (now : ChaCha20) :
    now.unread.length = (64 - now.statePtr) % 64 + 64 * (2 ^ 32 - 1 - now.counter.toNat) := by
  rw [unread, length_append, length_buffered, length_blocksFrom]

def stream (now : ChaCha20) : List UInt8 :=
  now.state.toList.drop now.statePtr ++
    blocksFrom now.key now.nonce now.counter.toNat (2 ^ 32 - 1 - now.counter.toNat)

theorem refill_unread (now : ChaCha20) :
    (now.unread = [] → now.refill = .error .overflow) ∧
    (now.unread ≠ [] → ∃ next, now.refill = .ok next ∧ now.unread = next.stream) := by
  have small := now.counter.isLt
  have length := now.length_unread
  by_cases zero : now.statePtr = 0
  · have pointer : now.statePtr.val = 0 := by rw [zero]; rfl
    by_cases full : now.counter = BitVec.allOnes 32
    · have top : now.counter.toNat = 2 ^ 32 - 1 := by rw [full, BitVec.toNat_allOnes]
      have none : now.unread = [] := length_eq_zero_iff.mp (by rw [length]; omega)
      refine ⟨fun _ => ?_, fun some => absurd none some⟩
      rw [refill, if_pos zero, if_pos full]
      rfl
    · have below : now.counter.toNat + 1 < 2 ^ 32 := by
        by_contra above
        apply full
        apply BitVec.eq_of_toNat_eq
        rw [BitVec.toNat_allOnes]
        omega
      have some : now.unread ≠ [] := by
        intro none
        rw [none, length_nil] at length
        omega
      refine ⟨fun none => absurd none some, fun _ => ⟨_, by rw [refill, if_pos zero, if_neg full]; rfl, ?_⟩⟩
      have counted : (now.counter + 1).toNat = now.counter.toNat + 1 := by
        rw [BitVec.toNat_add, show (1 : BitVec 32).toNat = 1 from rfl, Nat.mod_eq_of_lt below]
      have count : 2 ^ 32 - 1 - now.counter.toNat = 2 ^ 32 - 1 - (now.counter.toNat + 1) + 1 := by omega
      rw [unread, buffered, if_pos zero, nil_append, count, blocksFrom, List.range'_succ, flatMap_cons]
      simp only [stream, updateState, counted, pointer, drop_zero, origin, BitVec.ofNat_toNat, BitVec.setWidth_eq]
      rfl
  · have pointer : now.statePtr.val ≠ 0 := fun same => zero (Fin.ext same)
    have some : now.unread ≠ [] := by
      intro none
      have bound := now.statePtr.isLt
      rw [none, length_nil] at length
      omega
    refine ⟨fun none => absurd none some, fun _ => ⟨now, by rw [refill, if_neg zero]; rfl, ?_⟩⟩
    rw [unread, buffered, if_neg zero, stream]

def advance (now : ChaCha20) (count : Nat) : ChaCha20 :=
  { now with statePtr := ⟨(now.statePtr + count) % 64, Nat.mod_lt _ (by decide)⟩ }

theorem unread_advance (now : ChaCha20) {count : Nat} (some : 0 < count) (inside : now.statePtr + count ≤ 64) :
    (now.advance count).unread = now.stream.drop count := by
  have size : now.state.toList.length = 64 := Vector.length_toList
  have left : (now.state.toList.drop now.statePtr).length = 64 - now.statePtr := by rw [length_drop, size]
  rw [unread, stream, drop_append_of_le_length (by omega), drop_drop]
  congr 1
  rw [buffered]
  split
  · rename_i zero
    have wrapped : (now.statePtr.val + count) % 64 = 0 := congrArg Fin.val zero
    rw [drop_of_length_le (by omega)]
  · rename_i partly
    have moved : (now.statePtr.val + count) % 64 ≠ 0 := fun zero => partly (Fin.ext zero)
    have place : (now.statePtr.val + count) % 64 = now.statePtr + count := Nat.mod_eq_of_lt (by omega)
    simp only [advance, place]

variable {block : List UInt8} {first second : ChaCha20}

theorem encryptStep_unread (now : ChaCha20) (more : block ≠ []) :
    (now.unread = [] → now.encryptStep block = .error .overflow) ∧
    (now.unread ≠ [] → ∃ count next, 0 < count ∧ count ≤ block.length ∧ count ≤ now.unread.length ∧
      now.encryptStep block =
        .ok ((block.take count).zipWith (· ^^^ ·) (now.unread.take count), block.drop count, next) ∧
      next.unread = now.unread.drop count) := by
  obtain ⟨stops, fills⟩ := now.refill_unread
  refine ⟨fun none => by rw [encryptStep, stops none]; rfl, fun some => ?_⟩
  obtain ⟨ready, run, same⟩ := fills some
  have bound := ready.statePtr.isLt
  have size : ready.state.toList.length = 64 := Vector.length_toList
  have left : (ready.state.toList.drop ready.statePtr).length = 64 - ready.statePtr := by rw [length_drop, size]
  have long : 0 < block.length := length_pos_iff.mpr more
  refine ⟨min block.length (64 - ready.statePtr), ready.advance (min block.length (64 - ready.statePtr)), by omega, by omega,
    ?_, ?_, ?_⟩
  · rw [same, stream, length_append, left]
    omega
  · have inside : ready.statePtr + min block.length (64 - ready.statePtr) ≤ 64 := by omega
    have keyStream : slice ready.state.toList ready.statePtr (ready.statePtr + min block.length (64 - ready.statePtr)) =
        .ok (ready.stream.take (min block.length (64 - ready.statePtr))) := by
      rw [slice, if_pos ⟨by omega, by omega⟩, Nat.add_sub_cancel_left, stream, take_append_of_le_length (by omega)]
      rfl
    rw [encryptStep, run, ok_bind]
    simp only [keyStream, ok_bind, same]
    rfl
  · rw [same, ready.unread_advance (by omega) (by omega)]

theorem encryptLoop_unread (fuel : Nat) (now : ChaCha20) (enough : block.length ≤ fuel) :
    (now.unread.length < block.length → encryptLoop fuel now block = .error .overflow) ∧
    (block.length ≤ now.unread.length → ∃ next,
      encryptLoop fuel now block = .ok (block.zipWith (· ^^^ ·) now.unread, next) ∧
      next.unread = now.unread.drop block.length) := by
  induction fuel generalizing now block with
  | zero =>
    obtain rfl := length_eq_zero_iff.mp (Nat.le_zero.mp enough)
    exact ⟨fun short => absurd short (by simp), fun _ => ⟨now, rfl, rfl⟩⟩
  | succ fuel ih =>
    cases block with
    | nil => exact ⟨fun short => absurd short (by simp), fun _ => ⟨now, rfl, rfl⟩⟩
    | cons byte bytes =>
      rw [encryptLoop]
      obtain ⟨stops, goes⟩ := now.encryptStep_unread (cons_ne_nil byte bytes)
      generalize whole : byte :: bytes = block at *
      by_cases none : now.unread = []
      · refine ⟨fun _ => by rw [stops none]; rfl, fun room => ?_⟩
        rw [none, ← whole] at room
        simp at room
      · obtain ⟨count, next, some, inside, room, step, left⟩ := goes none
        have rest : (block.drop count).length = block.length - count := length_drop
        have unreadLeft : next.unread.length = now.unread.length - count := by rw [left, length_drop]
        have shorter : (block.drop count).length ≤ fuel := by omega
        obtain ⟨fails, returns⟩ := ih next shorter
        rw [step, ok_bind]
        constructor
        · intro short
          simp only [fails (by omega)]
          rfl
        · intro room
          obtain ⟨final, run, done⟩ := returns (by omega)
          refine ⟨final, ?_, by rw [done, left, drop_drop, rest]; congr 1; omega⟩
          simp only [run, ok_bind]
          rw [pure_eq, left, ← zipWith_append (by simp; omega), take_append_drop, take_append_drop]

theorem encrypt_unread (now : ChaCha20) (block : List UInt8) :
    (now.unread.length < block.length → now.encrypt block = .error .overflow) ∧
    (block.length ≤ now.unread.length → ∃ next,
      now.encrypt block = .ok (block.zipWith (· ^^^ ·) now.unread, next) ∧
      next.unread = now.unread.drop block.length) :=
  encryptLoop_unread block.length now le_rfl

open CryptoRandgen

theorem request_unread (now : ChaCha20) (request : Request) :
    ∃ block, (now.unread.length < block.length → request.run now = .error .overflow) ∧
      (block.length ≤ now.unread.length → ∃ next,
        request.run now = .ok (block.zipWith (· ^^^ ·) now.unread, next) ∧ next.unread = now.unread.drop block.length) ∧
      ∀ other : ChaCha20, request.run other = other.encrypt block := by
  cases request with
  | encrypt block => exact ⟨block, (now.encrypt_unread block).1, (now.encrypt_unread block).2, fun _ => rfl⟩
  | genBytes buf => exact ⟨buf, (now.encrypt_unread buf).1, (now.encrypt_unread buf).2, fun _ => rfl⟩

theorem outputs_congr (same : first.unread = second.unread) (requests : List Request) :
    outputs first requests = outputs second requests := by
  induction requests generalizing first second with
  | nil => rfl
  | cons request requests ih =>
    obtain ⟨block, stops, goes, run⟩ := first.request_unread request
    obtain ⟨stops', goes'⟩ := second.encrypt_unread block
    rw [outputs, outputs, run second]
    by_cases room : block.length ≤ first.unread.length
    · obtain ⟨next, step, left⟩ := goes room
      obtain ⟨next', step', left'⟩ := goes' (same ▸ room)
      rw [step, step', ok_bind, ok_bind, same]
      simp only [ih (left.trans (same ▸ left'.symm))]
    · rw [stops (by omega), stops' (by rw [← same]; omega)]

theorem zipWith_zeros (bytes : List UInt8) (count : Nat) :
    (List.replicate count 0).zipWith (· ^^^ ·) bytes = bytes.take count := by
  apply ext_getElem
  · simp
  · simp

theorem unread_begins (same : ∀ requests, outputs first requests = outputs second requests) :
    first.unread <+: second.unread := by
  have zeros := same [.genBytes (List.replicate first.unread.length 0)]
  obtain ⟨next, run, _⟩ := (first.encrypt_unread (List.replicate first.unread.length 0)).2 (by simp)
  obtain ⟨stops, goes⟩ := second.encrypt_unread (List.replicate first.unread.length 0)
  rw [zipWith_zeros, take_length] at run
  simp only [outputs, Request.run, genBytes, StreamCipher.encrypt, run, ok_bind] at zeros
  rcases lt_or_ge second.unread.length (List.replicate first.unread.length (0 : UInt8)).length with short | room
  · rw [stops short] at zeros
    cases zeros
  · obtain ⟨next', run', _⟩ := goes room
    rw [zipWith_zeros] at run'
    simp only [run', ok_bind, pure_eq, Except.ok.injEq, List.cons.injEq, and_true] at zeros
    rw [zeros]
    exact take_prefix _ _

theorem outputs_eq_iff (first second : ChaCha20) :
    (∀ requests, outputs first requests = outputs second requests) ↔ first.unread = second.unread := by
  constructor
  · intro same
    exact (unread_begins same).eq_of_length_le (unread_begins fun requests => (same requests).symm).length_le
  · exact fun same requests => outputs_congr same requests

theorem unread_eq_iff (key : first.key = second.key) (nonce : first.nonce = second.nonce) :
    first.unread = second.unread ↔
      first.counter = second.counter ∧ first.statePtr = second.statePtr ∧ first.buffered = second.buffered := by
  constructor
  · intro same
    have length := congrArg List.length same
    rw [length_unread, length_unread] at length
    have small := first.counter.isLt
    have small' := second.counter.isLt
    have bound := first.statePtr.isLt
    have bound' := second.statePtr.isLt
    have counter : first.counter = second.counter := BitVec.eq_of_toNat_eq (by omega)
    have pointer : first.statePtr = second.statePtr := Fin.ext (by omega)
    refine ⟨counter, pointer, ?_⟩
    rw [unread, unread, key, nonce, counter] at same
    exact append_cancel_right same
  · rintro ⟨counter, _, buffer⟩
    rw [unread, unread, key, nonce, counter, buffer]

theorem reseed_eq (now : ChaCha20) {seed : List UInt8} (sized : seed.length = seedSize ChaCha20) :
    reseed now seed = .ok { now with
      key := Vector.ofFn fun i : Fin 8 => Rfc8439.littleEndian (seed.take 32) i
      nonce := Vector.ofFn fun i : Fin 3 => Rfc8439.littleEndian (seed.drop 32) i } := by
  change seed.length = 44 at sized
  have keySized : (seed.take 32).length = 32 := by rw [length_take]; omega
  have nonceSized : (seed.drop 32).length = 12 := by rw [length_drop]; omega
  have front : slice seed 0 (StreamCipher.keySize ChaCha20) = .ok (seed.take 32) :=
    Slices.slice_prefix (show 32 ≤ seed.length by omega)
  have back : slice seed (StreamCipher.keySize ChaCha20) seed.length = .ok (seed.drop 32) :=
    Slices.slice_suffix (show 32 ≤ seed.length by omega)
  have keyed (now : ChaCha20) : StreamCipher.setKey now (seed.take 32) =
      .ok { now with key := Vector.ofFn fun i : Fin 8 => Rfc8439.littleEndian (seed.take 32) i } := by
    change now.setKey _ = _
    rw [setKey, if_pos (show (seed.take 32).length = keySize from keySized), fromLeWords_eq keySized]
    rfl
  have nonced (now : ChaCha20) : StreamCipher.setNonce now (seed.drop 32) =
      .ok { now with nonce := Vector.ofFn fun i : Fin 3 => Rfc8439.littleEndian (seed.drop 32) i } := by
    change now.setNonce _ = _
    rw [setNonce, if_pos (show (seed.drop 32).length = nonceSize from nonceSized), fromLeWords_eq nonceSized]
    rfl
  rw [reseed, front, ok_bind, keyed, ok_bind, back, ok_bind, nonced]

end ChaCha20

end Kernel31.Crypto
