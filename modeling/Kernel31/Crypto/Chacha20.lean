import Kernel31.Elf.Parse
import Kernel31.Library.Lists
import Kernel31.Library.Rfc8439

namespace Kernel31.Crypto

open Checked Function
open List hiding Vector
open Elf (slice fromLeBytes)

def chachaC : Vector (BitVec 32) 4 := #v[0x61707865, 0x3320646e, 0x79622d32, 0x6b206574]

def quarterRound (a b c d : BitVec 32) : BitVec 32 × BitVec 32 × BitVec 32 × BitVec 32 :=
  let a := a + b
  let d := d ^^^ a
  let d := d.rotateLeft 16
  let c := c + d
  let b := b ^^^ c
  let b := b.rotateLeft 12
  let a := a + b
  let d := d ^^^ a
  let d := d.rotateLeft 8
  let c := c + d
  let b := b ^^^ c
  let b := b.rotateLeft 7
  (a, b, c, d)

def quarterRoundAt (matrix : Vector (BitVec 32) 16) (a b c d : Fin 16) : Vector (BitVec 32) 16 :=
  let words := quarterRound matrix[a] matrix[b] matrix[c] matrix[d]
  (((matrix.set a words.1).set b words.2.1).set c words.2.2.1).set d words.2.2.2

def doubleRound (matrix : Vector (BitVec 32) 16) : Vector (BitVec 32) 16 :=
  let matrix := quarterRoundAt matrix 0 4 8 12
  let matrix := quarterRoundAt matrix 1 5 9 13
  let matrix := quarterRoundAt matrix 2 6 10 14
  let matrix := quarterRoundAt matrix 3 7 11 15
  let matrix := quarterRoundAt matrix 0 5 10 15
  let matrix := quarterRoundAt matrix 1 6 11 12
  let matrix := quarterRoundAt matrix 2 7 8 13
  quarterRoundAt matrix 3 4 9 14

def leByte (word : BitVec 32) (place : Nat) : UInt8 := ⟨(word >>> (8 * place)).setWidth 8⟩

structure ChaCha20 where
  key : Vector (BitVec 32) 8
  nonce : Vector (BitVec 32) 3
  counter : BitVec 32
  state : Vector UInt8 64
  statePtr : Fin 64

namespace ChaCha20

def default : ChaCha20 where
  key := Vector.replicate 8 0
  nonce := Vector.replicate 3 0
  counter := 0
  state := Vector.replicate 64 0
  statePtr := 0

def origin (self : ChaCha20) : Vector (BitVec 32) 16 := chachaC ++ self.key ++ #v[self.counter] ++ self.nonce

def stateBytes (origin : Vector (BitVec 32) 16) : Vector UInt8 64 :=
  let matrix := doubleRound^[10] origin
  Vector.ofFn fun place : Fin 64 => leByte (matrix[place.val / 4] + origin[place.val / 4]) (place.val % 4)

def updateState (self : ChaCha20) : ChaCha20 := { self with state := stateBytes self.origin }

def keySize : Nat := 32

def nonceSize : Nat := 12

def fromLeWords (count : Nat) (bytes : List UInt8) : Exec (Vector (BitVec 32) count) :=
  Vector.ofFnM fun i : Fin count => do
    let field ← slice bytes (4 * i) (4 * (i + 1))
    pure (BitVec.ofNat 32 (fromLeBytes field))

def setKey (self : ChaCha20) (key : List UInt8) : Exec ChaCha20 :=
  if key.length = keySize then do
    let words ← fromLeWords 8 key
    pure { self with key := words }
  else throw .assertion

def setNonce (self : ChaCha20) (nonce : List UInt8) : Exec ChaCha20 :=
  if nonce.length = nonceSize then do
    let words ← fromLeWords 3 nonce
    pure { self with nonce := words }
  else throw .assertion

def refill (self : ChaCha20) : Exec ChaCha20 :=
  if self.statePtr = 0 then
    if self.counter = BitVec.allOnes 32 then throw .overflow
    else pure { self.updateState with counter := self.counter + 1 }
  else pure self

def encryptStep (self : ChaCha20) (block : List UInt8) : Exec (List UInt8 × List UInt8 × ChaCha20) := do
  let self ← self.refill
  let xorBytes := min block.length (64 - self.statePtr)
  let keyStream ← slice self.state.toList self.statePtr (self.statePtr + xorBytes)
  pure ((block.take xorBytes).zipWith (· ^^^ ·) keyStream, block.drop xorBytes,
    { self with statePtr := ⟨(self.statePtr + xorBytes) % 64, Nat.mod_lt _ (by decide)⟩ })

def encryptLoop : Nat → ChaCha20 → List UInt8 → Exec (List UInt8 × ChaCha20)
  | _, self, [] => pure ([], self)
  | 0, _, _ :: _ => throw .recursion
  | fuel + 1, self, byte :: bytes => do
    let (output, block, self) ← self.encryptStep (byte :: bytes)
    let (rest, self) ← encryptLoop fuel self block
    pure (output ++ rest, self)

def encrypt (self : ChaCha20) (block : List UInt8) : Exec (List UInt8 × ChaCha20) :=
  encryptLoop block.length self block

def decrypt (self : ChaCha20) (block : List UInt8) : Exec (List UInt8 × ChaCha20) := self.encrypt block

end ChaCha20

section BlockFunction

def matrixWords (matrix : Vector (BitVec 32) 16) : Rfc8439.State := fun i => matrix[i]

theorem matrixWords_set (matrix : Vector (BitVec 32) 16) (i : Fin 16) (word : BitVec 32) :
    matrixWords (matrix.set i word) = update (matrixWords matrix) i word := by
  funext j
  simp only [matrixWords, Fin.getElem_fin, Vector.getElem_set, update_apply, Fin.ext_iff, eq_comm]

theorem rotateLeft_eq_rotl (word : BitVec 32) {count : Nat} (small : count < 32) :
    word.rotateLeft count = Rfc8439.rotl word count := by
  rw [BitVec.rotateLeft_def, Nat.mod_eq_of_lt small, Rfc8439.rotl]

theorem matrixWords_quarterRoundAt (matrix : Vector (BitVec 32) 16) (a b c d : Fin 16) :
    matrixWords (quarterRoundAt matrix a b c d) = Rfc8439.quarterRound a b c d (matrixWords matrix) := by
  simp only [quarterRoundAt, matrixWords_set, quarterRound, rotateLeft_eq_rotl _ (show 16 < 32 by decide),
    rotateLeft_eq_rotl _ (show 12 < 32 by decide), rotateLeft_eq_rotl _ (show 8 < 32 by decide),
    rotateLeft_eq_rotl _ (show 7 < 32 by decide)]
  rfl

theorem matrixWords_doubleRound (matrix : Vector (BitVec 32) 16) :
    matrixWords (doubleRound matrix) = Rfc8439.innerBlock (matrixWords matrix) := by
  simp only [doubleRound, matrixWords_quarterRoundAt, Rfc8439.innerBlock]

theorem leByte_eq (word : BitVec 32) (place : Nat) : leByte word place = UInt8.ofNat (word.toNat / 2 ^ (8 * place)) := by
  apply UInt8.toNat_inj.mp
  rw [UInt8.toNat_ofNat', leByte, ← UInt8.toNat_toBitVec, BitVec.toNat_setWidth, BitVec.toNat_ushiftRight,
    Nat.shiftRight_eq_div_pow]

theorem fromLeBytes_slice (bytes : List UInt8) (i : Nat) (inside : 4 * (i + 1) ≤ bytes.length) :
    slice bytes (4 * i) (4 * (i + 1)) = .ok ((bytes.drop (4 * i)).take 4) ∧
      BitVec.ofNat 32 (fromLeBytes ((bytes.drop (4 * i)).take 4)) = Rfc8439.littleEndian bytes i := by
  have size : 4 * (i + 1) - 4 * i = 4 := by omega
  constructor
  · rw [slice, if_pos ⟨by omega, inside⟩, size]
    rfl
  · have four : (bytes.drop (4 * i)).take 4 = [bytes.getD (4 * i) 0, bytes.getD (4 * i + 1) 0, bytes.getD (4 * i + 2) 0,
        bytes.getD (4 * i + 3) 0] := Lists.take_drop_eq_map bytes 0 (by omega)
    rw [four]
    simp only [fromLeBytes, foldr_cons, foldr_nil, Rfc8439.littleEndian]
    congr 1
    omega

end BlockFunction

namespace ChaCha20

theorem fromLeWords_eq {count : Nat} {bytes : List UInt8} (size : bytes.length = 4 * count) :
    fromLeWords count bytes = .ok (Vector.ofFn fun i : Fin count => Rfc8439.littleEndian bytes i) := by
  have each : (fun i : Fin count => do
      let field ← slice bytes (4 * i) (4 * (i + 1))
      pure (BitVec.ofNat 32 (fromLeBytes field)) : Fin count → Exec (BitVec 32)) =
      fun i : Fin count => pure (Rfc8439.littleEndian bytes i) := by
    funext i
    obtain ⟨field, word⟩ := fromLeBytes_slice bytes i (by omega)
    rw [field, ok_bind, word]
  rw [fromLeWords, each, Vector.ofFnM_pure]
  rfl

section Stream
variable {key nonce : List UInt8}

structure Keyed (now : ChaCha20) (key nonce : List UInt8) : Prop where
  keyWords : now.key = Vector.ofFn fun i : Fin 8 => Rfc8439.littleEndian key i
  nonceWords : now.nonce = Vector.ofFn fun i : Fin 3 => Rfc8439.littleEndian nonce i

variable {self : ChaCha20} {start : Nat}

theorem Keyed.words_origin (keyed : self.Keyed key nonce) :
    matrixWords self.origin = Rfc8439.start key self.counter nonce := by
  funext i
  have row : matrixWords self.origin i = (chachaC ++ self.key ++ #v[self.counter] ++ self.nonce)[i.val] := rfl
  rw [row]
  simp only [keyed.keyWords, keyed.nonceWords, Vector.getElem_append, Vector.getElem_ofFn, Rfc8439.start]
  fin_cases i <;> simp [chachaC]

theorem Keyed.updateState_state (keyed : self.Keyed key nonce) (place : Fin 64) :
    self.updateState.state[place] = Rfc8439.blockByte key self.counter nonce place := by
  have rounds : matrixWords (doubleRound^[10] self.origin) = Rfc8439.innerBlock^[10] (matrixWords self.origin) :=
    Function.Semiconj.iterate_right matrixWords_doubleRound 10 self.origin
  have word (i : Fin 16) : (doubleRound^[10] self.origin)[i] + self.origin[i] = Rfc8439.block key self.counter nonce i := by
    rw [Rfc8439.block, ← keyed.words_origin, ← rounds]
    rfl
  rw [updateState, stateBytes, Fin.getElem_fin, Vector.getElem_ofFn, leByte_eq, Rfc8439.blockByte, ← word]
  rfl

theorem Keyed.updateState (keyed : self.Keyed key nonce) : self.updateState.Keyed key nonce := by
  rw [ChaCha20.updateState]
  exact ⟨keyed.keyWords, keyed.nonceWords⟩

theorem updateState_statePtr (self : ChaCha20) : self.updateState.statePtr = self.statePtr := by
  rw [updateState]

structure At (now : ChaCha20) (key nonce : List UInt8) (start : Nat) : Prop extends now.Keyed key nonce where
  counter : now.counter.toNat = (start + 63) / 64
  statePtr : now.statePtr.val = start % 64
  state : start % 64 ≠ 0 →
    ∀ place : Fin 64, now.state[place] = Rfc8439.blockByte key (BitVec.ofNat 32 (start / 64)) nonce place

theorem keyStream_eq {state : Vector UInt8 64} {count : Nat}
    (block : ∀ place : Fin 64, state[place] = Rfc8439.blockByte key (BitVec.ofNat 32 (start / 64)) nonce place)
    (inside : start % 64 + count ≤ 64) :
    slice state.toList (start % 64) (start % 64 + count) =
      .ok ((List.range count).map fun i => Rfc8439.keyByte key nonce (start + i)) := by
  have length : state.toList.length = 64 := Vector.length_toList
  rw [slice, if_pos ⟨by omega, by omega⟩, Nat.add_sub_cancel_left, Lists.take_drop_eq_map _ 0 (by omega)]
  refine congrArg Except.ok (map_congr_left fun i member => ?_)
  have small := mem_range.mp member
  have place : (start + i) % 64 = start % 64 + i := by omega
  have number : (start + i) / 64 = start / 64 := by omega
  rw [getD_eq_getElem?_getD, getElem?_eq_getElem (by omega), Option.getD_some, Vector.getElem_toList]
  simp only [Rfc8439.keyByte, number, place]
  exact block ⟨start % 64 + i, by omega⟩

theorem zipWith_keyStream (start : Nat) (bytes : List UInt8) :
    bytes.zipWith (· ^^^ ·) ((List.range bytes.length).map fun i => Rfc8439.keyByte key nonce (start + i)) =
      Rfc8439.xorFrom key nonce start bytes := by
  apply ext_getElem?
  intro i
  rw [Rfc8439.xorFrom_getElem?]
  by_cases inside : i < bytes.length
  · simp [inside]
  · simp [inside]

structure Ready (now : ChaCha20) (key nonce : List UInt8) (start : Nat) : Prop extends now.Keyed key nonce where
  counter : now.counter.toNat = start / 64 + 1
  statePtr : now.statePtr.val = start % 64
  state : ∀ place : Fin 64, now.state[place] = Rfc8439.blockByte key (BitVec.ofNat 32 (start / 64)) nonce place

theorem At.refill (here : self.At key nonce start) (room : start < 64 * (2 ^ 32 - 1)) :
    ∃ next, self.refill = .ok next ∧ next.Ready key nonce start := by
  have pointer := here.statePtr
  have count := here.counter
  by_cases aligned : start % 64 = 0
  · have below : self.counter.toNat + 1 < 2 ^ 32 := by omega
    have free : self.counter ≠ BitVec.allOnes 32 := by
      intro full
      rw [full, BitVec.toNat_allOnes] at below
      omega
    have counter : self.counter = BitVec.ofNat 32 (start / 64) := by
      apply BitVec.eq_of_toNat_eq
      rw [BitVec.toNat_ofNat]
      omega
    have keyed := here.toKeyed.updateState
    have block := here.updateState_state
    rw [← updateState_statePtr] at pointer
    rw [ChaCha20.refill, ← updateState_statePtr, if_pos (Fin.ext (pointer.trans aligned)), if_neg free]
    generalize self.updateState = filled at keyed block pointer
    refine ⟨{ filled with counter := self.counter + 1 }, rfl, ⟨keyed.keyWords, keyed.nonceWords⟩, ?_, pointer, counter ▸ block⟩
    rw [BitVec.toNat_add, show (1 : BitVec 32).toNat = 1 from rfl, Nat.mod_eq_of_lt below]
    omega
  · refine ⟨self, if_neg fun zero => aligned ?_, here.toKeyed, by omega, pointer, here.state aligned⟩
    rw [← pointer, zero]
    rfl

theorem Ready.advance {count : Nat} (ready : self.Ready key nonce start) (some : 0 < count)
    (inside : start % 64 + count ≤ 64) :
    At { self with statePtr := ⟨(self.statePtr + count) % 64, Nat.mod_lt _ (by decide)⟩ } key nonce (start + count) := by
  have counter := ready.counter
  have pointer := ready.statePtr
  refine ⟨⟨ready.keyWords, ready.nonceWords⟩, ?_, ?_, fun partly => ?_⟩
  · show self.counter.toNat = _
    omega
  · show (self.statePtr.val + count) % 64 = _
    omega
  · have number : (start + count) / 64 = start / 64 := by omega
    rw [number]
    exact ready.state

theorem encryptStep_rule {block : List UInt8} (here : self.At key nonce start) (more : block ≠ [])
    (room : start + block.length ≤ 64 * (2 ^ 32 - 1)) :
    ∃ count next, 0 < count ∧ count ≤ block.length ∧
      self.encryptStep block = .ok (Rfc8439.xorFrom key nonce start (block.take count), block.drop count, next) ∧
      next.At key nonce (start + count) := by
  have some := length_pos_iff.mpr more
  obtain ⟨next, run, ready⟩ := here.refill (by omega)
  have pointer := ready.statePtr
  refine ⟨min block.length (64 - start % 64), _, by omega, by omega, ?_, ready.advance (by omega) (by omega)⟩
  have taken : (block.take (min block.length (64 - start % 64))).length = min block.length (64 - start % 64) := by
    rw [length_take]
    omega
  rw [encryptStep, run, ok_bind]
  simp only [pointer]
  rw [keyStream_eq ready.state (by omega), ok_bind, ← zipWith_keyStream, taken]
  rfl

theorem encryptLoop_rule {fuel : Nat} (block : List UInt8) (here : self.At key nonce start)
    (enough : block.length ≤ fuel) (room : start + block.length ≤ 64 * (2 ^ 32 - 1)) :
    ∃ final, encryptLoop fuel self block = .ok (Rfc8439.xorFrom key nonce start block, final) ∧
      final.At key nonce (start + block.length) := by
  induction fuel generalizing start self block with
  | zero =>
    obtain rfl := length_eq_zero_iff.mp (Nat.le_zero.mp enough)
    exact ⟨self, rfl, here⟩
  | succ fuel ih =>
    cases block with
    | nil => exact ⟨self, rfl, here⟩
    | cons byte bytes =>
      obtain ⟨count, next, some, inside, step, there⟩ := encryptStep_rule here (cons_ne_nil byte bytes) room
      rw [encryptLoop, step, ok_bind]
      generalize byte :: bytes = block at *
      have left : (block.drop count).length = block.length - count := length_drop
      obtain ⟨final, rest, done⟩ := ih (block.drop count) there (by omega) (by omega)
      have whole := Rfc8439.xorFrom_append key nonce start (block.take count) (block.drop count)
      rw [take_append_drop, length_take, Nat.min_eq_left inside] at whole
      have total : start + count + (block.drop count).length = start + block.length := by omega
      refine ⟨final, ?_, total ▸ done⟩
      simp only [rest, ok_bind, whole]
      rfl

def keyed (key nonce : List UInt8) : Exec ChaCha20 := do
  let self ← default.setKey key
  self.setNonce nonce

def encryptPieces : ChaCha20 → List (List UInt8) → Exec (List (List UInt8) × ChaCha20)
  | self, [] => pure ([], self)
  | self, piece :: pieces => do
    let (output, self) ← self.encrypt piece
    let (outputs, self) ← encryptPieces self pieces
    pure (output :: outputs, self)

def decryptPieces : ChaCha20 → List (List UInt8) → Exec (List (List UInt8) × ChaCha20)
  | self, [] => pure ([], self)
  | self, piece :: pieces => do
    let (output, self) ← self.decrypt piece
    let (outputs, self) ← decryptPieces self pieces
    pure (output :: outputs, self)

theorem keyed_rule (keySized : key.length = 32) (nonceSized : nonce.length = 12) :
    ∃ self, keyed key nonce = .ok self ∧ self.At key nonce 0 := by
  refine ⟨{ default with
    key := Vector.ofFn fun i : Fin 8 => Rfc8439.littleEndian key i
    nonce := Vector.ofFn fun i : Fin 3 => Rfc8439.littleEndian nonce i }, ?_, ⟨rfl, rfl⟩, rfl, rfl, fun partly => absurd rfl partly⟩
  rw [keyed, setKey, if_pos (show key.length = keySize from keySized), fromLeWords_eq keySized, ok_bind, pure_eq, ok_bind,
    setNonce, if_pos (show nonce.length = nonceSize from nonceSized), fromLeWords_eq nonceSized]
  rfl

theorem encryptPieces_rule (pieces : List (List UInt8)) (here : self.At key nonce start)
    (room : start + pieces.flatten.length ≤ 64 * (2 ^ 32 - 1)) :
    ∃ outputs final, self.encryptPieces pieces = .ok (outputs, final) ∧ outputs.map List.length = pieces.map List.length ∧
      outputs.flatten = Rfc8439.xorFrom key nonce start pieces.flatten := by
  induction pieces generalizing start self with
  | nil => exact ⟨[], self, rfl, rfl, rfl⟩
  | cons piece pieces ih =>
    rw [flatten_cons, length_append] at room
    obtain ⟨next, first, there⟩ := encryptLoop_rule piece here le_rfl (by omega)
    obtain ⟨outputs, final, rest, sizes, stream⟩ := ih there (by omega)
    refine ⟨Rfc8439.xorFrom key nonce start piece :: outputs, final, ?_, ?_, ?_⟩
    · rw [encryptPieces, encrypt, first]
      simp only [ok_bind, rest]
      rfl
    · simp only [map_cons, Rfc8439.length_xorFrom, sizes]
    · rw [flatten_cons, flatten_cons, stream, Rfc8439.xorFrom_append]

theorem decryptPieces_eq (self : ChaCha20) (pieces : List (List UInt8)) :
    self.decryptPieces pieces = self.encryptPieces pieces := by
  induction pieces generalizing self with
  | nil => rfl
  | cons piece pieces ih => simp only [decryptPieces, encryptPieces, decrypt, ih]

/-- However the data is cut, every byte is xored with the key stream at its position, and decrypts under any other
    cut. -/
theorem encrypted_with_key_stream (key nonce : List UInt8) (pieces : List (List UInt8)) (keySized : key.length = 32)
    (nonceSized : nonce.length = 12) (room : pieces.flatten.length ≤ 64 * (2 ^ 32 - 1)) :
    ∃ cipher outputs final, keyed key nonce = .ok cipher ∧ cipher.encryptPieces pieces = .ok (outputs, final) ∧
      outputs.map List.length = pieces.map List.length ∧
      (∀ i byte, pieces.flatten[i]? = some byte → outputs.flatten[i]? =
        some (byte ^^^ Rfc8439.blockByte key (BitVec.ofNat 32 (i / 64)) nonce ⟨i % 64, Nat.mod_lt i (by decide)⟩)) ∧
      ∀ cut : List (List UInt8), cut.flatten = outputs.flatten →
        ∃ restored final, cipher.decryptPieces cut = .ok (restored, final) ∧ restored.flatten = pieces.flatten := by
  obtain ⟨cipher, fresh, here⟩ := keyed_rule keySized nonceSized
  obtain ⟨outputs, final, run, sizes, stream⟩ := encryptPieces_rule pieces here (by omega)
  refine ⟨cipher, outputs, final, fresh, run, sizes, fun i byte inside => ?_, fun cut same => ?_⟩
  · rw [stream, Rfc8439.xorFrom_getElem?, inside, Nat.zero_add]
    rfl
  · have length : cut.flatten.length = pieces.flatten.length := by rw [same, stream, Rfc8439.length_xorFrom]
    obtain ⟨restored, last, back, -, again⟩ := encryptPieces_rule cut here (by omega)
    refine ⟨restored, last, by rw [decryptPieces_eq, back], ?_⟩
    rw [again, same, stream, Rfc8439.xorFrom_xorFrom]

end Stream

def testKey : List UInt8 := (List.range 32).map UInt8.ofNat

def testNonce : List UInt8 := [0, 0, 0, 0, 0, 0, 0, 0x4a, 0, 0, 0, 0]

theorem two_pieces_encrypted :
    ∃ cipher outputs final, keyed testKey testNonce = .ok cipher ∧
      cipher.encryptPieces [List.replicate 63 0, List.replicate 3 0] = .ok (outputs, final) ∧
      outputs.map List.length = [63, 3] ∧ outputs.flatten[64]? = some (0 ^^^ Rfc8439.blockByte testKey 1 testNonce 0) := by
  obtain ⟨cipher, outputs, final, fresh, run, sizes, bytes, -⟩ :=
    encrypted_with_key_stream testKey testNonce [List.replicate 63 0, List.replicate 3 0] (by decide) (by decide) (by decide)
  exact ⟨cipher, outputs, final, fresh, run, sizes, bytes 64 0 (by decide)⟩

example : Checked.passes (do
      let cipher ← keyed testKey testNonce
      let (_, cipher) ← cipher.encrypt (List.replicate 64 0)
      cipher.encrypt (List.replicate 16 0))
    (fun result => result.1 ==
      [0x22, 0x4f, 0x51, 0xf3, 0x40, 0x1b, 0xd9, 0xe1, 0x2f, 0xde, 0x27, 0x6f, 0xb8, 0x63, 0x1d, 0xed]) = true := by
  decide +kernel

end ChaCha20

end Kernel31.Crypto
