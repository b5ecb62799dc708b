import Kernel31.Crypto.AesFips

namespace Kernel31.Crypto

open Checked BlockCipher
open List hiding Vector
open Slices (index copyFromSlice)

structure CbcCipher (B : Type) (S : Nat) where
  blockCipher : B
  prevBlock : Vector UInt8 S

namespace CbcCipher

section Model
variable {B : Type} [BlockCipher B] {S n : Nat}

def default : CbcCipher B S := ⟨BlockCipher.default, Vector.replicate S 0⟩

def setIv (now : CbcCipher B S) (iv : List UInt8) : Exec (CbcCipher B S) := do
  let prevBlock ← copyFromSlice now.prevBlock 0 S iv
  pure { now with prevBlock := prevBlock }

def setKey (now : CbcCipher B S) (key : List UInt8) : Exec (CbcCipher B S) := do
  let blockCipher ← BlockCipher.setKey now.blockCipher key
  pure { now with blockCipher := blockCipher }

def xorPrev (prevBlock : Vector UInt8 S) (block : Vector UInt8 n) : Exec (Vector UInt8 n) :=
  Vector.ofFnM fun i : Fin n => do
    let previous ← index prevBlock i
    pure (block[i] ^^^ previous)

def tryInto (block : Vector UInt8 n) : Exec (Vector UInt8 S) :=
  if same : n = S then pure (block.cast same) else throw .unwrapNone

def blockEncrypt (now : CbcCipher B S) (block : Vector UInt8 n) : Exec (Vector UInt8 n × CbcCipher B S) := do
  let block ← xorPrev now.prevBlock block
  let (block, blockCipher) ← BlockCipher.blockEncrypt now.blockCipher block
  let prevBlock ← tryInto block
  pure (block, ⟨blockCipher, prevBlock⟩)

def blockDecrypt (now : CbcCipher B S) (block : Vector UInt8 n) : Exec (Vector UInt8 n × CbcCipher B S) := do
  let prevBlock ← tryInto block
  let (block, blockCipher) ← BlockCipher.blockDecrypt now.blockCipher block
  let block ← xorPrev now.prevBlock block
  pure (block, ⟨blockCipher, prevBlock⟩)

instance : BlockCipher (CbcCipher B S) where
  blockSize := blockSize B
  keySize := BlockCipher.keySize B
  default := default
  setKey := setKey
  blockEncrypt := blockEncrypt
  blockDecrypt := blockDecrypt

def encryptBlocks : CbcCipher B S → List (Vector UInt8 n) → Exec (List (Vector UInt8 n) × CbcCipher B S)
  | now, [] => pure ([], now)
  | now, block :: blocks => do
    let (output, now) ← now.blockEncrypt block
    let (outputs, now) ← encryptBlocks now blocks
    pure (output :: outputs, now)

def decryptBlocks : CbcCipher B S → List (Vector UInt8 n) → Exec (List (Vector UInt8 n) × CbcCipher B S)
  | now, [] => pure ([], now)
  | now, block :: blocks => do
    let (output, now) ← now.blockDecrypt block
    let (outputs, now) ← decryptBlocks now blocks
    pure (output :: outputs, now)

end Model

/-- Under one key both operations stay among the states, and in any of them `block_decrypt` inverts what
    `block_encrypt` did in any other. -/
structure InvertsUnder (B : Type) [BlockCipher B] (key : List UInt8) (keyed : B → Prop) : Prop where
  sets : ∀ cipher : B, ∃ next, BlockCipher.setKey cipher key = .ok next ∧ keyed next
  inverts : ∀ cipher, keyed cipher → ∀ block : Vector UInt8 (blockSize B), ∃ output next,
    BlockCipher.blockEncrypt cipher block = .ok (output, next) ∧ keyed next ∧
      ∀ other, keyed other → ∃ after, BlockCipher.blockDecrypt other output = .ok (block, after) ∧ keyed after

section Chain
variable {B : Type} {S : Nat}

theorem xorPrev_eq (prevBlock block : Vector UInt8 S) : xorPrev prevBlock block = .ok (block.zipWith (· ^^^ ·) prevBlock) := by
  have each : (fun i : Fin S => do
      let previous ← index prevBlock i
      pure (block[i] ^^^ previous) : Fin S → Exec UInt8) = fun i => pure ((block.zipWith (· ^^^ ·) prevBlock)[i]) := by
    funext i
    rw [index, dif_pos i.isLt, pure_eq, ok_bind]
    simp
  rw [xorPrev, each, Vector.ofFnM_pure]
  refine congrArg Except.ok (Vector.ext fun i inside => ?_)
  simp

theorem tryInto_self (block : Vector UInt8 S) : (tryInto block : Exec (Vector UInt8 S)) = .ok block := by
  rw [tryInto, dif_pos rfl]
  rfl

theorem xor_twice (block prevBlock : Vector UInt8 S) :
    (block.zipWith (· ^^^ ·) prevBlock).zipWith (· ^^^ ·) prevBlock = block := by
  apply Vector.ext
  intro i inside
  rw [Vector.getElem_zipWith, Vector.getElem_zipWith, UInt8.xor_assoc, UInt8.xor_self, UInt8.xor_zero]

theorem setIv_eq (now : CbcCipher B S) (iv : Vector UInt8 S) : now.setIv iv.toList = .ok { now with prevBlock := iv } := by
  obtain ⟨prevBlock, copied, contents⟩ := Slices.copyFromSlice_ok now.prevBlock (Nat.zero_le S) le_rfl
    (show iv.toList.length = S - 0 by simp)
  rw [take_zero, nil_append, drop_of_length_le (by simp), append_nil] at contents
  rw [setIv, copied, ok_bind, Vector.toList_inj.mp contents]
  rfl

end Chain

section Keyed
variable {B : Type} [BlockCipher B] {key : List UInt8} {keyed : B → Prop}

theorem blockEncrypt_rule (inverts : InvertsUnder B key keyed) {now : CbcCipher B (blockSize B)}
    (set : keyed now.blockCipher) (block : Vector UInt8 (blockSize B)) :
    ∃ output next, now.blockEncrypt block = .ok (output, next) ∧ keyed next.blockCipher ∧ next.prevBlock = output ∧
      ∀ other : CbcCipher B (blockSize B), keyed other.blockCipher → other.prevBlock = now.prevBlock →
        ∃ after, other.blockDecrypt output = .ok (block, after) ∧ keyed after.blockCipher ∧ after.prevBlock = output := by
  obtain ⟨output, next, run, stays, back⟩ := inverts.inverts _ set (block.zipWith (· ^^^ ·) now.prevBlock)
  refine ⟨output, ⟨next, output⟩, ?_, stays, rfl, ?_⟩
  · rw [blockEncrypt, xorPrev_eq, ok_bind, run, ok_bind]
    simp only [tryInto_self, ok_bind]
    rfl
  · intro other otherSet same
    obtain ⟨after, undone, kept⟩ := back _ otherSet
    refine ⟨⟨after, output⟩, ?_, kept, rfl⟩
    rw [blockDecrypt, tryInto_self, ok_bind, undone, ok_bind]
    simp only [same, xorPrev_eq, ok_bind, xor_twice]
    rfl

theorem encryptBlocks_rule (inverts : InvertsUnder B key keyed) (blocks : List (Vector UInt8 (blockSize B)))
    {now : CbcCipher B (blockSize B)} (set : keyed now.blockCipher) :
    ∃ outputs final, now.encryptBlocks blocks = .ok (outputs, final) ∧ outputs.length = blocks.length ∧
      ∀ place previous, (now.prevBlock :: outputs)[place]? = some previous →
        ∀ other : CbcCipher B (blockSize B), keyed other.blockCipher → other.prevBlock = previous →
          ∃ last, other.decryptBlocks (outputs.drop place) = .ok (blocks.drop place, last) := by
  induction blocks generalizing now with
  | nil => exact ⟨[], now, rfl, rfl, fun place _ _ other _ _ => ⟨other, by simp [decryptBlocks, pure_eq]⟩⟩
  | cons block blocks ih =>
    obtain ⟨output, next, run, stays, chained, back⟩ := blockEncrypt_rule inverts set block
    obtain ⟨outputs, final, rest, sizes, behind⟩ := ih stays
    refine ⟨output :: outputs, final, ?_, by rw [length_cons, length_cons, sizes], ?_⟩
    · rw [encryptBlocks, run, ok_bind]
      simp only [rest, ok_bind]
      rfl
    · intro place previous found other otherSet same
      cases place with
      | zero =>
        obtain rfl := Option.some.inj found
        obtain ⟨after, first, kept, saved⟩ := back other otherSet same
        obtain ⟨last, others⟩ := behind 0 _ rfl after kept (saved.trans chained.symm)
        rw [drop_zero, drop_zero] at others
        refine ⟨last, ?_⟩
        rw [drop_zero, drop_zero, decryptBlocks, first, ok_bind]
        simp only [others, ok_bind]
        rfl
      | succ place =>
        rw [getElem?_cons_succ, ← chained] at found
        exact behind place previous found other otherSet same

/-- Blocks come back when decrypted in order, and so does every tail under the ciphertext block before it. -/
theorem decrypted_from_any_block (inverts : InvertsUnder B key keyed) (iv : Vector UInt8 (blockSize B))
    (blocks : List (Vector UInt8 (blockSize B)))
    (encryptor decryptor : CbcCipher B (blockSize B)) :
    ∃ encrypting outputs final decrypting last,
      (encryptor.setKey key >>= fun now => now.setIv iv.toList) = .ok encrypting ∧
      encrypting.encryptBlocks blocks = .ok (outputs, final) ∧
      (decryptor.setKey key >>= fun now => now.setIv iv.toList) = .ok decrypting ∧
      decrypting.decryptBlocks outputs = .ok (blocks, last) ∧
      ∀ place previous, outputs[place]? = some previous →
        ∀ other : CbcCipher B (blockSize B), keyed other.blockCipher →
          ∃ resumed last, other.setIv previous.toList = .ok resumed ∧
            resumed.decryptBlocks (outputs.drop (place + 1)) = .ok (blocks.drop (place + 1), last) := by
  have prepared (now : CbcCipher B (blockSize B)) : ∃ ready : B, keyed ready ∧
      (now.setKey key >>= fun now => now.setIv iv.toList) = .ok ⟨ready, iv⟩ := by
    obtain ⟨ready, run, set⟩ := inverts.sets now.blockCipher
    refine ⟨ready, set, ?_⟩
    rw [setKey, run, ok_bind, pure_eq, ok_bind, setIv_eq]
  obtain ⟨encrypting, set, run⟩ := prepared encryptor
  obtain ⟨decrypting, set', run'⟩ := prepared decryptor
  obtain ⟨outputs, final, encrypted, _, behind⟩ := encryptBlocks_rule inverts blocks
    (show keyed (CbcCipher.mk encrypting iv).blockCipher from set)
  obtain ⟨last, decrypted⟩ := behind 0 iv rfl ⟨decrypting, iv⟩ set' rfl
  rw [drop_zero, drop_zero] at decrypted
  refine ⟨_, outputs, final, _, last, run, encrypted, run', decrypted, ?_⟩
  intro place previous found other otherSet
  obtain ⟨last, tail⟩ := behind (place + 1) previous (by rw [getElem?_cons_succ, found])
    { other with prevBlock := previous } otherSet rfl
  exact ⟨_, last, other.setIv_eq previous, tail⟩

end Keyed

theorem aes128_inverts {key : List UInt8} (sized : key.length = Aes.aes128KeySize) :
    InvertsUnder Aes128 key fun cipher =>
      Aes.Holds cipher.roundKeys (Fips197.keyExpansion 4 (byteOf key)) (Aes.aes128Round + 1) where
  sets cipher := cipher.setKey_holds sized
  inverts cipher set block := by
    refine ⟨Aes.encryptBlock cipher.roundKeys block, cipher, rfl, set, fun other otherSet => ⟨other, ?_, otherSet⟩⟩
    have undone := Aes.decryptBlock_encryptBlock cipher.roundKeys block
    nth_rewrite 1 [set.unique otherSet] at undone
    exact congrArg (fun block => Except.ok (block, other)) undone

theorem two_blocks_decrypted : ∃ encrypting outputs final decrypting last,
    ((default : CbcCipher Aes128 16).setKey testKey128 >>= fun now => now.setIv testBlock.toList) = .ok encrypting ∧
    encrypting.encryptBlocks [testBlock, testBlock] = .ok (outputs, final) ∧
    ((default : CbcCipher Aes128 16).setKey testKey128 >>= fun now => now.setIv testBlock.toList) = .ok decrypting ∧
    decrypting.decryptBlocks outputs = .ok ([testBlock, testBlock], last) := by
  obtain ⟨encrypting, outputs, final, decrypting, last, run, encrypted, run', decrypted, _⟩ :=
    decrypted_from_any_block (aes128_inverts (show testKey128.length = Aes.aes128KeySize by decide)) testBlock
      [testBlock, testBlock] default default
  exact ⟨encrypting, outputs, final, decrypting, last, run, encrypted, run', decrypted⟩

end CbcCipher

end Kernel31.Crypto
