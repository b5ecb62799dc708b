import Kernel31.Crypto.Sha256

namespace Kernel31.Crypto

open Checked Slices Blocks
open List hiding Vector
open Elf (slice)

namespace Sha256

theorem updateBlocks_rule {fuel : Nat} (self : Sha256) (message : List UInt8) (enough : message.length ≤ fuel) :
    ∃ next, updateBlocks fuel self message = .ok (next, rest 64 message) ∧ Compressed self next (blocks 64 message) := by
  induction fuel generalizing self message with
  | zero =>
    have short : message.length < 64 := by omega
    refine ⟨self, ?_, blocks_of_short short ▸ .refl self⟩
    rw [updateBlocks, if_neg (by omega), rest_of_short short]
    rfl
  | succ fuel ih =>
    rw [updateBlocks]
    by_cases more : 64 ≤ message.length
    · have size : (message.take 64).length = 64 := by
        rw [length_take]
        omega
      have left : (message.drop 64).length = message.length - 64 := length_drop
      obtain ⟨middle, first, one⟩ := self.updateChunk_rule size
      obtain ⟨next, others, many⟩ := ih middle (message.drop 64) (by omega)
      obtain ⟨cut, same⟩ := blocks_cons (by decide) more
      refine ⟨next, ?_, ?_⟩
      · rw [if_pos more, slice_prefix more, ok_bind, first, ok_bind, slice_suffix more, ok_bind, others, same]
      · rw [cut]
        exact one.trans many
    · have short : message.length < 64 := by omega
      refine ⟨self, ?_, blocks_of_short short ▸ .refl self⟩
      rw [if_neg more, rest_of_short short]
      rfl

structure Absorbed (now : Sha256) (bytes : List UInt8) (length : Nat) : Prop where
  hash : hashWords now.h = Fips180.chain bytes
  remain : now.bytesRemain.toList.take now.bytesRemainLen = rest 64 bytes
  remainLen : now.bytesRemainLen = bytes.length % 64
  messageLen : now.messageLen = 8 * length

theorem default_absorbed : default.Absorbed [] 0 := ⟨hashWords_default, rfl, rfl, rfl⟩

theorem updateFrom_rule (self : Sha256) {bytes : List UInt8} {length : Nat} (hash : hashWords self.h = Fips180.chain bytes)
    (whole : bytes.length % 64 = 0) (empty : self.bytesRemainLen = 0) (total : self.messageLen = 8 * length)
    (message : List UInt8) :
    ∃ next, self.updateFrom message = .ok next ∧ next.Absorbed (bytes ++ message) length := by
  obtain ⟨next, run, done⟩ := self.updateBlocks_rule message le_rfl
  have nothing : rest 64 bytes = [] := length_eq_zero_iff.mp ((length_rest bytes).trans whole)
  have hashed : hashWords next.h = Fips180.chain (bytes ++ message) := by
    rw [done.hash, hash, Fips180.chain, Fips180.chain, blocks_append (by decide), foldl_append, nothing, nil_append]
  have tail : rest 64 (bytes ++ message) = rest 64 message := by
    rw [rest_append (by decide), nothing, nil_append]
  have size : (bytes ++ message).length % 64 = (rest 64 message).length := by rw [← tail, length_rest]
  have short : (rest 64 message).length < 64 := by
    rw [length_rest]
    exact Nat.mod_lt _ (by decide)
  rw [updateFrom, run, ok_bind]
  by_cases none : rest 64 message = []
  · refine ⟨next, if_pos none, hashed, ?_, ?_, done.messageLen.trans total⟩
    · rw [done.bytesRemainLen, empty, tail, none]
      rfl
    · rw [done.bytesRemainLen, empty, size, none]
      rfl
  · obtain ⟨kept, copied, contents⟩ := copyFromSlice_ok next.bytesRemain (Nat.zero_le _) short.le rfl
    refine ⟨{ next with bytesRemain := kept, bytesRemainLen := (rest 64 message).length }, ?_, hashed, ?_, size.symm,
      done.messageLen.trans total⟩
    · simp only [if_neg none, copied]
      rfl
    · rw [contents, tail]
      simp

section
variable {self : Sha256} {bytes : List UInt8} {length : Nat}

theorem buffered_rule (here : self.Absorbed bytes length) :
    ∃ chunk, self.buffered = .ok chunk ∧ chunk.toList = rest 64 bytes ++ List.replicate (64 - bytes.length % 64) 0 := by
  have below : bytes.length % 64 < 64 := Nat.mod_lt _ (by decide)
  have size : (rest 64 bytes).length = bytes.length % 64 := length_rest bytes
  obtain ⟨chunk, copied, contents⟩ := copyFromSlice_ok (Vector.replicate 64 (0 : UInt8)) (Nat.zero_le (bytes.length % 64))
    below.le size
  refine ⟨chunk, ?_, ?_⟩
  · rw [buffered, slice_prefix (by rw [Vector.length_toList, here.remainLen]; omega), ok_bind, here.remain, here.remainLen,
      copied]
  · rw [contents, take_zero, nil_append, Vector.toList_replicate, drop_replicate]

theorem chain_append (bytes message : List UInt8) :
    Fips180.chain (bytes ++ message) = (blocks 64 (rest 64 bytes ++ message)).foldl Fips180.compress (Fips180.chain bytes) := by
  rw [Fips180.chain, Fips180.chain, blocks_append (by decide), foldl_append]

/-- What one `update` puts through the hasher: the bytes that complete a block twice, and none of those that follow.
    -/
def absorb (bytes message : List UInt8) : List UInt8 :=
  if 0 < bytes.length % 64 ∧ 64 ≤ bytes.length % 64 + message.length then
    bytes ++ message.take (64 - bytes.length % 64) ++ message.take (64 - bytes.length % 64)
  else bytes ++ message

theorem absorb_nil (message : List UInt8) : absorb [] message = message :=
  if_neg fun both => Nat.lt_irrefl 0 both.1

theorem u64_ok {value : Nat} (fits : value < 2 ^ 64) : u64 value = .ok value := if_pos fits

theorem beBytes_eq (count value : Nat) : beBytes count value = Fips180.toBytes count value := by
  apply ext_getElem
  · rw [Fips180.length_toBytes, beBytes, length_map, length_range]
  · intro i here _
    simp only [beBytes, Fips180.toBytes, getElem_map, getElem_reverse, getElem_range, length_map,
      length_range, Nat.shiftRight_eq_div_pow, Nat.pow_mul]

theorem length_beBytes (value : Nat) : (beBytes 8 value).length = 64 - 56 := by
  rw [beBytes_eq, Fips180.length_toBytes]

section

variable (here : self.Absorbed bytes length)
include here

theorem updateBytes_rule (message : List UInt8) :
    ∃ next, self.updateBytes message = .ok next ∧ next.Absorbed (absorb bytes message) length := by
  have below : bytes.length % 64 < 64 := Nat.mod_lt _ (by decide)
  have size : (rest 64 bytes).length = bytes.length % 64 := length_rest bytes
  rw [updateBytes, absorb, here.remainLen]
  by_cases partly : 0 < bytes.length % 64
  · by_cases full : 64 ≤ bytes.length % 64 + message.length
    · rw [if_pos partly, if_pos full, if_pos ⟨partly, full⟩]
      have cut : 64 - bytes.length % 64 ≤ message.length := by omega
      have taken : (message.take (64 - bytes.length % 64)).length = 64 - bytes.length % 64 := by
        rw [length_take]
        omega
      obtain ⟨chunk, fetched, contents⟩ := buffered_rule here
      obtain ⟨block, copied, joined⟩ := copyFromSlice_ok chunk below.le le_rfl taken
      have joined : block.toList = rest 64 bytes ++ message.take (64 - bytes.length % 64) := by
        rw [joined, contents, take_left' size, drop_eq_nil_of_le (by simp [size]; omega), append_nil]
      obtain ⟨next, hashed, done⟩ := self.updateChunk_rule (Vector.length_toList : block.toList.length = 64)
      have hash : hashWords next.h = Fips180.chain (bytes ++ message.take (64 - bytes.length % 64)) := by
        rw [chain_append, ← joined, blocks_of_block (by decide) (by rw [Vector.length_toList]), done.hash, here.hash]
      obtain ⟨last, rest, stored⟩ := updateFrom_rule { next with bytesRemainLen := 0 } hash
        (by rw [length_append, taken]; omega) rfl (done.messageLen.trans here.messageLen)
        (message.take (64 - bytes.length % 64))
      refine ⟨last, ?_, stored⟩
      rw [fetched, ok_bind, slice_prefix cut, ok_bind, copied, ok_bind, hashed, ok_bind, ok_bind, rest]
    · rw [if_pos partly, if_neg full, if_neg fun both => full both.2]
      obtain ⟨kept, copied, contents⟩ := copyFromSlice_ok self.bytesRemain (Nat.le_add_right (bytes.length % 64) message.length)
        (by omega) (show message.length = _ by omega)
      have short : (rest 64 bytes ++ message).length < 64 := by
        rw [length_append, size]
        omega
      refine ⟨{ self with bytesRemain := kept, bytesRemainLen := bytes.length % 64 + message.length }, ?_, ?_, ?_, ?_,
        here.messageLen⟩
      · simp only [copied]
        rfl
      · rw [chain_append, blocks_of_short short, foldl_nil, ← here.hash]
      · have before := here.remain
        rw [here.remainLen] at before
        rw [rest_append (by decide), rest_of_short short, contents, before, ← append_assoc]
        exact take_left' (by rw [length_append, size])
      · show bytes.length % 64 + message.length = _
        rw [length_append]
        omega
  · rw [if_neg partly, if_neg fun both => partly both.1]
    exact updateFrom_rule self here.hash (by omega) (here.remainLen.trans (by omega)) here.messageLen message

theorem update_rule {message : List UInt8} (fits : 8 * (length + message.length) < 2 ^ 64) :
    ∃ next, self.update message = .ok next ∧ next.Absorbed (absorb bytes message) (length + message.length) := by
  have grown : Absorbed { self with messageLen := 8 * (length + message.length) } bytes (length + message.length) :=
    ⟨here.hash, here.remain, here.remainLen, rfl⟩
  obtain ⟨next, run, there⟩ := updateBytes_rule grown message
  refine ⟨next, ?_, there⟩
  rw [update, u64_ok (by omega), ok_bind, here.messageLen, ← Nat.mul_add, u64_ok fits, ok_bind, run]

theorem update_overflow {message : List UInt8} (large : 2 ^ 64 ≤ 8 * (length + message.length)) :
    self.update message = .error .overflow := by
  rw [update, here.messageLen]
  by_cases fits : 8 * message.length < 2 ^ 64
  · rw [u64_ok fits, ok_bind, u64, if_neg (by omega)]
    rfl
  · rw [u64, if_neg fits]
    rfl

theorem marked_rule :
    ∃ chunk, self.buffered >>= (assign · self.bytesRemainLen 0x80) = .ok chunk ∧
      chunk.toList = rest 64 bytes ++ 0x80 :: List.replicate (63 - bytes.length % 64) 0 := by
  have below : bytes.length % 64 < 64 := Nat.mod_lt _ (by decide)
  have size : (rest 64 bytes).length = bytes.length % 64 := length_rest bytes
  have one : 64 - bytes.length % 64 = 63 - bytes.length % 64 + 1 := by omega
  obtain ⟨chunk, fetched, contents⟩ := buffered_rule here
  refine ⟨chunk.set (bytes.length % 64) 0x80, ?_, ?_⟩
  · rw [fetched, ok_bind, here.remainLen, assign_ok below]
  · rw [Vector.toList_set, contents, ← size, set_append_right _ _ le_rfl, Nat.sub_self, size, one,
      replicate_succ, set_cons_zero]

theorem finish_two_blocks (long : 64 - 9 < bytes.length % 64) :
    ∃ next, self.finish = .ok next ∧ hashWords next.h = Fips180.chain (Fips180.padded bytes (8 * length)) := by
  obtain ⟨chunk, fetched, marked⟩ := marked_rule here
  obtain ⟨last, copied, ending⟩ := copyFromSlice_ok (Vector.replicate 64 (0 : UInt8)) (by decide) le_rfl
    (length_beBytes (8 * length))
  obtain ⟨middle, first, one⟩ := self.updateChunk_rule (Vector.length_toList : chunk.toList.length = 64)
  obtain ⟨next, second, two⟩ := middle.updateChunk_rule (Vector.length_toList : last.toList.length = 64)
  have zeros : (119 - bytes.length % 64) % 64 = 63 - bytes.length % 64 + 56 := by omega
  have ending : last.toList = List.replicate 56 0 ++ Fips180.toBytes 8 (8 * length) := by
    rw [ending, Vector.toList_replicate, take_replicate, drop_replicate, Nat.sub_self,
      replicate_zero, append_nil, beBytes_eq, Nat.min_eq_left (by decide)]
  have parts : rest 64 bytes ++ 0x80 :: (List.replicate (63 - bytes.length % 64 + 56) 0 ++
      Fips180.toBytes 8 (8 * length)) = chunk.toList ++ last.toList := by
    rw [marked, ending, replicate_add]
    simp only [append_assoc, cons_append]
  refine ⟨next, ?_, ?_⟩
  · rw [finish, ← bind_assoc, fetched, ok_bind, here.remainLen, if_pos long, first, ok_bind, one.messageLen,
      here.messageLen, copied, ok_bind, second]
  · rw [Fips180.padded, chain_append, Fips180.zeros, zeros, parts, blocks_append (by decide),
      blocks_of_block (by decide) Vector.length_toList, rest_of_block (by decide) Vector.length_toList, nil_append,
      blocks_of_block (by decide) Vector.length_toList, (one.trans two).hash, here.hash]

theorem finish_one_block (short : ¬ 64 - 9 < bytes.length % 64) :
    ∃ next, self.finish = .ok next ∧ hashWords next.h = Fips180.chain (Fips180.padded bytes (8 * length)) := by
  have size : (rest 64 bytes).length = bytes.length % 64 := length_rest bytes
  obtain ⟨chunk, fetched, marked⟩ := marked_rule here
  obtain ⟨last, copied, ending⟩ := copyFromSlice_ok chunk (by decide) le_rfl (length_beBytes (8 * length))
  obtain ⟨next, second, one⟩ := self.updateChunk_rule (Vector.length_toList : last.toList.length = 64)
  have zeros : (119 - bytes.length % 64) % 64 = 55 - bytes.length % 64 := by omega
  have some : 56 - bytes.length % 64 = 55 - bytes.length % 64 + 1 := by omega
  have ending : last.toList = rest 64 bytes ++ 0x80 :: (List.replicate (55 - bytes.length % 64) 0 ++
      Fips180.toBytes 8 (8 * length)) := by
    rw [ending, marked, take_append, take_of_length_le (by omega), size, some, take_succ_cons,
      take_replicate, Nat.min_eq_left (by omega), drop_eq_nil_of_le (by simp [size]; omega), beBytes_eq,
      append_nil, append_assoc, cons_append]
  refine ⟨next, ?_, ?_⟩
  · rw [finish, ← bind_assoc, fetched, ok_bind, here.remainLen, if_neg short, here.messageLen, copied, ok_bind, second]
  · rw [Fips180.padded, chain_append, Fips180.zeros, zeros, ← ending, blocks_of_block (by decide) Vector.length_toList,
      one.hash, here.hash]

theorem finish_rule :
    ∃ next, self.finish = .ok next ∧ hashWords next.h = Fips180.chain (Fips180.padded bytes (8 * length)) := by
  by_cases long : 64 - 9 < bytes.length % 64
  · exact finish_two_blocks here long
  · exact finish_one_block here long

end

theorem hashWords_bytes (h : Vector (BitVec 32) 8) :
    (hashWords h).bytes = h.toList.flatMap fun word => Fips180.toBytes 4 word.toNat := by
  have listed : h.toList = [h[0], h[1], h[2], h[3], h[4], h[5], h[6], h[7]] := by
    apply ext_getElem
    · exact Vector.length_toList
    · intro i _ small
      rw [Vector.getElem_toList]
      have inside : i < 8 := small
      interval_cases i <;> rfl
  rw [listed]
  rfl

theorem storeWord_rule (h : Vector (BitVec 32) 8) {i : Nat} (small : i < 8) {sum : Vector UInt8 32}
    (before : sum.toList.take (4 * i) = (h.toList.take i).flatMap fun word => Fips180.toBytes 4 word.toNat) :
    ∃ next, storeWord h sum i = .ok next ∧
      next.toList.take (4 * (i + 1)) = (h.toList.take (i + 1)).flatMap fun word => Fips180.toBytes 4 word.toNat := by
  have word : (Fips180.toBytes 4 h[i].toNat).length = 4 * (i + 1) - 4 * i := by
    rw [Fips180.length_toBytes]
    omega
  have lengths : sum.toList.length = 32 ∧ h.toList.length = 8 := ⟨Vector.length_toList, Vector.length_toList⟩
  obtain ⟨next, copied, contents⟩ := copyFromSlice_ok sum (by omega) (by omega) word
  refine ⟨next, ?_, ?_⟩
  · rw [storeWord, index_ok (Vector.getElem?_eq_getElem small), ok_bind, beBytes_eq, copied]
  · have through : (sum.toList.take (4 * i) ++ Fips180.toBytes 4 h[i].toNat).length = 4 * (i + 1) := by
      rw [length_append, length_take, Fips180.length_toBytes]
      omega
    rw [contents, ← append_assoc, take_left' through, before, take_succ_eq_append_getElem (by omega),
      flatMap_append, Vector.getElem_toList, flatMap_singleton]

theorem digest_rule (here : self.Absorbed bytes length) (sum : Vector UInt8 32) :
    ∃ result next, self.digest sum = .ok (result, next) ∧
      result.toList = (Fips180.chain (Fips180.padded bytes (8 * length))).bytes := by
  obtain ⟨next, finished, hash⟩ := finish_rule here
  obtain ⟨result, stored, written⟩ := @foldlM_range' _ _ (storeWord next.h)
    (fun i (sum : Vector UInt8 32) =>
      sum.toList.take (4 * i) = (next.h.toList.take i).flatMap fun word => Fips180.toBytes 4 word.toNat)
    0 8 sum rfl fun i sum _ small before => storeWord_rule next.h (by omega) before
  refine ⟨result, next, ?_, ?_⟩
  · rw [digest, finished, ok_bind, stored]
    rfl
  · rw [← hash, hashWords_bytes]
    rwa [take_of_length_le (by rw [Vector.length_toList]), take_of_length_le (by rw [Vector.length_toList])]
      at written

end

/-- One `update` and then `digest`: the hash of the standard. -/
theorem digest_eq_sha256 (message : List UInt8) (sum : Vector UInt8 32) (short : message.length < 2 ^ 61) :
    ∃ hasher result final, default.update message = .ok hasher ∧ hasher.digest sum = .ok (result, final) ∧
      result.toList = Fips180.sha256 message := by
  obtain ⟨hasher, updated, absorbed⟩ := update_rule default_absorbed (show 8 * (0 + message.length) < 2 ^ 64 by omega)
  obtain ⟨result, final, digested, bytes⟩ := digest_rule absorbed sum
  refine ⟨hasher, result, final, updated, digested, ?_⟩
  rw [bytes, absorb_nil, Nat.zero_add, Fips180.sha256]

theorem abc_hashed :
    ∃ hasher result final, default.update [0x61, 0x62, 0x63] = .ok hasher ∧
      hasher.digest (Vector.replicate 32 0) = .ok (result, final) ∧ result.toList = Fips180.sha256 [0x61, 0x62, 0x63] :=
  digest_eq_sha256 [0x61, 0x62, 0x63] (Vector.replicate 32 0) (by decide)

def hash (pieces : List (List UInt8)) : Exec (List UInt8) := do
  let hasher ← pieces.foldlM update default
  let (sum, _) ← hasher.digest (Vector.replicate 32 0)
  pure sum.toList

example : hash [[0x61, 0x62, 0x63]] = .ok
    [0xba, 0x78, 0x16, 0xbf, 0x8f, 0x01, 0xcf, 0xea, 0x41, 0x41, 0x40, 0xde, 0x5d, 0xae, 0x22, 0x23,
      0xb0, 0x03, 0x61, 0xa3, 0x96, 0x17, 0x7a, 0x9c, 0xb4, 0x10, 0xff, 0x61, 0xf2, 0x00, 0x15, 0xad] := by
  decide +kernel

theorem foldlM_update_rule {self : Sha256} {bytes : List UInt8} {length : Nat} (here : self.Absorbed bytes length)
    (pieces : List (List UInt8)) (fits : 8 * (length + pieces.flatten.length) < 2 ^ 64) :
    ∃ next, pieces.foldlM update self = .ok next ∧
      next.Absorbed (pieces.foldl absorb bytes) (length + pieces.flatten.length) := by
  induction pieces generalizing self bytes length with
  | nil => exact ⟨self, rfl, here⟩
  | cons piece pieces ih =>
    rw [flatten_cons, length_append, ← Nat.add_assoc] at fits ⊢
    obtain ⟨middle, first, there⟩ := update_rule here (show 8 * (length + piece.length) < 2 ^ 64 by omega)
    obtain ⟨next, others, done⟩ := ih there fits
    exact ⟨next, by rw [foldlM_cons, first, ok_bind, others], done⟩

theorem foldlM_update_overflow {self : Sha256} {bytes : List UInt8} {length : Nat} (here : self.Absorbed bytes length)
    (pieces : List (List UInt8)) (start : 8 * length < 2 ^ 64) (large : 2 ^ 64 ≤ 8 * (length + pieces.flatten.length)) :
    pieces.foldlM update self = .error .overflow := by
  induction pieces generalizing self bytes length with
  | nil => exact absurd start (Nat.not_lt.mpr large)
  | cons piece pieces ih =>
    rw [flatten_cons, length_append, ← Nat.add_assoc] at large
    by_cases fits : 8 * (length + piece.length) < 2 ^ 64
    · obtain ⟨middle, first, there⟩ := update_rule here fits
      rw [foldlM_cons, first, ok_bind, ih there fits large]
    · rw [foldlM_cons, update_overflow here (Nat.not_lt.mp fits)]
      rfl

def absorbed (pieces : List (List UInt8)) : List UInt8 := pieces.foldl absorb []

theorem hash_eq (pieces : List (List UInt8)) :
    hash pieces = if 2 ^ 61 ≤ pieces.flatten.length then .error .overflow
      else .ok (Fips180.chain (Fips180.padded (absorbed pieces) (8 * pieces.flatten.length))).bytes := by
  by_cases large : 2 ^ 61 ≤ pieces.flatten.length
  · rw [if_pos large, hash, foldlM_update_overflow default_absorbed pieces (by decide) (by omega)]
    rfl
  · obtain ⟨hasher, updated, there⟩ := foldlM_update_rule default_absorbed pieces (by omega)
    obtain ⟨result, final, digested, bytes⟩ := digest_rule there (Vector.replicate 32 0)
    rw [if_neg large, hash, updated, ok_bind, digested, absorbed, ← Nat.zero_add pieces.flatten.length, ← bytes]
    rfl

theorem hash_singleton {message : List UInt8} (short : message.length < 2 ^ 61) :
    hash [message] = .ok (Fips180.sha256 message) := by
  have whole : [message].flatten = message := by rw [flatten_cons, flatten_nil, append_nil]
  have single : absorbed [message] = message := absorb_nil message
  rw [hash_eq, whole, single, if_neg (by omega)]
  rfl

theorem foldl_absorb {bytes : List UInt8} {pieces : List (List UInt8)}
    (inside : ∀ before piece after, pieces = before ++ piece :: after →
      (bytes ++ before.flatten).length % 64 = 0 ∨ (bytes ++ before.flatten).length % 64 + piece.length < 64) :
    pieces.foldl absorb bytes = bytes ++ pieces.flatten := by
  induction pieces generalizing bytes with
  | nil => rw [foldl_nil, flatten_nil, append_nil]
  | cons piece pieces ih =>
    have first := inside [] piece pieces rfl
    rw [flatten_nil, append_nil] at first
    have kept : absorb bytes piece = bytes ++ piece := if_neg fun both => by omega
    rw [foldl_cons, kept, ih, flatten_cons, append_assoc]
    intro before next after cut
    have later := inside (piece :: before) next after (by rw [cut, cons_append])
    rwa [flatten_cons, ← append_assoc] at later

/-- Exactly when the hasher sees the bytes of the message, as it does if no piece that starts inside a block reaches
    its end. -/
theorem pieces_hashed_as_whole (pieces : List (List UInt8)) :
    (hash pieces = hash [pieces.flatten] ↔
      absorbed pieces = pieces.flatten ∨ 2 ^ 61 ≤ pieces.flatten.length ∨
        Fips180.Collision (Fips180.padded (absorbed pieces) (8 * pieces.flatten.length))
          (Fips180.padded pieces.flatten (8 * pieces.flatten.length))) ∧
    ((∀ before piece after, pieces = before ++ piece :: after →
        before.flatten.length % 64 = 0 ∨ before.flatten.length % 64 + piece.length < 64) →
      absorbed pieces = pieces.flatten) := by
  refine ⟨?_, fun inside => ?_⟩
  · have whole : [pieces.flatten].flatten = pieces.flatten := by rw [flatten_cons, flatten_nil, append_nil]
    have single : absorbed [pieces.flatten] = pieces.flatten := absorb_nil pieces.flatten
    rw [hash_eq, hash_eq, whole, single]
    by_cases large : 2 ^ 61 ≤ pieces.flatten.length
    · rw [if_pos large, if_pos large]
      exact iff_of_true rfl (.inr (.inl large))
    · rw [if_neg large, if_neg large, Except.ok.injEq]
      constructor
      · intro same
        by_cases seen : absorbed pieces = pieces.flatten
        · exact .inl seen
        · exact .inr (.inr ⟨fun equal => seen (Fips180.blocks_padded_injective equal), same⟩)
      · rintro (seen | huge | collision)
        · rw [seen]
        · exact absurd huge large
        · exact collision.2
  · exact foldl_absorb fun before piece after cut => by rw [nil_append]; exact inside before piece after cut

/-- A block in two halves: the second half completes the block and is then hashed once more. -/
theorem halves_hashed_differently :
    hash [List.replicate 32 0, List.replicate 32 0] ≠ hash [[List.replicate 32 0, List.replicate 32 0].flatten] := by
  decide +kernel

end Sha256

end Kernel31.Crypto
