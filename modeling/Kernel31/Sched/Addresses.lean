import Kernel31.Sched.UserCopy

namespace Kernel31.Sched

open Page Paging Kernel31.Task Checked List

def storeBytes (mem : Memory) : List Nat → List UInt8 → Memory
  | address :: rest, byte :: bytes => storeBytes (storeByte mem address byte) rest bytes
  | _, _ => mem

theorem storeBytes_nil (mem : Memory) (addresses : List Nat) : storeBytes mem addresses [] = mem := by
  cases addresses <;> rfl

theorem storeBytes_append (mem : Memory) (first second : List Nat) (bytes : List UInt8) :
    storeBytes mem (first ++ second) bytes = storeBytes (storeBytes mem first bytes) second (bytes.drop first.length) := by
  induction first generalizing mem bytes with
  | nil => rfl
  | cons address rest ih =>
    cases bytes with
    | nil => rw [storeBytes_nil, drop_nil, storeBytes_nil, storeBytes_nil]
    | cons byte bytes => exact ih _ _

variable {addresses : List Nat}

theorem loadByte_storeBytes_of_notMem {address : Nat} (other : address ∉ addresses) (bytes : List UInt8)
    (mem : Memory) : loadByte (storeBytes mem addresses bytes) address = loadByte mem address := by
  induction addresses generalizing mem bytes with
  | nil => rfl
  | cons first rest ih =>
    cases bytes with
    | nil => rfl
    | cons byte bytes =>
      have differs := ne_of_not_mem_cons other
      rw [storeBytes, ih (not_mem_of_not_mem_cons other), loadByte_storeByte, if_neg differs]

theorem storeBytes_page {page : Nat} (outside : ∀ address ∈ addresses, address / pageSize ≠ page)
    (bytes : List UInt8) (mem : Memory) : storeBytes mem addresses bytes page = mem page := by
  induction addresses generalizing mem bytes with
  | nil => rfl
  | cons first rest ih =>
    cases bytes with
    | nil => rfl
    | cons byte bytes =>
      obtain ⟨differs, outside⟩ := forall_mem_cons.mp outside
      rw [storeBytes, ih outside, storeByte, Radix.Scheme.write, Function.update_of_ne differs.symm]

theorem map_loadByte_storeBytes (nodup : addresses.Nodup) {bytes : List UInt8}
    (enough : addresses.length ≤ bytes.length) (mem : Memory) :
    addresses.map (loadByte (storeBytes mem addresses bytes)) = bytes.take addresses.length := by
  induction addresses generalizing mem bytes with
  | nil => rfl
  | cons address rest ih =>
    cases bytes with
    | nil => simp at enough
    | cons byte bytes =>
      obtain ⟨fresh, nodup⟩ := nodup_cons.mp nodup
      rw [map_cons, storeBytes, loadByte_storeBytes_of_notMem fresh, loadByte_storeByte, if_pos rfl,
        ih nodup (Nat.le_of_succ_le_succ enough), length_cons, take_succ_cons]

theorem storeBytes_zeros_iff {front back : List Nat} (nodup : (front ++ back).Nodup) {data : List UInt8} {zeros : Nat}
    (sized : front.length = data.length) (room : back.length ≤ zeros) (mem : Memory) {after : Memory}
    (stored : after = storeBytes mem (front ++ back) (data ++ replicate zeros 0)) :
    front.map (loadByte after) = data ∧
      ((∀ address, address ∉ front → loadByte after address = loadByte mem address) ↔
        ∀ address ∈ back, loadByte mem address = 0) := by
  have loaded : (front ++ back).map (loadByte after) = data ++ replicate back.length 0 := by
    rw [stored, map_loadByte_storeBytes nodup, length_append, sized, take_length_add_append, take_replicate,
      Nat.min_eq_left room]
    rw [length_append, length_append, length_replicate]
    omega
  rw [map_append] at loaded
  obtain ⟨written, filled⟩ := append_inj loaded (by rw [length_map, sized])
  have zero : ∀ address ∈ back, loadByte after address = 0 := (map_eq_replicate_iff.mp filled)
  refine ⟨written, fun same address member => ?_, fun before address other => ?_⟩
  · have apart : address ∉ front := fun there => (nodup_append.mp nodup).2.2 address there address member rfl
    rw [← same address apart, zero address member]
  · by_cases member : address ∈ back
    · rw [zero address member, before address member]
    · rw [stored, loadByte_storeBytes_of_notMem fun there => (mem_append.mp there).elim other member]

def copyAddresses (allocs : List PageAlloc) : (fuel userAddr count : Nat) → Exec (List Nat)
  | _, _, 0 => pure []
  | 0, _, _ + 1 => throw .recursion
  | fuel + 1, userAddr, count + 1 =>
    match findAlloc allocs userAddr with
    | none => pure []
    | some alloc => do
      let taken := min (count + 1) (alloc.limit - alloc.offset userAddr)
      pure (range' (alloc.base + alloc.offset userAddr) taken ++
        (← copyAddresses allocs fuel alloc.next (count + 1 - taken)))

theorem readBlock_eq (mem : Memory) (base limit count offset : Nat) :
    readBlock mem base limit count offset =
      (count - min count (limit - offset), (range' (base + offset) (min count (limit - offset))).map (loadByte mem)) := by
  induction count generalizing offset with
  | zero => rw [readBlock, Nat.zero_min, range'_zero, map_nil]
  | succ count ih =>
    rw [readBlock]
    by_cases below : offset < limit
    · have more : min (count + 1) (limit - offset) = min count (limit - (offset + 1)) + 1 := by omega
      rw [if_pos below, ih, more, range'_succ, map_cons, Nat.add_sub_add_right, Nat.add_assoc]
    · have none : min (count + 1) (limit - offset) = 0 := by omega
      rw [if_neg below, none, range'_zero, map_nil, Nat.sub_zero]

theorem writeBlock_eq (base limit offset : Nat) (bytes : List UInt8) (mem : Memory) :
    writeBlock base limit bytes offset mem =
      (bytes.drop (min bytes.length (limit - offset)),
        storeBytes mem (range' (base + offset) (min bytes.length (limit - offset))) bytes) := by
  induction bytes generalizing offset mem with
  | nil => rw [writeBlock, storeBytes_nil, drop_nil]
  | cons byte rest ih =>
    rw [writeBlock, length_cons]
    by_cases below : offset < limit
    · have more : min (rest.length + 1) (limit - offset) = min rest.length (limit - (offset + 1)) + 1 := by omega
      rw [if_pos below, ih, more, range'_succ, drop_succ_cons, storeBytes, Nat.add_assoc]
    · have none : min (rest.length + 1) (limit - offset) = 0 := by omega
      rw [if_neg below, none, range'_zero, drop_zero]
      rfl

theorem copyAddresses_length {allocs : List PageAlloc} {fuel userAddr count : Nat}
    (run : copyAddresses allocs fuel userAddr count = .ok addresses) : addresses.length ≤ count := by
  induction fuel generalizing userAddr count addresses with
  | zero =>
    cases count with
    | zero =>
      obtain rfl := pure_ok.mp run
      exact le_rfl
    | succ count => simp [copyAddresses, throw_ok] at run
  | succ fuel ih =>
    cases count with
    | zero =>
      obtain rfl := pure_ok.mp run
      exact le_rfl
    | succ count =>
      rw [copyAddresses] at run
      cases found : findAlloc allocs userAddr with
      | none =>
        rw [found] at run
        obtain rfl := pure_ok.mp run
        exact Nat.zero_le _
      | some alloc =>
        rw [found] at run
        obtain ⟨later, rest, run⟩ := bind_ok.mp run
        obtain rfl := pure_ok.mp run
        have fewer := ih rest
        rw [length_append, length_range']
        omega

variable (allocs : List PageAlloc)

theorem copyFromUserLoop_eq (mem : Memory) (fuel userAddr count : Nat) :
    copyFromUserLoop allocs mem fuel userAddr count =
      (copyAddresses allocs fuel userAddr count).map (map (loadByte mem)) := by
  induction fuel generalizing userAddr count with
  | zero => cases count <;> rfl
  | succ fuel ih =>
    cases count with
    | zero => rfl
    | succ count =>
      rw [copyFromUserLoop, copyAddresses]
      cases findAlloc allocs userAddr with
      | none => rfl
      | some alloc =>
        dsimp only
        rw [readBlock_eq]
        dsimp only
        rw [ih]
        cases copyAddresses allocs fuel alloc.next
            (count + 1 - min (count + 1) (alloc.limit - alloc.offset userAddr)) with
        | error fault => rfl
        | ok addresses =>
          simp only [Except.map, ok_bind, pure_eq, map_append]

theorem copyToUserLoop_eq (fuel userAddr : Nat) (bytes : List UInt8) (mem : Memory) :
    copyToUserLoop allocs fuel userAddr bytes mem =
      (copyAddresses allocs fuel userAddr bytes.length).map fun addresses =>
        (bytes.drop addresses.length, storeBytes mem addresses bytes) := by
  induction fuel generalizing userAddr bytes mem with
  | zero => cases bytes <;> rfl
  | succ fuel ih =>
    cases bytes with
    | nil => rfl
    | cons byte rest =>
      rw [copyToUserLoop, length_cons, copyAddresses]
      cases findAlloc allocs userAddr with
      | none => rfl
      | some alloc =>
        dsimp only
        rw [writeBlock_eq, length_cons]
        dsimp only
        rw [ih, length_drop, length_cons]
        cases copyAddresses allocs fuel alloc.next
            (rest.length + 1 - min (rest.length + 1) (alloc.limit - alloc.offset userAddr)) with
        | error fault => rfl
        | ok addresses =>
          simp only [Except.map, ok_bind, pure_eq, length_append, length_range', storeBytes_append,
            drop_drop]

theorem copyFromUser_eq (mem : Memory) (userAddr size : Nat) :
    copyFromUser allocs mem userAddr size =
      (copyAddresses allocs size userAddr size).map (map (loadByte mem)) := copyFromUserLoop_eq ..

theorem copyToUser_eq (mem : Memory) (userAddr : Nat) (kernelBuf : List UInt8) :
    copyToUser allocs mem userAddr kernelBuf =
      (copyAddresses allocs kernelBuf.length userAddr kernelBuf.length).map fun addresses =>
        (addresses.length, storeBytes mem addresses kernelBuf) := by
  rw [copyToUser, copyToUserLoop_eq]
  cases run : copyAddresses allocs kernelBuf.length userAddr kernelBuf.length with
  | error fault => rfl
  | ok addresses =>
    have fewer := copyAddresses_length run
    simp only [Except.map, ok_bind, pure_eq, length_drop, Nat.sub_sub_self fewer]

end Kernel31.Sched
