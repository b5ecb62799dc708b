import Kernel31.Elf.Parse

namespace Kernel31.Elf

open Checked List

inductive ByteOrder where
  | little
  | big
  deriving DecidableEq, Repr

def ByteOrder.code : ByteOrder → UInt8
  | .little => 1
  | .big => 2

def leBytes : Nat → Nat → List UInt8
  | 0, _ => []
  | count + 1, value => UInt8.ofNat value :: leBytes count (value / 256)

def encodeInt (order : ByteOrder) (size value : Nat) : List UInt8 :=
  match order with
  | .little => leBytes size value
  | .big => (leBytes size value).reverse

section Bytes

@[simp] theorem length_leBytes (count value : Nat) : (leBytes count value).length = count := by
  induction count generalizing value with
  | zero => rfl
  | succ count ih => rw [leBytes, length_cons, ih]

@[simp] theorem length_encodeInt (order : ByteOrder) (size value : Nat) : (encodeInt order size value).length = size := by
  cases order with
  | little => exact length_leBytes size value
  | big => rw [encodeInt, length_reverse, length_leBytes]

theorem fromLeBytes_cons (byte : UInt8) (rest : List UInt8) :
    fromLeBytes (byte :: rest) = byte.toNat + 256 * fromLeBytes rest := rfl

theorem fromLeBytes_append (low high : List UInt8) :
    fromLeBytes (low ++ high) = fromLeBytes low + 256 ^ low.length * fromLeBytes high := by
  induction low with
  | nil => simp [fromLeBytes]
  | cons byte rest ih =>
    rw [cons_append, fromLeBytes_cons, fromLeBytes_cons, ih, length_cons, pow_succ]
    ring

theorem fromLeBytes_leBytes (count value : Nat) : fromLeBytes (leBytes count value) = value % 256 ^ count := by
  induction count generalizing value with
  | zero => simp [leBytes, fromLeBytes, Nat.mod_one]
  | succ count ih =>
    rw [leBytes, fromLeBytes_cons, ih, UInt8.toNat_ofNat', pow_succ' 256 count, Nat.mod_mul (a := 256) (b := 256 ^ count)]

theorem leBytes_add (low high value : Nat) :
    leBytes (low + high) value = leBytes low value ++ leBytes high (value / 256 ^ low) := by
  induction low generalizing value with
  | zero => simp [leBytes]
  | succ low ih =>
    rw [Nat.add_right_comm, leBytes, ih, leBytes, cons_append, Nat.div_div_eq_div_mul, pow_succ']

def readInt (endian : UInt8) (field : List UInt8) : Nat := if endian = 1 then fromLeBytes field else fromBeBytes field

theorem readInt_encodeInt (order : ByteOrder) {size value : Nat} (fits : value < 256 ^ size) :
    readInt order.code (encodeInt order size value) = value := by
  cases order with
  | little =>
    rw [readInt, if_pos (by decide), encodeInt, fromLeBytes_leBytes, Nat.mod_eq_of_lt fits]
  | big =>
    rw [readInt, if_neg (by decide), encodeInt, fromBeBytes, reverse_reverse, fromLeBytes_leBytes, Nat.mod_eq_of_lt fits]

end Bytes

def Has (bytes : List UInt8) (offset : Nat) (field : List UInt8) : Prop :=
  ∃ before after, before.length = offset ∧ bytes = before ++ field ++ after

section Fields
variable {bytes field : List UInt8} {offset : Nat}

theorem has_of_slice (inside : offset ≤ bytes.length)
    (here : (bytes.drop offset).take field.length = field) : Has bytes offset field := by
  refine ⟨bytes.take offset, (bytes.drop offset).drop field.length, by rw [length_take]; omega, ?_⟩
  have front : field ++ (bytes.drop offset).drop field.length = bytes.drop offset := by
    conv_lhs => arg 1; rw [← here]
    exact take_append_drop _ _
  rw [append_assoc, front, take_append_drop]

theorem Has.slice (has : Has bytes offset field) {stop : Nat} (size : stop = offset + field.length) :
    Elf.slice bytes offset stop = .ok field := by
  obtain ⟨before, after, rfl, rfl⟩ := has
  have inside : before.length + field.length ≤ (before ++ field ++ after).length := by
    simp only [length_append]
    omega
  rw [Elf.slice, size, if_pos ⟨by omega, inside⟩, Nat.add_sub_cancel_left, append_assoc, drop_left, take_left]
  rfl

theorem Has.byteAt {byte : UInt8} (has : Has bytes offset [byte]) : Elf.byteAt bytes offset = .ok byte := by
  obtain ⟨before, after, rfl, rfl⟩ := has
  have found : (before ++ [byte] ++ after)[before.length]? = some byte := by simp
  rw [Elf.byteAt, found]
  rfl

theorem Has.read (has : Has bytes offset field) {size : Nat} (sized : field.length = size) (endian : UInt8) :
    int size bytes offset endian = .ok (readInt endian field) := by
  rw [int, has.slice (by rw [sized]), ok_bind, readInt]
  split <;> rfl

theorem Has.int (order : ByteOrder) {size value : Nat} (has : Has bytes offset (encodeInt order size value))
    (fits : value < 256 ^ size) : Elf.int size bytes offset order.code = .ok value := by
  rw [has.read (length_encodeInt order size value), readInt_encodeInt order fits]

theorem Has.front {front back : List UInt8} (has : Has bytes offset (front ++ back)) : Has bytes offset front := by
  obtain ⟨before, after, rfl, rfl⟩ := has
  exact ⟨before, back ++ after, rfl, by simp only [append_assoc]⟩

theorem Has.append {next : List UInt8} (has : Has bytes offset field) (later : Has bytes (offset + field.length) next) :
    Has bytes offset (field ++ next) := by
  obtain ⟨before, after, rfl, rfl⟩ := has
  obtain ⟨before', after', place, same⟩ := later
  rw [append_assoc before' next after'] at same
  obtain ⟨_, rest⟩ := append_inj same (by rw [place, length_append])
  exact ⟨before, after', rfl, by rw [rest]; simp only [append_assoc]⟩

def encodeFields (order : ByteOrder) (fields : List (Nat × Nat)) : List UInt8 :=
  fields.flatMap fun field => encodeInt order field.1 field.2

theorem length_encodeFields (order : ByteOrder) (fields : List (Nat × Nat)) :
    (encodeFields order fields).length = (fields.map Prod.fst).sum := by
  simp only [encodeFields, length_flatMap, length_encodeInt]

theorem has_field (order : ByteOrder) {fields : List (Nat × Nat)} (place : Nat) {size value : Nat}
    (found : fields[place]? = some (size, value)) (start : offset = ((fields.take place).map Prod.fst).sum) :
    Has (encodeFields order fields) offset (encodeInt order size value) := by
  obtain ⟨inside, here⟩ := List.getElem?_eq_some_iff.mp found
  refine ⟨encodeFields order (fields.take place), encodeFields order (fields.drop (place + 1)), ?_, ?_⟩
  · rw [length_encodeFields, start]
  · have split : fields = fields.take place ++ [fields[place]] ++ fields.drop (place + 1) := by
      rw [append_assoc, singleton_append, cons_getElem_drop_succ, take_append_drop]
    nth_rewrite 1 [split]
    simp only [encodeFields, flatMap_append, flatMap_cons, flatMap_nil, append_nil, here]

theorem Has.stop_le (has : Has bytes offset field) :
    offset + field.length ≤ bytes.length := by
  obtain ⟨before, after, rfl, rfl⟩ := has
  simp only [length_append]
  omega

theorem Has.isPrefixOf (has : Has bytes 0 field) : field.isPrefixOf bytes = true := by
  obtain ⟨before, after, none, rfl⟩ := has
  rw [length_eq_zero_iff.mp none, nil_append]
  exact isPrefixOf_iff_prefix.mpr (prefix_append _ _)

end Fields

end Kernel31.Elf
