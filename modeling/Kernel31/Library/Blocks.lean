import Mathlib.Tactic

namespace Kernel31.Blocks

open List

variable {α β : Type} {size : Nat}

variable {values : List α}

def parse (size : Nat) : Nat → List α → List (List α)
  | 0, _ => []
  | count + 1, values => values.take size :: parse size count (values.drop size)

def blocks (size : Nat) (values : List α) : List (List α) := parse size (values.length / size) values

def rest (size : Nat) (values : List α) : List α := values.drop (size * (values.length / size))

theorem length_rest (values : List α) : (rest size values).length = values.length % size := by
  rw [rest, length_drop]
  exact Nat.mod_eq_sub_mul_div.symm

theorem parse_append (count : Nat) (enough : size * count ≤ values.length) (more : Nat) (others : List α) :
    parse size (count + more) (values ++ others) =
      parse size count values ++ parse size more (values.drop (size * count) ++ others) := by
  induction count generalizing values with
  | zero => simp only [Nat.zero_add, parse, nil_append, Nat.mul_zero, drop_zero]
  | succ count ih =>
    rw [Nat.mul_succ] at enough ⊢
    have first : size ≤ values.length := by omega
    have left : size * count ≤ (values.drop size).length := by
      rw [length_drop]
      omega
    rw [Nat.add_right_comm, parse, parse, take_append_of_le_length first, drop_append_of_le_length first,
      ih left, drop_drop, Nat.add_comm (size * count), cons_append]

theorem blocks_of_short (short : values.length < size) : blocks size values = [] := by
  rw [blocks, Nat.div_eq_of_lt short]
  rfl

theorem rest_of_short (short : values.length < size) : rest size values = values := by
  rw [rest, Nat.div_eq_of_lt short, Nat.mul_zero, drop_zero]

variable (positive : 0 < size)
include positive

theorem div_length_append (values others : List α) :
    (values ++ others).length / size = values.length / size + (rest size values ++ others).length / size := by
  rw [length_append, length_append, length_rest]
  conv_lhs => rw [← Nat.div_add_mod values.length size, Nat.add_assoc, Nat.mul_add_div positive]

theorem blocks_append (values others : List α) :
    blocks size (values ++ others) = blocks size values ++ blocks size (rest size values ++ others) := by
  rw [blocks, div_length_append positive, parse_append _ (Nat.mul_div_le _ _)]
  rfl

theorem rest_append (values others : List α) : rest size (values ++ others) = rest size (rest size values ++ others) := by
  rw [rest, div_length_append positive, Nat.mul_add, ← drop_drop, drop_append_of_le_length (Nat.mul_div_le _ _)]
  rfl

theorem blocks_of_block (full : values.length = size) : blocks size values = [values] := by
  rw [blocks, full, Nat.div_self positive, parse, parse, take_of_length_le full.le]

theorem rest_of_block (full : values.length = size) : rest size values = [] := by
  rw [rest, full, Nat.div_self positive, Nat.mul_one, ← full, drop_length]

theorem blocks_cons (enough : size ≤ values.length) :
    blocks size values = values.take size :: blocks size (values.drop size) ∧
      rest size values = rest size (values.drop size) := by
  have full : (values.take size).length = size := by
    rw [length_take]
    omega
  constructor
  · conv_lhs => rw [← take_append_drop size values, blocks_append positive, blocks_of_block positive full,
      rest_of_block positive full]
    rfl
  · conv_lhs => rw [← take_append_drop size values, rest_append positive, rest_of_block positive full]
    rfl

theorem flatten_blocks (whole : values.length % size = 0) : (blocks size values).flatten = values := by
  induction parts : values.length / size generalizing values with
  | zero =>
    have empty : values.length = 0 := by
      rw [← Nat.div_add_mod values.length size, parts, whole, Nat.mul_zero]
    rw [length_eq_zero_iff.mp empty, blocks_of_short positive]
    rfl
  | succ parts ih =>
    have enough : size ≤ values.length := by
      by_contra short
      rw [Nat.div_eq_of_lt (Nat.lt_of_not_le short)] at parts
      cases parts
    have left : (values.drop size).length = values.length - size := length_drop
    rw [(blocks_cons positive enough).1, flatten_cons, ih, take_append_drop]
    · rw [left, ← Nat.mod_eq_sub_mod enough, whole]
    · rw [Nat.div_eq_sub_div positive enough] at parts
      rw [left]
      omega

end Kernel31.Blocks
