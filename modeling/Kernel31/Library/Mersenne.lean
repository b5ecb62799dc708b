import Mathlib.Tactic

namespace Kernel31.Mersenne

open List Function BitVec

section Window
variable {α : Type} {size place first : Nat} {sequence slot slot' : Nat → α}

def Window (size : Nat) (sequence slot : Nat → α) (place first : Nat) : Prop :=
  ∀ i < size, slot ((place + i) % size) = sequence (first + i)

theorem Window.wrap (window : Window size sequence slot place first) : Window size sequence slot (place % size) first := by
  intro i inside
  rw [Nat.mod_add_mod, window i inside]

theorem add_mod_ne {step : Nat} (positive : 0 < step) (less : step < size) : (place + step) % size ≠ place % size := by
  intro same
  have congruent : place + step ≡ place + 0 [MOD size] := same
  exact absurd (Nat.le_of_dvd positive (Nat.modEq_zero_iff_dvd.mp (congruent.add_left_cancel' place))) (Nat.not_le.mpr less)

theorem Window.advance (window : Window size sequence slot place first)
    (new : slot' (place % size) = sequence (first + size))
    (same : ∀ other, other ≠ place % size → slot' other = slot other) :
    Window size sequence slot' (place + 1) (first + 1) := by
  intro i inside
  rw [Nat.add_assoc, Nat.add_assoc, Nat.add_comm 1 i]
  by_cases last : i + 1 = size
  · rw [last, Nat.add_mod_right, new]
  · rw [same _ (add_mod_ne (Nat.succ_pos i) (by omega)), window (i + 1) (by omega)]

end Window

/-- Words of `width` bits; `matrix` is the last row of the matrix A, and the letters are those of the tempering. -/
structure Twister (width : Nat) where
  degree : Nat
  middle : Nat
  separation : Nat
  matrix : BitVec width
  multiplier : BitVec width
  u : Nat
  s : Nat
  t : Nat
  l : Nat
  b : BitVec width
  c : BitVec width
  one_lt_degree : 1 < degree
  middle_lt : middle < degree
  separation_le : separation ≤ width

def mt19937 : Twister 32 where
  degree := 624
  middle := 397
  separation := 31
  matrix := 0x9908b0df
  multiplier := 1812433253
  u := 11
  s := 7
  t := 15
  l := 18
  b := 0x9d2c5680
  c := 0xefc60000
  one_lt_degree := by decide
  middle_lt := by decide
  separation_le := by decide

namespace Twister
variable {width : Nat} (tw : Twister width)

def join (high low : BitVec width) : BitVec width :=
  (high &&& (allOnes width <<< tw.separation)) ||| (low &&& (allOnes width >>> (width - tw.separation)))

/-- The product of a row vector and the matrix A. -/
def timesA (word : BitVec width) : BitVec width := if word.getLsbD 0 then (word >>> 1) ^^^ tw.matrix else word >>> 1

def twist (first second middle : BitVec width) : BitVec width := middle ^^^ tw.timesA (tw.join first second)

def sequence (initial : Nat → BitVec width) (k : Nat) : BitVec width :=
  if k < tw.degree then initial k
  else tw.twist (sequence initial (k - tw.degree)) (sequence initial (k - tw.degree + 1))
    (sequence initial (k - tw.degree + tw.middle))
termination_by k
decreasing_by
  all_goals
    have := tw.one_lt_degree
    have := tw.middle_lt
    omega

def seeded (seed : BitVec width) : Nat → BitVec width
  | 0 => seed
  | i + 1 =>
    let word := seeded seed i
    tw.multiplier * (word ^^^ (word >>> (width - 2))) + BitVec.ofNat width (i + 1)

def temper (word : BitVec width) : BitVec width :=
  let word := word ^^^ (word >>> tw.u)
  let word := word ^^^ ((word <<< tw.s) &&& tw.b)
  let word := word ^^^ ((word <<< tw.t) &&& tw.c)
  word ^^^ (word >>> tw.l)

def renewWord (block : Nat → BitVec width) (i : Nat) : Nat → BitVec width :=
  update block i (tw.twist (block i) (block ((i + 1) % tw.degree)) (block ((i + tw.middle) % tw.degree)))

def renew (block : Nat → BitVec width) : Nat → BitVec width := (range tw.degree).foldl tw.renewWord block

/-- The generator that makes its words in blocks, with the words of the block that were used. -/
structure Batch (width : Nat) where
  block : Nat → BitVec width
  used : Nat

def start (seed : BitVec width) : Batch width := ⟨tw.seeded seed, tw.degree⟩

def filled (now : Batch width) : Batch width := if now.used < tw.degree then now else ⟨tw.renew now.block, 0⟩

def next (now : Batch width) : Batch width := ⟨(tw.filled now).block, (tw.filled now).used + 1⟩

def value (now : Batch width) : BitVec width := tw.temper ((tw.filled now).block (tw.filled now).used)

end Twister

section Sequence
variable {width : Nat} (tw : Twister width) (initial : Nat → BitVec width)

theorem sequence_of_lt {k : Nat} (first : k < tw.degree) : tw.sequence initial k = initial k := by
  rw [Twister.sequence, if_pos first]

theorem sequence_add (k : Nat) :
    tw.sequence initial (k + tw.degree) = tw.twist (tw.sequence initial k) (tw.sequence initial (k + 1))
      (tw.sequence initial (k + tw.middle)) := by
  rw [Twister.sequence, if_neg (by omega), Nat.add_sub_cancel]

theorem sequence_window : Window tw.degree (tw.sequence initial) initial 0 0 := by
  intro i inside
  rw [Nat.zero_add, Nat.mod_eq_of_lt inside, sequence_of_lt tw initial inside]

theorem Window.twist {slot : Nat → BitVec width} {place first : Nat}
    (window : Window tw.degree (tw.sequence initial) slot place first) :
    tw.twist (slot (place % tw.degree)) (slot ((place + 1) % tw.degree)) (slot ((place + tw.middle) % tw.degree)) =
      tw.sequence initial (first + tw.degree) := by
  have here := window 0 (Nat.zero_lt_of_lt tw.one_lt_degree)
  rw [Nat.add_zero, Nat.add_zero] at here
  rw [sequence_add, here, window 1 tw.one_lt_degree, window tw.middle tw.middle_lt]

theorem Window.renewWord {block : Nat → BitVec width} {place first : Nat} (inside : place < tw.degree)
    (window : Window tw.degree (tw.sequence initial) block place first) :
    Window tw.degree (tw.sequence initial) (tw.renewWord block place) (place + 1) (first + 1) := by
  have word := window.twist
  rw [Nat.mod_eq_of_lt inside] at word
  refine window.advance ?_ fun other elsewhere => ?_
  · rw [Nat.mod_eq_of_lt inside, Twister.renewWord, update_self, word]
  · rw [Nat.mod_eq_of_lt inside] at elsewhere
    rw [Twister.renewWord, update_of_ne elsewhere]

theorem Window.renew {block : Nat → BitVec width} {first : Nat}
    (window : Window tw.degree (tw.sequence initial) block 0 first) :
    Window tw.degree (tw.sequence initial) (tw.renew block) 0 (first + tw.degree) := by
  suffices turns : ∀ count ≤ tw.degree, Window tw.degree (tw.sequence initial)
      ((range count).foldl tw.renewWord block) count (first + count) by
    have wrapped := (turns tw.degree le_rfl).wrap
    rwa [Nat.mod_self] at wrapped
  intro count
  induction count with
  | zero => exact fun _ => window
  | succ count ih =>
    intro inside
    rw [range_succ, foldl_append]
    exact Window.renewWord tw initial inside (ih (by omega))

end Sequence

section Batch
variable {width : Nat} (tw : Twister width) (seed : BitVec width)

structure Served (now : Twister.Batch width) (count : Nat) : Prop where
  used : now.used ≤ tw.degree
  block : ∃ first, count + tw.degree = first + now.used ∧
    Window tw.degree (tw.sequence (tw.seeded seed)) now.block 0 first

variable {now : Twister.Batch width} {count : Nat}

theorem Served.filled (served : Served tw seed now count) :
    (tw.filled now).used < tw.degree ∧ Served tw seed (tw.filled now) count := by
  rw [Twister.filled]
  split
  case isTrue some => exact ⟨some, served⟩
  case isFalse none =>
    obtain ⟨first, position, window⟩ := served.block
    have used : now.used = tw.degree := Nat.le_antisymm served.used (Nat.not_lt.mp none)
    refine ⟨Nat.zero_lt_of_lt tw.one_lt_degree, ⟨Nat.zero_le _, first + tw.degree, ?_, Window.renew tw _ window⟩⟩
    rw [position, used, Nat.add_zero]

theorem Served.next (served : Served tw seed now count) : Served tw seed (tw.next now) (count + 1) := by
  obtain ⟨below, filled⟩ := served.filled
  obtain ⟨first, position, window⟩ := filled.block
  refine ⟨below, first, ?_, window⟩
  change count + 1 + tw.degree = first + ((tw.filled now).used + 1)
  omega

theorem Served.value (served : Served tw seed now count) :
    tw.value now = tw.temper (tw.sequence (tw.seeded seed) (count + tw.degree)) := by
  obtain ⟨below, filled⟩ := served.filled
  obtain ⟨first, position, window⟩ := filled.block
  have word := window _ below
  rw [Nat.zero_add, Nat.mod_eq_of_lt below, ← position] at word
  rw [Twister.value, word]

theorem value_eq (count : Nat) :
    tw.value (tw.next^[count] (tw.start seed)) = tw.temper (tw.sequence (tw.seeded seed) (count + tw.degree)) := by
  refine Served.value tw seed ?_
  induction count with
  | zero => exact ⟨le_rfl, 0, rfl, sequence_window tw (tw.seeded seed)⟩
  | succ count ih =>
    rw [iterate_succ_apply']
    exact ih.next

end Batch

section Recovery
variable {width : Nat} (tw : Twister width)

theorem xor_ushiftRight_injective {shift : Nat} (positive : 0 < shift) :
    Function.Injective fun word : BitVec width => word ^^^ (word >>> shift) := by
  intro left right same
  have bits (above : Nat) : ∀ i, width - i = above → left.getLsbD i = right.getLsbD i := by
    induction above using Nat.strongRecOn with
    | ind above ih =>
      intro i place
      by_cases inside : i < width
      · have higher := ih (width - (shift + i)) (by omega) (shift + i) rfl
        have bit := congrArg (getLsbD · i) same
        simp only [getLsbD_xor, getLsbD_ushiftRight, higher] at bit
        exact Bool.xor_left_inj.mp bit
      · rw [getLsbD_of_ge left i (by omega), getLsbD_of_ge right i (by omega)]
  exact eq_of_getLsbD_eq fun i _ => bits _ i rfl

theorem xor_shiftLeft_and_injective {shift : Nat} (positive : 0 < shift) (mask : BitVec width) :
    Function.Injective fun word : BitVec width => word ^^^ ((word <<< shift) &&& mask) := by
  intro left right same
  have bits (i : Nat) : left.getLsbD i = right.getLsbD i := by
    induction i using Nat.strongRecOn with
    | ind i ih =>
      have bit := congrArg (getLsbD · i) same
      simp only [getLsbD_xor, getLsbD_and, getLsbD_shiftLeft] at bit
      by_cases low : i < shift
      · simpa [low] using bit
      · rw [ih (i - shift) (by omega)] at bit
        exact Bool.xor_left_inj.mp bit
  exact eq_of_getLsbD_eq fun i _ => bits i

theorem temper_injective (u : 0 < tw.u) (s : 0 < tw.s) (t : 0 < tw.t) (l : 0 < tw.l) : Function.Injective tw.temper :=
  (xor_ushiftRight_injective l).comp ((xor_shiftLeft_and_injective t tw.c).comp
    ((xor_shiftLeft_and_injective s tw.b).comp (xor_ushiftRight_injective u)))

theorem getLsbD_join (high low : BitVec width) {i : Nat} (inside : i < width) :
    (tw.join high low).getLsbD i = if i < tw.separation then low.getLsbD i else high.getLsbD i := by
  have := tw.separation_le
  have upper : (allOnes width <<< tw.separation).getLsbD i = !decide (i < tw.separation) := by
    simp only [getLsbD_shiftLeft, getLsbD_allOnes, inside, show i - tw.separation < width by omega]
    simp
  have lower : (allOnes width >>> (width - tw.separation)).getLsbD i = decide (i < tw.separation) := by
    rw [getLsbD_ushiftRight, getLsbD_allOnes]
    exact decide_eq_decide.mpr (by omega)
  rw [Twister.join, BitVec.getLsbD_or, getLsbD_and, getLsbD_and, upper, lower]
  split
  case isTrue below => simp [below]
  case isFalse above => simp [above]

theorem timesA_injective (top : tw.matrix.msb = true) : Function.Injective tw.timesA := by
  have highest (word : BitVec width) : (tw.timesA word).msb = word.getLsbD 0 := by
    have clear : (word >>> 1).msb = false := by simp [BitVec.msb_ushiftRight]
    rw [Twister.timesA]
    cases odd : word.getLsbD 0 with
    | true => rw [if_pos rfl, BitVec.msb_xor, clear, top, Bool.false_xor]
    | false => rw [if_neg (by decide), clear]
  intro left right same
  have lowest : left.getLsbD 0 = right.getLsbD 0 := by rw [← highest, ← highest, same]
  have shifted : left >>> 1 = right >>> 1 := by
    rw [Twister.timesA, Twister.timesA, lowest] at same
    split at same
    · exact (BitVec.xor_left_inj _).mp same
    · exact same
  refine eq_of_getLsbD_eq fun i _ => ?_
  cases i with
  | zero => exact lowest
  | succ i =>
    have bit := congrArg (getLsbD · i) shifted
    rwa [getLsbD_ushiftRight, getLsbD_ushiftRight, Nat.add_comm] at bit

theorem eq_of_tail (top : tw.matrix.msb = true) {initial initial' : Nat → BitVec width}
    (tail : ∀ k, tw.sequence initial (k + tw.degree) = tw.sequence initial' (k + tw.degree)) {i : Nat}
    (late : tw.degree < i + tw.middle) : tw.sequence initial i = tw.sequence initial' i := by
  have joined (k : Nat) (late : tw.degree ≤ k + tw.middle) :
      tw.join (tw.sequence initial k) (tw.sequence initial (k + 1)) =
        tw.join (tw.sequence initial' k) (tw.sequence initial' (k + 1)) := by
    have middle := tail (k + tw.middle - tw.degree)
    rw [Nat.sub_add_cancel late] at middle
    have word := tail k
    rw [sequence_add, sequence_add, Twister.twist, Twister.twist, middle] at word
    exact timesA_injective tw top ((BitVec.xor_right_inj _).mp word)
  have := tw.middle_lt
  obtain ⟨before, rfl⟩ : ∃ before, i = before + 1 := ⟨i - 1, by omega⟩
  refine eq_of_getLsbD_eq fun place inside => ?_
  have low := congrArg (getLsbD · place) (joined before (by omega))
  have high := congrArg (getLsbD · place) (joined (before + 1) (by omega))
  simp only [getLsbD_join tw _ _ inside] at low high
  split at low
  case isTrue below => exact low
  case isFalse above => rwa [if_neg above, if_neg above] at high

end Recovery

end Kernel31.Mersenne
