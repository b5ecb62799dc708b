import Kernel31.Library.Mersenne
import Kernel31.Library.Runs
import Kernel31.Rand.Mt19937

namespace Kernel31.Rand.MT19937

open Checked Slices Mersenne Function

section Words
variable (self : MT19937)

def slot (place : Nat) : BitVec 32 := self.stateArray[place]?.getD 0

theorem index_slot {place : Nat} (inside : place < stateSize) : index self.stateArray place = .ok (self.slot place) := by
  rw [slot, Vector.getElem?_eq_getElem inside]
  exact index_ok (Vector.getElem?_eq_getElem inside)

theorem slot_set {place : Nat} (inside : place < stateSize) (word : BitVec 32) (stateIndex : Nat) :
    slot ⟨self.stateArray.set place word, stateIndex⟩ = update self.slot place word := by
  funext other
  rw [slot, Vector.getElem?_set]
  by_cases same : place = other
  · subst same
    rw [if_pos rfl, update_self]
    rfl
  · rw [if_neg same, update_of_ne (Ne.symm same)]
    rfl

theorem and_one_eq_one (word : BitVec 32) : word &&& 1 = 1 ↔ word.getLsbD 0 = true := by
  have bit : word &&& 1 = BitVec.setWidth 32 (BitVec.ofBool (word.getLsbD 0)) :=
    BitVec.and_one_eq_setWidth_ofBool_getLsbD
  rw [bit]
  cases word.getLsbD 0 <;> decide

def nextWord : BitVec 32 :=
  mt19937.twist (self.slot self.stateIndex) (self.slot ((self.stateIndex + 1) % stateSize))
    (self.slot ((self.stateIndex + middle) % stateSize))

theorem randomUint32_eq (inside : self.stateIndex < stateSize) :
    self.randomUint32 = .ok (mt19937.temper self.nextWord,
      ⟨self.stateArray.set self.stateIndex self.nextWord, (self.stateIndex + 1) % stateSize⟩) := by
  have around (count : Nat) : (self.stateIndex + count) % stateSize < stateSize := Nat.mod_lt _ (by decide)
  rw [randomUint32]
  simp only [self.index_slot inside, self.index_slot (around 1), self.index_slot (around middle), assign_ok inside, ok_bind,
    and_one_eq_one]
  rfl

end Words

section Seeding

def seededArray (seed : BitVec 32) : Vector (BitVec 32) stateSize := Vector.ofFn fun i => mt19937.seeded seed i

theorem seed_eq (self : MT19937) (seed : BitVec 32) : self.seed seed = .ok ⟨seededArray seed, self.stateIndex⟩ := by
  -- before the turn `i` the words below `i` are those of the seed, and the last of them is carried on
  obtain ⟨⟨array, word⟩, run, _, words⟩ := @foldlM_range' _ _ seedWord
    (fun i state => state.2 = mt19937.seeded seed (i - 1) ∧ ∀ place < i, state.1[place]? = some (mt19937.seeded seed place))
    1 623 (self.stateArray.set 0 seed, seed)
    (by
      refine ⟨rfl, fun place below => ?_⟩
      obtain rfl : place = 0 := by omega
      exact Vector.getElem?_set_self (by decide))
    (by
      rintro i ⟨array, word⟩ low high ⟨rfl, words⟩
      have inside : i < stateSize := high
      refine ⟨(array.set i (mt19937.seeded seed i), mt19937.seeded seed i), ?_, rfl, fun place below => ?_⟩
      · obtain ⟨before, rfl⟩ : ∃ before, i = before + 1 := ⟨i - 1, by omega⟩
        simp only [seedWord, assign_ok inside, ok_bind]
        rfl
      · by_cases last : i = place
        · subst last
          exact Vector.getElem?_set_self inside
        · rw [Vector.getElem?_set_ne inside last]
          exact words place (by omega))
  have filled : array = seededArray seed := by
    refine Vector.ext fun place inside => ?_
    have word := words place inside
    rw [Vector.getElem?_eq_getElem inside, Option.some.injEq] at word
    rw [word, seededArray, Vector.getElem_ofFn]
  rw [MT19937.seed, assign_ok (by decide), ok_bind, run, filled]
  rfl

theorem new_eq (seed : BitVec 32) : MT19937.new seed = .ok ⟨seededArray seed, 0⟩ := seed_eq _ seed

theorem slot_seededArray (seed : BitVec 32) (stateIndex : Nat) {place : Nat} (inside : place < stateSize) :
    slot ⟨seededArray seed, stateIndex⟩ place = mt19937.seeded seed place := by
  rw [slot, Vector.getElem?_eq_getElem inside, seededArray, Vector.getElem_ofFn]
  rfl

end Seeding

def words : Nat → MT19937 → Exec (List (BitVec 32) × MT19937)
  | 0, self => pure ([], self)
  | count + 1, self => do
    let (word, self) ← self.randomUint32
    let (rest, self) ← words count self
    pure (word :: rest, self)

section Outputs
variable {self : MT19937} {initial : Nat → BitVec 32} {first : Nat}

/-- The array is a window of the sequence; the next word to be replaced has the number `first`. -/
structure Follows (now : MT19937) (initial : Nat → BitVec 32) (first : Nat) : Prop where
  inside : now.stateIndex < stateSize
  window : Window stateSize (mt19937.sequence initial) now.slot now.stateIndex first

theorem Follows.nextWord (follows : self.Follows initial first) :
    self.nextWord = mt19937.sequence initial (first + stateSize) := by
  have word := Window.twist mt19937 initial follows.window
  rwa [show self.stateIndex % mt19937.degree = self.stateIndex from Nat.mod_eq_of_lt follows.inside] at word

theorem Follows.randomUint32 (follows : self.Follows initial first) :
    ∃ self', self.randomUint32 = .ok (mt19937.temper (mt19937.sequence initial (first + stateSize)), self') ∧
      self'.stateIndex = (self.stateIndex + 1) % stateSize ∧ self'.Follows initial (first + 1) := by
  refine ⟨_, follows.nextWord ▸ self.randomUint32_eq follows.inside, rfl, Nat.mod_lt _ (by decide), Window.wrap ?_⟩
  have place : self.stateIndex % stateSize = self.stateIndex := Nat.mod_eq_of_lt follows.inside
  rw [self.slot_set follows.inside]
  refine follows.window.advance ?_ fun other elsewhere => ?_
  · rw [place, update_self]
  · rw [update_of_ne (place ▸ elsewhere)]

theorem Follows.words (follows : self.Follows initial first) (count : Nat) :
    ∃ self', self.words count =
        .ok ((List.range' first count).map fun k => mt19937.temper (mt19937.sequence initial (k + stateSize)), self') ∧
      self'.stateIndex = (self.stateIndex + count) % stateSize := by
  induction count generalizing self first with
  | zero => exact ⟨self, rfl, (Nat.mod_eq_of_lt follows.inside).symm⟩
  | succ count ih =>
    obtain ⟨next, run, index, follows⟩ := follows.randomUint32
    obtain ⟨self', rest, last⟩ := ih follows
    refine ⟨self', ?_, ?_⟩
    · simp only [MT19937.words, run, rest, ok_bind]
      rfl
    · rw [last, index, Nat.mod_add_mod, Nat.add_assoc, Nat.add_comm 1 count]

theorem follows_self (inside : self.stateIndex < stateSize) :
    self.Follows (fun i => self.slot ((self.stateIndex + i) % stateSize)) 0 := by
  refine ⟨inside, fun i below => ?_⟩
  rw [Nat.zero_add, sequence_of_lt mt19937 _ below]

theorem follows_new (seed : BitVec 32) : Follows ⟨seededArray seed, 0⟩ (mt19937.seeded seed) 0 := by
  refine ⟨(by decide : 0 < stateSize), fun i below => ?_⟩
  rw [Nat.zero_add, Nat.mod_eq_of_lt below, slot_seededArray seed 0 below, sequence_of_lt mt19937 _ below]

end Outputs

/-- The value number `n` is the tempering of the word number `n + 624` of the sequence. -/
theorem outputs_eq_sequence (seed : BitVec 32) (n : Nat) :
    ∃ self outputs self', MT19937.new seed = .ok self ∧ self.words (n + 1) = .ok (outputs, self') ∧
      outputs[n]? = some (mt19937.temper (mt19937.sequence (mt19937.seeded seed) (n + 624))) ∧
      outputs[n]? = some (mt19937.value (mt19937.next^[n] (mt19937.start seed))) := by
  obtain ⟨self', run, _⟩ := (follows_new seed).words (n + 1)
  refine ⟨_, _, self', new_eq seed, run, ?_, ?_⟩
  · rw [List.getElem?_map, List.getElem?_range' (Nat.lt_succ_self n)]
    simp only [Option.map_some, Nat.zero_add, Nat.one_mul]
    rfl
  · rw [List.getElem?_map, List.getElem?_range' (Nat.lt_succ_self n), value_eq]
    simp only [Option.map_some, Nat.zero_add, Nat.one_mul]
    rfl

end Kernel31.Rand.MT19937
