import Kernel31.Rand.Sequence

namespace Kernel31.Rand.MT19937

open Checked Mersenne

inductive Draw where
  | word
  | bytes (n : Nat) (buf : Vector UInt8 n)

inductive Output where
  | word (word : BitVec 32)
  | bytes (bytes : List UInt8)
  deriving DecidableEq, Repr

def draw (self : MT19937) : Draw → Exec (Output × MT19937)
  | .word => do
    let (word, self) ← self.randomUint32
    pure (.word word, self)
  | .bytes _ buf => do
    let (buf, self) ← self.genBytes buf
    pure (.bytes buf.toList, self)

def outputs : MT19937 → List Draw → Exec (List Output)
  | _, [] => pure []
  | self, call :: calls => do
    let (output, self) ← self.draw call
    let rest ← outputs self calls
    pure (output :: rest)

def Step (self self' : MT19937) : Prop :=
  (∃ call output, self.draw call = .ok (output, self')) ∨ ∃ seed, self.seed seed = .ok self'

section Steps
variable {self self' : MT19937}

theorem draw_inside (inside : self.stateIndex < stateSize) {call : Draw} {output : Output}
    (run : self.draw call = .ok (output, self')) : self'.stateIndex < stateSize := by
  cases call with
  | word =>
    obtain ⟨word, after, drawn, kept⟩ := self.randomUint32_ok inside
    rw [draw, drawn] at run
    obtain ⟨_, rfl⟩ := Prod.mk.inj (pure_ok.mp run)
    exact kept
  | bytes n buf =>
    obtain ⟨filled, after, drawn, kept⟩ := self.genBytes_ok inside buf
    rw [draw, drawn] at run
    obtain ⟨_, rfl⟩ := Prod.mk.inj (pure_ok.mp run)
    exact kept

theorem Step.inside (step : self.Step self') (inside : self.stateIndex < stateSize) : self'.stateIndex < stateSize := by
  rcases step with ⟨call, output, run⟩ | ⟨seed, run⟩
  · exact draw_inside inside run
  · rw [seed_eq] at run
    obtain rfl := Except.ok.inj run
    exact inside

theorem run_of_words {count : Nat} {drawn : List (BitVec 32)} (run : self.words count = .ok (drawn, self')) :
    Relation.ReflTransGen Step self self' := by
  induction count generalizing self drawn with
  | zero =>
    obtain ⟨_, rfl⟩ := Prod.mk.inj (pure_ok.mp run)
    exact .refl
  | succ count ih =>
    simp only [words, bind_ok, Prod.exists, pure_ok, Prod.mk.injEq] at run
    obtain ⟨word, next, first, rest, _, later, rfl, rfl⟩ := run
    refine .head (.inl ⟨.word, .word word, ?_⟩) (ih later)
    rw [draw, first]
    rfl

theorem outputs_of_words {count : Nat} {drawn : List (BitVec 32)} (run : self.words count = .ok (drawn, self')) :
    self.outputs (List.replicate count .word) = .ok (drawn.map .word) := by
  induction count generalizing self drawn with
  | zero =>
    obtain ⟨rfl, _⟩ := Prod.mk.inj (pure_ok.mp run)
    rfl
  | succ count ih =>
    simp only [words, bind_ok, Prod.exists, pure_ok, Prod.mk.injEq] at run
    obtain ⟨word, next, first, rest, _, later, rfl, rfl⟩ := run
    simp only [List.replicate_succ, outputs, draw, first, ok_bind, pure_eq, ih later]
    rfl

end Steps

section Reseed
variable (seed : BitVec 32)

theorem seeded_succ (i : Nat) : mt19937.seeded seed (i + 1) =
    coefF * (mt19937.seeded seed i ^^^ (mt19937.seeded seed i >>> 30)) + BitVec.ofNat 32 (i + 1) := rfl

theorem place_eq_of_seeded {i j : Nat} (here : mt19937.seeded seed i = mt19937.seeded seed j)
    (next : mt19937.seeded seed (i + 1) = mt19937.seeded seed (j + 1)) (small : i < 624) (small' : j < 624) : i = j := by
  rw [seeded_succ, seeded_succ, here] at next
  have added := congrArg BitVec.toNat (BitVec.add_right_inj _ |>.mp next)
  rw [BitVec.toNat_ofNat, BitVec.toNat_ofNat] at added
  omega

theorem sequences_eq {left right : MT19937} {initial initial' : Nat → BitVec 32} (follows : left.Follows initial 0)
    (follows' : right.Follows initial' 0) (same : ∀ calls, left.outputs calls = right.outputs calls) (k : Nat) :
    mt19937.sequence initial (k + 624) = mt19937.sequence initial' (k + 624) := by
  obtain ⟨_, drawn, _⟩ := follows.words (k + 1)
  obtain ⟨_, drawn', _⟩ := follows'.words (k + 1)
  have equal := same (List.replicate (k + 1) .word)
  rw [outputs_of_words drawn, outputs_of_words drawn', Except.ok.injEq] at equal
  have last := congrArg (·[k]?) equal
  simp only [List.getElem?_map, List.getElem?_range' (Nat.lt_succ_self k), Option.map_some, Nat.zero_add, Nat.one_mul,
    Option.some.injEq, Output.word.injEq] at last
  exact temper_injective mt19937 (by decide) (by decide) (by decide) (by decide) last

theorem index_zero_of_outputs {stateIndex : Nat} (inside : stateIndex < stateSize)
    (same : ∀ calls, outputs ⟨seededArray seed, stateIndex⟩ calls = outputs ⟨seededArray seed, 0⟩ calls) : stateIndex = 0 := by
  have tail := sequences_eq (follows_self inside) (follows_new seed) same
  have word (i : Nat) (late : 228 ≤ i) (below : i < 624) :
      mt19937.seeded seed ((stateIndex + i) % 624) = mt19937.seeded seed i := by
    have agree := eq_of_tail mt19937 (by decide) tail (show 624 < i + 397 by omega)
    rw [sequence_of_lt mt19937 _ below, sequence_of_lt mt19937 _ below] at agree
    exact (slot_seededArray seed stateIndex (Nat.mod_lt _ (by decide))).symm.trans agree
  -- two places next to each other, both before and after the rotation
  obtain ⟨i, late, below, apart⟩ : ∃ i, 228 ≤ i ∧ i + 1 < 624 ∧ (stateIndex + i) % 624 + 1 < 624 := by
    by_cases last : (stateIndex + 228) % 624 = 623
    · exact ⟨229, by omega, by omega, by omega⟩
    · exact ⟨228, by omega, by omega, by omega⟩
  have next := word (i + 1) (by omega) below
  rw [show (stateIndex + (i + 1)) % 624 = (stateIndex + i) % 624 + 1 by omega] at next
  have place := place_eq_of_seeded seed (word i late (by omega)) next (by omega) (by omega)
  have inside : stateIndex < 624 := inside
  omega

/-- Whatever was drawn before, `seed` makes a new generator exactly when the index is at the start of the array. -/
theorem reseeded_as_new_iff {first : BitVec 32} {start self : MT19937} (made : MT19937.new first = .ok start)
    (run : Relation.ReflTransGen Step start self) :
    ∃ seeded fresh, self.seed seed = .ok seeded ∧ MT19937.new seed = .ok fresh ∧
      ((∀ calls, seeded.outputs calls = fresh.outputs calls) ↔ self.stateIndex = 0) := by
  refine ⟨_, _, self.seed_eq seed, new_eq seed, ?_, fun zero => ?_⟩
  · have begun : start.stateIndex < stateSize := by
      rw [new_eq] at made
      obtain rfl := Except.ok.inj made
      exact (by decide : 0 < stateSize)
    exact index_zero_of_outputs seed (Runs.preserved (·.stateIndex < stateSize) (fun _ _ inside step => step.inside inside)
      begun run)
  · rw [zero]
    exact fun _ => rfl

theorem reseeded_after_624 :
    ∃ start drawn self seeded fresh, MT19937.new 1 = .ok start ∧ start.words 624 = .ok (drawn, self) ∧
      self.seed 2 = .ok seeded ∧ MT19937.new 2 = .ok fresh ∧ ∀ calls, seeded.outputs calls = fresh.outputs calls := by
  obtain ⟨self, drawn, index⟩ := (follows_new 1).words 624
  obtain ⟨seeded, fresh, reseeded, made, same⟩ := reseeded_as_new_iff 2 (new_eq 1) (run_of_words drawn)
  exact ⟨_, _, self, seeded, fresh, new_eq 1, drawn, reseeded, made, same.mpr index⟩

theorem randomUint32_seeded {stateIndex : Nat} (inside : stateIndex + 397 < 624) :
    ∃ self', randomUint32 ⟨seededArray seed, stateIndex⟩ = .ok (mt19937.temper (mt19937.twist
        (mt19937.seeded seed stateIndex) (mt19937.seeded seed (stateIndex + 1)) (mt19937.seeded seed (stateIndex + 397))),
        self') ∧
      self'.stateIndex = stateIndex + 1 := by
  have near (count : Nat) (below : stateIndex + count < stateSize) :
      slot ⟨seededArray seed, stateIndex⟩ ((stateIndex + count) % stateSize) = mt19937.seeded seed (stateIndex + count) := by
    rw [Nat.mod_eq_of_lt below, slot_seededArray seed stateIndex below]
  have run := randomUint32_eq ⟨seededArray seed, stateIndex⟩ (by omega : stateIndex < 624)
  rw [nextWord, slot_seededArray seed stateIndex (by omega : stateIndex < 624), near 1 (by omega : _ < 624),
    near middle inside] at run
  exact ⟨_, run, Nat.mod_eq_of_lt (by omega : stateIndex + 1 < 624)⟩

/-- The first output after one word and a call of `seed` with the old seed is the second one. -/
theorem reseeded_skips_first :
    ∃ start self seeded after, MT19937.new 5489 = .ok start ∧ start.randomUint32 = .ok (3499211612, self) ∧
      self.seed 5489 = .ok seeded ∧ seeded.randomUint32 = .ok (581869302, after) := by
  obtain ⟨self, first, index⟩ := randomUint32_seeded 5489 (by decide : 0 + 397 < 624)
  obtain ⟨after, second, _⟩ := randomUint32_seeded 5489 (by decide : 1 + 397 < 624)
  have values : mt19937.temper (mt19937.twist (mt19937.seeded 5489 0) (mt19937.seeded 5489 1) (mt19937.seeded 5489 397)) =
      3499211612 ∧ mt19937.temper (mt19937.twist (mt19937.seeded 5489 1) (mt19937.seeded 5489 2)
        (mt19937.seeded 5489 398)) = 581869302 := by
    decide +kernel
  refine ⟨_, self, ⟨seededArray 5489, 1⟩, after, new_eq 5489, ?_, ?_, ?_⟩
  · rw [first]
    exact congrArg (fun word => Except.ok (word, self)) values.1
  · rw [seed_eq, index]
  · rw [second]
    exact congrArg (fun word => Except.ok (word, after)) values.2

end Reseed

end Kernel31.Rand.MT19937
