import Mathlib.Data.List.Basic

namespace Kernel31.Utf8

open List

def charWidth (lead : UInt8) : Nat :=
  if lead < 0x80 then 1
  else if 0xc2 ≤ lead ∧ lead ≤ 0xdf then 2
  else if 0xe0 ≤ lead ∧ lead ≤ 0xef then 3
  else if 0xf0 ≤ lead ∧ lead ≤ 0xf4 then 4
  else 0

def isContinuation (byte : UInt8) : Bool := 0x80 ≤ byte ∧ byte ≤ 0xbf

/-- The second bytes that are left out belong to longer encodings, to surrogates or to no character. -/
def secondFits (lead second : UInt8) : Bool :=
  if lead = 0xe0 then 0xa0 ≤ second ∧ second ≤ 0xbf
  else if lead = 0xed then 0x80 ≤ second ∧ second ≤ 0x9f
  else if lead = 0xf0 then 0x90 ≤ second ∧ second ≤ 0xbf
  else if lead = 0xf4 then 0x80 ≤ second ∧ second ≤ 0x8f
  else isContinuation second

def following (lead : UInt8) (rest : List UInt8) : Nat :=
  if 2 ≤ charWidth lead ∧ secondFits lead (rest.headD 0) then
    1 + (((rest.drop 1).take (charWidth lead - 2)).takeWhile isContinuation).length
  else 0

def replacement : List UInt8 := [0xef, 0xbf, 0xbd]

/-- A character a turn; the bytes of one that is not complete are replaced together. -/
def lossyLoop : Nat → List UInt8 → List UInt8
  | 0, _ => []
  | _ + 1, [] => []
  | fuel + 1, lead :: rest =>
    let count := following lead rest
    (if charWidth lead = count + 1 then lead :: rest.take count else replacement) ++ lossyLoop fuel (rest.drop count)

/-- The bytes of `String::from_utf8_lossy`. -/
def lossy (bytes : List UInt8) : List UInt8 := lossyLoop bytes.length bytes

def validLoop : Nat → List UInt8 → Bool
  | 0, _ => true
  | _ + 1, [] => true
  | fuel + 1, lead :: rest => charWidth lead = following lead rest + 1 && validLoop fuel (rest.drop (following lead rest))

def valid (bytes : List UInt8) : Bool := validLoop bytes.length bytes

theorem replacement_ne {lead : UInt8} {rest later : List UInt8} (incomplete : charWidth lead ≠ following lead rest + 1) :
    replacement ++ later ≠ lead :: rest := by
  intro same
  simp only [replacement, cons_append, nil_append, cons.injEq] at same
  obtain ⟨rfl, rfl⟩ := same
  exact incomplete rfl

variable {bytes : List UInt8} {separator : UInt8}

theorem lossyLoop_eq_self_iff {fuel : Nat} (enough : bytes.length ≤ fuel) :
    lossyLoop fuel bytes = bytes ↔ validLoop fuel bytes = true := by
  induction fuel generalizing bytes with
  | zero =>
    obtain rfl := length_eq_zero_iff.mp (Nat.le_zero.mp enough)
    exact iff_of_true rfl rfl
  | succ fuel ih =>
    cases bytes with
    | nil => exact iff_of_true rfl rfl
    | cons lead rest =>
      have shorter : (rest.drop (following lead rest)).length ≤ fuel := by
        rw [length_drop]
        rw [length_cons] at enough
        omega
      rw [lossyLoop, validLoop, Bool.and_eq_true, decide_eq_true_iff, ← ih shorter]
      split
      case isTrue complete =>
        have halves := take_append_drop (following lead rest) rest
        rw [and_iff_right complete, cons_append, cons.injEq, and_iff_right rfl]
        constructor
        · intro same
          exact append_cancel_left (same.trans halves.symm)
        · intro same
          rw [same, halves]
      case isFalse incomplete =>
        exact iff_of_false (replacement_ne incomplete) fun both => incomplete both.1

theorem lossy_eq_self_iff (bytes : List UInt8) : lossy bytes = bytes ↔ valid bytes = true :=
  lossyLoop_eq_self_iff (Nat.le_refl _)

/-- A turn takes at least a byte, so that more turns than bytes change nothing. -/
theorem lossyLoop_eq {fuel : Nat} (enough : bytes.length ≤ fuel) : lossyLoop fuel bytes = lossy bytes := by
  have independent : ∀ (fuel fuel' : Nat) (bytes : List UInt8), bytes.length ≤ fuel → bytes.length ≤ fuel' →
      lossyLoop fuel bytes = lossyLoop fuel' bytes := by
    intro fuel
    induction fuel with
    | zero =>
      intro fuel' bytes none _
      obtain rfl := length_eq_zero_iff.mp (Nat.le_zero.mp none)
      cases fuel' <;> rfl
    | succ fuel ih =>
      intro fuel' bytes enough enough'
      cases bytes with
      | nil => cases fuel' <;> rfl
      | cons lead rest =>
        rw [length_cons] at enough enough'
        obtain ⟨fuel', rfl⟩ := Nat.exists_eq_add_of_lt (Nat.lt_of_lt_of_le (Nat.succ_pos _) enough')
        rw [Nat.zero_add] at enough' ⊢
        rw [lossyLoop, lossyLoop, ih fuel' (rest.drop _) (by rw [length_drop]; omega) (by rw [length_drop]; omega)]
  exact independent _ _ _ enough (Nat.le_refl _)

theorem lossy_cons (lead : UInt8) (rest : List UInt8) :
    lossy (lead :: rest) =
      (if charWidth lead = following lead rest + 1 then lead :: rest.take (following lead rest) else replacement) ++
        lossy (rest.drop (following lead rest)) := by
  rw [lossy, length_cons, lossyLoop, lossyLoop_eq (by rw [length_drop]; omega)]

theorem lossy_ascii {char : UInt8} (ascii : char < 0x80) (rest : List UInt8) :
    lossy (char :: rest) = char :: lossy rest := by
  have width : charWidth char = 1 := if_pos ascii
  have none : following char rest = 0 := if_neg fun both => absurd both.1 (by rw [width]; decide)
  rw [lossy_cons, width, none, if_pos rfl]
  rfl

theorem lossy_double {lead second : UInt8} (width : charWidth lead = 2) (fits : secondFits lead second = true)
    (rest : List UInt8) : lossy (lead :: second :: rest) = lead :: second :: lossy rest := by
  have one : following lead (second :: rest) = 1 := by
    rw [following, if_pos ⟨Nat.le_of_eq width.symm, fits⟩, width]
    rfl
  rw [lossy_cons, width, one, if_pos rfl]
  rfl

theorem secondFits_ascii (lead : UInt8) {second : UInt8} (ascii : second < 0x80) : secondFits lead second = false := by
  have low (bound : UInt8) (high : 0x80 ≤ bound) : ¬ bound ≤ second := fun above =>
    absurd (UInt8.lt_of_lt_of_le ascii high) (UInt8.not_lt.mpr above)
  have tail : isContinuation second = false := by
    rw [isContinuation, decide_eq_false_iff_not]
    exact fun both => low _ (by decide) both.1
  rw [secondFits, tail]
  simp only [low 0xa0 (by decide), low 0x80 (by decide), low 0x90 (by decide), false_and, decide_false, ite_self]

theorem following_le (lead : UInt8) (rest : List UInt8) : following lead rest ≤ rest.length := by
  rw [following]
  split
  case isTrue fits =>
    cases rest with
    | nil => exact absurd fits.2 (by rw [headD_nil, secondFits_ascii lead (by decide)]; decide)
    | cons second rest =>
      have shorter := (takeWhile_sublist isContinuation (l := (rest.take (charWidth lead - 2)))).length_le
      rw [length_take] at shorter
      simp only [drop_succ_cons, drop_zero, length_cons]
      omega
  case isFalse => exact Nat.zero_le _

theorem following_append (lead : UInt8) (rest : List UInt8) (ascii : separator < 0x80) (back : List UInt8) :
    following lead (rest ++ separator :: back) = following lead rest := by
  have stop : isContinuation separator = false := by
    rw [isContinuation, decide_eq_false_iff_not]
    exact fun both => absurd ascii (UInt8.not_lt.mpr both.1)
  have tails (count : Nat) (tail : List UInt8) : ((tail ++ separator :: back).take count).takeWhile isContinuation =
      (tail.take count).takeWhile isContinuation := by
    induction tail generalizing count with
    | nil =>
      cases count with
      | zero => rfl
      | succ count => rw [nil_append, take_succ_cons, takeWhile_cons_of_neg (by rw [stop]; decide)]; rfl
    | cons byte tail ih =>
      cases count with
      | zero => rfl
      | succ count =>
        rw [cons_append, take_succ_cons, take_succ_cons, takeWhile_cons, takeWhile_cons, ih]
  cases rest with
  | nil =>
    rw [nil_append, following, following, headD_cons, headD_nil, secondFits_ascii lead ascii,
      secondFits_ascii lead (by decide), if_neg (by simp), if_neg (by simp)]
  | cons second rest =>
    rw [cons_append, following, following, headD_cons, headD_cons, drop_succ_cons, drop_zero,
      drop_succ_cons, drop_zero, tails]

theorem turn_induction {motive : List UInt8 → Prop} (nil : motive [])
    (turn : ∀ lead rest, motive (rest.drop (following lead rest)) → motive (lead :: rest)) (bytes : List UInt8) :
    motive bytes := by
  induction size : bytes.length using Nat.strongRecOn generalizing bytes with
  | ind size ih =>
    cases bytes with
    | nil => exact nil
    | cons lead rest => exact turn lead rest (ih _ (by rw [← size, length_drop, length_cons]; omega) _ rfl)

theorem lossy_append (ascii : separator < 0x80) (front back : List UInt8) :
    lossy (front ++ separator :: back) = lossy front ++ separator :: lossy back := by
  induction front using turn_induction with
  | nil => exact lossy_ascii ascii back
  | turn lead rest ih =>
    have inside := following_le lead rest
    rw [cons_append, lossy_cons, lossy_cons, following_append lead rest ascii, take_append_of_le_length inside,
      drop_append_of_le_length inside, ih, append_assoc]

theorem mem_of_mem_lossy {byte : UInt8} (mem : byte ∈ lossy bytes) : byte ∈ bytes ∨ byte ∈ replacement := by
  induction bytes using turn_induction with
  | nil => exact Or.inl mem
  | turn lead rest ih =>
    rw [lossy_cons, mem_append] at mem
    rcases mem with first | later
    · split at first
      · exact Or.inl (mem_of_mem_take (l := lead :: rest) (i := following lead rest + 1) first)
      · exact Or.inr first
    · exact (ih later).imp_left fun mem => mem_cons_of_mem _ (mem_of_mem_drop mem)

theorem lossy_eq_self_of_not_mem (none : 0xef ∉ lossy bytes) : lossy bytes = bytes := by
  induction bytes using turn_induction with
  | nil => rfl
  | turn lead rest ih =>
    rw [lossy_cons, mem_append, not_or] at none
    have complete : charWidth lead = following lead rest + 1 := by
      by_contra incomplete
      rw [if_neg incomplete] at none
      exact none.1 mem_cons_self
    rw [lossy_cons, if_pos complete, ih none.2, cons_append, take_append_drop]

theorem splitOn_lossy (ascii : separator < 0x80) (bytes : List UInt8) :
    (lossy bytes).splitOn separator = (bytes.splitOn separator).map lossy := by
  induction size : bytes.length using Nat.strongRecOn generalizing bytes with
  | ind size ih =>
    by_cases mem : separator ∈ bytes
    · obtain ⟨front, back, rfl⟩ := append_of_mem mem
      rw [length_append, length_cons] at size
      have cut (front back : List UInt8) :
          (front ++ separator :: back).splitOn separator = front.splitOn separator ++ back.splitOn separator :=
        splitOnP_append_cons _ _ (beq_self_eq_true separator)
      rw [lossy_append ascii, cut, cut, map_append, ih front.length (by omega) front rfl,
        ih back.length (by omega) back rfl]
    · have absent : separator ∉ lossy bytes := by
        intro mem'
        rcases mem_of_mem_lossy mem' with inside | inside
        · exact mem inside
        · simp only [replacement, mem_cons, not_mem_nil, or_false] at inside
          rcases inside with rfl | rfl | rfl <;> exact absurd ascii (by decide)
      have single {list : List UInt8} (absent : separator ∉ list) : list.splitOn separator = [list] :=
        splitOnP_eq_singleton fun byte mem => beq_false_of_ne fun same => absent (same ▸ mem)
      rw [single absent, single mem]
      rfl

end Kernel31.Utf8
