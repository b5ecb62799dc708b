import Kernel31.Library.Bitmap
import Kernel31.Library.Runs
import Kernel31.Page.Basics

namespace Kernel31.Page

open Checked Bitmap Function Relation List

def staticPageCap : Nat := 256

/-- `pages` is the address of the array, by which `repr(C, align(4096))` places the allocator. -/
structure StaticPageAllocator where
  pages : Nat
  bitmap : Fin 4 → BitVec 64
  aligned : pages % pageSize = 0
  fits : pages + (staticPageCap + 1) * pageSize ≤ 2 ^ 64

namespace StaticPageAllocator

def new (pages : Nat) (aligned : pages % pageSize = 0) (fits : pages + (staticPageCap + 1) * pageSize ≤ 2 ^ 64) :
    StaticPageAllocator where
  pages := pages
  bitmap := fun _ => 0
  aligned := aligned
  fits := fits

def pagePtr (self : StaticPageAllocator) (index : Nat) : Exec Nat :=
  if index < staticPageCap then pure (self.pages + index * pageSize) else throw .indexOutOfBounds

/-- `for (byte_idx, byte) in self.bitmap.iter_mut().enumerate()` -/
def allocLoop (self : StaticPageAllocator) : List (Fin 4) → Exec (Except AllocError Nat × StaticPageAllocator)
  | [] => pure (.error .outOfMemory, self)
  | byteIdx :: later =>
    let byte := self.bitmap byteIdx
    let bit := leadingOnes byte
    if bit < 64 then do
      let bitmap := update self.bitmap byteIdx (byte ||| 1#64 <<< (63 - bit))
      let ptr ← self.pagePtr (64 * byteIdx + bit)
      pure (.ok (ptr >>> pageBits), { self with bitmap := bitmap })
    else self.allocLoop later

def allocPages (self : StaticPageAllocator) (pagesCount : Nat) : Exec (Except AllocError Nat × StaticPageAllocator) :=
  if pagesCount = 1 then self.allocLoop (finRange 4) else throw .assertion

def freePages (self : StaticPageAllocator) (pageStart pagesCount : Nat) : Exec StaticPageAllocator :=
  if pagesCount = 1 then
    let byte := pageStart / 64
    let bit := pageStart % 64
    if inside : byte < 4 then
      let byte : Fin 4 := ⟨byte, inside⟩
      pure { self with bitmap := update self.bitmap byte (self.bitmap byte &&& ~~~(1#64 <<< (63 - bit))) }
    else throw .indexOutOfBounds
  else throw .assertion

instance : PageAllocator StaticPageAllocator := ⟨allocPages, freePages⟩

/-- The number of a page of the array. -/
def page (self : StaticPageAllocator) (index : Nat) : Nat := self.pages / pageSize + index

def Available (self : StaticPageAllocator) (number : Nat) : Prop :=
  ∃ index < staticPageCap, number = self.page index ∧ bit self.bitmap index = false

/-- `free_pages` returns and makes the page available again, and no other. -/
def FreesExactly (self : StaticPageAllocator) (number : Nat) : Prop :=
  ∃ after, self.freePages number 1 = .ok after ∧ ∀ other, after.Available other ↔ self.Available other ∨ other = number

section Calls

variable {self after : StaticPageAllocator}

theorem page_congr (same : after.pages = self.pages) : after.page = self.page := by
  funext index
  rw [page, page, same]

theorem page_of_zero (zero : self.pages = 0) (index : Nat) : self.page index = index := by
  rw [page, zero, Nat.zero_div, Nat.zero_add]

theorem pagePtr_shift {index : Nat} (inside : index < staticPageCap) :
    ∃ ptr, self.pagePtr index = .ok ptr ∧ ptr >>> pageBits = self.page index := by
  refine ⟨self.pages + index * pageSize, by rw [pagePtr, if_pos inside]; rfl, ?_⟩
  rw [Nat.shiftRight_eq_div_pow]
  exact Nat.add_mul_div_right _ _ (by decide)

theorem allocLoop_cases (indices : List (Fin 4)) :
    (self.allocLoop indices = .ok (.error .outOfMemory, self) ∧ ∀ byteIdx ∈ indices, leadingOnes (self.bitmap byteIdx) = 64) ∨
      ∃ byteIdx ∈ indices, ∃ place < 64, (self.bitmap byteIdx).getMsbD place = false ∧
        self.allocLoop indices = .ok (.ok (self.page (64 * byteIdx + place)),
          { self with bitmap := update self.bitmap byteIdx (self.bitmap byteIdx ||| mask 64 place) }) := by
  induction indices with
  | nil => exact .inl ⟨rfl, fun _ member => absurd member not_mem_nil⟩
  | cons byteIdx later ih =>
    by_cases some : leadingOnes (self.bitmap byteIdx) < 64
    · obtain ⟨ptr, found, number⟩ := @pagePtr_shift self (64 * byteIdx + leadingOnes (self.bitmap byteIdx))
        (by unfold staticPageCap; omega)
      refine .inr ⟨byteIdx, mem_cons_self, _, some, getMsbD_leadingOnes some, ?_⟩
      rw [allocLoop, if_pos some, found, ok_bind, number]
      rfl
    · have full : leadingOnes (self.bitmap byteIdx) = 64 := le_antisymm leadingOnes_le (not_lt.mp some)
      have next : self.allocLoop (byteIdx :: later) = self.allocLoop later := by rw [allocLoop, if_neg some]
      rw [next]
      rcases ih with ⟨failed, fulls⟩ | ⟨index, member, found⟩
      · exact .inl ⟨failed, forall_mem_cons.mpr ⟨full, fulls⟩⟩
      · exact .inr ⟨index, mem_cons_of_mem _ member, found⟩

/-- `alloc_pages(1)` returns: either every bit is set, or it sets the bit of the page it returns. -/
theorem allocPages_cases :
    (self.allocPages 1 = .ok (.error .outOfMemory, self) ∧ ∀ i < staticPageCap, bit self.bitmap i = true) ∨
      ∃ index < staticPageCap, bit self.bitmap index = false ∧ ∃ after, self.allocPages 1 = .ok (.ok (self.page index), after) ∧
        after.pages = self.pages ∧ ∀ i, bit after.bitmap i = if i = index then true else bit self.bitmap i := by
  rcases @allocLoop_cases self (finRange 4) with ⟨failed, full⟩ | ⟨byteIdx, _, place, inside, clear, found⟩
  · refine .inl ⟨failed, fun i small => ?_⟩
    have byte : i / 64 < 4 := by
      unfold staticPageCap at small
      omega
    have place : i % 64 < 64 := Nat.mod_lt i (by omega)
    have set : (self.bitmap ⟨i / 64, byte⟩).getMsbD (i % 64) = true := by
      refine getMsbD_of_lt_leadingOnes ?_
      rw [full _ (mem_finRange _)]
      exact place
    have here := @bit_eq 64 4 self.bitmap ⟨i / 64, byte⟩ (i % 64) place
    rw [Nat.div_add_mod] at here
    rw [here, set]
  · refine .inr ⟨64 * byteIdx + place, by unfold staticPageCap; omega, ?_, _, found, rfl, fun i => bit_set inside⟩
    rw [bit_eq inside, clear]

theorem freePages_one {number : Nat} (inside : number < staticPageCap) :
    ∃ after, self.freePages number 1 = .ok after ∧ after.pages = self.pages ∧
      ∀ i, bit after.bitmap i = if i = number then false else bit self.bitmap i := by
  have byte : number / 64 < 4 := by
    unfold staticPageCap at inside
    omega
  refine ⟨{ self with
      bitmap := update self.bitmap ⟨number / 64, byte⟩ (self.bitmap ⟨number / 64, byte⟩ &&& ~~~mask 64 (number % 64)) },
    by rw [freePages, if_pos rfl, dif_pos byte]; rfl, rfl, fun i => ?_⟩
  have cleared := @bit_clear 64 4 self.bitmap ⟨number / 64, byte⟩ (number % 64) i (Nat.mod_lt _ (by omega))
  rw [Nat.div_add_mod] at cleared
  exact cleared

theorem freePages_outside {number : Nat} (outside : staticPageCap ≤ number) :
    self.freePages number 1 = .error .indexOutOfBounds := by
  have byte : ¬ number / 64 < 4 := by
    unfold staticPageCap at outside
    omega
  rw [freePages, if_pos rfl, dif_neg byte]
  rfl

/-- `free_pages` takes the number of the page for that of its bit. -/
theorem freesExactly_iff {index : Nat} (inside : index < staticPageCap) (set : bit self.bitmap index = true) :
    self.FreesExactly (self.page index) ↔ self.pages = 0 := by
  constructor
  · rintro ⟨after, freed, exactly⟩
    by_contra placed
    have moved : self.pages / pageSize ≠ 0 := by
      have rest := self.aligned
      unfold pageSize pageBits at rest ⊢
      omega
    have small : self.page index < staticPageCap := by
      by_contra large
      rw [freePages_outside (not_lt.mp large)] at freed
      cases freed
    obtain ⟨cleared, run, same, bits⟩ := @freePages_one self _ small
    obtain rfl := ok_unique run freed
    obtain ⟨other, _, place, clear⟩ := (exactly (self.page index)).mpr (.inr rfl)
    rw [page_congr same] at place
    obtain rfl : index = other := Nat.add_left_cancel place
    rw [bits, if_neg (by unfold page; omega), set] at clear
    cases clear
  · intro zero
    have identity := page_of_zero zero
    obtain ⟨after, run, same, bits⟩ := @freePages_one self _ inside
    rw [identity]
    refine ⟨after, run, fun other => ?_⟩
    simp only [Available, page_congr same, identity, bits]
    grind

end Calls

end StaticPageAllocator

section Runs

/-- The allocator and the pages that were handed out and not freed since. -/
structure StaticState where
  alloc : StaticPageAllocator
  outstanding : List Nat

namespace StaticState

inductive Op where
  | alloc
  | free (page : Nat)
  deriving DecidableEq, Repr

def call (s : StaticState) : Op → Exec StaticState
  | .alloc => do
    let (result, alloc) ← s.alloc.allocPages 1
    pure { alloc := alloc, outstanding := result.toOption.toList ++ s.outstanding }
  | .free page => do
    let alloc ← s.alloc.freePages page 1
    pure { alloc := alloc, outstanding := s.outstanding.erase page }

/-- A free names an outstanding page, and the array starts at page 0. -/
def Allowed (s : StaticState) : Op → Prop
  | .alloc => True
  | .free page => page ∈ s.outstanding ∧ s.alloc.pages = 0

instance (s : StaticState) : ∀ op, Decidable (s.Allowed op)
  | .alloc => inferInstanceAs (Decidable True)
  | .free page => inferInstanceAs (Decidable (page ∈ s.outstanding ∧ s.alloc.pages = 0))

def Steps (s s' : StaticState) : Prop := ∃ op, s.Allowed op ∧ s.call op = .ok s'

/-- The outstanding pages are those whose bits are set. -/
structure Recorded (pages : Nat) (now : StaticState) : Prop where
  placed : now.alloc.pages = pages
  distinct : now.outstanding.Nodup
  bits : ∀ number, number ∈ now.outstanding ↔
    ∃ index < staticPageCap, number = now.alloc.page index ∧ bit now.alloc.bitmap index = true

open StaticPageAllocator in
theorem Recorded.step {pages : Nat} {s s' : StaticState} (recorded : s.Recorded pages) (step : s.Steps s') : s'.Recorded pages := by
  obtain ⟨op, allowed, run⟩ := step
  cases op with
  | alloc =>
    obtain ⟨⟨result, after⟩, called, made⟩ := bind_ok.mp run
    obtain rfl := pure_ok.mp made
    rcases @allocPages_cases s.alloc with ⟨failed, _⟩ | ⟨index, inside, clear, alloc, found, same, bits⟩
    · obtain ⟨rfl, rfl⟩ := Prod.mk.inj (ok_unique failed called)
      exact recorded
    · obtain ⟨rfl, rfl⟩ := Prod.mk.inj (ok_unique found called)
      refine ⟨same.trans recorded.placed, nodup_cons.mpr ⟨?_, recorded.distinct⟩, fun number => ?_⟩
      · change s.alloc.page index ∉ s.outstanding
        rw [recorded.bits]
        rintro ⟨other, _, place, set⟩
        obtain rfl : index = other := Nat.add_left_cancel place
        rw [clear] at set
        cases set
      · change number ∈ s.alloc.page index :: s.outstanding ↔ _
        simp only [mem_cons, recorded.bits, page_congr same, bits]
        grind
  | free number =>
    obtain ⟨member, zero⟩ := allowed
    obtain ⟨after, called, made⟩ := bind_ok.mp run
    obtain rfl := pure_ok.mp made
    have identity := page_of_zero zero
    obtain ⟨index, inside, rfl, _⟩ := (recorded.bits _).mp member
    rw [identity] at called ⊢
    obtain ⟨alloc, freed, same, bits⟩ := @freePages_one s.alloc _ inside
    obtain rfl := ok_unique freed called
    refine ⟨same.trans recorded.placed, recorded.distinct.erase _, fun number => ?_⟩
    rw [List.Nodup.mem_erase_iff recorded.distinct, recorded.bits]
    simp only [page_congr same, identity, bits]
    grind

/-- Pages are handed out one at a time, and `alloc_pages` fails only when all are out. `free_pages` gives a page
    back only where page numbers are bit numbers. -/
theorem static_pages_exact_iff (pages : Nat) (aligned : pages % pageSize = 0)
    (fits : pages + (staticPageCap + 1) * pageSize ≤ 2 ^ 64) {s : StaticState}
    (run : ReflTransGen Steps ⟨.new pages aligned fits, []⟩ s) :
    s.outstanding.Nodup ∧
      (∀ number ∈ s.outstanding, ∃ index < staticPageCap, number = (pages + index * pageSize) >>> pageBits) ∧
      (∃ result after, s.alloc.allocPages 1 = .ok (result, after) ∧
        (result = .error .outOfMemory → ∀ index < staticPageCap, s.alloc.page index ∈ s.outstanding)) ∧
      ∀ number ∈ s.outstanding, s.alloc.FreesExactly number ↔ pages = 0 := by
  have start : Recorded pages ⟨.new pages aligned fits, []⟩ := by
    refine ⟨rfl, nodup_nil, fun number => iff_of_false not_mem_nil ?_⟩
    rintro ⟨index, _, _, set⟩
    simp [bit, StaticPageAllocator.new] at set
  have recorded := Runs.preserved (Recorded pages) (fun _ _ recorded step => recorded.step step) start run
  refine ⟨recorded.distinct, ?_, ?_, ?_⟩
  · intro number member
    obtain ⟨index, inside, place, _⟩ := (recorded.bits number).mp member
    obtain ⟨ptr, found, shifted⟩ := @StaticPageAllocator.pagePtr_shift s.alloc _ inside
    rw [StaticPageAllocator.pagePtr, if_pos inside, recorded.placed] at found
    obtain rfl := pure_ok.mp found
    exact ⟨index, inside, place.trans shifted.symm⟩
  · rcases @StaticPageAllocator.allocPages_cases s.alloc with ⟨failed, full⟩ | ⟨index, _, _, after, found, _⟩
    · exact ⟨_, _, failed, fun _ index inside => (recorded.bits _).mpr ⟨index, inside, rfl, full index inside⟩⟩
    · exact ⟨_, after, found, by simp⟩
  · intro number member
    obtain ⟨index, inside, rfl, set⟩ := (recorded.bits number).mp member
    rw [StaticPageAllocator.freesExactly_iff inside set, recorded.placed]

theorem static_pages_from_zero : ∃ s : StaticState,
    ReflTransGen Steps ⟨.new 0 rfl (by decide), []⟩ s ∧ s.outstanding = [0, 1] ∧ s.alloc.FreesExactly 1 := by
  have played : (([.alloc, .alloc, .free 0, .alloc] : List Op).foldlM (Runs.play Allowed call) ⟨.new 0 rfl (by decide), []⟩).any
      (fun s => s.outstanding = [0, 1]) = true := by decide +kernel
  obtain ⟨s, reached, out⟩ := (Option.any_eq_true _ _).mp played
  have run := Runs.of_play reached
  have out : s.outstanding = [0, 1] := of_decide_eq_true out
  refine ⟨s, run, out, ((static_pages_exact_iff 0 rfl (by decide) run).2.2.2 1 ?_).mpr rfl⟩
  rw [out]
  decide

/-- On page 1 the bit of the page behind is cleared, so that it is handed out twice; on page 256 there is no such
    bit. -/
theorem static_free_misses_page :
    (∃ s, ([.alloc, .alloc, .free 1, .alloc] : List Op).foldlM call ⟨.new 4096 rfl (by decide), []⟩ = .ok s ∧
        s.outstanding = [2, 2]) ∧
      ([.alloc, .free 256] : List Op).foldlM call ⟨.new 0x100000 rfl (by decide), []⟩ = .error .indexOutOfBounds := by
  constructor
  · exact exists_of_decide (by decide +kernel)
  · exact error_of_fails (by decide +kernel)

end StaticState

end Runs

end Kernel31.Page
