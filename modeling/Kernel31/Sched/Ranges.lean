import Kernel31.Sched.Addresses
import Kernel31.Task.Contents

namespace Kernel31.Sched

open Page Paging Kernel31.Task Checked List

variable {allocs : List PageAlloc} {entry other : PageAlloc} {userAddr vpn size place : Nat} {places : List Nat}

def reached (access : Nat → Option Nat) : (count userAddr : Nat) → List Nat
  | 0, _ => []
  | count + 1, userAddr =>
    match access userAddr with
    | none => []
    | some address => address :: reached access count ((userAddr + 1) % 2 ^ 64)

def blockAccess (allocs : List PageAlloc) (userAddr : Nat) : Option Nat :=
  (findAlloc allocs userAddr).map fun entry => entry.base + entry.offset userAddr

def PageAlloc.frame (entry : PageAlloc) (vpn : Nat) : Nat := entry.info.pPage + (vpn - entry.info.vPage)

structure PageAlloc.Fits (entry : PageAlloc) : Prop where
  vPage : entry.info.vPage < 2 ^ 52
  vPages : entry.info.vPages < 2 ^ 52

theorem reached_one (access : Nat → Option Nat) (userAddr : Nat) : reached access 1 userAddr = (access userAddr).toList := by
  rw [reached]
  cases access userAddr <;> rfl

theorem reached_congr {access access' : Nat → Option Nat}
    (same : ∀ userAddr, userAddr < 2 ^ 64 → access userAddr = access' userAddr) (count : Nat)
    (small : userAddr < 2 ^ 64) : reached access count userAddr = reached access' count userAddr := by
  induction count generalizing userAddr with
  | zero => rfl
  | succ count ih =>
    have later := ih (Nat.mod_lt (userAddr + 1) (by decide : 0 < 2 ^ 64))
    rw [reached, reached, same userAddr small, later]

theorem reached_block {access : Nat → Option Nat} {taken first : Nat} (more : Nat) (small : userAddr < 2 ^ 64)
    (block : ∀ i, i < taken → userAddr + i < 2 ^ 64 ∧ access (userAddr + i) = some (first + i)) :
    reached access (taken + more) userAddr = range' first taken ++ reached access more ((userAddr + taken) % 2 ^ 64) := by
  induction taken generalizing userAddr first with
  | zero => rw [Nat.zero_add, Nat.add_zero, Nat.mod_eq_of_lt small, range'_zero, nil_append]
  | succ taken ih =>
    have here := (block 0 (Nat.zero_lt_succ _)).2
    rw [Nat.add_zero, Nat.add_zero] at here
    rw [Nat.add_right_comm, reached, here, range'_succ, cons_append]
    dsimp only
    congr 1
    cases taken with
    | zero => rw [Nat.zero_add, range'_zero, nil_append]
    | succ taken =>
      have next := (block 1 (by omega)).1
      rw [Nat.mod_eq_of_lt next, ih next, Nat.add_assoc, Nat.add_comm 1]
      intro i below
      have later := block (i + 1) (by omega)
      rwa [← Nat.add_assoc, Nat.add_right_comm, Nat.add_comm i, ← Nat.add_assoc first] at later

section Blocks

theorem covers_iff : entry.covers (userAddr >>> pageBits) = true ↔ entry.info.Spans (userAddr / pageSize) := by
  simp only [PageAlloc.covers, Bool.and_eq_true, decide_eq_true_eq, PageAllocInfo.Spans, Nat.shiftRight_eq_div_pow,
    show 2 ^ pageBits = pageSize from rfl]

theorem findAlloc_some (found : findAlloc allocs userAddr = some entry) :
    entry ∈ allocs ∧ entry.info.Spans (userAddr / pageSize) := by
  have covers := find?_some found
  exact ⟨mem_of_find?_eq_some found, covers_iff.mp covers⟩

theorem findAlloc_none (none : findAlloc allocs userAddr = none) (member : entry ∈ allocs) :
    ¬ entry.info.Spans (userAddr / pageSize) := fun spans =>
  find?_eq_none.mp none entry member (covers_iff.mpr spans)

theorem findAlloc_of_spans (member : entry ∈ allocs) (spans : entry.info.Spans (userAddr / pageSize))
    (only : ∀ other ∈ allocs, other.info.Spans (userAddr / pageSize) → other = entry) :
    findAlloc allocs userAddr = some entry := by
  cases found : findAlloc allocs userAddr with
  | none => exact absurd spans (findAlloc_none found member)
  | some other =>
    obtain ⟨listed, covers⟩ := findAlloc_some found
    rw [only other listed covers]

theorem PageAlloc.Fits.limit_eq (fits : entry.Fits) : entry.limit = entry.info.vPages * pageSize := by
  have small := fits.vPages
  rw [PageAlloc.limit, Nat.shiftLeft_eq, Nat.mod_eq_of_lt]
  · rfl
  · rw [show 2 ^ pageBits = 4096 from rfl]
    omega

theorem PageAlloc.Fits.offset_eq (fits : entry.Fits) : entry.offset userAddr = userAddr - entry.info.vPage * pageSize := by
  have low := fits.vPage
  rw [PageAlloc.offset, Nat.shiftLeft_eq, Nat.mod_eq_of_lt]
  · rfl
  · rw [show 2 ^ pageBits = 4096 from rfl]
    omega

theorem PageAlloc.Fits.offset_lt (fits : entry.Fits) (spans : entry.info.Spans (userAddr / pageSize)) :
    entry.offset userAddr < entry.limit := by
  obtain ⟨low, high⟩ := spans
  rw [fits.offset_eq, fits.limit_eq]
  simp only [pageSize_eq] at low high ⊢
  omega

variable (fits : ∀ entry ∈ allocs, ∀ vpn, entry.info.Spans vpn → entry.Fits)
include fits

theorem copyAddresses_one (userAddr : Nat) : copyAddresses allocs 1 userAddr 1 = .ok (blockAccess allocs userAddr).toList := by
  rw [copyAddresses, blockAccess]
  cases found : findAlloc allocs userAddr with
  | none => rfl
  | some entry =>
    obtain ⟨member, spans⟩ := findAlloc_some found
    have below := (fits entry member _ spans).offset_lt spans
    have taken : min (0 + 1) (entry.limit - entry.offset userAddr) = 1 := by omega
    simp only [taken]
    rfl

theorem copyAddresses_returns {fuel count : Nat} (enough : count ≤ fuel) (userAddr : Nat) :
    ∃ addresses, copyAddresses allocs fuel userAddr count = .ok addresses := by
  induction fuel generalizing userAddr count with
  | zero =>
    obtain rfl : count = 0 := by omega
    exact ⟨[], rfl⟩
  | succ fuel ih =>
    cases count with
    | zero => exact ⟨[], rfl⟩
    | succ count =>
      rw [copyAddresses]
      cases found : findAlloc allocs userAddr with
      | none => exact ⟨[], rfl⟩
      | some entry =>
        obtain ⟨member, spans⟩ := findAlloc_some found
        -- every round takes at least one byte
        have some := (fits entry member _ spans).offset_lt spans
        obtain ⟨later, rest⟩ := ih
          (show count + 1 - min (count + 1) (entry.limit - entry.offset userAddr) ≤ fuel by omega) entry.next
        dsimp only
        rw [rest]
        exact ⟨_, rfl⟩

theorem copyAddresses_take {fuel fuel' count fewer : Nat} {addresses : List Nat}
    (run : copyAddresses allocs fuel userAddr count = .ok addresses) (short : fewer ≤ count) (enough : fewer ≤ fuel') :
    copyAddresses allocs fuel' userAddr fewer = .ok (addresses.take fewer) := by
  induction fuel generalizing userAddr count fewer fuel' addresses with
  | zero =>
    cases count with
    | zero =>
      obtain rfl : fewer = 0 := by omega
      cases fuel' <;> rfl
    | succ count => simp [copyAddresses, throw_ok] at run
  | succ fuel ih =>
    cases fewer with
    | zero => cases fuel' <;> rfl
    | succ fewer =>
      obtain ⟨fuel', rfl⟩ : ∃ less, fuel' = less + 1 := ⟨fuel' - 1, by omega⟩
      obtain ⟨count, rfl⟩ : ∃ less, count = less + 1 := ⟨count - 1, by omega⟩
      rw [copyAddresses] at run ⊢
      cases found : findAlloc allocs userAddr with
      | none =>
        rw [found] at run
        obtain rfl := pure_ok.mp run
        rfl
      | some entry =>
        rw [found] at run
        obtain ⟨later, rest, run⟩ := bind_ok.mp run
        obtain rfl := pure_ok.mp run
        obtain ⟨member, spans⟩ := findAlloc_some found
        have some := (fits entry member _ spans).offset_lt spans
        obtain ⟨room, isRoom⟩ : ∃ room, entry.limit - entry.offset userAddr = room := ⟨_, rfl⟩
        dsimp only at rest ⊢
        rw [isRoom] at rest ⊢
        have left : fewer + 1 - min (fewer + 1) room = fewer + 1 - min (count + 1) room := by omega
        have onward := ih rest (show fewer + 1 - min (fewer + 1) room ≤ _ by omega) (show _ ≤ fuel' by omega)
        rw [onward, take_append, length_range', Lists.take_range', ← Nat.min_assoc, Nat.min_eq_left short, ← left]
        rfl

theorem copyAddresses_eq
    (disjoint : ∀ entry ∈ allocs, ∀ other ∈ allocs, ∀ vpn, entry.info.Spans vpn → other.info.Spans vpn → entry = other)
    (small : ∀ entry ∈ allocs, ∀ vpn, entry.info.Spans vpn → vpn < 2 ^ 52) {fuel count : Nat} (enough : count ≤ fuel)
    (below : userAddr < 2 ^ 64) :
    copyAddresses allocs fuel userAddr count = .ok (reached (blockAccess allocs) count userAddr) := by
  induction fuel generalizing userAddr count with
  | zero =>
    obtain rfl : count = 0 := by omega
    rfl
  | succ fuel ih =>
    cases count with
    | zero => rfl
    | succ count =>
      cases found : findAlloc allocs userAddr with
      | none =>
        rw [copyAddresses, found, reached, blockAccess, found]
        rfl
      | some entry =>
        obtain ⟨member, spans⟩ := findAlloc_some found
        obtain ⟨low, high⟩ := id spans
        have fit := fits entry member _ spans
        have limit := fit.limit_eq
        have offset : entry.offset userAddr = userAddr - entry.info.vPage * pageSize := fit.offset_eq
        have last := small entry member (entry.info.vPage + entry.info.vPages - 1) ⟨by omega, by omega⟩
        have next : entry.next = (entry.info.vPage + entry.info.vPages) * pageSize % 2 ^ 64 := by
          rw [PageAlloc.next, Nat.shiftLeft_eq]
          rfl
        obtain ⟨taken, isTaken⟩ : ∃ taken, min (count + 1) (entry.limit - entry.offset userAddr) = taken := ⟨_, rfl⟩
        have block : ∀ i, i < taken → userAddr + i < 2 ^ 64 ∧
            blockAccess allocs (userAddr + i) = some (entry.base + entry.offset userAddr + i) := by
          intro i inside
          have covers : entry.info.Spans ((userAddr + i) / pageSize) := by
            simp only [PageAllocInfo.Spans, pageSize_eq] at *
            omega
          have here := findAlloc_of_spans member covers fun other listed spans =>
            disjoint other listed entry member _ spans covers
          refine ⟨?_, ?_⟩
          · simp only [pageSize_eq] at *
            omega
          · rw [blockAccess, here, Option.map_some, fit.offset_eq, offset]
            simp only [pageSize_eq] at *
            rw [Option.some.injEq]
            omega
        obtain ⟨more, split⟩ : ∃ more, count + 1 = taken + more := ⟨count + 1 - taken, by omega⟩
        have some := fit.offset_lt spans
        have rest := ih (show more ≤ fuel by omega) (next ▸ Nat.mod_lt _ (by decide) : entry.next < 2 ^ 64)
        have onward : reached (blockAccess allocs) more entry.next =
            reached (blockAccess allocs) more ((userAddr + taken) % 2 ^ 64) := by
          cases more with
          | zero => rfl
          | succ more =>
            have whole : userAddr + taken = (entry.info.vPage + entry.info.vPages) * pageSize := by
              simp only [pageSize_eq] at *
              omega
            rw [next, whole]
        rw [copyAddresses, found]
        dsimp only
        rw [isTaken, split, reached_block _ below block, Nat.add_sub_cancel_left, rest, onward]
        rfl

end Blocks

def Backs (allocs : List PageAlloc) (userAddr place : Nat) : Prop :=
  ∃ entry ∈ allocs, entry.info.Spans (userAddr / pageSize) ∧
    place = virtPage entry.info.pPage * pageSize + (userAddr - entry.info.vPage * pageSize)

def PageAlloc.Disjoint (entry other : PageAlloc) : Prop := ∀ vpn, entry.info.Spans vpn → ¬ other.info.Spans vpn

def PageAlloc.Unshared (entry other : PageAlloc) : Prop :=
  ∀ vpn page, entry.info.Spans vpn → other.info.Spans page → entry.frame vpn ≠ other.frame page

instance : Std.Symm PageAlloc.Disjoint := ⟨fun _ _ disjoint vpn spans covers => disjoint vpn covers spans⟩

instance : Std.Symm PageAlloc.Unshared :=
  ⟨fun _ _ unshared vpn page spans covers => (unshared page vpn covers spans).symm⟩

structure Ranged (allocs : List PageAlloc) : Prop where
  apart : allocs.Pairwise PageAlloc.Disjoint
  inside : ∀ entry ∈ allocs, entry.info.vPage + entry.info.vPages ≤ 2 ^ 52
  block : ∀ entry ∈ allocs, virtPage entry.info.pPage + entry.info.vPages ≤ 2 ^ 52

/-- The places of the bytes from an address on, modulo 2^64, up to the first address that no entry has. -/
structure Longest (allocs : List PageAlloc) (userAddr size : Nat) (places : List Nat) : Prop where
  length_le : places.length ≤ size
  covered : ∀ i place, places[i]? = some place → Backs allocs ((userAddr + i) % 2 ^ 64) place
  maximal : places.length < size → ∀ place, ¬ Backs allocs ((userAddr + places.length) % 2 ^ 64) place

section

variable (ranged : Ranged allocs)
include ranged

theorem Ranged.disjoint (entry : PageAlloc) (member : entry ∈ allocs) (other : PageAlloc) (listed : other ∈ allocs)
    (vpn : Nat) (spans : entry.info.Spans vpn) (covers : other.info.Spans vpn) : entry = other := by
  by_contra differs
  exact ranged.apart.forall member listed differs vpn spans covers

theorem Ranged.small (entry : PageAlloc) (member : entry ∈ allocs) (vpn : Nat) (spans : entry.info.Spans vpn) :
    vpn < 2 ^ 52 :=
  Nat.lt_of_lt_of_le spans.2 (ranged.inside entry member)

theorem Ranged.fits (entry : PageAlloc) (member : entry ∈ allocs) (vpn : Nat) (spans : entry.info.Spans vpn) :
    entry.Fits := by
  have block := ranged.block entry member
  have above : 0 < virtPage entry.info.pPage := by
    rw [virtPage, pageOffset_eq]
    omega
  exact ⟨Nat.lt_of_le_of_lt spans.1 (ranged.small entry member vpn spans), by omega⟩

theorem Ranged.blockAccess_iff : blockAccess allocs userAddr = some place ↔ Backs allocs userAddr place := by
  rw [blockAccess, Option.map_eq_some_iff]
  constructor
  · rintro ⟨entry, found, rfl⟩
    obtain ⟨member, spans⟩ := findAlloc_some found
    exact ⟨entry, member, spans, by rw [(ranged.fits entry member _ spans).offset_eq, PageAlloc.base]⟩
  · rintro ⟨entry, member, spans, rfl⟩
    refine ⟨entry, ?_, by rw [(ranged.fits entry member _ spans).offset_eq, PageAlloc.base]⟩
    exact findAlloc_of_spans member spans fun other listed covers => ranged.disjoint other listed entry member _ covers spans

theorem Ranged.longest (address : userAddr < 2 ^ 64) :
    Longest allocs userAddr size (reached (blockAccess allocs) size userAddr) := by
  induction size generalizing userAddr with
  | zero => exact ⟨le_rfl, nofun, fun more => absurd more (Nat.lt_irrefl 0)⟩
  | succ size ih =>
    have here : (userAddr + 0) % 2 ^ 64 = userAddr := Nat.mod_eq_of_lt address
    have step (i : Nat) : ((userAddr + 1) % 2 ^ 64 + i) % 2 ^ 64 = (userAddr + (i + 1)) % 2 ^ 64 := by omega
    rw [reached]
    cases found : blockAccess allocs userAddr with
    | none =>
      refine ⟨Nat.zero_le _, nofun, fun _ place backs => ?_⟩
      rw [length_nil, here] at backs
      rw [ranged.blockAccess_iff.mpr backs] at found
      cases found
    | some first =>
      have rest := ih (Nat.mod_lt (userAddr + 1) (by decide : 0 < 2 ^ 64))
      refine ⟨Nat.succ_le_succ rest.length_le, ?_, ?_⟩
      · intro i place taken
        cases i with
        | zero =>
          obtain rfl : first = place := Option.some.inj taken
          rw [here]
          exact ranged.blockAccess_iff.mp found
        | succ i =>
          rw [← step]
          exact rest.covered i place taken
      · intro more place
        rw [length_cons, ← step]
        exact rest.maximal (Nat.lt_of_succ_lt_succ more) place

theorem Ranged.copyAddresses_longest (address : userAddr < 2 ^ 64) (size : Nat) :
    ∃ places, copyAddresses allocs size userAddr size = .ok places ∧ Longest allocs userAddr size places :=
  ⟨_, copyAddresses_eq ranged.fits ranged.disjoint ranged.small le_rfl address, ranged.longest address⟩

end

theorem Backs.unique (unshared : allocs.Pairwise PageAlloc.Unshared) {other : Nat} (backs : Backs allocs userAddr place)
    (again : Backs allocs other place) : userAddr = other := by
  obtain ⟨entry, member, spans, rfl⟩ := backs
  obtain ⟨second, listed, covers, same⟩ := again
  have frames : entry.frame (userAddr / pageSize) = second.frame (other / pageSize) ∧
      userAddr % pageSize = other % pageSize := by
    obtain ⟨low, _⟩ := spans
    obtain ⟨low', _⟩ := covers
    simp only [PageAlloc.frame, virtPage, pageSize_eq] at *
    omega
  have equal : entry = second := by
    by_contra differs
    exact unshared.forall member listed differs _ _ spans covers frames.1
  subst equal
  obtain ⟨low, _⟩ := spans
  obtain ⟨low', _⟩ := covers
  simp only [PageAlloc.frame, pageSize_eq] at *
  omega

theorem Longest.nodup (longest : Longest allocs userAddr size places) (unshared : allocs.Pairwise PageAlloc.Unshared)
    (usize : size < 2 ^ 64) : places.Nodup := by
  rw [nodup_iff_getElem?_ne_getElem?]
  intro i j before inside same
  have short := longest.length_le
  obtain ⟨place, found⟩ : ∃ place, places[j]? = some place := ⟨_, getElem?_eq_getElem inside⟩
  have equal := Backs.unique unshared (longest.covered i place (same.trans found)) (longest.covered j place found)
  omega

def adjacent : List PageAlloc := [⟨0, 2, 100, 1, []⟩, ⟨1, 1, 7, 1, []⟩]

theorem adjacent_ranged : Ranged adjacent ∧ adjacent.Pairwise PageAlloc.Unshared := by
  refine ⟨⟨pairwise_pair.mpr ?_, by decide, by decide⟩, pairwise_pair.mpr ?_⟩
  · rintro vpn ⟨low, _⟩ ⟨_, high⟩
    dsimp only at low high
    omega
  · rintro vpn page ⟨low, high⟩ ⟨low', high'⟩ same
    simp only [PageAlloc.frame] at *
    omega

end Kernel31.Sched
