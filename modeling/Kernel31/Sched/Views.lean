import Kernel31.Sched.Children
import Kernel31.Sched.Ranges

namespace Kernel31.Sched

open Page Paging Elf Kernel31.Task Checked Radix List Mapper AddressSpace LawfulSpace

/-- Whatever the memory holds, the copies go through the bytes that user mode reaches, up to the first address not
    mapped for it. -/
structure ViewsAgree (M : Type) {E : Type} [Entry E] [Mapper M E] [Mmu E] [AddressSpace E] (mem : Memory) (root : Nat)
    (allocs : List PageAlloc) : Prop where
  reads : ∀ userAddr, userAddr < 2 ^ 64 → ∀ size contents,
    copyFromUser allocs contents userAddr size =
      .ok ((reached (userAccess M mem root) size userAddr).map (loadByte contents))
  writes : ∀ userAddr, userAddr < 2 ^ 64 → ∀ (kernelBuf : List UInt8) contents,
    copyToUser allocs contents userAddr kernelBuf =
      .ok ((reached (userAccess M mem root) kernelBuf.length userAddr).length,
        storeBytes contents (reached (userAccess M mem root) kernelBuf.length userAddr) kernelBuf)

/-- The hardware accepts the page numbers, no other one that it accepts has the same digits, and no page is in two
    entries. -/
structure Distinguished (E : Type) [Mmu E] [AddressSpace E] (levels : Nat) (allocs : List PageAlloc) : Prop where
  canonical : ∀ entry ∈ allocs, ∀ vpn, entry.info.Spans vpn → AddressSpace.canonical E vpn = true
  unaliased : ∀ entry ∈ allocs, ∀ vpn, entry.info.Spans vpn → ∀ other, AddressSpace.canonical E other = true →
    other % 2 ^ (9 * levels) = vpn % 2 ^ (9 * levels) → other = vpn
  disjoint : ∀ entry ∈ allocs, ∀ other ∈ allocs, ∀ vpn, entry.info.Spans vpn → other.info.Spans vpn → entry = other

structure Laid (allocs : List PageAlloc) : Prop where
  nodup : allocs.Nodup
  low : ∀ entry ∈ allocs, entry.info.vPage < 2 ^ 52
  inside : ∀ entry ∈ allocs, virtPage entry.info.pPage + Buddy.nextPowerOfTwo entry.info.vPages ≤ 2 ^ 52
  apart : ∀ entry ∈ allocs, ∀ other ∈ allocs, entry ≠ other → entry.info.Apart other.info

section Addresses

theorem address_eq {address other : Nat} (same : ∀ contents, loadByte contents address = loadByte contents other) :
    address = other := by
  by_contra differs
  have byte := same (storeByte (fun _ _ => 0) address 1)
  have zero : loadByte (fun _ _ => 0) other = 0 := by simp [loadByte, wordByte]
  rw [loadByte_storeByte, loadByte_storeByte, if_pos rfl, if_neg (Ne.symm differs), zero] at byte
  cases byte

theorem addresses_eq {addresses others : List Nat}
    (same : ∀ contents, addresses.map (loadByte contents) = others.map (loadByte contents)) : addresses = others := by
  induction addresses generalizing others with
  | nil =>
    have empty := same fun _ _ => 0
    rw [map_nil] at empty
    exact (map_eq_nil_iff.mp empty.symm).symm
  | cons address rest ih =>
    cases others with
    | nil => cases same fun _ _ => 0
    | cons other others =>
      have both (contents : Memory) := cons.inj (same contents)
      rw [address_eq fun contents => (both contents).1, ih fun contents => (both contents).2]

variable {M E : Type} [Entry E] [Mapper M E] [Mmu E] [AddressSpace E] {mem : Memory} {root : Nat} {allocs : List PageAlloc}

theorem viewsAgree_iff :
    ViewsAgree M mem root allocs ↔ ∀ userAddr, userAddr < 2 ^ 64 → ∀ count,
      copyAddresses allocs count userAddr count = .ok (reached (userAccess M mem root) count userAddr) := by
  constructor
  · intro agree userAddr small count
    have reads (contents : Memory) := agree.reads userAddr small count contents
    simp only [copyFromUser_eq, map_ok] at reads
    obtain ⟨addresses, run, _⟩ := reads fun _ _ => 0
    rw [run, Except.ok.injEq]
    refine addresses_eq fun contents => ?_
    obtain ⟨again, rerun, same⟩ := reads contents
    rwa [← ok_unique run rerun] at same
  · intro addresses
    constructor
    · intro userAddr small size contents
      rw [copyFromUser_eq, addresses userAddr small size]
      rfl
    · intro userAddr small kernelBuf contents
      rw [copyToUser_eq, addresses userAddr small kernelBuf.length]
      rfl

end Addresses

section Blocks

variable {allocs : List PageAlloc} {entry other : PageAlloc} {userAddr vpn : Nat}

variable (laid : Laid allocs)
include laid

theorem Laid.fits (entry : PageAlloc) (member : entry ∈ allocs) : entry.Fits := by
  have inside := laid.inside entry member
  have enough := Buddy.le_nextPowerOfTwo entry.info.vPages
  have above : 0 < virtPage entry.info.pPage := by
    rw [virtPage, pageOffset_eq]
    omega
  exact ⟨laid.low entry member, by omega⟩

theorem Laid.address_eq (member : entry ∈ allocs) (spans : entry.info.Spans (userAddr / pageSize)) :
    entry.base + entry.offset userAddr =
      virtPage (entry.frame (userAddr / pageSize)) * pageSize + userAddr % pageSize := by
  obtain ⟨low, _⟩ := spans
  rw [(laid.fits entry member).offset_eq]
  simp only [PageAlloc.base, PageAlloc.frame, virtPage, pageSize_eq] at low ⊢
  omega

omit laid in
theorem holds_frame (spans : entry.info.Spans vpn) : entry.info.holds (virtPage (entry.frame vpn)) := by
  obtain ⟨low, high⟩ := spans
  have enough := Buddy.le_nextPowerOfTwo entry.info.vPages
  simp only [PageAllocInfo.holds, PageAlloc.frame, virtPage]
  omega

theorem Laid.frame_unique (member : entry ∈ allocs) (listed : other ∈ allocs) {page : Nat} (spans : entry.info.Spans vpn)
    (covers : other.info.Spans page) (same : entry.frame vpn = other.frame page) : entry = other ∧ vpn = page := by
  have equal : entry = other := by
    by_contra differs
    exact laid.apart entry member other listed differs _ (holds_frame spans) (same ▸ holds_frame covers)
  subst equal
  obtain ⟨low, _⟩ := spans
  obtain ⟨low', _⟩ := covers
  simp only [PageAlloc.frame] at same
  exact ⟨rfl, by omega⟩

end Blocks

section Tables

variable {A M E : Type} [Entry E] [Mapper M E] [Mmu E] [AddressSpace E] {inUse : A → Nat → Prop} {page : M}
variable {machine : Machine A} {base : List Mapping} {allocs : List PageAlloc} {root vpn userAddr : Nat}
variable (mapped : Mapped inUse page machine (base ++ (allocs.map PageAlloc.info).flatMap allocMappings))
  (rooted : (rootTable page).pageNumber = .ok root)
include mapped rooted

theorem canonical_of_translate {frame : Nat} {allows : Mmu.Perms E → Bool}
    (seen : translate M allows machine.mem root vpn = some frame) : AddressSpace.canonical E vpn = true := by
  rw [mapped.translate_eq rooted] at seen
  by_contra other
  rw [if_neg other] at seen
  cases seen

variable [LawfulSpace E]

theorem translate_last (canonical : AddressSpace.canonical E vpn = true) {front back : List PageAlloc}
    (split : allocs = front ++ back) {entry : PageAlloc} (member : entry ∈ back) {v : Nat} (spans : entry.info.Spans v)
    (same : v % 2 ^ (9 * level M) = vpn % 2 ^ (9 * level M)) :
    ∃ last ∈ back, ∃ v, last.info.Spans v ∧ v % 2 ^ (9 * level M) = vpn % 2 ^ (9 * level M) ∧
      translate M userReads machine.mem root vpn = some (last.frame v) := by
  rw [split, map_append, flatMap_append, ← append_assoc] at mapped
  obtain ⟨_, recorded, v, covers, congruent, seen⟩ :=
    mapped.translate_hit rooted canonical (mem_map_of_mem member) spans same
  obtain ⟨last, listed, rfl⟩ := mem_map.mp recorded
  exact ⟨last, listed, v, covers, congruent, seen⟩

section

variable (hidden : ∀ mapping ∈ base, PageACL.user ∉ mapping.mode)
include hidden

theorem translate_missed
    (missed : ∀ entry ∈ allocs, ∀ v, entry.info.Spans v → v % 2 ^ (9 * level M) ≠ vpn % 2 ^ (9 * level M)) :
    translate M userReads machine.mem root vpn = none := by
  have kernel : latest (level M) (base ++ (allocs.map PageAlloc.info).flatMap allocMappings) vpn =
      latest (level M) base vpn := by
    refine latest_of_missed fun mapping member => ?_
    obtain ⟨_, recorded, inside⟩ := mem_flatMap.mp member
    obtain ⟨entry, listed, rfl⟩ := mem_map.mp recorded
    exact missed entry listed _ (mem_allocMappings.mp inside).1
  rw [mapped.translate_eq rooted, kernel]
  split
  · cases found : latest (level M) base vpn with
    | none => rfl
    | some mapping =>
      have member := mem_reverse.mp (mem_of_find?_eq_some found)
      have readable := (mapped.fits mapping (mem_append_left _ member)).2
      rw [Option.bind_some, userReads_granted _ readable, if_neg (by simpa using hidden mapping member)]
  · rfl

theorem userAccess_held {place : Nat} (reached : userAccess M machine.mem root userAddr = some place) :
    ∃ entry ∈ allocs, entry.info.holds (place / pageSize) := by
  obtain ⟨frame, seen, rfl⟩ := Option.map_eq_some_iff.mp reached
  have page : (virtPage frame * pageSize + userAddr % pageSize) / pageSize = virtPage frame := by
    rw [pageSize_eq]
    omega
  rw [page]
  by_contra outside
  have canonical := canonical_of_translate mapped rooted seen
  rw [translate_missed mapped rooted hidden fun entry member v spans same => ?_] at seen
  · cases seen
  · obtain ⟨last, listed, _, covers, _, reaches⟩ :=
      translate_last mapped rooted canonical (nil_append allocs).symm member spans same
    obtain rfl := Option.mem_unique seen reaches
    exact outside ⟨last, listed, holds_frame covers⟩

theorem userByte_kept {mem : Memory} (tables : SameTables M machine.mem mem (rootTable page).page)
    (blocks : ∀ entry ∈ allocs, ∀ page, entry.info.holds page → mem page = machine.mem page) (address : Nat) :
    userByte M mem root address = userByte M machine.mem root address := by
  have same : userAccess M mem root address = userAccess M machine.mem root address := by
    rw [userAccess, userAccess, tables.translate mapped.represents.tree rooted]
  rw [userByte, userByte, same]
  cases reached : userAccess M machine.mem root address with
  | none => rfl
  | some place =>
    obtain ⟨entry, member, held⟩ := userAccess_held mapped rooted hidden reached
    rw [Option.map_some, Option.map_some, loadByte_congr (blocks entry member _ held)]

end

variable (laid : Laid allocs)
include laid

theorem userAccess_eq (hidden : ∀ mapping ∈ base, PageACL.user ∉ mapping.mode)
    (apart : Distinguished E (level M) allocs) (userAddr : Nat) :
    userAccess M machine.mem root userAddr = blockAccess allocs userAddr := by
  rw [userAccess, blockAccess]
  cases found : findAlloc allocs userAddr with
  | none =>
    by_cases canonical : AddressSpace.canonical E (userAddr / pageSize) = true
    · rw [translate_missed mapped rooted hidden fun entry member v spans same => ?_]
      · rfl
      · obtain rfl := apart.unaliased entry member v spans _ canonical same.symm
        exact findAlloc_none found member spans
    · rw [mapped.translate_eq rooted, if_neg canonical]
      rfl
  | some entry =>
    obtain ⟨member, spans⟩ := findAlloc_some found
    have canonical := apart.canonical entry member _ spans
    obtain ⟨last, listed, v, covers, same, seen⟩ := translate_last mapped rooted canonical (nil_append allocs).symm
      member spans rfl
    obtain rfl := apart.unaliased entry member _ spans v (apart.canonical last listed v covers) same
    obtain rfl := apart.disjoint last listed entry member _ covers spans
    rw [seen, Option.map_some, Option.map_some, laid.address_eq member spans]

omit mapped rooted [LawfulSpace E] in
theorem translate_of_access (agree : userAccess M machine.mem root userAddr = blockAccess allocs userAddr) {entry : PageAlloc}
    (found : findAlloc allocs userAddr = some entry) :
    translate M userReads machine.mem root (userAddr / pageSize) = some (entry.frame (userAddr / pageSize)) := by
  obtain ⟨member, spans⟩ := findAlloc_some found
  rw [userAccess, blockAccess, found, Option.map_some, laid.address_eq member spans] at agree
  obtain ⟨frame, seen, same⟩ := Option.map_eq_some_iff.mp agree
  have equal := Nat.eq_of_mul_eq_mul_right (by decide : 0 < pageSize) (Nat.add_right_cancel same)
  rw [virtPage, virtPage] at equal
  rw [seen, Option.some.injEq]
  omega

theorem only_entry (agree : userAccess M machine.mem root userAddr = blockAccess allocs userAddr) {entry other : PageAlloc}
    (found : findAlloc allocs userAddr = some entry) (listed : other ∈ allocs)
    (covers : other.info.Spans (userAddr / pageSize)) : other = entry := by
  have seen := translate_of_access laid agree found
  obtain ⟨member, spans⟩ := findAlloc_some found
  obtain ⟨_, front, back, split, before⟩ := find?_eq_some_iff_append.mp found
  by_contra differs
  have behind : other ∈ back := by
    rw [split] at listed
    rcases mem_append.mp listed with early | late
    · have missed := before other early
      rw [Bool.not_eq_true', ← Bool.not_eq_true] at missed
      exact absurd (covers_iff.mpr covers) missed
    · exact (mem_cons.mp late).resolve_left differs
  have rejoined : allocs = (front ++ [entry]) ++ back := by rw [split, append_assoc, singleton_append]
  obtain ⟨last, late, v, spanned, _, again⟩ := translate_last mapped rooted
    (canonical_of_translate mapped rooted seen) rejoined behind covers rfl
  have mine : last ∈ allocs := by
    rw [rejoined]
    exact mem_append_right _ late
  obtain ⟨rfl, _⟩ := laid.frame_unique member mine spans spanned (Option.mem_unique seen again)
  have nodup := laid.nodup
  rw [split] at nodup
  exact (nodup_cons.mp nodup.of_append_right).1 late

omit [LawfulSpace E] laid in
theorem translate_congruent (allows : Mmu.Perms E → Bool) {other : Nat} (canonical : AddressSpace.canonical E vpn = true)
    (canonical' : AddressSpace.canonical E other = true)
    (same : other % 2 ^ (9 * level M) = vpn % 2 ^ (9 * level M)) :
    translate M allows machine.mem root other = translate M allows machine.mem root vpn := by
  rw [mapped.translate_eq rooted, mapped.translate_eq rooted, if_pos canonical, if_pos canonical', latest, latest, same]

variable (access : ∀ userAddr, userAddr < 2 ^ 64 → userAccess M machine.mem root userAddr = blockAccess allocs userAddr)
include access

theorem findAlloc_of_access (small : userAddr < 2 ^ 64) {entry : PageAlloc} (member : entry ∈ allocs)
    (spans : entry.info.Spans (userAddr / pageSize)) : findAlloc allocs userAddr = some entry := by
  cases found : findAlloc allocs userAddr with
  | none => exact absurd spans (findAlloc_none found member)
  | some first => rw [only_entry mapped rooted laid (access userAddr small) found member spans]

theorem spans_small
    (agree : copyAddresses allocs 2 (2 ^ 64 - 1) 2 = .ok (reached (userAccess M machine.mem root) 2 (2 ^ 64 - 1)))
    {entry : PageAlloc} (member : entry ∈ allocs) (spans : entry.info.Spans vpn) : vpn < 2 ^ 52 := by
  by_contra large
  have low := laid.low entry member
  have last : entry.info.Spans ((2 ^ 64 - 1) / pageSize) := by
    simp only [PageAllocInfo.Spans, pageSize_eq] at spans ⊢
    omega
  have behind : entry.info.Spans (2 ^ 52) := by
    simp only [PageAllocInfo.Spans] at spans ⊢
    omega
  have found := findAlloc_of_access mapped rooted laid access (by decide) member last
  have here : userAccess M machine.mem root (2 ^ 64 - 1) = some (entry.base + entry.offset (2 ^ 64 - 1)) := by
    rw [access _ (by decide), blockAccess, found, Option.map_some]
  have two : min (1 + 1) (entry.limit - entry.offset (2 ^ 64 - 1)) = 2 := by
    rw [(laid.fits entry member).limit_eq, (laid.fits entry member).offset_eq]
    simp only [PageAllocInfo.Spans, pageSize_eq] at behind ⊢
    omega
  have next : userAccess M machine.mem root 0 = some (entry.base + entry.offset (2 ^ 64 - 1) + 1) := by
    rw [copyAddresses, found] at agree
    dsimp only at agree
    rw [two, reached, here] at agree
    dsimp only at agree
    rw [show (2 ^ 64 - 1 + 1) % 2 ^ 64 = 0 from rfl, reached_one] at agree
    have rest : copyAddresses allocs 1 entry.next (1 + 1 - 2) = .ok [] := rfl
    rw [rest, ok_bind] at agree
    simp only [pure_eq, range'_succ, range'_zero, append_nil, Except.ok.injEq, cons.injEq,
      true_and] at agree
    exact Option.toList_eq_singleton_iff.mp agree.symm
  rw [access 0 (by decide), blockAccess] at next
  obtain ⟨first, start, same⟩ := Option.map_eq_some_iff.mp next
  obtain ⟨listed, covers⟩ := findAlloc_some start
  rw [laid.address_eq listed covers, laid.address_eq member last] at same
  have equal : first.frame (0 / pageSize) = entry.frame (2 ^ 52) := by
    simp only [PageAlloc.frame, virtPage, pageSize_eq, PageAllocInfo.Spans] at same behind ⊢
    omega
  have number := (laid.frame_unique listed member covers behind equal).2
  revert number
  decide

end Tables

section Agreement

variable {A M E : Type} [Entry E] [Mapper M E] [Mmu E] [AddressSpace E] [LawfulSpace E] {inUse : A → Nat → Prop} {page : M}
variable {machine : Machine A} {base : List Mapping} {allocs : List PageAlloc} {root : Nat}
variable (mapped : Mapped inUse page machine (base ++ (allocs.map PageAlloc.info).flatMap allocMappings))
  (rooted : (rootTable page).pageNumber = .ok root) (laid : Laid allocs)
include mapped rooted laid

theorem distinguished_of_access
    (access : ∀ userAddr, userAddr < 2 ^ 64 → userAccess M machine.mem root userAddr = blockAccess allocs userAddr)
    (small : ∀ entry ∈ allocs, ∀ vpn, entry.info.Spans vpn → vpn < 2 ^ 52) :
    Distinguished E (level M) allocs := by
  have address {vpn : Nat} (below : vpn < 2 ^ 52) : vpn * pageSize < 2 ^ 64 ∧ vpn * pageSize / pageSize = vpn :=
    ⟨by rw [pageSize_eq]; omega, Nat.mul_div_cancel _ (by decide)⟩
  have found {entry : PageAlloc} (member : entry ∈ allocs) {vpn : Nat} (spans : entry.info.Spans vpn) :
      findAlloc allocs (vpn * pageSize) = some entry := by
    obtain ⟨below, same⟩ := address (small entry member vpn spans)
    exact findAlloc_of_access mapped rooted laid access below member (same.symm ▸ spans)
  have seen {entry : PageAlloc} {vpn : Nat} (below : vpn < 2 ^ 52) (first : findAlloc allocs (vpn * pageSize) = some entry) :
      translate M userReads machine.mem root vpn = some (entry.frame vpn) := by
    obtain ⟨inside, same⟩ := address below
    have reached := translate_of_access laid (access _ inside) first
    rwa [same] at reached
  constructor
  · intro entry member vpn spans
    exact canonical_of_translate mapped rooted (seen (small entry member vpn spans) (found member spans))
  · intro entry member vpn spans other canonical same
    have below := canonical_small other canonical
    have mine := seen (small entry member vpn spans) (found member spans)
    have aliased : translate M userReads machine.mem root other = some (entry.frame vpn) := by
      rw [translate_congruent mapped rooted _ (canonical_of_translate mapped rooted mine) canonical same, mine]
    obtain ⟨inside, whole⟩ := address below
    have reached := access _ inside
    rw [userAccess, whole, aliased, Option.map_some, blockAccess] at reached
    obtain ⟨first, start, _⟩ := Option.map_eq_some_iff.mp reached.symm
    obtain ⟨listed, covers⟩ := findAlloc_some start
    rw [whole] at covers
    exact (laid.frame_unique listed member covers spans
      (Option.mem_unique (seen below start) aliased)).2
  · intro entry member other listed vpn spans covers
    exact Option.mem_unique (found member spans) (found listed covers)

theorem viewsAgree_iff_distinguished (hidden : ∀ mapping ∈ base, PageACL.user ∉ mapping.mode) :
    ViewsAgree M machine.mem root allocs ↔ Distinguished E (level M) allocs := by
  rw [viewsAgree_iff]
  constructor
  · intro agree
    have access (userAddr : Nat) (below : userAddr < 2 ^ 64) :
        userAccess M machine.mem root userAddr = blockAccess allocs userAddr := by
      have one := agree userAddr below 1
      rw [copyAddresses_one fun entry member _ _ => laid.fits entry member, reached_one] at one
      have heads := congrArg head? (Except.ok.inj one)
      rwa [Option.head?_toList, Option.head?_toList, eq_comm] at heads
    exact distinguished_of_access mapped rooted laid access fun entry member vpn spans =>
      spans_small mapped rooted laid access (agree _ (by decide) 2) member spans
  · intro apart userAddr below count
    have small (entry : PageAlloc) (member : entry ∈ allocs) (vpn : Nat) (spans : entry.info.Spans vpn) : vpn < 2 ^ 52 :=
      canonical_small vpn (apart.canonical entry member vpn spans)
    rw [copyAddresses_eq (fun entry member _ _ => laid.fits entry member) apart.disjoint small le_rfl below]
    rw [reached_congr (fun userAddr _ => userAccess_eq mapped rooted laid hidden apart userAddr) count below]

end Agreement

end Kernel31.Sched
