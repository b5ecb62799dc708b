import Kernel31.Buddy.ZoneRuns

namespace Kernel31.Buddy

open Checked DyadicBlocks Page BuddyAllocator MemoryZone List

variable {allocator allocator' : BuddyAllocator} {regions : List (Nat × Nat)} {count : Nat}
  {zone other : MemoryZone}

structure System where
  allocator : BuddyAllocator
  outstanding : List (Nat × Nat)

inductive Op where
  | alloc (pagesCount : Nat)
  | free (pageStart pagesCount : Nat)
  deriving DecidableEq, Repr

def System.step (s : System) : Op → Exec System
  | .alloc pagesCount => do
    let (result, allocator) ← s.allocator.allocPages pagesCount
    match result with
    | .ok page => pure { allocator := allocator, outstanding := (page, pagesCount) :: s.outstanding }
    | .error _ => pure { s with allocator := allocator }
  | .free pageStart pagesCount => do
    let allocator ← s.allocator.freePages pageStart pagesCount
    pure { allocator := allocator, outstanding := s.outstanding.erase (pageStart, pagesCount) }

def System.Permits (s : System) : Op → Prop
  | .alloc _ => True
  | .free pageStart pagesCount => (pageStart, pagesCount) ∈ s.outstanding

instance (s : System) : DecidablePred s.Permits
  | .alloc _ => isTrue trivial
  | .free pageStart pagesCount => inferInstanceAs (Decidable ((pageStart, pagesCount) ∈ s.outstanding))

def System.Steps (guard : System → Op → Prop) (s s' : System) : Prop :=
  ∃ op, s.Permits op ∧ guard s op ∧ s.step op = .ok s'

def System.next (guard : System → Op → Prop) [∀ s, DecidablePred (guard s)] (s : System) (op : Op) : Option System :=
  if s.Permits op ∧ guard s op then (s.step op).toOption else none

theorem System.next_steps (guard : System → Op → Prop) [∀ s, DecidablePred (guard s)] (s : System) (op : Op)
    (s' : System) (played : s.next guard op = some s') : s.Steps guard s' := by
  obtain ⟨⟨permitted, guarded⟩, run⟩ := Runs.of_guarded played
  exact ⟨op, permitted, guarded, run⟩

def boot (regions : List (Nat × Nat)) : Exec BuddyAllocator :=
  regions.foldlM (fun allocator region => allocator.addZone region.1 region.2) default.init

def BuddyAllocator.pools (self : BuddyAllocator) : List (Nat × Nat) :=
  self.extendedPools.map fun page => (page, extendedPoolPages)

def System.held (s : System) : List (Nat × Nat) := s.outstanding ++ s.allocator.pools

def MemoryZone.contains (zone : MemoryZone) (held : Nat × Nat) : Bool :=
  zone.base ≤ held.1 ∧ held.1 < zone.base + zone.pages

def MemoryZone.region (zone : MemoryZone) : Nat × Nat := (zone.base, zone.pages)

def RegionsApart (left right : Nat × Nat) : Prop := left.1 + left.2 ≤ right.1 ∨ right.1 + right.2 ≤ left.1

def HeldApart (left right : Nat × Nat) : Prop :=
  left.1 + nextPowerOfTwo left.2 ≤ right.1 ∨ right.1 + nextPowerOfTwo right.2 ≤ left.1

instance : DecidableRel HeldApart := fun _ _ => inferInstanceAs (Decidable (_ ∨ _))

def MemoryZone.freeTotal (zone : MemoryZone) : Nat := (zone.freeBlocks.map Block.size).sum

/-- The free lists and the held blocks of each zone tile it, and `free` counts the free pages. -/
structure BuddyAllocator.Tiled (allocator : BuddyAllocator) (regions held : List (Nat × Nat)) : Prop where
  zoned : allocator.zones.map MemoryZone.region = regions
  apart : regions.Pairwise RegionsApart
  small : ∀ zone ∈ allocator.zones, zone.pages < 2 ^ buddyAllocMaxPow
  tiling : ∀ zone ∈ allocator.zones,
    Tiling (zone.freeBlocks ++ (held.filter zone.contains).map (heldBlock zone.base)) zone.pages
  housed : ∀ block ∈ held, ∃ zone ∈ allocator.zones, zone.contains block = true
  accounted : allocator.free = (allocator.zones.map freeTotal).sum

theorem BuddyAllocator.Tiled.perm {held other : List (Nat × Nat)} (tiled : allocator.Tiled regions held)
    (same : held.Perm other) : allocator.Tiled regions other := by
  refine ⟨tiled.zoned, tiled.apart, tiled.small, ?_, ?_, tiled.accounted⟩
  · intro zone member
    exact (tiled.tiling zone member).perm (((same.filter _).map _).append_left _)
  · intro block member
    exact tiled.housed block (same.mem_iff.mpr member)

variable {zones zones' before after : List MemoryZone} {pool pool' : FreeNodePool} {page : Nat}

section

variable {order level : Nat}

theorem allocZones_append (pool : FreeNodePool) (none : ∀ zone ∈ before, zone.firstLevel order = none) :
    allocZones (2 ^ order) (before ++ after) pool =
      allocZones (2 ^ order) after pool >>= fun (found, zones, pool) => pure (found, before ++ zones, pool) := by
  induction before with
  | nil => exact (bind_pure _).symm
  | cons zone before ih =>
    obtain ⟨first, others⟩ := forall_mem_cons.mp none
    rw [cons_append, allocZones, allocPages_misses pool first, ok_bind]
    simp only
    rw [ih others, bind_assoc]
    rfl

theorem allocZones_misses (pool : FreeNodePool) (none : zones.findSome? (fun zone => zone.firstLevel order) = none) :
    allocZones (2 ^ order) zones pool = .ok (.none, zones, pool) := by
  have searched : allocZones (2 ^ order) (zones ++ []) pool = _ :=
    allocZones_append pool (findSome?_eq_none_iff.mp none)
  simp only [append_nil, allocZones, pure_bind] at searched
  exact searched

/-- Only the first zone with a block for the request is asked. -/
theorem allocZones_at (pool : FreeNodePool) (first : zones.findSome? (fun zone => zone.firstLevel order) = some level) :
    ∃ before zone after, zones = before ++ zone :: after ∧ zone.firstLevel order = some level ∧
      allocZones (2 ^ order) zones pool =
        zone.allocPages pool (2 ^ order) >>= fun (found, zone, pool) => pure (found, before ++ zone :: after, pool) := by
  obtain ⟨before, zone, after, rfl, here, none⟩ := findSome?_eq_some_iff.mp first
  refine ⟨before, zone, after, rfl, here, ?_⟩
  rw [allocZones_append pool none, allocZones, bind_assoc]
  cases taken : zone.allocPages pool (2 ^ order) with
  | error fault => rfl
  | ok result =>
    obtain ⟨found, zone', pool'⟩ := result
    cases found with
    | some page => rfl
    | none => rw [(allocPages_none taken).2.2] at here; cases here

theorem allocZones_cases {found : Option Nat} (run : allocZones (2 ^ order) zones pool = .ok (found, zones', pool')) :
    (found = none ∧ zones' = zones ∧ pool' = pool ∧ zones.findSome? (fun zone => zone.firstLevel order) = none) ∨
    ∃ before zone after zone' page, found = some page ∧ zones = before ++ zone :: after ∧
      zones' = before ++ zone' :: after ∧ zone.allocPages pool (2 ^ order) = .ok (some page, zone', pool') ∧
      zones.findSome? (fun zone => zone.firstLevel order) = zone.firstLevel order := by
  cases first : zones.findSome? (fun zone => zone.firstLevel order) with
  | none =>
    rw [allocZones_misses pool first] at run
    cases run
    exact .inl ⟨rfl, rfl, rfl, rfl⟩
  | some level =>
    obtain ⟨before, zone, after, rfl, here, asked⟩ := allocZones_at pool first
    rw [asked] at run
    obtain ⟨⟨found, zone', left⟩, taken, made⟩ := bind_ok.mp run
    obtain ⟨⟩ := pure_ok.mp made
    cases found with
    | none => rw [(allocPages_none taken).2.2] at here; cases here
    | some page => exact .inr ⟨before, zone, after, zone', page, rfl, rfl, rfl, taken, here.symm⟩

end

theorem freeZones_cases {start : Nat} {found : Bool}
    (run : freeZones start count zones pool = .ok (found, zones', pool')) :
    (found = false ∧ zones' = zones ∧ pool' = pool ∧ ∀ zone ∈ zones, zone.contains (start, count) = false) ∨
    ∃ before zone after zone', found = true ∧ zones = before ++ zone :: after ∧
      zones' = before ++ zone' :: after ∧ zone.contains (start, count) = true ∧
      zone.freePages pool start count = .ok (zone', pool') := by
  induction zones generalizing zones' pool with
  | nil =>
    simp only [freeZones, pure_ok, Prod.mk.injEq] at run
    obtain ⟨rfl, rfl, rfl⟩ := run
    exact Or.inl ⟨rfl, rfl, rfl, by simp⟩
  | cons zone zones ih =>
    simp only [freeZones] at run
    split at run
    · rename_i inside
      simp only [bind_ok, pure_ok, Prod.exists] at run
      obtain ⟨zone', middle, freed, ⟨⟩⟩ := run
      exact Or.inr ⟨[], zone, zones, zone', rfl, rfl, rfl, by simpa [MemoryZone.contains] using inside, freed⟩
    · rename_i outside
      simp only [bind_ok, pure_ok, Prod.exists] at run
      obtain ⟨later, rest, last, searched, ⟨⟩⟩ := run
      have missed : zone.contains (start, count) = false := by
        simpa [MemoryZone.contains] using outside
      rcases ih searched with ⟨nothing, same, kept, none⟩ | ⟨before, hit, after, hit', found, split, split', inside, freed⟩
      · subst same
        exact Or.inl ⟨nothing, rfl, kept, by simpa using ⟨missed, by simpa using none⟩⟩
      · subst split split'
        exact Or.inr ⟨zone :: before, hit, after, hit', found, rfl, rfl, inside, freed⟩

theorem MemoryZone.contains_of_region (same : zone.region = other.region) : zone.contains = other.contains := by
  simp only [MemoryZone.region, Prod.mk.injEq] at same
  funext held
  simp only [MemoryZone.contains, same.1, same.2]

theorem MemoryZone.not_contains_of_apart (apart : RegionsApart zone.region other.region) {held : Nat × Nat}
    (inside : zone.contains held = true) : other.contains held = false := by
  simp only [MemoryZone.contains, RegionsApart, MemoryZone.region, decide_eq_true_eq, decide_eq_false_iff_not] at *
  omega

theorem BuddyAllocator.Tiled.apart_of_split {held : List (Nat × Nat)} (tiled : allocator.Tiled regions held)
    (split : allocator.zones = before ++ zone :: after) (member : other ∈ before ++ after) :
    RegionsApart zone.region other.region := by
  have apart := tiled.apart
  rw [← tiled.zoned, split] at apart
  rw [map_append, map_cons, pairwise_append, pairwise_cons] at apart
  obtain ⟨_, ⟨later, _⟩, cross⟩ := apart
  rcases mem_append.mp member with first | last
  · exact Or.symm (cross _ (mem_map_of_mem first) _ (by simp))
  · exact later _ (mem_map_of_mem last)

theorem BuddyAllocator.Tiled.replace {held held' : List (Nat × Nat)} {zone' : MemoryZone}
    (tiled : allocator.Tiled regions held) (split : allocator.zones = before ++ zone :: after)
    (split' : allocator'.zones = before ++ zone' :: after) (region : zone'.region = zone.region)
    (tiling : Tiling (zone'.freeBlocks ++ (held'.filter zone.contains).map (heldBlock zone.base)) zone.pages)
    (others : ∀ other ∈ before ++ after, (held.filter other.contains).Perm (held'.filter other.contains))
    (housed : ∀ block ∈ held', ∃ zone ∈ allocator.zones, zone.contains block = true)
    (balance : allocator'.free + zone.freeTotal = allocator.free + zone'.freeTotal) :
    allocator'.Tiled regions held' := by
  have same := contains_of_region region
  simp only [MemoryZone.region, Prod.mk.injEq] at region
  have small := tiled.small
  have tilings := tiled.tiling
  have accounted := tiled.accounted
  rw [split] at small tilings accounted
  simp only [forall_mem_append, forall_mem_cons] at small tilings
  refine ⟨?_, tiled.apart, ?_, ?_, ?_, ?_⟩
  · rw [← tiled.zoned, split, split']
    simp [MemoryZone.region, region.1, region.2]
  · rw [split']
    simp only [forall_mem_append, forall_mem_cons, region.2]
    exact small
  · rw [split']
    simp only [forall_mem_append, forall_mem_cons]
    refine ⟨?_, ?_, ?_⟩
    · intro other member
      have moved := others other (mem_append_left _ member)
      exact (tilings.1 other member).perm ((moved.map _).append_left _)
    · rw [same, region.1, region.2]
      exact tiling
    · intro other member
      have moved := others other (mem_append_right _ member)
      exact (tilings.2.2 other member).perm ((moved.map _).append_left _)
  · intro block member
    obtain ⟨home, inside, holds⟩ := housed block member
    rw [split] at inside
    rw [split']
    rcases mem_append.mp inside with first | rest
    · exact ⟨home, by simp [first], holds⟩
    · rcases mem_cons.mp rest with rfl | last
      · exact ⟨zone', by simp, by rw [same]; exact holds⟩
      · exact ⟨home, by simp [last], holds⟩
  · rw [split']
    simp only [map_append, map_cons, sum_append, sum_cons] at accounted ⊢
    omega

def BuddyAllocator.firstLevel (self : BuddyAllocator) (order : Nat) : Option Nat :=
  self.zones.findSome? fun zone => zone.firstLevel order

theorem BuddyAllocator.request_cases {result : Except AllocError Nat}
    (run : allocator.request count = .ok (result, allocator')) :
    (result = .error .outOfMemory ∧ allocator' = allocator ∧ allocator.firstLevel (ceilOrder count) = none) ∨
    ∃ before zone after zone' pool' page, result = .ok page ∧ allocator.zones = before ++ zone :: after ∧
      zone.allocPages allocator.nodePool (2 ^ ceilOrder count) = .ok (some page, zone', pool') ∧
      allocator.firstLevel (ceilOrder count) = zone.firstLevel (ceilOrder count) ∧ 2 ^ ceilOrder count ≤ allocator.free ∧
      allocator' = { allocator with
        free := allocator.free - 2 ^ ceilOrder count, zones := before ++ zone' :: after, nodePool := pool' } := by
  simp only [request, bind_ok, Prod.exists] at run
  obtain ⟨rounded, power, found, zones, pool, searched, run⟩ := run
  obtain ⟨rfl, _⟩ := ceilToPower2_ok power
  rcases allocZones_cases searched with ⟨rfl, rfl, rfl, none⟩ | ⟨before, zone, after, zone', page, rfl, split, rfl, taken, asked⟩
  · obtain ⟨⟩ := pure_ok.mp run
    exact Or.inl ⟨rfl, rfl, none⟩
  · simp only at run
    split at run
    · simp [throw_ok] at run
    · rename_i enough
      obtain ⟨⟩ := pure_ok.mp run
      exact Or.inr ⟨before, zone, after, zone', pool, page, rfl, split, taken, asked, by omega, rfl⟩

theorem BuddyAllocator.Tiled.request {held : List (Nat × Nat)} (tiled : allocator.Tiled regions held)
    (run : allocator.request count = .ok (.ok page, allocator')) :
    allocator'.Tiled regions ((page, count) :: held) ∧ allocator'.extendedPools = allocator.extendedPools := by
  rcases request_cases run with
    ⟨failed, _⟩ | ⟨before, zone, after, zone', pool', page', found, split, taken, _, enough, rfl⟩
  · cases failed
  obtain rfl := Except.ok.inj found
  have member : zone ∈ allocator.zones := by simp [split]
  have old := tiled.tiling zone member
  obtain ⟨based, sameBase, samePages, tiling⟩ := MemoryZone.allocPages_tiling taken old
  have inside := tiling.inside _ (mem_append_right _ (mem_cons_self ..))
  have positive : 0 < 2 ^ ceilOrder count := Nat.two_pow_pos _
  simp only [Block.stop, Block.size] at inside
  have contained : zone.contains (page, count) = true := by
    simp only [MemoryZone.contains, decide_eq_true_eq]
    omega
  have sums := old.sum_size
  have sums' := tiling.sum_size
  simp only [map_append, map_cons, sum_append, sum_cons, Block.size] at sums sums'
  have balance : zone.freeTotal = zone'.freeTotal + 2 ^ ceilOrder count := by
    simp only [freeTotal]
    omega
  refine ⟨?_, rfl⟩
  apply tiled.replace split rfl
  · simp [MemoryZone.region, sameBase, samePages]
  · rw [filter_cons_of_pos contained]
    exact tiling
  · intro other elsewhere
    have outside := not_contains_of_apart (tiled.apart_of_split split elsewhere) contained
    rw [filter_cons_of_neg (by simp [outside])]
  · simp only [forall_mem_cons]
    exact ⟨⟨zone, member, contained⟩, tiled.housed⟩
  · simp only
    omega

def BuddyAllocator.bumped (self : BuddyAllocator) : BuddyAllocator :=
  { self with nodePool.freenodeRemain := self.nodePool.freenodeRemain + extNodeCompatibility }

def BuddyAllocator.withPool (self : BuddyAllocator) (page : Nat) : BuddyAllocator :=
  { self with
    extendedPools := page :: self.extendedPools
    nodePool.freeStart := (List.range extNodeCompatibility).map (NodePtr.extended page) ++ self.nodePool.freeStart }

@[simp] theorem BuddyAllocator.withPool_zones (self : BuddyAllocator) (page : Nat) :
    (self.withPool page).zones = self.zones := by simp only [withPool]

@[simp] theorem BuddyAllocator.withPool_free (self : BuddyAllocator) (page : Nat) :
    (self.withPool page).free = self.free := by simp only [withPool]

@[simp] theorem BuddyAllocator.withPool_pools (self : BuddyAllocator) (page : Nat) :
    (self.withPool page).pools = (page, extendedPoolPages) :: self.pools := by
  simp only [withPool, pools, map_cons]

theorem BuddyAllocator.allocPages_eq (self : BuddyAllocator) (count : Nat) :
    self.allocPages count =
      if self.nodePool.freenodeRemain ≤ minPoolRemain then do
        let (result, allocator) ← self.bumped.request extendedPoolPages
        match result with
        | .error failure => pure (.error failure, allocator)
        | .ok page => (allocator.withPool page).request count
      else self.request count := by
  have enough : ¬ self.bumped.nodePool.freenodeRemain ≤ minPoolRemain := by
    simp only [bumped, minPoolRemain, buddyAllocMaxPow, extNodeCompatibility, Page.vaBits, Page.pageBits]
    omega
  unfold bumped at enough
  simp only [allocPages, allocDepth, newExtendedPool, if_neg enough]
  split
  · simp only [bumped, bind_assoc]
    congr 1
    funext outcome
    obtain ⟨result, allocator⟩ := outcome
    cases result <;> rfl
  · rfl

theorem BuddyAllocator.Tiled.congr {held : List (Nat × Nat)} (tiled : allocator.Tiled regions held)
    (zones : allocator'.zones = allocator.zones) (free : allocator'.free = allocator.free) :
    allocator'.Tiled regions held := by
  refine ⟨?_, tiled.apart, ?_, ?_, ?_, ?_⟩
  · rw [zones]; exact tiled.zoned
  · rw [zones]; exact tiled.small
  · rw [zones]; exact tiled.tiling
  · rw [zones]; exact tiled.housed
  · rw [zones, free]; exact tiled.accounted

theorem BuddyAllocator.request_refused {failure : AllocError}
    (run : allocator.request count = .ok (.error failure, allocator')) : allocator' = allocator := by
  rcases request_cases run with ⟨_, same, _⟩ | ⟨_, _, _, _, _, _, found, _⟩
  · exact same
  · cases found

def System.Tiled (s : System) (regions : List (Nat × Nat)) : Prop := s.allocator.Tiled regions s.held

theorem System.Tiled.granted {outstanding : List (Nat × Nat)}
    (tiled : System.Tiled ⟨allocator, outstanding⟩ regions)
    (run : allocator.request count = .ok (.ok page, allocator')) :
    System.Tiled ⟨allocator', (page, count) :: outstanding⟩ regions := by
  obtain ⟨after, same⟩ := Tiled.request tiled run
  simp only [System.Tiled, System.held, pools, same] at after ⊢
  exact after

theorem System.Tiled.alloc {s s' : System} (tiled : s.Tiled regions) (run : s.step (.alloc count) = .ok s') :
    s'.Tiled regions := by
  obtain ⟨allocator, outstanding⟩ := s
  simp only [System.step, bind_ok, Prod.exists, allocPages_eq] at run
  obtain ⟨result, after, run, last⟩ := run
  have finish : ∀ {start : BuddyAllocator}, System.Tiled ⟨start, outstanding⟩ regions →
      start.request count = .ok (result, after) → s'.Tiled regions := by
    intro start begun request
    cases result with
    | ok page =>
      obtain rfl := pure_ok.mp last
      exact begun.granted request
    | error failure =>
      obtain rfl := pure_ok.mp last
      obtain rfl := request_refused request
      exact begun
  split at run
  · simp only [bind_ok, Prod.exists] at run
    obtain ⟨first, middle, pool, run⟩ := run
    have raised : System.Tiled ⟨allocator.bumped, outstanding⟩ regions := Tiled.congr tiled rfl rfl
    cases first with
    | error failure =>
      obtain ⟨⟩ := pure_ok.mp run
      obtain rfl := pure_ok.mp last
      obtain rfl := request_refused pool
      exact raised
    | ok page =>
      refine finish ?_ run
      -- The pool's pages move from the caller's side of `held` to the pools' side.
      have granted : (middle.withPool page).Tiled regions ((page, extendedPoolPages) :: (outstanding ++ middle.pools)) :=
        Tiled.congr (raised.granted pool) (by simp) (by simp)
      simp only [System.Tiled, System.held, withPool_pools]
      exact granted.perm perm_middle.symm
  · exact finish tiled run

end Kernel31.Buddy
