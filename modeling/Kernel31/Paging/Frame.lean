import Kernel31.Paging.Translation

namespace Kernel31.Paging

open Page Checked Radix List Mapper Function

variable {M E A : Type} {root : Nat} {inUse : A → Nat → Prop} {self : M} {machine machine' : Machine A}

structure SoundBlocks {A : Type} [PageAllocator A] (inUse : A → Nat → Prop) : Prop extends SoundAllocator inUse where
  block : ∀ alloc order page alloc', PageAllocator.allocPages alloc (2 ^ order) = .ok (.ok page, alloc') →
    (∀ other, page ≤ other → other < page + 2 ^ order → ¬ inUse alloc other) ∧ page + 2 ^ order ≤ 2 ^ 52 ∧
      ∀ other, inUse alloc' other ↔ (page ≤ other ∧ other < page + 2 ^ order) ∨ inUse alloc other

theorem Bump.soundBlocks : SoundBlocks fun (alloc : Bump) page => page ∈ alloc.used where
  toSoundAllocator := Bump.sound
  block alloc order page alloc' run := by
    change Bump.allocPages alloc (2 ^ order) = _ at run
    unfold Bump.allocPages at run
    split at run
    · rename_i small
      obtain ⟨⟩ := pure_ok.mp run
      refine ⟨fun other low _ member => ?_, small, fun other => ?_⟩
      · have below := alloc.below other member
        omega
      · rw [mem_append, mem_range'_1]
    · simp [pure_ok] at run

structure SoundFrees {A : Type} [PageAllocator A] (inUse : A → Nat → Prop) : Prop extends SoundBlocks inUse where
  released : ∀ alloc start order alloc', PageAllocator.freePages alloc start (2 ^ order) = .ok alloc' →
    ∀ other, inUse alloc' other ↔ ¬ (start ≤ other ∧ other < start + 2 ^ order) ∧ inUse alloc other

theorem Bump.soundFrees : SoundFrees fun (alloc : Bump) page => page ∈ alloc.used where
  toSoundBlocks := Bump.soundBlocks
  released alloc start order alloc' run other := by
    obtain rfl := pure_ok.mp run
    simp only [mem_filter, decide_eq_true_eq, and_comm]

section Frame

variable [Entry E] [Mapper M E] [Mmu E] {mem mem' : Memory} {owned : Nat → Prop}

def SameTables (M : Type) {E : Type} [Entry E] [Mapper M E] (mem mem' : Memory) (root : Nat) : Prop :=
  ∀ table, (scheme M).Reachable mem root (height M) table → ∀ index, mem' table index = mem table index

omit [Mmu E] in
theorem SameTables.tableAt (same : SameTables M mem mem' root) {depth : Nat} (bound : depth ≤ height M) (key : Nat) :
    (scheme M).tableAt mem' root depth key = (scheme M).tableAt mem root depth key :=
  Scheme.tableAt_frame fun i table below found => same table ⟨i, key, by omega, found⟩ _

omit [Mmu E] in
theorem SameTables.reachable (same : SameTables M mem mem' root) {table : Nat} :
    (scheme M).Reachable mem' root (height M) table ↔ (scheme M).Reachable mem root (height M) table := by
  constructor
  · rintro ⟨depth, key, bound, found⟩
    exact ⟨depth, key, bound, same.tableAt bound key ▸ found⟩
  · rintro ⟨depth, key, bound, found⟩
    exact ⟨depth, key, bound, (same.tableAt bound key).trans found⟩

theorem Tree.frame (tree : Tree M mem root owned) (same : SameTables M mem mem' root) : Tree M mem' root owned := by
  refine ⟨?_, fun table reached => tree.housed table (same.reachable.mp reached), ?_, ?_⟩
  · intro i j key other table low high first second
    rw [same.tableAt low] at first
    rw [same.tableAt high] at second
    exact tree.separate i j key other table low high first second
  · intro depth key table positive bound found
    rw [same.tableAt bound] at found
    exact tree.linear depth key table positive bound found
  · intro depth key table below found
    rw [same.tableAt below.le] at found
    rw [same table ⟨depth, key, below.le, found⟩]
    exact tree.shaped depth key table below found

theorem SameTables.lookup (same : SameTables M mem mem' root) (vpn : Nat) :
    lookup M mem' root vpn = lookup M mem root vpn := by
  unfold Paging.lookup Scheme.leafAt
  rw [same.tableAt le_rfl]
  cases found : (scheme M).tableAt mem root (height M) vpn with
  | none => rfl
  | some table => rw [Option.map_some, Option.map_some, same table ⟨_, _, le_rfl, found⟩]

end Frame

section Represents

variable [Entry E] [Mapper M E] [PageAllocator A] [Mmu E]
variable {mappings : List Mapping}

omit [PageAllocator A] in
theorem Represents.frame (represents : Represents inUse self machine mappings)
    (same : SameTables M machine.mem machine'.mem (rootTable self).page)
    (used : ∀ page, inUse machine.alloc page → inUse machine'.alloc page) :
    Represents inUse self machine' mappings := by
  refine ⟨(represents.tree.frame same).mono used, ?_, ?_⟩
  · intro mapping member
    obtain ⟨table, found⟩ := represents.present mapping member
    exact ⟨table, (same.tableAt le_rfl _).trans found⟩
  · intro fits vpn
    rw [same.lookup, represents.translation fits]

end Represents

section Builds

/-- What was in use and is no table below `root` stays as it was, and so does what is not in use after it. -/
structure Builds (M : Type) {E A : Type} [Entry E] [Mapper M E] (inUse : A → Nat → Prop) (root : Nat)
    (machine machine' : Machine A) : Prop extends Grows M inUse root machine machine' where
  kept : ∀ page, inUse machine.alloc page → ¬ (scheme M).Reachable machine.mem root (height M) page →
    machine'.mem page = machine.mem page
  unused : ∀ page, ¬ inUse machine'.alloc page → machine'.mem page = machine.mem page

variable [Entry E] [Mapper M E]
variable {middle : Machine A}

theorem Builds.refl (inUse : A → Nat → Prop) (root : Nat) (machine : Machine A) : Builds M inUse root machine machine :=
  ⟨Grows.refl inUse root machine, fun _ _ _ => rfl, fun _ _ => rfl⟩

theorem Builds.off (builds : Builds M inUse root machine machine') {page : Nat} (used : inUse machine.alloc page)
    (off : ¬ (scheme M).Reachable machine.mem root (height M) page) :
    ¬ (scheme M).Reachable machine'.mem root (height M) page := by
  intro reached
  rcases builds.tables page reached with old | new
  · exact off old
  · exact new used

theorem Builds.trans (before : Builds M inUse root machine middle) (after : Builds M inUse root middle machine') :
    Builds M inUse root machine machine' := by
  refine ⟨before.toGrows.trans after.toGrows, fun page used off => ?_, fun page free => ?_⟩
  · rw [after.kept page (before.used page used) (before.off used off), before.kept page used off]
  · rw [after.unused page free, before.unused page fun used => free (after.used page used)]

theorem Builds.write (builds : Builds M inUse root machine middle) {mem : Memory} {block : Nat → Prop}
    (same : ∀ page, ¬ block page → mem page = middle.mem page) (fresh : ∀ page, block page → ¬ inUse machine.alloc page)
    (used : ∀ page, block page → inUse middle.alloc page)
    (apart : ∀ page, block page → ¬ (scheme M).Reachable middle.mem root (height M) page) :
    Builds M inUse root machine { middle with mem := mem } := by
  have tables : SameTables M middle.mem mem root := fun table reached index => by
    rw [same table fun inside => apart table inside reached]
  refine ⟨⟨builds.used, fun table reached => builds.tables table (tables.reachable.mp reached)⟩, ?_, ?_⟩
  · intro page held off
    rw [← builds.kept page held off]
    exact same page fun inside => fresh page inside held
  · intro page free
    rw [← builds.unused page free]
    exact same page fun inside => free (used page inside)

variable [PageAllocator A]

theorem Builds.alloc (sound : SoundBlocks inUse) {order page : Nat} {alloc : A}
    (run : PageAllocator.allocPages machine.alloc (2 ^ order) = .ok (.ok page, alloc)) :
    Builds M inUse root machine { machine with alloc := alloc } := by
  obtain ⟨_, _, used⟩ := sound.block _ _ _ _ run
  exact ⟨⟨fun other held => (used other).mpr (Or.inr held), fun _ reached => Or.inl reached⟩, fun _ _ _ => rfl,
    fun _ _ => rfl⟩

variable [Mmu E] [LawfulEntry E] (sound : SoundAllocator inUse)
include sound

theorem Builds.map4k (tree : Tree M machine.mem (rootTable self).page (inUse machine.alloc)) {vpn ppn : Nat}
    {mode : List PageACL} [LawfulMapper M] (run : Mapper.map4k self machine vpn ppn mode = .ok machine') :
    Builds M inUse (rootTable self).page machine machine' := by
  obtain ⟨tree', _, _, _, grows, only⟩ := map4k_spec sound tree run
  refine ⟨grows, fun page used off => only page fun reached => ?_, fun page free => only page fun reached => ?_⟩
  · exact (grows.tables page reached).elim off fun new => new used
  · exact free (tree'.housed page reached).1

theorem Represents.builds [LawfulMapper M] {mappings : List Mapping} {vpn ppn pages : Nat} {mode : List PageACL}
    (represents : Represents inUse self machine mappings)
    (run : Mapper.mapWithAllocator self machine vpn ppn pages mode = .ok machine') :
    Builds M inUse (rootTable self).page machine machine' := by
  induction pages generalizing machine mappings vpn ppn with
  | zero =>
    obtain rfl := pure_ok.mp run
    exact Builds.refl inUse _ machine
  | succ pages ih =>
    simp only [Mapper.mapWithAllocator, bind_ok] at run
    obtain ⟨next, first, run⟩ := run
    split at run
    · exact (Builds.map4k sound represents.tree first).trans (ih (represents.map4k sound first) run)
    · simp [throw_ok] at run

end Builds

section Extends

structure Extends {A : Type} (inUse : A → Nat → Prop) (machine machine' : Machine A) : Prop where
  used : ∀ page, inUse machine.alloc page → inUse machine'.alloc page
  kept : ∀ page, inUse machine.alloc page → machine'.mem page = machine.mem page
  unused : ∀ page, ¬ inUse machine'.alloc page → machine'.mem page = machine.mem page

variable [Entry E] [Mapper M E] [PageAllocator A] [Mmu E] [LawfulEntry E] [LawfulMapper M]
variable {begun : Machine A}

omit [PageAllocator A] [LawfulEntry E] [LawfulMapper M] in
theorem Extends.sameTables (kept : Extends inUse machine machine')
    (tree : Tree M machine.mem root (inUse machine.alloc)) : SameTables M machine.mem machine'.mem root :=
  fun table reached index => by rw [kept.kept table (tree.housed table reached).1]

theorem Builds.extends (sound : SoundAllocator inUse) (new : newWithAllocator machine = .ok (self, begun))
    (builds : Builds M inUse (rootTable self).page begun machine') :
    Extends inUse machine machine' ∧
      ∀ page, (scheme M).Reachable machine'.mem (rootTable self).page (height M) page →
        ¬ inUse machine.alloc page := by
  simp only [newWithAllocator, bind_ok, pure_ok, Prod.exists] at new
  obtain ⟨root, after, created, ⟨⟩⟩ := new
  rw [LawfulMapper.root (M := M)] at builds ⊢
  obtain ⟨unused, small, cleared, owned⟩ := Table.new_ok sound created
  have used : ∀ page, inUse machine.alloc page → inUse begun.alloc page := fun page held =>
    (owned page).mpr (Or.inr held)
  have only : ∀ page, (scheme M).Reachable begun.mem root.page (height M) page → page = root.page := by
    rintro page ⟨depth, key, _, found⟩
    have row : ∀ index, begun.mem root.page index = 0 := fun index => by rw [cleared, update_self]
    have blank := (Tree.blank (M := M) row ((owned _).mpr (Or.inl rfl)) small).2
    rcases Nat.eq_zero_or_pos depth with rfl | positive
    · exact (Option.some.inj found).symm
    · rw [blank depth key positive] at found
      cases found
  have other : ∀ page, page ≠ root.page → begun.mem page = machine.mem page := fun page differs => by
    rw [cleared, update_of_ne differs]
  refine ⟨⟨fun page held => builds.used page (used page held), fun page held => ?_, fun page free => ?_⟩, ?_⟩
  · have differs : page ≠ root.page := by
      rintro rfl
      exact unused held
    rw [builds.kept page (used page held) fun reached => differs (only page reached), other page differs]
  · rw [builds.unused page free]
    apply other
    rintro rfl
    exact free (builds.used _ ((owned _).mpr (Or.inl rfl)))
  · intro page reached held
    rcases builds.tables page reached with old | new
    · exact unused (only page old ▸ held)
    · exact new (used page held)

end Extends

theorem latest_isSome {levels vpn : Nat} {mappings : List Mapping} {mapping : Mapping} (member : mapping ∈ mappings)
    (same : mapping.vpn = vpn) : (latest levels mappings vpn).isSome := by
  rw [latest, find?_isSome]
  exact ⟨mapping, mem_reverse.mpr member, by simp [same]⟩

theorem latest_of_hit (levels vpn : Nat) (mappings : List Mapping) {later : List Mapping} {mapping : Mapping}
    (member : mapping ∈ later)
    (same : mapping.vpn % 2 ^ (9 * levels) = vpn % 2 ^ (9 * levels)) :
    ∃ last ∈ later, last.vpn % 2 ^ (9 * levels) = vpn % 2 ^ (9 * levels) ∧
      latest levels (mappings ++ later) vpn = some last := by
  rw [latest, reverse_append, find?_append]
  cases found : later.reverse.find? fun mapping => mapping.vpn % 2 ^ (9 * levels) = vpn % 2 ^ (9 * levels) with
  | none =>
    rw [find?_eq_none] at found
    exact absurd same (by simpa using found mapping (mem_reverse.mpr member))
  | some last =>
    have holds := find?_some found
    exact ⟨last, mem_reverse.mp (mem_of_find?_eq_some found), by simpa using holds, rfl⟩

theorem linear_eq_of_mod {levels page other : Nat} (deep : 3 ≤ levels) (low : pageOffset ≤ page) (high : page < 2 ^ 52)
    (low' : pageOffset ≤ other) (high' : other < 2 ^ 52) (same : page % 2 ^ (9 * levels) = other % 2 ^ (9 * levels)) :
    page = other := by
  have divides : 2 ^ 27 ∣ 2 ^ (9 * levels) := pow_dvd_pow 2 (by omega)
  have small : page % 2 ^ 27 = other % 2 ^ 27 := by
    rw [← Nat.mod_mod_of_dvd page divides, same, Nat.mod_mod_of_dvd other divides]
  rw [pageOffset_eq] at low low'
  omega

end Kernel31.Paging
