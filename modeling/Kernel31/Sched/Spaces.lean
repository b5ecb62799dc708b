import Kernel31.Sched.Steps
import Kernel31.Library.Counts
import Kernel31.Task.Contents

namespace Kernel31.Sched

open Page Paging Elf Kernel31.Task Checked Radix Function

variable {entry : PageAlloc} {other : Nat}

structure Space (M : Type) where
  page : M
  allocs : List PageAlloc

def Holder {M : Type} (spaces : Nat → Option (Space M)) (pid : Nat) (entry : PageAlloc) : Prop :=
  ∃ space, spaces pid = some space ∧ entry ∈ space.allocs

def Held {M : Type} (spaces : Nat → Option (Space M)) (entry : PageAlloc) : Prop := ∃ pid, Holder spaces pid entry

def ids {M : Type} (spaces : Nat → Option (Space M)) (pid : Nat) : List Nat :=
  (spaces pid).elim [] fun space => space.allocs.map PageAlloc.id

def Shared (info : PageAllocInfo) : Prop := Flags.exec ∈ info.flags ∨ Flags.write ∉ info.flags

def Arcs.Blank (arcs : Arcs) : Prop := ∀ id, arcs.next ≤ id → arcs.strong id = 0

section Space

variable {M E : Type} [Entry E] [Mapper M E]

def Space.root (space : Space M) : Nat := (Mapper.rootTable space.page).page

def Space.Owns (space : Space M) (mem : Memory) (page : Nat) : Prop := (scheme M).Reachable mem space.root (height M) page

def Space.mappings (base : List Mapping) (space : Space M) : List Mapping :=
  base ++ (space.allocs.map PageAlloc.info).flatMap allocMappings

end Space

/-- Tables and blocks of live tasks lie on pages in use, apart but for shared blocks, which are counted once for
    every holder. -/
structure Housed {M E A : Type} [Entry E] [Mapper M E] [Mmu E] (inUse : A → Nat → Prop) (base : List Mapping)
    (spaces : Nat → Option (Space M)) (bound : Nat) (arcs : Arcs) (machine : Machine A) : Prop where
  bounded : ∀ pid space, spaces pid = some space → pid ≤ bound
  tree : ∀ pid space, spaces pid = some space → Tree M machine.mem space.root (inUse machine.alloc)
  apart : ∀ pid space other space', spaces pid = some space → spaces other = some space' → pid ≠ other →
    ∀ table, space.Owns machine.mem table → ¬ space'.Owns machine.mem table
  mapped : ∀ pid space, spaces pid = some space → space.allocs ≠ [] →
    Mapped inUse space.page machine (space.mappings base)
  inside : ∀ entry, Held spaces entry → virtPage entry.info.pPage + Buddy.nextPowerOfTwo entry.info.vPages ≤ 2 ^ 52
  used : ∀ entry, Held spaces entry → ∀ page, entry.info.holds page → inUse machine.alloc page
  off : ∀ entry, Held spaces entry → ∀ pid space, spaces pid = some space → ∀ page, entry.info.holds page →
    ¬ space.Owns machine.mem page
  issued : ∀ entry, Held spaces entry → entry.id < arcs.next
  same : ∀ entry other, Held spaces entry → Held spaces other → entry.id = other.id → entry = other
  disjoint : ∀ entry other, Held spaces entry → Held spaces other → entry.id ≠ other.id → entry.info.Apart other.info
  counted : ∀ id, arcs.strong id = Counts.total (ids spaces) (Finset.range (bound + 1)) id
  nodup : ∀ pid, (ids spaces pid).Nodup
  unshared : ∀ pid other entry, Holder spaces pid entry → Holder spaces other entry → pid ≠ other → Shared entry.info

section Housed

variable {M E A : Type} [Entry E] [Mapper M E] [Mmu E] {inUse : A → Nat → Prop} {base : List Mapping}
variable {spaces : Nat → Option (Space M)} {bound : Nat} {arcs arcs' : Arcs} {machine machine' : Machine A}

theorem Holder.held {pid : Nat} (holder : Holder spaces pid entry) : Held spaces entry := ⟨pid, holder⟩

theorem mem_ids {pid id : Nat} : id ∈ ids spaces pid ↔ ∃ entry, Holder spaces pid entry ∧ entry.id = id := by
  unfold ids Holder
  cases spaces pid with
  | none => simp
  | some space => simp

theorem Housed.blank (housed : Housed inUse base spaces bound arcs machine) : arcs.Blank := by
  intro id above
  by_contra some
  rw [housed.counted] at some
  obtain ⟨pid, _, member⟩ := Counts.exists_of_total_pos (Nat.pos_of_ne_zero some)
  obtain ⟨entry, holder, rfl⟩ := mem_ids.mp member
  have below := housed.issued entry holder.held
  omega

structure Joins (inUse : A → Nat → Prop) (base : List Mapping) (spaces : Nat → Option (Space M)) (arcs : Arcs)
    (machine : Machine A) (space : Space M) (arcs' : Arcs) (machine' : Machine A) : Prop where
  kept : Extends inUse machine machine'
  tree : Tree M machine'.mem space.root (inUse machine'.alloc)
  tables : ∀ table, space.Owns machine'.mem table → ¬ inUse machine.alloc table
  mapped : space.allocs ≠ [] → Mapped inUse space.page machine' (space.mappings base)
  entries : ∀ entry ∈ space.allocs, Held spaces entry ∧ Shared entry.info ∨
    arcs.next ≤ entry.id ∧ entry.id < arcs'.next ∧ Holds M inUse space.root machine machine' entry.info
  disjoint : ∀ entry ∈ space.allocs, ∀ other ∈ space.allocs, arcs.next ≤ entry.id → arcs.next ≤ other.id →
    entry.id ≠ other.id → entry.info.Apart other.info
  nodup : (space.allocs.map PageAlloc.id).Nodup
  next : arcs.next ≤ arcs'.next
  counted : ∀ id, arcs'.strong id = arcs.strong id + (space.allocs.map PageAlloc.id).count id

section Join

variable {space : Space M} (housed : Housed inUse base spaces bound arcs machine)
  (joins : Joins inUse base spaces arcs machine space arcs' machine')
include housed joins

theorem Housed.owns_join {pid : Nat} {old : Space M} (live : spaces pid = some old) {table : Nat} :
    old.Owns machine'.mem table ↔ old.Owns machine.mem table :=
  (joins.kept.sameTables (housed.tree pid old live)).reachable

omit joins in
theorem Housed.fresh_pid : spaces (bound + 1) = none := by
  cases found : spaces (bound + 1) with
  | none => rfl
  | some space =>
    have below := housed.bounded _ _ found
    omega

omit housed joins in
theorem holder_join {pid : Nat} (space : Space M)
    (holder : Holder (update spaces (bound + 1) (some space)) pid entry) :
    pid = bound + 1 ∧ entry ∈ space.allocs ∨ pid ≠ bound + 1 ∧ Holder spaces pid entry := by
  obtain ⟨found, live, member⟩ := holder
  by_cases here : pid = bound + 1
  · subst here
    rw [update_self, Option.some.injEq] at live
    exact Or.inl ⟨rfl, live ▸ member⟩
  · rw [update_of_ne here] at live
    exact Or.inr ⟨here, found, live, member⟩

omit housed in
theorem Joins.held (held : Held (update spaces (bound + 1) (some space)) entry) :
    Held spaces entry ∨ entry ∈ space.allocs ∧ arcs.next ≤ entry.id ∧ entry.id < arcs'.next ∧
      Holds M inUse space.root machine machine' entry.info := by
  obtain ⟨pid, holder⟩ := held
  rcases holder_join space holder with ⟨_, member⟩ | ⟨_, holder⟩
  · rcases joins.entries entry member with ⟨old, _⟩ | new
    · exact Or.inl old
    · exact Or.inr ⟨member, new⟩
  · exact Or.inl holder.held

omit housed joins in
theorem live_join {pid : Nat} {found : Space M} (space : Space M)
    (live : update spaces (bound + 1) (some space) pid = some found) :
    pid = bound + 1 ∧ found = space ∨ pid ≠ bound + 1 ∧ spaces pid = some found := by
  by_cases here : pid = bound + 1
  · subst here
    rw [update_self, Option.some.injEq] at live
    exact Or.inl ⟨rfl, live.symm⟩
  · rw [update_of_ne here] at live
    exact Or.inr ⟨here, live⟩

theorem Housed.disjoint_join (entry other : PageAlloc)
    (held : Held (update spaces (bound + 1) (some space)) entry)
    (held' : Held (update spaces (bound + 1) (some space)) other) (differs : entry.id ≠ other.id) :
    entry.info.Apart other.info := by
  intro page inside inside'
  rcases joins.held held with old | ⟨member, low, _, holds⟩
  · rcases joins.held held' with old' | ⟨_, _, _, holds⟩
    · exact housed.disjoint entry other old old' differs page inside inside'
    · exact holds.fresh page inside' (housed.used entry old page inside)
  · rcases joins.held held' with old' | ⟨member', low', _, _⟩
    · exact holds.fresh page inside (housed.used other old' page inside')
    · exact joins.disjoint entry member other member' low low' differs page inside inside'

theorem Housed.same_join (entry other : PageAlloc)
    (held : Held (update spaces (bound + 1) (some space)) entry)
    (held' : Held (update spaces (bound + 1) (some space)) other) (equal : entry.id = other.id) :
    entry = other := by
  rcases joins.held held with old | ⟨member, low, _, _⟩
  · rcases joins.held held' with old' | ⟨_, low', _, _⟩
    · exact housed.same entry other old old' equal
    · have below := housed.issued entry old
      omega
  · rcases joins.held held' with old' | ⟨member', _, _, _⟩
    · have below := housed.issued other old'
      omega
    · exact List.inj_on_of_nodup_map joins.nodup member member' equal

theorem Housed.off_join (entry : PageAlloc) (held : Held (update spaces (bound + 1) (some space)) entry)
    (pid : Nat) (found : Space M) (live : update spaces (bound + 1) (some space) pid = some found) (page : Nat)
    (inside : entry.info.holds page) : ¬ found.Owns machine'.mem page := by
  intro owns
  rcases live_join space live with ⟨_, rfl⟩ | ⟨_, live⟩
  · rcases joins.held held with old | ⟨_, _, _, holds⟩
    · exact joins.tables page owns (housed.used entry old page inside)
    · exact holds.off page inside owns
  · rw [housed.owns_join joins live] at owns
    rcases joins.held held with old | ⟨_, _, _, holds⟩
    · exact housed.off entry old pid found live page inside owns
    · exact holds.fresh page inside ((housed.tree pid found live).housed page owns).1

theorem Housed.apart_join (pid : Nat) (found : Space M) (other : Nat) (found' : Space M)
    (live : update spaces (bound + 1) (some space) pid = some found)
    (live' : update spaces (bound + 1) (some space) other = some found') (differs : pid ≠ other) (table : Nat)
    (owns : found.Owns machine'.mem table) : ¬ found'.Owns machine'.mem table := by
  intro owns'
  rcases live_join space live with ⟨here, rfl⟩ | ⟨_, old⟩
  · rcases live_join found live' with ⟨there, _⟩ | ⟨_, live'⟩
    · exact differs (here.trans there.symm)
    · rw [housed.owns_join joins live'] at owns'
      exact joins.tables table owns ((housed.tree other found' live').housed table owns').1
  · rw [housed.owns_join joins old] at owns
    rcases live_join space live' with ⟨_, rfl⟩ | ⟨_, live'⟩
    · exact joins.tables table owns' ((housed.tree pid found old).housed table owns).1
    · rw [housed.owns_join joins live'] at owns'
      exact housed.apart pid found other found' old live' differs table owns owns'

omit housed joins [Entry E] [Mapper M E] [Mmu E] in
theorem ids_join (space : Space M) :
    ids (update spaces (bound + 1) (some space)) =
      update (ids spaces) (bound + 1) (space.allocs.map PageAlloc.id) := by
  funext pid
  exact apply_update (fun _ (found : Option (Space M)) => found.elim [] fun space =>
    space.allocs.map PageAlloc.id) spaces (bound + 1) (some space) pid

theorem Housed.join :
    Housed inUse base (update spaces (bound + 1) (some space)) (bound + 1) arcs' machine' where
  bounded pid found live := by
    rcases live_join space live with ⟨rfl, _⟩ | ⟨_, live⟩
    · exact le_rfl
    · exact Nat.le_succ_of_le (housed.bounded pid found live)
  tree pid found live := by
    rcases live_join space live with ⟨_, rfl⟩ | ⟨_, live⟩
    · exact joins.tree
    · have tree := housed.tree pid found live
      exact (tree.frame (joins.kept.sameTables tree)).mono joins.kept.used
  apart := housed.apart_join joins
  mapped pid found live some := by
    rcases live_join space live with ⟨_, rfl⟩ | ⟨_, live⟩
    · exact joins.mapped some
    · have mapped := housed.mapped pid found live some
      exact ⟨mapped.represents.frame (joins.kept.sameTables (housed.tree pid found live)) joins.kept.used, mapped.fits⟩
  inside entry held := (joins.held held).elim (housed.inside entry) fun new => new.2.2.2.inside
  used entry held page inside := by
    rcases joins.held held with old | ⟨_, _, _, holds⟩
    · exact joins.kept.used page (housed.used entry old page inside)
    · exact holds.used page inside
  off := housed.off_join joins
  issued entry held := by
    rcases joins.held held with old | ⟨_, _, below, _⟩
    · exact lt_of_lt_of_le (housed.issued entry old) joins.next
    · exact below
  same := housed.same_join joins
  disjoint := housed.disjoint_join joins
  counted id := by
    rw [ids_join, Finset.range_add_one, Counts.total_insert (by simp), joins.counted, housed.counted]
  nodup pid := by
    rw [ids_join]
    by_cases here : pid = bound + 1
    · subst here
      rw [update_self]
      exact joins.nodup
    · rw [update_of_ne here]
      exact housed.nodup pid
  unshared pid other entry holder holder' differs := by
    -- an entry that is new is held by the new task only
    have old {other : Nat} (member : entry ∈ space.allocs) (holder : Holder spaces other entry) : Shared entry.info := by
      rcases joins.entries entry member with ⟨_, shared⟩ | ⟨low, _⟩
      · exact shared
      · have below := housed.issued entry holder.held
        omega
    rcases holder_join space holder with ⟨here, member⟩ | ⟨_, holder⟩
    · rcases holder_join space holder' with ⟨there, _⟩ | ⟨_, holder'⟩
      · exact absurd (here.trans there.symm) differs
      · exact old member holder'
    · rcases holder_join space holder' with ⟨_, member⟩ | ⟨_, holder'⟩
      · exact old member holder
      · exact housed.unshared pid other entry holder holder' differs

end Join

theorem rehouse {page : M} {mappings : List Mapping} {alloc : A} (mapped : Mapped inUse page machine mappings)
    (used : ∀ table, (scheme M).Reachable machine.mem (Mapper.rootTable page).page (height M) table → inUse alloc table) :
    Mapped inUse page { machine with alloc := alloc } mappings := by
  obtain ⟨⟨tree, present, translation⟩, fits⟩ := mapped
  refine ⟨⟨⟨tree.separate, fun table reached => ⟨used table reached, ?_⟩, tree.linear, tree.shaped⟩, present,
    translation⟩, fits⟩
  exact (tree.housed table reached).2

theorem foldl_drop (allocs : List PageAlloc) (arcs : Arcs) :
    (allocs.foldl Arcs.drop arcs).next = arcs.next ∧
      ∀ id, (allocs.foldl Arcs.drop arcs).strong id = arcs.strong id - (allocs.map PageAlloc.id).count id := by
  induction allocs generalizing arcs with
  | nil => exact ⟨rfl, fun _ => rfl⟩
  | cons entry rest ih =>
    obtain ⟨next, strong⟩ := ih (arcs.drop entry)
    refine ⟨next, fun id => ?_⟩
    rw [List.foldl_cons, strong, List.map_cons, List.count_cons]
    by_cases here : entry.id = id
    · subst here
      simp only [Arcs.drop, update_self, beq_self_eq_true, if_true]
      omega
    · simp [Arcs.drop, Ne.symm here, here]

section Leave

variable {pid : Nat} {space : Space M} (housed : Housed inUse base spaces bound arcs machine)
  (live : spaces pid = some space)

omit [Entry E] [Mapper M E] [Mmu E] in
theorem live_leave {found : Space M} (left : update spaces pid none other = some found) :
    other ≠ pid ∧ spaces other = some found := by
  by_cases here : other = pid
  · subst here
    rw [update_self] at left
    cases left
  · rw [update_of_ne here] at left
    exact ⟨here, left⟩

omit [Entry E] [Mapper M E] [Mmu E] in
theorem held_leave (left : Held (update spaces pid none) entry) :
    ∃ other, other ≠ pid ∧ Holder spaces other entry := by
  obtain ⟨other, found, left, member⟩ := left
  obtain ⟨differs, left⟩ := live_leave left
  exact ⟨other, differs, found, left, member⟩

include housed live

theorem Housed.unique_holder (member : entry ∈ space.allocs) (last : arcs.strong entry.id = 1)
    (holder : Holder spaces other entry) : other = pid := by
  by_contra differs
  obtain ⟨found, there, member'⟩ := holder
  have inside {pid : Nat} {space : Space M} (live : spaces pid = some space) : pid ∈ Finset.range (bound + 1) :=
    Finset.mem_range.mpr (Nat.lt_succ_of_le (housed.bounded pid space live))
  have two := Counts.two_le_total (inside there) (inside live) differs
    (mem_ids.mpr ⟨entry, ⟨found, there, member'⟩, rfl⟩) (mem_ids.mpr ⟨entry, ⟨space, live, member⟩, rfl⟩)
  rw [← housed.counted] at two
  omega

theorem Housed.last_holder (held : Held spaces entry) (left : ¬ Held (update spaces pid none) entry) :
    entry ∈ space.allocs ∧ arcs.strong entry.id = 1 := by
  have only {other : Nat} (holder : Holder spaces other entry) : other = pid := by
    obtain ⟨found, there, member⟩ := holder
    by_contra differs
    exact left ⟨other, found, by rwa [update_of_ne differs], member⟩
  obtain ⟨other, holder⟩ := id held
  obtain rfl := only holder
  obtain ⟨found, there, member⟩ := id holder
  obtain rfl : space = found := Option.mem_unique live there
  refine ⟨member, ?_⟩
  rw [housed.counted]
  have counted : other ∈ Finset.range (bound + 1) :=
    Finset.mem_range.mpr (Nat.lt_succ_of_le (housed.bounded other space live))
  refine Counts.total_eq_one counted (mem_ids.mpr ⟨entry, holder, rfl⟩) (housed.nodup other) fun third again => ?_
  obtain ⟨own, holds, equal⟩ := mem_ids.mp again
  exact only (housed.same own entry holds.held held equal ▸ holds)

variable {alloc : A} (kept : ∀ page, inUse machine.alloc page → ¬ space.Owns machine.mem page →
  (∀ entry ∈ space.allocs, arcs.strong entry.id = 1 → ¬ entry.info.holds page) → inUse alloc page)
include kept

theorem Housed.used_leave (left : Held (update spaces pid none) entry) (page : Nat)
    (inside : entry.info.holds page) : inUse alloc page := by
  obtain ⟨other, differs, holder⟩ := held_leave left
  refine kept page (housed.used entry holder.held page inside) (housed.off entry holder.held pid space live page inside) ?_
  intro own member last holds
  have mine : Holder spaces pid own := ⟨space, live, member⟩
  by_cases equal : own.id = entry.id
  · obtain rfl := housed.same own entry mine.held holder.held equal
    exact differs (housed.unique_holder live member last holder)
  · exact housed.disjoint own entry mine.held holder.held equal page holds inside

theorem Housed.tables_leave {found : Space M} (left : update spaces pid none other = some found)
    (table : Nat) (owns : found.Owns machine.mem table) : inUse alloc table := by
  obtain ⟨differs, there⟩ := live_leave left
  refine kept table ((housed.tree other found there).housed table owns).1
    (housed.apart other found pid space there live differs table owns) ?_
  intro own member _ holds
  exact housed.off own ⟨pid, space, live, member⟩ other found there table holds owns

theorem Housed.leave :
    Housed inUse base (update spaces pid none) bound (space.allocs.foldl Arcs.drop arcs)
      { machine with alloc := alloc } where
  bounded other found left := housed.bounded other found (live_leave left).2
  tree other found left := by
    have tree := housed.tree other found (live_leave left).2
    exact ⟨tree.separate, fun table owns => ⟨housed.tables_leave live kept left table owns, (tree.housed table owns).2⟩,
      tree.linear, tree.shaped⟩
  apart other found third found' left left' := housed.apart other found third found' (live_leave left).2 (live_leave left').2
  mapped other found left some :=
    rehouse (housed.mapped other found (live_leave left).2 some) (housed.tables_leave live kept left)
  inside entry left := by
    obtain ⟨other, _, holder⟩ := held_leave left
    exact housed.inside entry holder.held
  used entry left := housed.used_leave live kept left
  off entry left other found there := by
    obtain ⟨_, _, holder⟩ := held_leave left
    exact housed.off entry holder.held other found (live_leave there).2
  issued entry left := by
    obtain ⟨_, _, holder⟩ := held_leave left
    rw [(foldl_drop _ _).1]
    exact housed.issued entry holder.held
  same entry other left left' := by
    obtain ⟨_, _, holder⟩ := held_leave left
    obtain ⟨_, _, holder'⟩ := held_leave left'
    exact housed.same entry other holder.held holder'.held
  disjoint entry other left left' := by
    obtain ⟨_, _, holder⟩ := held_leave left
    obtain ⟨_, _, holder'⟩ := held_leave left'
    exact housed.disjoint entry other holder.held holder'.held
  counted id := by
    have cleared : ids (update spaces pid none) = update (ids spaces) pid [] := by
      funext other
      exact apply_update (fun _ (found : Option (Space M)) => found.elim [] fun space =>
        space.allocs.map PageAlloc.id) spaces pid none other
    have member : pid ∈ Finset.range (bound + 1) :=
      Finset.mem_range.mpr (Nat.lt_succ_of_le (housed.bounded pid space live))
    have total : Counts.total (update (ids spaces) pid []) (Finset.range (bound + 1)) id +
        (ids spaces pid).count id = arcs.strong id := by
      rw [housed.counted]
      exact Counts.total_clear member id
    have own : ids spaces pid = space.allocs.map PageAlloc.id := by rw [ids, live, Option.elim_some]
    rw [cleared, (foldl_drop _ _).2, ← total, own, Nat.add_sub_cancel]
  nodup other := by
    by_cases here : other = pid
    · subst here
      simp [ids]
    · rw [ids, update_of_ne here]
      exact housed.nodup other
  unshared other third entry holder holder' differs := by
    obtain ⟨found, left, member⟩ := holder
    obtain ⟨found', left', member'⟩ := holder'
    exact housed.unshared other third entry ⟨found, (live_leave left).2, member⟩ ⟨found', (live_leave left').2, member'⟩
      differs

end Leave

theorem Housed.sameTables (housed : Housed inUse base spaces bound arcs machine) {mem : Memory}
    (same : ∀ page, (∀ entry, Held spaces entry → ¬ entry.info.holds page) → mem page = machine.mem page) {pid : Nat}
    {space : Space M} (live : spaces pid = some space) : SameTables M machine.mem mem space.root := by
  intro table owns index
  rw [same table fun entry held inside => housed.off entry held pid space live table inside owns]

theorem Housed.write (housed : Housed inUse base spaces bound arcs machine) {mem : Memory}
    (same : ∀ page, (∀ entry, Held spaces entry → ¬ entry.info.holds page) → mem page = machine.mem page) :
    Housed inUse base spaces bound arcs { machine with mem := mem } := by
  have owns {pid : Nat} {space : Space M} (live : spaces pid = some space) {table : Nat} :
      space.Owns mem table ↔ space.Owns machine.mem table := (housed.sameTables same live).reachable
  refine { housed with tree := ?_, apart := ?_, mapped := ?_, off := ?_ }
  · intro pid space live
    exact (housed.tree pid space live).frame (housed.sameTables same live)
  · intro pid space other found live there differs table
    rw [owns live, owns there]
    exact housed.apart pid space other found live there differs table
  · intro pid space live some
    have mapped := housed.mapped pid space live some
    exact ⟨mapped.represents.frame (housed.sameTables same live) fun _ used => used, mapped.fits⟩
  · intro entry held pid space live page inside
    rw [owns live]
    exact housed.off entry held pid space live page inside

end Housed

end Kernel31.Sched
