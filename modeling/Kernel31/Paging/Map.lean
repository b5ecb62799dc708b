import Kernel31.Paging.Tree

namespace Kernel31.Paging

open Page Checked Radix Function LawfulEntry
open Mapper (descend map4k rootTable)

variable {M E A : Type} {mem : Memory} {root vpn table depth fresh : Nat} {owned : Nat → Prop} {inUse : A → Nat → Prop}

/-- A new page is not in use, and `free_pages` takes back the page it names. Page numbers are addresses without the
    offset bits. -/
structure SoundAllocator {A : Type} [PageAllocator A] (inUse : A → Nat → Prop) : Prop where
  fresh : ∀ alloc page alloc', PageAllocator.allocPages alloc 1 = .ok (.ok page, alloc') →
    ¬ inUse alloc page ∧ page < 2 ^ 52 ∧ ∀ other, inUse alloc' other ↔ other = page ∨ inUse alloc other
  freed : ∀ alloc page alloc', PageAllocator.freePages alloc page 1 = .ok alloc' →
    ∀ other, inUse alloc' other ↔ other ≠ page ∧ inUse alloc other

section Attach

variable [Entry E] [Mapper M E] [Mmu E] [LawfulEntry E]
theorem child_blank : (scheme M).child 0 = none := child_of_invalid zero_invalid

theorem tableWord_blank : TableWord E 0 := Or.inl ⟨zero_invalid, decode_zero false⟩

theorem leafPage_blank : leafPage E 0 = none := by
  rw [leafPage, decode_zero]

theorem tableWord_new (above : pageOffset ≤ fresh) (below : fresh < 2 ^ 52) :
    TableWord E (Entry.bits (Entry.new (fresh - pageOffset) false [] : E)) ∧
      (scheme M).child (Entry.bits (Entry.new (fresh - pageOffset) false [] : E)) = some fresh := by
  have small : fresh - pageOffset < 2 ^ 26 := by
    rw [pageOffset_eq]
    omega
  have back : virtPage (fresh - pageOffset) = fresh := by
    unfold virtPage
    omega
  have valid : Entry.isValid (Entry.ofBits (Entry.bits (Entry.new (fresh - pageOffset) false [] : E)) : E) = true := by
    rw [ofBits_bits, new_valid]
  have shape : TableWord E (Entry.bits (Entry.new (fresh - pageOffset) false [] : E)) := by
    refine Or.inr ⟨valid, ?_, ?_⟩
    · rw [ofBits_bits, table_pageNumber _ small, back]
      exact below
    · rw [ofBits_bits, table_pageNumber _ small, decode_table _ small]
  refine ⟨shape, ?_⟩
  rw [shape.child_eq valid, ofBits_bits, table_pageNumber _ small, back]

def hang (M : Type) {E : Type} [Entry E] [Mapper M E] (mem : Memory) (table depth vpn fresh : Nat) : Memory :=
  Scheme.attach mem table ((scheme M).digit depth vpn) (Entry.bits (Entry.new (fresh - pageOffset) false [] : E))
    fresh fun _ => 0

omit [LawfulEntry E] in
theorem Tree.hang_word (tree : Tree M mem root owned) (below : depth < height M)
    (place : (scheme M).tableAt mem root depth vpn = some table) (unused : ¬ owned fresh) {i other found : Nat}
    (bound : i ≤ height M) (reached : (scheme M).tableAt mem root i other = some found) (entry : Nat)
    (elsewhere : ¬ (i = depth ∧ (scheme M).Agree depth other vpn ∧ entry = (scheme M).digit depth vpn)) :
    hang M mem table depth vpn fresh found entry = mem found entry := by
  have different : found ≠ fresh := by
    rintro rfl
    exact unused (tree.housed found ⟨i, other, bound, reached⟩).1
  rw [hang, Scheme.attach, Scheme.write_other, update_of_ne different]
  rintro ⟨rfl, same⟩
  obtain ⟨rfl, agree⟩ := tree.separate i depth other vpn found bound (by omega) reached place
  exact elsewhere ⟨rfl, agree, same⟩

variable (tree : Tree M mem root owned) (below : depth < height M)
  (place : (scheme M).tableAt mem root depth vpn = some table)
  (free : (scheme M).child (mem table ((scheme M).digit depth vpn)) = none) (unused : ¬ owned fresh)
  (above : pageOffset ≤ fresh) (inside : fresh < 2 ^ 52)
include tree below place free unused above inside

theorem Tree.tableAt_hang {i : Nat} (bound : i ≤ height M) (other : Nat) :
    (scheme M).tableAt (hang M mem table depth vpn fresh) root i other =
      if (scheme M).Agree (depth + 1) other vpn ∧ i = depth + 1 then some fresh
      else (scheme M).tableAt mem root i other :=
  tree.separate.tableAt_attach below place free (fun reached => unused (tree.housed fresh reached).1)
    (fun _ => child_blank) (tableWord_new above inside).2 bound other

theorem Tree.reachable_hang {found : Nat} :
    (scheme M).Reachable (hang M mem table depth vpn fresh) root (height M) found ↔
      found = fresh ∨ (scheme M).Reachable mem root (height M) found :=
  tree.separate.reachable_attach below place free (fun reached => unused (tree.housed fresh reached).1)
    (fun _ => child_blank) (tableWord_new above inside).2

theorem Tree.hang : Tree M (hang M mem table depth vpn fresh) root (fun page => page = fresh ∨ owned page) := by
  have unreached : ¬ (scheme M).Reachable mem root (height M) fresh := fun reached => unused (tree.housed fresh reached).1
  refine ⟨tree.separate.attach below place free unreached (fun _ => child_blank) (tableWord_new above inside).2, ?_, ?_, ?_⟩
  · intro found reached
    rcases (tree.reachable_hang below place free unused above inside).mp reached with rfl | old
    · exact ⟨Or.inl rfl, inside⟩
    · obtain ⟨mine, rest⟩ := tree.housed found old
      exact ⟨Or.inr mine, rest⟩
  · intro i other found positive bound reached
    rw [tree.tableAt_hang below place free unused above inside bound] at reached
    split at reached
    · obtain rfl := Option.some.inj reached
      exact above
    · exact tree.linear i other found positive bound reached
  · intro i other found bound reached
    rw [tree.tableAt_hang below place free unused above inside (by omega)] at reached
    split at reached
    · obtain rfl := Option.some.inj reached
      have blank : Kernel31.Paging.hang M mem table depth vpn fresh fresh ((scheme M).digit i other) = 0 := by
        have different : table ≠ fresh := by
          rintro rfl
          exact unreached ⟨depth, vpn, by omega, place⟩
        rw [Kernel31.Paging.hang, Scheme.attach, Scheme.write_other _ _ fun same => different same.1.symm,
          update_self]
      rw [blank]
      exact tableWord_blank
    · by_cases here : i = depth ∧ (scheme M).Agree depth other vpn ∧ (scheme M).digit i other = (scheme M).digit depth vpn
      · obtain ⟨rfl, agree, digit⟩ := here
        rw [Scheme.tableAt_agree agree, place] at reached
        obtain rfl := Option.some.inj reached
        have word : Kernel31.Paging.hang M mem table i vpn fresh table ((scheme M).digit i other) =
            Entry.bits (Entry.new (fresh - pageOffset) false [] : E) := by
          rw [digit, Kernel31.Paging.hang, Scheme.attach, Scheme.write_same]
        rw [word]
        exact (tableWord_new (M := M) above inside).1
      · rw [tree.hang_word below place unused (by omega) reached _ here]
        exact tree.shaped i other found bound reached

theorem Tree.lookup_hang (other : Nat) :
    lookup M (Kernel31.Paging.hang M mem table depth vpn fresh) root other = lookup M mem root other := by
  unfold lookup Scheme.leafAt
  rw [tree.tableAt_hang below place free unused above inside le_rfl]
  split
  · rename_i new
    obtain ⟨agree, last⟩ := new
    have old : (scheme M).tableAt mem root (height M) other = none := by
      rw [last, Scheme.tableAt_agree agree]
      simp [Scheme.tableAt, place, free]
    have different : table ≠ fresh := by
      rintro rfl
      exact unused (tree.housed table ⟨depth, vpn, by omega, place⟩).1
    rw [old, Option.map_some, Option.bind_some, Kernel31.Paging.hang, Scheme.attach,
      Scheme.write_other _ _ fun same => different same.1.symm, update_self]
    exact leafPage_blank
  · cases reached : (scheme M).tableAt mem root (height M) other with
    | none => rfl
    | some found =>
      rw [Option.map_some, Option.map_some, tree.hang_word below place unused le_rfl reached]
      rintro ⟨last, _⟩
      omega

end Attach

section WriteLast

variable [Entry E] [Mapper M E] [Mmu E]
theorem Tree.mono (tree : Tree M mem root owned) {wider : Nat → Prop} (larger : ∀ page, owned page → wider page) :
    Tree M mem root wider :=
  ⟨tree.separate, fun table reached => ⟨larger table (tree.housed table reached).1, (tree.housed table reached).2⟩,
    tree.linear, tree.shaped⟩

theorem Tree.write_last (tree : Tree M mem root owned)
    (place : (scheme M).tableAt mem root (height M) vpn = some table) (word : BitVec 64) :
    Tree M (Scheme.write mem table ((scheme M).digit (height M) vpn) word) root owned := by
  refine ⟨tree.separate.write_last place word, ?_, ?_, ?_⟩
  · rintro found ⟨i, other, bound, reached⟩
    rw [tree.separate.tableAt_write_last place word other bound] at reached
    exact tree.housed found ⟨i, other, bound, reached⟩
  · intro i other found positive bound reached
    rw [tree.separate.tableAt_write_last place word other bound] at reached
    exact tree.linear i other found positive bound reached
  · intro i other found bound reached
    rw [tree.separate.tableAt_write_last place word other bound.le] at reached
    rw [Scheme.write_other]
    · exact tree.shaped i other found bound reached
    · rintro ⟨rfl, _⟩
      obtain ⟨rfl, _⟩ := tree.separate i (height M) other vpn found bound.le le_rfl reached place
      omega

theorem Tree.lookup_write_last [LawfulMapper M] (tree : Tree M mem root owned)
    (place : (scheme M).tableAt mem root (height M) vpn = some table) (word : BitVec 64) (other : Nat) :
    lookup M (Scheme.write mem table ((scheme M).digit (height M) vpn) word) root other =
      if other % 2 ^ (9 * Mapper.level M) = vpn % 2 ^ (9 * Mapper.level M) then leafPage E word
      else lookup M mem root other := by
  unfold lookup
  rw [tree.separate.leafAt_write place word other, height_succ]
  simp only [agree_iff]
  split <;> rfl

omit [Mmu E] in
theorem digit_height (vpn : Nat) : (scheme M).digit (height M) vpn = vpn &&& (Mapper.ptesPerDir M - 1) := by
  simp [scheme, height, Mapper.index]

end WriteLast

def Keeps (M : Type) {E : Type} [Entry E] [Mapper M E] (mem mem' : Memory) (root : Nat) : Prop :=
  ∀ depth key table, depth ≤ height M → (scheme M).tableAt mem root depth key = some table →
    (scheme M).tableAt mem' root depth key = some table

structure Grows (M : Type) {E A : Type} [Entry E] [Mapper M E] (inUse : A → Nat → Prop) (root : Nat)
    (machine machine' : Machine A) : Prop where
  used : ∀ page, inUse machine.alloc page → inUse machine'.alloc page
  tables : ∀ table, (scheme M).Reachable machine'.mem root (height M) table →
    (scheme M).Reachable machine.mem root (height M) table ∨ ¬ inUse machine.alloc table

theorem Grows.refl [Entry E] [Mapper M E] (inUse : A → Nat → Prop) (root : Nat) (machine : Machine A) :
    Grows M inUse root machine machine :=
  ⟨fun _ used => used, fun _ reached => Or.inl reached⟩

theorem Grows.trans [Entry E] [Mapper M E] {first second third : Machine A}
    (before : Grows M inUse root first second) (after : Grows M inUse root second third) :
    Grows M inUse root first third := by
  refine ⟨fun page used => after.used page (before.used page used), fun table reached => ?_⟩
  rcases after.tables table reached with old | new
  · exact before.tables table old
  · exact Or.inr fun used => new (before.used table used)

def OnlyTables (M : Type) {E : Type} [Entry E] [Mapper M E] (mem mem' : Memory) (root : Nat) : Prop :=
  ∀ page, ¬ (scheme M).Reachable mem' root (height M) page → mem' page = mem page

section Map4k

variable [Entry E] [Mapper M E] [Mmu E] [LawfulEntry E] [PageAllocator A]
variable (sound : SoundAllocator inUse)
include sound

variable {machine machine' : Machine A}

omit [Entry E] [Mmu E] [LawfulEntry E] in
theorem Table.new_ok {table : Table E} (run : Table.new machine = .ok (table, machine')) :
    ¬ inUse machine.alloc table.page ∧ table.page < 2 ^ 52 ∧
      machine'.mem = update machine.mem table.page (fun _ => 0) ∧
      ∀ other, inUse machine'.alloc other ↔ other = table.page ∨ inUse machine.alloc other := by
  simp only [Table.new, bind_ok, Prod.exists] at run
  obtain ⟨result, alloc, allocated, run⟩ := run
  cases result with
  | error failure => simp [throw_ok] at run
  | ok page =>
    obtain ⟨⟩ := pure_ok.mp run
    obtain ⟨unused, small, after⟩ := sound.fresh _ _ _ allocated
    rw [Table.fromPage_page small]
    exact ⟨unused, small, rfl, after⟩

theorem descend_spec {level : Nat} {table table' : Table E}
    (tree : Tree M machine.mem root (inUse machine.alloc)) (levels : depth + level = height M)
    (place : (scheme M).tableAt machine.mem root depth vpn = some table.page)
    (run : descend M vpn level table machine = .ok (table', machine')) :
    Tree M machine'.mem root (inUse machine'.alloc) ∧
      (scheme M).tableAt machine'.mem root (height M) vpn = some table'.page ∧
      Keeps M machine.mem machine'.mem root ∧
      (∀ other, lookup M machine'.mem root other = lookup M machine.mem root other) ∧
      Grows M inUse root machine machine' ∧ OnlyTables M machine.mem machine'.mem root := by
  induction level generalizing depth table machine with
  | zero =>
    simp only [descend, pure_ok, Prod.mk.injEq] at run
    obtain ⟨rfl, rfl⟩ := run
    obtain rfl : depth = height M := by omega
    exact ⟨tree, place, fun _ _ _ _ found => found, fun _ => rfl, Grows.refl inUse root machine, fun _ _ => rfl⟩
  | succ level ih =>
    have digit : (scheme M).digit depth vpn = Mapper.index M (level + 1) vpn := by
      have same : Mapper.level M - 1 - depth = level + 1 := by
        unfold height at levels
        omega
      simp [scheme, same]
    simp only [descend, ← digit] at run
    split at run
    · rename_i missing
      have free : (scheme M).child (machine.mem table.page ((scheme M).digit depth vpn)) = none := by
        change entryTable (table.getEntry machine.mem ((scheme M).digit depth vpn)) = none
        rw [entryTable, if_neg (by simpa using missing)]
      simp only [bind_ok, Prod.exists] at run
      obtain ⟨subTable, middle, created, frame, numbered, run⟩ := run
      obtain ⟨unused, inside, cleared, after⟩ := Table.new_ok sound created
      obtain ⟨above, same⟩ := physPage_ok numbered
      rw [same] at run
      have small : subTable.page - pageOffset < 2 ^ 26 := by
        rw [pageOffset_eq]
        omega
      have back : virtPage (subTable.page - pageOffset) = subTable.page := by
        rw [virtPage, Nat.sub_add_cancel above]
      rw [table_pageNumber _ small, back] at run
      have hung : table.setEntry middle.mem ((scheme M).digit depth vpn)
          (Entry.new (subTable.page - pageOffset) false [] : E) =
          hang M machine.mem table.page depth vpn subTable.page := by
        rw [Table.setEntry, cleared]
        rfl
      have tree' : Tree M (hang M machine.mem table.page depth vpn subTable.page) root (inUse middle.alloc) :=
        (tree.hang (by omega) place free unused above inside).mono fun page => (after page).mpr
      rw [hung] at run
      have next : (scheme M).tableAt (hang M machine.mem table.page depth vpn subTable.page) root (depth + 1) vpn =
          some (Table.fromPage subTable.page : Table E).page := by
        rw [tree.tableAt_hang (by omega) place free unused above inside (by omega),
          if_pos ⟨fun _ _ => rfl, rfl⟩, Table.fromPage_page inside]
      obtain ⟨final, last, grown, kept, grows, only⟩ := ih tree' (by omega) next run
      refine ⟨final, last, ?_, fun other => (kept other).trans ?_, Grows.trans ⟨?_, ?_⟩ grows, fun page outside => ?_⟩
      · intro i other found bound reached
        apply grown i other found bound
        rw [tree.tableAt_hang (by omega) place free unused above inside bound]
        split
        · rename_i new
          obtain ⟨agree, rfl⟩ := new
          rw [Scheme.tableAt_agree agree, Scheme.tableAt, place, Option.bind_some, free] at reached
          cases reached
        · exact reached
      · exact tree.lookup_hang (by omega) place free unused above inside other
      · exact fun page used => (after page).mpr (Or.inr used)
      · intro found reached
        rcases (tree.reachable_hang (by omega) place free unused above inside).mp reached with rfl | old
        · exact Or.inr unused
        · exact Or.inl old
      · -- the table written to and the new one are both on the way
        have off {i key found : Nat} (bound : i ≤ height M)
            (reached : (scheme M).tableAt (hang M machine.mem table.page depth vpn subTable.page) root i key = some found) :
            page ≠ found := by
          rintro rfl
          exact outside ⟨i, key, bound, grown i key page bound reached⟩
        have new : page ≠ subTable.page := by
          rw [Table.fromPage_page inside] at next
          exact off (by omega) next
        have parent : page ≠ table.page := by
          have reached : (scheme M).tableAt (hang M machine.mem table.page depth vpn subTable.page) root depth vpn =
              some table.page := by
            rw [tree.tableAt_hang (by omega) place free unused above inside (by omega), if_neg (by omega), place]
          exact off (by omega) reached
        refine (only page outside).trans ?_
        simp only [hang, Scheme.attach, Scheme.write, update_of_ne parent, update_of_ne new]
    · rename_i valid
      have next : (scheme M).tableAt machine.mem root (depth + 1) vpn =
          some (Table.fromPage (virtPage (Entry.pageNumber
            (table.getEntry machine.mem ((scheme M).digit depth vpn)))) : Table E).page := by
        rw [Scheme.tableAt, place, Option.bind_some]
        change entryTable (table.getEntry machine.mem ((scheme M).digit depth vpn)) = _
        rw [entryTable, if_pos (by simpa using valid)]
      exact ih tree (by omega) next run

variable [LawfulMapper M]

theorem map4k_spec {self : M} {ppn : Nat} {mode : List PageACL}
    (tree : Tree M machine.mem (rootTable self).page (inUse machine.alloc))
    (run : map4k self machine vpn ppn mode = .ok machine') :
    Tree M machine'.mem (rootTable self).page (inUse machine'.alloc) ∧
      Keeps M machine.mem machine'.mem (rootTable self).page ∧
      (∃ table, (scheme M).tableAt machine'.mem (rootTable self).page (height M) vpn = some table) ∧
      (ppn < 2 ^ Mmu.fieldBits E → PageACL.read ∈ mode → ∀ other,
        lookup M machine'.mem (rootTable self).page other =
          if other % 2 ^ (9 * Mapper.level M) = vpn % 2 ^ (9 * Mapper.level M) then
            some (ppn, Mmu.granted (E := E) mode)
          else lookup M machine.mem (rootTable self).page other) ∧
      Grows M inUse (rootTable self).page machine machine' ∧
      OnlyTables M machine.mem machine'.mem (rootTable self).page := by
  simp only [map4k, bind_ok, pure_ok, Prod.exists] at run
  obtain ⟨table, middle, descended, rfl⟩ := run
  obtain ⟨tree', last, grown, kept, grows, only⟩ := descend_spec sound tree (Nat.zero_add _) rfl descended
  simp only [← digit_height, Table.setEntry]
  refine ⟨tree'.write_last last _, ?_, ⟨table.page, ?_⟩, ?_, ⟨grows.used, ?_⟩, fun page outside => ?_⟩
  · intro i other found bound reached
    rw [tree'.separate.tableAt_write_last last _ other bound]
    exact grown i other found bound reached
  · rw [tree'.separate.tableAt_write_last last _ vpn le_rfl]
    exact last
  · intro small readable other
    rw [tree'.lookup_write_last last, kept other, leafPage, decode_page _ _ small readable]
  · rintro found ⟨depth, key, bound, reached⟩
    rw [tree'.separate.tableAt_write_last last _ key bound] at reached
    exact grows.tables found ⟨depth, key, bound, reached⟩
  · have off {i key found : Nat} (bound : i ≤ height M)
        (reached : (scheme M).tableAt middle.mem (rootTable self).page i key = some found) : page ≠ found := by
      rintro rfl
      exact outside ⟨i, key, bound, (tree'.separate.tableAt_write_last last _ key bound).trans reached⟩
    rw [Scheme.write, update_of_ne (off le_rfl last)]
    refine only page ?_
    rintro ⟨i, key, bound, reached⟩
    exact off bound reached rfl

end Map4k

end Kernel31.Paging
