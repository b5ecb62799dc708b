import Kernel31.Paging.Model

namespace Kernel31.Paging

open Page Checked Radix Mapper
open Entry (isValid ofBits pageNumber)

/-- The constants both mappers share. -/
class LawfulMapper (M : Type) {E : outParam Type} [Mapper M E] : Prop where
  ptes : Mapper.ptesPerDir M = 512
  bits : Mapper.pteBits M = 9
  levels : 3 ≤ Mapper.level M ∧ Mapper.level M ≤ Mapper.maxSupportedLevel
  root : ∀ table, Mapper.rootTable (Mapper.ofRoot table : M) = table

instance : LawfulMapper Sv39Mapper := ⟨rfl, rfl, by decide, fun _ => rfl⟩

instance : LawfulMapper Arm64Mapper := ⟨rfl, rfl, by decide, fun _ => rfl⟩

section Pages

variable {E : Type}

theorem Table.fromPage_page {page : Nat} (small : page < 2 ^ 52) : (Table.fromPage page : Table E).page = page := by
  simp only [Table.fromPage, Table.page, pageBits, Nat.shiftLeft_eq, Nat.shiftRight_eq_div_pow]
  omega

theorem pageOffset_eq : pageOffset = 2 ^ 52 - 2 ^ 26 := by decide

theorem physPage_ok {page frame : Nat} (run : physPage page = .ok frame) :
    pageOffset ≤ page ∧ frame = page - pageOffset := by
  unfold physPage at run
  split at run
  · simp [throw_ok] at run
  · exact ⟨by omega, (pure_ok.mp run).symm⟩

theorem physPage_eq {page : Nat} (above : pageOffset ≤ page) : physPage page = .ok (page - pageOffset) := by
  rw [physPage, if_neg (by omega)]
  rfl

end Pages

section Scheme

variable (M : Type) {E : Type} [Entry E] [Mapper M E]

def entryTable (entry : E) : Option Nat :=
  if isValid entry then some (Table.fromPage (virtPage (pageNumber entry)) : Table E).page else none

/-- The tables as a tree: depth 0 is the root, of level `LEVEL - 1`. -/
def scheme : Scheme Nat Nat Nat (BitVec 64) where
  digit depth vpn := index M (Mapper.level M - 1 - depth) vpn
  child word := entryTable (ofBits word : E)

def height : Nat := Mapper.level M - 1

end Scheme

theorem digits_iff_mod (levels vpn other : Nat) :
    (∀ level, level < levels → vpn / 512 ^ level % 512 = other / 512 ^ level % 512) ↔
      vpn % 512 ^ levels = other % 512 ^ levels := by
  induction levels with
  | zero => simp [Nat.mod_one]
  | succ levels ih =>
    have cut := Nat.mod_pow_succ (b := 512) (k := levels) (x := vpn)
    have cut' := Nat.mod_pow_succ (b := 512) (k := levels) (x := other)
    constructor
    · intro same
      rw [cut, cut', ih.mp fun level below => same level (by omega), same levels (by omega)]
    · intro same
      have lower : vpn % 512 ^ levels = other % 512 ^ levels := by
        have divides : 512 ^ levels ∣ 512 ^ (levels + 1) := pow_dvd_pow _ (Nat.le_succ _)
        rw [← Nat.mod_mod_of_dvd vpn divides, same, Nat.mod_mod_of_dvd other divides]
      intro level below
      rcases Nat.lt_succ_iff_lt_or_eq.mp below with inside | rfl
      · exact ih.mpr lower level inside
      · rw [cut, cut', lower] at same
        exact Nat.eq_of_mul_eq_mul_left (Nat.pow_pos (by omega)) (Nat.add_left_cancel same)

section Index

variable (M : Type) {E : Type} [Mapper M E] [LawfulMapper M]

theorem index_eq (level vpn : Nat) : index M level vpn = vpn / 512 ^ level % 512 := by
  rw [index, LawfulMapper.ptes (M := M), LawfulMapper.bits (M := M), Nat.shiftRight_eq_div_pow,
    pow_mul, show 512 - 1 = 2 ^ 9 - 1 from rfl, Nat.and_two_pow_sub_one_eq_mod]
  rfl

theorem height_succ : height M + 1 = Mapper.level M := by
  have levels := (LawfulMapper.levels (M := M)).1
  unfold height
  omega

theorem agree_iff [Entry E] (vpn other : Nat) :
    (scheme M).Agree (Mapper.level M) vpn other ↔
      vpn % 2 ^ (9 * Mapper.level M) = other % 2 ^ (9 * Mapper.level M) := by
  rw [pow_mul, show 2 ^ 9 = 512 from rfl, ← digits_iff_mod]
  simp only [Scheme.Agree, scheme, index_eq]
  constructor
  · intro agree level below
    have digit := agree (Mapper.level M - 1 - level) (by omega)
    rwa [show Mapper.level M - 1 - (Mapper.level M - 1 - level) = level by omega] at digit
  · intro same depth below
    exact same _ (by omega)

end Index

def TableWord (E : Type) [Entry E] [Mmu E] (word : BitVec 64) : Prop :=
  (isValid (ofBits word : E) = false ∧ Mmu.decode (E := E) false word = .invalid) ∨
    (isValid (ofBits word : E) = true ∧ virtPage (pageNumber (ofBits word : E)) < 2 ^ 52 ∧
      Mmu.decode (E := E) false word = .table (pageNumber (ofBits word : E)))

/-- No table is shared, all are pages of `owned`, those below the root in the linear map, and the words above the
    last level are blank or refer to tables. -/
structure Tree (M : Type) {E : Type} [Entry E] [Mapper M E] [Mmu E] (mem : Memory) (root : Nat)
    (owned : Nat → Prop) : Prop where
  separate : (scheme M).Separate mem root (height M)
  housed : ∀ table, (scheme M).Reachable mem root (height M) table →
    owned table ∧ table < 2 ^ 52
  linear : ∀ depth key table, 0 < depth → depth ≤ height M → (scheme M).tableAt mem root depth key = some table →
    pageOffset ≤ table
  shaped : ∀ depth key table, depth < height M → (scheme M).tableAt mem root depth key = some table →
    TableWord E (mem table ((scheme M).digit depth key))

theorem TableWord.child_eq {M E : Type} [Entry E] [Mapper M E] [Mmu E] {word : BitVec 64} (shape : TableWord E word)
    (valid : isValid (ofBits word : E) = true) :
    (scheme M).child word = some (virtPage (pageNumber (ofBits word : E))) := by
  rcases shape with ⟨invalid, _⟩ | ⟨_, small, _⟩
  · rw [valid] at invalid
    cases invalid
  · simp only [scheme, entryTable, valid, if_true, Table.fromPage_page small]

theorem child_of_invalid {M E : Type} [Entry E] [Mapper M E] {word : BitVec 64}
    (invalid : isValid (ofBits word : E) = false) : (scheme M).child word = none := by
  simp only [scheme, entryTable, invalid, Bool.false_eq_true, if_false]

section Walk

variable (M : Type) {E : Type} [Entry E] [Mapper M E] [Mmu E]

def walk (mem : Memory) (vpn : Nat) : Nat → Nat → Option (Nat × Mmu.Perms E)
  | 0, frame =>
    match Mmu.decode (E := E) true (mem (virtPage frame) (index M 0 vpn)) with
    | .page page perms => some (page, perms)
    | _ => none
  | level + 1, frame =>
    match Mmu.decode (E := E) false (mem (virtPage frame) (index M (level + 1) vpn)) with
    | .table next => walk mem vpn level next
    | .block page perms => some (page + vpn % 2 ^ (9 * (level + 1)), perms)
    | _ => none

def leafPage (E : Type) [Mmu E] (word : BitVec 64) : Option (Nat × Mmu.Perms E) :=
  match Mmu.decode (E := E) true word with
  | .page page perms => some (page, perms)
  | _ => none

def lookup (mem : Memory) (root vpn : Nat) : Option (Nat × Mmu.Perms E) :=
  ((scheme M).leafAt mem root (height M) vpn).bind (leafPage E)

variable {M} {mem : Memory} {root : Nat} {owned : Nat → Prop}

theorem Tree.walk_eq (tree : Tree M mem root owned) (vpn : Nat) {level depth frame : Nat}
    (levels : depth + level = height M) (place : (scheme M).tableAt mem root depth vpn = some (virtPage frame)) :
    walk M mem vpn level frame = lookup M mem root vpn := by
  induction level generalizing depth frame with
  | zero =>
    have last : depth = height M := by omega
    subst last
    have digit : (scheme M).digit (height M) vpn = index M 0 vpn := by
      simp [scheme, height]
    rw [walk, lookup, Scheme.leafAt, place, Option.map_some, Option.bind_some, digit]
    rfl
  | succ level ih =>
    have digit : (scheme M).digit depth vpn = index M (level + 1) vpn := by
      have same : Mapper.level M - 1 - depth = level + 1 := by
        unfold height at levels
        omega
      simp [scheme, same]
    have next : (scheme M).tableAt mem root (depth + 1) vpn =
        (scheme M).child (mem (virtPage frame) ((scheme M).digit depth vpn)) := by
      simp [Scheme.tableAt, place]
    rw [walk, ← digit]
    have shape := tree.shaped depth vpn _ (by omega) place
    rcases id shape with ⟨invalid, decoded⟩ | ⟨valid, _, decoded⟩
    · rw [child_of_invalid invalid] at next
      rw [decoded, lookup, Scheme.leafAt, Scheme.tableAt_none next (by omega)]
      rfl
    · rw [shape.child_eq valid] at next
      rw [decoded]
      exact ih (by omega) next

theorem Tree.walk_root {table : Table E} (tree : Tree M mem table.page owned) {frame : Nat}
    (rooted : table.pageNumber = .ok frame) (vpn : Nat) :
    walk M mem vpn (Mapper.level M - 1) frame = lookup M mem table.page vpn := by
  obtain ⟨above, same⟩ := physPage_ok rooted
  refine tree.walk_eq vpn (Nat.zero_add _) ?_
  rw [Scheme.tableAt, same, virtPage, Nat.sub_add_cancel above]

end Walk

end Kernel31.Paging
