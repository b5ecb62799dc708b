import Kernel31.Paging.Translation

namespace Kernel31.Paging

open Page Checked Radix Function List LawfulMapper
open Mapper (DestroyState destroyFuel destroyLoop destroyStep destroyWithAllocator ptesPerDir rootTable)
open Entry (isValid ofBits pageNumber)

variable {E : Type} {mem : Memory} {root : Nat} {owned : Nat → Prop} {s s' : DestroyState E} {pages : List Nat}

section Pages

variable (M : Type) [Entry E] [Mapper M E]

def entryPage (mem : Memory) (page index : Nat) : Option Nat :=
  if isValid (ofBits (mem page index) : E) then
    some (virtPage (pageNumber (ofBits (mem page index) : E)))
  else none

/-- At level 1 the pages of the tables below, from level 2 on what each table below gives and then the table's own
    page. -/
def freedPages (mem : Memory) : Nat → Nat → List Nat
  | 0, _ => []
  | 1, page => (range 512).filterMap (entryPage (E := E) mem page)
  | level + 2, page =>
    ((range 512).flatMap fun index =>
      ((scheme M).child (mem page index)).elim [] (freedPages mem (level + 1))) ++ [page]

def freeAll {A : Type} [PageAllocator A] (alloc : A) (pages : List Nat) : Exec A :=
  pages.foldlM (fun alloc page => PageAllocator.freePages alloc page 1) alloc

theorem freeAll_one {A : Type} [PageAllocator A] (alloc : A) (page : Nat) :
    freeAll alloc [page] = PageAllocator.freePages alloc page 1 := bind_pure _

theorem freeAll_append {A : Type} [PageAllocator A] (alloc : A) (first second : List Nat) :
    freeAll alloc (first ++ second) = freeAll alloc first >>= fun alloc => freeAll alloc second := by
  simp only [freeAll, foldlM_append]

theorem freeAll_inUse {A : Type} [PageAllocator A] {inUse : A → Nat → Prop} (sound : SoundAllocator inUse)
    {alloc alloc' : A} {pages : List Nat} (run : freeAll alloc pages = .ok alloc') (other : Nat) :
    inUse alloc' other ↔ other ∉ pages ∧ inUse alloc other := by
  induction pages generalizing alloc with
  | nil =>
    obtain rfl := pure_ok.mp run
    simp
  | cons page pages ih =>
    rw [freeAll, foldlM_cons] at run
    obtain ⟨middle, first, run⟩ := bind_ok.mp run
    rw [ih run, sound.freed _ _ _ first, mem_cons, not_or, and_assoc, and_left_comm]

theorem freeEntries_eq {A : Type} [PageAllocator A] (mem : Memory) (table : Table E) (indexes : List Nat) (alloc : A) :
    Mapper.freeEntries mem table indexes alloc = freeAll alloc (indexes.filterMap (entryPage (E := E) mem table.page)) := by
  induction indexes generalizing alloc with
  | nil => rfl
  | cons index indexes ih =>
    rw [Mapper.freeEntries, filterMap_cons, entryPage]
    change (if isValid (ofBits (mem table.page index) : E) = true then _ else _) = _
    split
    · simp only [freeAll, foldlM_cons]
      congr 1
      funext after
      exact ih after
    · exact ih alloc

end Pages

section Keys

variable (M : Type) [Entry E] [Mapper M E] [LawfulMapper M]

theorem exists_key {depth : Nat} (inside : depth ≤ height M) (key : Nat) {entry : Nat} (small : entry < 512) :
    ∃ other, (scheme M).Agree depth key other ∧ (scheme M).digit depth other = entry := by
  have levels := height_succ M
  obtain ⟨level, same⟩ : ∃ level, depth + level = height M := ⟨height M - depth, by omega⟩
  have positive : 0 < 512 ^ level := Nat.pow_pos (by omega)
  refine ⟨(key / 512 ^ (level + 1) * 512 + entry) * 512 ^ level, ?_, ?_⟩
  · intro i below
    simp only [scheme, index_eq]
    obtain ⟨rise, top⟩ : ∃ rise, Mapper.level M - 1 - i = level + 1 + rise := ⟨Mapper.level M - 1 - i - (level + 1), by omega⟩
    have upper : (key / 512 ^ (level + 1) * 512 + entry) * 512 ^ level / 512 ^ (level + 1) = key / 512 ^ (level + 1) := by
      rw [pow_succ, ← Nat.div_div_eq_div_mul _ (512 ^ level) 512, Nat.mul_div_cancel _ positive]
      omega
    rw [top, pow_add 512 (level + 1) rise, ← Nat.div_div_eq_div_mul, ← Nat.div_div_eq_div_mul, upper]
  · simp only [scheme, index_eq]
    rw [show Mapper.level M - 1 - depth = level by omega, Nat.mul_div_cancel _ positive]
    omega

end Keys

section Round

variable {M A : Type} [Entry E] [Mapper M E] [PageAllocator A] {alloc alloc' : A} {next : Option (DestroyState E)}

/-- What a round can do: the pages it frees, and the state it leaves unless it ends the loop. -/
inductive Round (M : Type) {E : Type} [Entry E] [Mapper M E] (mem : Memory) (s : DestroyState E) :
    List Nat → Option (DestroyState E) → Prop where
  | entries (last : s.currentLevel = 1) :
      Round M mem s ((range (ptesPerDir M)).filterMap (entryPage (E := E) mem (s.pageTables s.currentLevel).page))
        (some { s with
          currentLevel := s.currentLevel + 1
          indexes := update s.indexes (s.currentLevel + 1) (s.indexes (s.currentLevel + 1) + 1) })
  | root (upper : s.currentLevel ≠ 1) (full : s.indexes s.currentLevel = ptesPerDir M)
      (linear : pageOffset ≤ (s.pageTables s.currentLevel).page) (top : s.currentLevel = Mapper.level M - 1) :
      Round M mem s [(s.pageTables s.currentLevel).page] none
  | table (upper : s.currentLevel ≠ 1) (full : s.indexes s.currentLevel = ptesPerDir M)
      (linear : pageOffset ≤ (s.pageTables s.currentLevel).page) (inner : s.currentLevel ≠ Mapper.level M - 1) :
      Round M mem s [(s.pageTables s.currentLevel).page]
        (some { s with
          currentLevel := s.currentLevel + 1
          indexes := update (update s.indexes s.currentLevel 0) (s.currentLevel + 1)
            (s.indexes (s.currentLevel + 1) + 1) })
  | skip (upper : s.currentLevel ≠ 1) (more : s.indexes s.currentLevel ≠ ptesPerDir M)
      (invalid : entryPage (E := E) mem (s.pageTables s.currentLevel).page (s.indexes s.currentLevel) = none) :
      Round M mem s []
        (some { s with indexes := update s.indexes s.currentLevel (s.indexes s.currentLevel + 1) })
  | descend (page : Nat) (upper : s.currentLevel ≠ 1) (more : s.indexes s.currentLevel ≠ ptesPerDir M)
      (valid : entryPage (E := E) mem (s.pageTables s.currentLevel).page (s.indexes s.currentLevel) = some page) :
      Round M mem s []
        (some { s with
          currentLevel := s.currentLevel - 1
          pageTables := update s.pageTables (s.currentLevel - 1) (Table.fromPage page) })

theorem destroyStep_cases (M : Type) [Mapper M E] (mem : Memory) (s : DestroyState E) :
    (∃ pages next, Round M mem s pages next ∧ ∀ alloc : A,
      destroyStep M mem s alloc = freeAll alloc pages >>= fun alloc => pure (next, alloc)) ∨
    (s.pageTables s.currentLevel).page < pageOffset ∧ ∀ alloc : A, destroyStep M mem s alloc = .error .overflow := by
  by_cases last : s.currentLevel = 1
  · refine .inl ⟨_, _, .entries last, fun alloc => ?_⟩
    rw [destroyStep, if_pos last, freeEntries_eq]
  by_cases full : s.indexes s.currentLevel = ptesPerDir M
  · by_cases linear : pageOffset ≤ (s.pageTables s.currentLevel).page
    · have back : virtPage ((s.pageTables s.currentLevel).page - pageOffset) = (s.pageTables s.currentLevel).page := by
        rw [virtPage, Nat.sub_add_cancel linear]
      by_cases top : s.currentLevel = Mapper.level M - 1
      · refine .inl ⟨_, _, .root last full linear top, fun alloc => ?_⟩
        simp only [destroyStep, if_neg last, if_pos full, if_pos top, Table.pageNumber, physPage_eq linear, ok_bind, back,
          freeAll_one]
      · refine .inl ⟨_, _, .table last full linear top, fun alloc => ?_⟩
        simp only [destroyStep, if_neg last, if_pos full, if_neg top, Table.pageNumber, physPage_eq linear, ok_bind, back, freeAll_one,
          update_of_ne (Nat.succ_ne_self s.currentLevel)]
    · refine .inr ⟨by omega, fun alloc => ?_⟩
      rw [destroyStep, if_neg last, if_pos full, Table.pageNumber, physPage, if_pos (by omega)]
      rfl
  cases valid : isValid (ofBits (mem (s.pageTables s.currentLevel).page (s.indexes s.currentLevel)) : E) with
  | false =>
    refine .inl ⟨[], _, .skip last full (by simp [entryPage, valid]), fun alloc => ?_⟩
    rw [destroyStep, if_neg last, if_neg full, if_pos (by simp [Table.getEntry, valid])]
    rfl
  | true =>
    refine .inl ⟨[], _, .descend _ last full (if_pos valid), fun alloc => ?_⟩
    rw [destroyStep, if_neg last, if_neg full, if_neg (by simp [Table.getEntry, valid])]
    rfl

theorem Round.of_step (run : destroyStep M mem s alloc = .ok (next, alloc')) :
    ∃ pages, Round M mem s pages next ∧ freeAll alloc pages = .ok alloc' := by
  obtain ⟨pages, _, round, step⟩ | ⟨_, step⟩ := destroyStep_cases (A := A) M mem s
  · rw [step] at run
    obtain ⟨after, freed, made⟩ := bind_ok.mp run
    obtain ⟨⟩ := pure_ok.mp made
    exact ⟨pages, round, freed⟩
  · rw [step] at run
    nomatch run

end Round

section Ends

variable {M : Type} [Entry E] [Mapper M E] [LawfulMapper M]
/-- The loop of `destroy_with_allocator` before its first round. -/
def destroyStart (self : M) : DestroyState E where
  currentLevel := Mapper.level M - 1
  pageTables := update (fun _ => Table.empty) (Mapper.level M - 1) (rootTable self)
  indexes := fun _ => 0

/-- Whatever the tables hold: the indexes below the current level are reset, and those above it have not come to
    their end. -/
structure InRange (M : Type) {E : Type} [Mapper M E] (now : DestroyState E) : Prop where
  low : 1 ≤ now.currentLevel
  high : now.currentLevel ≤ height M
  bound : ∀ level, now.indexes level ≤ 512
  below : ∀ level, level < now.currentLevel → now.indexes level = 0
  above : ∀ level, now.currentLevel < level → now.indexes level < 512
  last : now.indexes 1 = 0

omit [Entry E] in
theorem InRange.start (self : M) : InRange M (destroyStart self : DestroyState E) := by
  have deep := (LawfulMapper.levels (M := M)).1
  exact ⟨by dsimp only [destroyStart]; omega, le_rfl, fun _ => Nat.zero_le _, fun _ _ => rfl,
    fun _ _ => Nat.zero_lt_succ _, rfl⟩

theorem InRange.round (range : InRange M s) (round : Round M mem s pages (some s')) : InRange M s' := by
  obtain ⟨low, high, bound, below, above, last⟩ := range
  have ptes := ptes (M := M)
  have deep := (LawfulMapper.levels (M := M)).1
  have levels := height_succ M
  have here := bound s.currentLevel
  have next := above (s.currentLevel + 1) (Nat.lt_succ_self _)
  cases round <;> constructor <;> grind [update_apply]

def roundBound : Nat → Nat
  | 0 => 0
  | 1 => 1
  | level + 2 => 512 * (1 + roundBound (level + 1)) + 1

theorem roundBound_le (level : Nat) : roundBound level ≤ 514 ^ level := by
  induction level with
  | zero => decide
  | succ level ih =>
    cases level with
    | zero => decide
    | succ level =>
      have positive : 0 < 514 ^ (level + 1) := Nat.pow_pos (by omega)
      have large : 514 ≤ 514 ^ (level + 1) := Nat.le_self_pow (by omega) _
      rw [roundBound, pow_succ 514 (level + 1)]
      omega

/-- The rounds a level above the current one still takes after the table below it. -/
def share (s : DestroyState E) (level : Nat) : Nat := (511 - s.indexes level) * (1 + roundBound (level - 1)) + 1

/-- The rounds to come at most: those of the current table, and the shares of the levels above. -/
def remaining (M : Type) {E : Type} [Mapper M E] (s : DestroyState E) : Nat :=
  (if s.currentLevel = 1 then 1 else (512 - s.indexes s.currentLevel) * (1 + roundBound (s.currentLevel - 1)) + 1) +
    ((range' (s.currentLevel + 1) (height M - s.currentLevel)).map (share s)).sum

omit [Entry E] [LawfulMapper M] in
theorem levels_above {level : Nat} (inside : level < height M) :
    range' (level + 1) (height M - level) = (level + 1) :: range' (level + 1 + 1) (height M - (level + 1)) := by
  rw [show height M - level = height M - (level + 1) + 1 by omega, range'_succ]

omit [Entry E] in
theorem shares_congr {level count : Nat} (same : ∀ other, level ≤ other → s'.indexes other = s.indexes other) :
    ((range' level count).map (share s')).sum = ((range' level count).map (share s)).sum := by
  congr 1
  refine map_congr_left fun other member => ?_
  rw [share, share, same other (mem_range'_1.mp member).1]

theorem Round.lowers (round : Round M mem s pages (some s')) (range : InRange M s) : remaining M s' < remaining M s := by
  obtain ⟨low, high, bound, below, above, last⟩ := range
  have ptes := ptes (M := M)
  have deep := (LawfulMapper.levels (M := M)).1
  have levels := height_succ M
  have here := bound s.currentLevel
  have next := above (s.currentLevel + 1) (Nat.lt_succ_self _)
  cases round with
  | entries one =>
    have turn : 512 - (s.indexes (s.currentLevel + 1) + 1) = 511 - s.indexes (s.currentLevel + 1) := by omega
    rw [remaining, remaining, if_pos one, levels_above (show s.currentLevel < height M by omega), map_cons, sum_cons, share]
    dsimp only
    rw [if_neg (by omega), update_self, turn, shares_congr fun other more => update_of_ne (by omega) _ _]
    omega
  | table upper full linear inner =>
    have turn : 512 - (s.indexes (s.currentLevel + 1) + 1) = 511 - s.indexes (s.currentLevel + 1) := by omega
    rw [remaining, remaining, if_neg upper, levels_above (show s.currentLevel < height M by omega), map_cons, sum_cons, share]
    dsimp only
    rw [if_neg (by omega), update_self, turn, shares_congr fun other more =>
      (update_of_ne (by omega) _ _).trans (update_of_ne (by omega) _ _)]
    omega
  | skip upper more invalid =>
    rw [remaining, remaining, if_neg upper, if_neg upper]
    dsimp only
    rw [update_self, shares_congr fun other more => update_of_ne (by omega) _ _]
    have turn : 512 - s.indexes s.currentLevel = 512 - (s.indexes s.currentLevel + 1) + 1 := by omega
    rw [turn, Nat.succ_mul]
    omega
  | descend page upper more valid =>
    obtain ⟨level, current⟩ : ∃ level, s.currentLevel = level + 1 + 1 := ⟨s.currentLevel - 2, by omega⟩
    have zero : s.indexes (level + 1) = 0 := below _ (by omega)
    have fresh : (if level + 1 = 1 then 1 else (512 - s.indexes (level + 1)) * (1 + roundBound level) + 1) =
        roundBound (level + 1) := by
      cases level with
      | zero => rfl
      | succ level => rw [if_neg (by omega), zero, roundBound]
    rw [current] at upper high here more
    have turn : 512 - s.indexes (level + 1 + 1) = 511 - s.indexes (level + 1 + 1) + 1 := by omega
    rw [remaining, remaining]
    dsimp only
    rw [current, if_neg upper, Nat.add_sub_cancel, Nat.add_sub_cancel, fresh, turn, Nat.succ_mul]
    change roundBound (level + 1) + ((range' (level + 1 + 1) (height M - (level + 1))).map (share s)).sum < _
    rw [levels_above (show level + 1 < height M by omega), map_cons, sum_cons, share, Nat.add_sub_cancel]
    omega

omit [Entry E] [LawfulMapper M] in
theorem remaining_pos : 0 < remaining M s := by
  rw [remaining]
  split <;> omega

omit [Entry E] in
theorem remaining_start (self : M) : remaining M (destroyStart self : DestroyState E) ≤ destroyFuel M := by
  have deep := (LawfulMapper.levels (M := M)).1
  have levels := height_succ M
  obtain ⟨level, top⟩ : ∃ level, height M = level + 2 := ⟨height M - 2, by omega⟩
  have bound : remaining M (destroyStart self : DestroyState E) = roundBound (height M) := by
    rw [remaining, destroyStart]
    dsimp only
    rw [← height, Nat.sub_self, range'_zero, map_nil, sum_nil, Nat.add_zero, if_neg (by omega), top, roundBound]
    rfl
  rw [bound, destroyFuel, ptes (M := M), show 512 + 2 = 514 from rfl, ← levels]
  exact (roundBound_le _).trans (Nat.pow_le_pow_right (by omega) (by omega))

end Ends

section Freed

variable {M : Type} [Entry E] [Mapper M E] [Mmu E] [LawfulMapper M]
theorem Tree.entry (tree : Tree M mem root owned) {depth key page : Nat} (below : depth < height M)
    (place : (scheme M).tableAt mem root depth key = some page) {index : Nat} (small : index < 512) :
    ∃ other, (scheme M).Agree depth key other ∧ (scheme M).digit depth other = index ∧
      (scheme M).tableAt mem root (depth + 1) other = (scheme M).child (mem page index) ∧
      entryPage (E := E) mem page index = (scheme M).child (mem page index) := by
  obtain ⟨other, agree, digit⟩ := exists_key M below.le key small
  have place' : (scheme M).tableAt mem root depth other = some page := by
    rw [← Scheme.tableAt_agree agree]
    exact place
  have shape := tree.shaped depth other page below place'
  rw [digit] at shape
  refine ⟨other, agree, digit, ?_, ?_⟩
  · rw [Scheme.tableAt, place', Option.bind_some, digit]
  · cases valid : isValid (ofBits (mem page index) : E) with
    | false => rw [child_of_invalid valid, entryPage, if_neg (by simp [valid])]
    | true => rw [shape.child_eq valid, entryPage, if_pos valid]

theorem mem_freedPages (tree : Tree M mem root owned) {level : Nat} : ∀ {depth key page freed : Nat},
    depth + (level + 1) = height M → (scheme M).tableAt mem root depth key = some page →
    freed ∈ freedPages M mem (level + 1) page →
    ∃ i other, depth ≤ i ∧ i ≤ height M ∧ i + 1 ≠ height M ∧ (scheme M).Agree depth key other ∧
      (scheme M).tableAt mem root i other = some freed := by
  induction level with
  | zero =>
    intro depth key page freed levels place member
    obtain ⟨index, inside, found⟩ := mem_filterMap.mp member
    obtain ⟨other, agree, _, next, entry⟩ := tree.entry (by omega) place (mem_range.mp inside)
    exact ⟨depth + 1, other, by omega, by omega, by omega, agree, by rw [next, ← entry, found]⟩
  | succ level ih =>
    intro depth key page freed levels place member
    rcases mem_append.mp member with inside | own
    · obtain ⟨index, bound, inside⟩ := mem_flatMap.mp inside
      obtain ⟨other, agree, _, next, _⟩ := tree.entry (by omega) place (mem_range.mp bound)
      cases child : (scheme M).child (mem page index) with
      | none => simp [child] at inside
      | some below =>
        rw [child] at next inside
        obtain ⟨i, last, deep, shallow, level', agree', found⟩ := ih (by omega) next inside
        exact ⟨i, last, by omega, shallow, level', agree.trans (agree'.mono (by omega)), found⟩
    · obtain rfl := mem_singleton.mp own
      exact ⟨depth, key, le_rfl, by omega, by omega, fun _ _ => rfl, place⟩

theorem reachable_of_freed (tree : Tree M mem root owned) {freed : Nat} (member : freed ∈ freedPages M mem (height M) root) :
    (scheme M).Reachable mem root (height M) freed := by
  have levels := height_succ M
  have deep := (LawfulMapper.levels (M := M)).1
  obtain ⟨level, top⟩ : ∃ level, height M = level + 1 := ⟨height M - 1, by omega⟩
  have place : (scheme M).tableAt mem root 0 0 = some root := rfl
  obtain ⟨i, other, _, bound, _, _, found⟩ := mem_freedPages tree (by omega) place (top ▸ member)
  exact ⟨i, other, bound, found⟩

end Freed

section Way

variable {M : Type} [Entry E] [Mapper M E] [Mmu E] [LawfulMapper M] {freed : List Nat} {key : Nat}

/-- A table that the loop has left: below the table of some level on its way, in an entry before the current one. -/
def Passed (M : Type) {E : Type} [Entry E] [Mapper M E] (mem : Memory) (root key : Nat) (s : DestroyState E)
    (page : Nat) : Prop :=
  ∃ depth other level, depth ≤ height M ∧ (scheme M).tableAt mem root depth other = some page ∧
    s.currentLevel ≤ level ∧ level ≤ height M ∧ height M - level < depth ∧
    (scheme M).Agree (height M - level) key other ∧ (scheme M).digit (height M - level) other < s.indexes level

/-- The tables from the current level on are those on the way of `key`, and every freed page was passed. -/
structure OnWay (M : Type) {E : Type} [Entry E] [Mapper M E] (mem : Memory) (root : Nat) (freed : List Nat) (key : Nat)
    (now : DestroyState E) : Prop where
  path : ∀ level, now.currentLevel ≤ level → level ≤ height M →
    (scheme M).tableAt mem root (height M - level) key = some (now.pageTables level).page
  digits : ∀ level, now.currentLevel < level → level ≤ height M → (scheme M).digit (height M - level) key = now.indexes level
  passed : ∀ page ∈ freed, Passed M mem root key now page

omit [LawfulMapper M] in
/-- A table on the way, with the current digit at every level above, was not passed. -/
theorem OnWay.current_unfreed (way : OnWay M mem root freed key s) (tree : Tree M mem root owned) (range : InRange M s) :
    (s.pageTables s.currentLevel).page ∉ freed := by
  intro member
  obtain ⟨depth, other, level, inside, found, _, high, deep, agree, less⟩ := way.passed _ member
  have here := way.path s.currentLevel le_rfl range.high
  obtain ⟨rfl, agree'⟩ := tree.separate _ _ key other _ (Nat.sub_le _ _) inside here found
  have above : s.currentLevel < level := by
    have high' := range.high
    omega
  rw [← agree' _ deep, way.digits level above high] at less
  exact absurd less (Nat.lt_irrefl _)

section Passing

omit [Mmu E] [LawfulMapper M]
variable {page key' : Nat}

theorem Passed.mono (passed : Passed M mem root key s page) (level : s'.currentLevel ≤ s.currentLevel)
    (indexes : ∀ level, s.indexes level ≤ s'.indexes level)
    (agree : (scheme M).Agree (height M - s.currentLevel) key key') : Passed M mem root key' s' page := by
  obtain ⟨depth, other, i, bound, found, low, high, deep, same, less⟩ := passed
  exact ⟨depth, other, i, bound, found, level.trans low, high, deep, (agree.symm.mono (by omega)).trans same,
    less.trans_le (indexes i)⟩

/-- The loop goes on one level up, in the next entry. -/
structure Rises (s s' : DestroyState E) : Prop where
  level : s'.currentLevel = s.currentLevel + 1
  tables : s'.pageTables = s.pageTables
  grown : s'.indexes (s.currentLevel + 1) = s.indexes (s.currentLevel + 1) + 1
  kept : ∀ level, s.currentLevel + 1 < level → s'.indexes level = s.indexes level

/-- The table of the current level, or one below it. -/
def AtOrBelow (M : Type) {E : Type} [Entry E] [Mapper M E] (mem : Memory) (root key : Nat) (s : DestroyState E)
    (page : Nat) : Prop :=
  ∃ depth other, depth ≤ height M ∧ (scheme M).tableAt mem root depth other = some page ∧
    height M - s.currentLevel ≤ depth ∧ (scheme M).Agree (height M - s.currentLevel) key other

theorem AtOrBelow.passed (within : AtOrBelow M mem root key s page) (way : OnWay M mem root freed key s) (rises : Rises s s')
    (inside : s.currentLevel < height M) : Passed M mem root key s' page := by
  obtain ⟨depth, other, bound, found, deep, agree⟩ := within
  have digit := way.digits (s.currentLevel + 1) (Nat.lt_succ_self _) inside
  refine ⟨depth, other, s.currentLevel + 1, bound, found, rises.level.le, inside, by omega, agree.mono (by omega), ?_⟩
  rw [← agree _ (by omega), digit, rises.grown]
  exact Nat.lt_succ_self _

theorem OnWay.rise (way : OnWay M mem root freed key s) (rises : Rises s s') (inside : s.currentLevel < height M)
    (within : ∀ page ∈ pages, AtOrBelow M mem root key s page) : OnWay M mem root (pages ++ freed) key s' := by
  have ⟨level, tables, grown, kept⟩ := rises
  refine ⟨?_, ?_, forall_mem_append.mpr ⟨fun page member => (within page member).passed way rises inside, fun page member => ?_⟩⟩
  · grind [way.path]
  · grind [way.digits]
  · obtain ⟨depth, other, i, bound, found, low, high, deep, agree, less⟩ := way.passed page member
    rcases Nat.lt_or_ge i (s.currentLevel + 1) with lower | upper
    · obtain rfl : i = s.currentLevel := by omega
      exact AtOrBelow.passed ⟨depth, other, bound, found, deep.le, agree⟩ way rises inside
    · exact ⟨depth, other, i, bound, found, by omega, high, deep, agree, by grind⟩

end Passing

theorem OnWay.round (way : OnWay M mem root freed key s) (tree : Tree M mem root owned) (range : InRange M s)
    (round : Round M mem s pages (some s')) : ∃ key', OnWay M mem root (pages ++ freed) key' s' := by
  have ptes := ptes (M := M)
  have deep := (LawfulMapper.levels (M := M)).1
  have levels := height_succ M
  have here := way.path s.currentLevel le_rfl range.high
  obtain ⟨low, high, bound, below, above, last⟩ := range
  cases round with
  | entries one =>
    have inside : s.currentLevel < height M := by omega
    refine ⟨key, way.rise ⟨rfl, rfl, update_self .., fun level more => update_of_ne (by omega) _ _⟩ inside
      fun page member => ?_⟩
    obtain ⟨index, small, found⟩ := mem_filterMap.mp member
    obtain ⟨other, agree, _, next, entry⟩ := tree.entry (by omega) here (ptes ▸ mem_range.mp small)
    exact ⟨_, other, by omega, next.trans (entry.symm.trans found), by omega, agree⟩
  | table upper full linear inner =>
    have inside : s.currentLevel < height M := by omega
    refine ⟨key, way.rise ⟨rfl, rfl, update_self .., fun level more =>
      (update_of_ne (by omega) _ _).trans (update_of_ne (by omega) _ _)⟩ inside fun page member => ?_⟩
    obtain rfl := mem_singleton.mp member
    exact ⟨_, key, Nat.sub_le _ _, here, le_rfl, fun _ _ => rfl⟩
  | skip upper more invalid =>
    refine ⟨key, way.path, fun level less high => ?_, fun page member => ?_⟩
    · exact (way.digits level less high).trans (update_of_ne (ne_of_gt less) _ _).symm
    · refine (way.passed page member).mono le_rfl (fun level => ?_) fun _ _ => rfl
      simp only [update_apply]
      split
      · rename_i same
        rw [same]
        exact Nat.le_succ _
      · exact le_rfl
  | descend page upper more valid =>
    have index := bound s.currentLevel
    obtain ⟨other, agree, digit, next, entry⟩ := tree.entry (show height M - s.currentLevel < height M by omega) here
      (show s.indexes s.currentLevel < 512 by omega)
    rw [← entry, valid] at next
    have small := (tree.housed page ⟨_, other, by omega, next⟩).2
    refine ⟨other, fun level low' high => ?_, fun level low' high => ?_, fun page member => ?_⟩
    · dsimp only at low' ⊢
      by_cases same : level = s.currentLevel - 1
      · rw [same, update_self, Table.fromPage_page small, ← next]
        congr 1
        omega
      · rw [update_of_ne same, ← Scheme.tableAt_agree (agree.mono (by omega))]
        exact way.path level (by omega) high
    · dsimp only at low' ⊢
      by_cases same : level = s.currentLevel
      · rw [same, digit]
      · rw [← agree _ (by omega)]
        exact way.digits level (by omega) high
    · exact (way.passed page member).mono (Nat.sub_le _ _) (fun _ => le_rfl) agree

end Way

section Loop

variable {M A : Type} [Entry E] [Mapper M E] [LawfulMapper M] [PageAllocator A]

/-- What the loop frees of a table from the entry `index` on. -/
def freedFrom (M : Type) {E : Type} [Entry E] [Mapper M E] (mem : Memory) (level page index : Nat) : List Nat :=
  if level = 1 then freedPages M mem 1 page
  else ((range' index (512 - index)).flatMap fun index =>
    ((scheme M).child (mem page index)).elim [] (freedPages M mem (level - 1))) ++ [page]

/-- What the loop frees of the tables above `level` after the table of `level`. -/
def freedAbove (M : Type) {E : Type} [Entry E] [Mapper M E] (mem : Memory) (s : DestroyState E) (level : Nat) : List Nat :=
  (range' (level + 1) (height M - level)).flatMap fun i => freedFrom M mem i (s.pageTables i).page (s.indexes i + 1)

def toFree (M : Type) {E : Type} [Entry E] [Mapper M E] (mem : Memory) (s : DestroyState E) : List Nat :=
  freedFrom M mem s.currentLevel (s.pageTables s.currentLevel).page (s.indexes s.currentLevel) ++
    freedAbove M mem s s.currentLevel

section

omit [LawfulMapper M]

theorem freedAbove_succ {level : Nat} (inside : level < height M) :
    freedAbove M mem s level = freedFrom M mem (level + 1) (s.pageTables (level + 1)).page (s.indexes (level + 1) + 1) ++
      freedAbove M mem s (level + 1) := by
  rw [freedAbove, levels_above inside, flatMap_cons, freedAbove]

theorem freedAbove_congr {level : Nat} (tables : ∀ i, level < i → s'.pageTables i = s.pageTables i)
    (indexes : ∀ i, level < i → s'.indexes i = s.indexes i) : freedAbove M mem s level = freedAbove M mem s' level :=
  flatMap_congr fun i member => by
    have more := (mem_range'_1.mp member).1
    rw [tables i more, indexes i more]

theorem freedFrom_zero {level : Nat} (positive : 1 ≤ level) (page : Nat) :
    freedFrom M mem level page 0 = freedPages M mem level page := by
  obtain _ | _ | level := level
  · omega
  · rfl
  · rw [freedFrom, if_neg (by omega), freedPages, range_eq_range']
    rfl

theorem freedFrom_succ {level index : Nat} (upper : level ≠ 1) (small : index < 512) (page : Nat) :
    freedFrom M mem level page index =
      ((scheme M).child (mem page index)).elim [] (freedPages M mem (level - 1)) ++ freedFrom M mem level page (index + 1) := by
  rw [freedFrom, if_neg upper, freedFrom, if_neg upper, show 512 - index = 512 - (index + 1) + 1 by omega,
    range'_succ, flatMap_cons, append_assoc]

theorem freedFrom_full {level : Nat} (upper : level ≠ 1) (page : Nat) : freedFrom M mem level page 512 = [page] := by
  rw [freedFrom, if_neg upper]
  rfl

end

variable [Mmu E] {freed : List Nat} {key : Nat}

theorem Round.toFree {next : Option (DestroyState E)} (round : Round M mem s pages next)
    (way : OnWay M mem root freed key s) (tree : Tree M mem root owned) (range : InRange M s) :
    toFree M mem s = pages ++ next.elim [] (toFree M mem) := by
  have ptes := ptes (M := M)
  have deep := (LawfulMapper.levels (M := M)).1
  have levels := height_succ M
  have here := way.path s.currentLevel le_rfl range.high
  obtain ⟨low, high, bound, below, above, last⟩ := range
  have index := bound s.currentLevel
  cases round with
  | entries one =>
    rw [Option.elim_some, Paging.toFree, Paging.toFree, freedAbove_succ (by omega)]
    dsimp only
    rw [update_self, one, freedFrom, if_pos rfl, freedPages, ptes]
    congr 2
    exact freedAbove_congr (fun _ _ => rfl) fun i more => update_of_ne (by omega) _ _
  | root upper full linear top =>
    rw [Paging.toFree, full, ptes, freedFrom_full upper, freedAbove, top, ← height, Nat.sub_self]
    rfl
  | table upper full linear inner =>
    rw [Option.elim_some, Paging.toFree, Paging.toFree, freedAbove_succ (by omega), full, ptes, freedFrom_full upper]
    dsimp only
    rw [update_self]
    congr 2
    exact freedAbove_congr (fun _ _ => rfl) fun i more =>
      (update_of_ne (by omega) _ _).trans (update_of_ne (by omega) _ _)
  | skip upper more invalid =>
    obtain ⟨other, _, _, _, entry⟩ := tree.entry (show height M - s.currentLevel < height M by omega) here
      (show s.indexes s.currentLevel < 512 by omega)
    rw [Option.elim_some, Paging.toFree, Paging.toFree, freedFrom_succ upper (by omega), ← entry, invalid]
    dsimp only
    rw [update_self]
    exact congrArg _ (freedAbove_congr (fun _ _ => rfl) fun i more => update_of_ne (by omega) _ _)
  | descend page upper more valid =>
    obtain ⟨other, _, _, next, entry⟩ := tree.entry (show height M - s.currentLevel < height M by omega) here
      (show s.indexes s.currentLevel < 512 by omega)
    rw [← entry, valid] at next
    have small := (tree.housed page ⟨_, other, by omega, next⟩).2
    obtain ⟨level, current⟩ : ∃ level, s.currentLevel = level + 1 := ⟨s.currentLevel - 1, by omega⟩
    have zero : s.indexes level = 0 := below level (by omega)
    rw [Option.elim_some, Paging.toFree, Paging.toFree, freedFrom_succ upper (by omega), ← entry, valid, Option.elim_some]
    dsimp only
    rw [current, Nat.add_sub_cancel, update_self, Table.fromPage_page small, zero, freedFrom_zero (by omega),
      freedAbove_succ (M := M) (show level < height M by omega), append_assoc]
    dsimp only
    rw [update_of_ne (Nat.succ_ne_self level)]
    exact congrArg _ (congrArg _ (freedAbove_congr (fun i more => update_of_ne (by omega) _ _) fun _ _ => rfl))

theorem destroyLoop_eq {fuel : Nat} (way : OnWay M mem root freed key s) (tree : Tree M mem root owned)
    (rooted : pageOffset ≤ root) (range : InRange M s) (enough : remaining M s ≤ fuel) (alloc : A) :
    destroyLoop M mem fuel s alloc = freeAll alloc (toFree M mem s) := by
  induction fuel generalizing s freed key alloc with
  | zero => exact absurd enough (Nat.not_le.mpr remaining_pos)
  | succ fuel ih =>
    obtain ⟨pages, next, round, step⟩ | ⟨low, _⟩ := destroyStep_cases (A := A) M mem s
    · rw [destroyLoop, step, bind_assoc, round.toFree way tree range, freeAll_append]
      congr 1
      funext after
      cases next with
      | none => rfl
      | some s' =>
        obtain ⟨key', way'⟩ := way.round tree range round
        exact ih way' (range.round round) (Nat.le_of_lt_succ ((round.lowers range).trans_le enough)) after
    · have here := way.path s.currentLevel le_rfl range.high
      rcases Nat.eq_zero_or_pos (height M - s.currentLevel) with zero | positive
      · rw [zero] at here
        exact absurd rooted (Nat.not_le.mpr (Option.some.inj here ▸ low))
      · exact absurd (tree.linear _ key _ positive (Nat.sub_le _ _) here) (Nat.not_le.mpr low)

omit [LawfulMapper M] [Mmu E] in
theorem OnWay.start (self : M) : OnWay M mem (rootTable self).page [] 0 (destroyStart self) := by
  refine ⟨fun level low high => ?_, fun level low high => absurd low (Nat.not_lt.mpr high),
    fun _ member => absurd member not_mem_nil⟩
  obtain rfl : level = height M := le_antisymm high low
  rw [Nat.sub_self]
  simp only [destroyStart, height, update_self, Scheme.tableAt]

/-- It ends, and it frees the pages of `freedPages` one after the other. -/
theorem destroy_eq {self : M} {machine : Machine A} {frame : Nat} (tree : Tree M machine.mem (rootTable self).page owned)
    (rooted : (rootTable self).pageNumber = .ok frame) :
    destroyWithAllocator self machine =
      freeAll machine.alloc (freedPages M machine.mem (height M) (rootTable self).page) >>= fun alloc =>
        pure { machine with alloc := alloc } := by
  obtain ⟨deep, shallow⟩ := LawfulMapper.levels (M := M)
  have levels := height_succ M
  have all : toFree M machine.mem (destroyStart self) = freedPages M machine.mem (height M) (rootTable self).page := by
    rw [toFree, destroyStart]
    dsimp only
    rw [← height, freedAbove, Nat.sub_self, range'_zero, flatMap_nil, append_nil, update_self]
    exact freedFrom_zero (by omega) _
  rw [destroyWithAllocator, if_pos shallow, ← all, ← destroyLoop_eq (OnWay.start self) tree (physPage_ok rooted).1
    (InRange.start self) (remaining_start self) machine.alloc]
  rfl

omit [Mmu E] in
theorem destroyStep_root {A : Type} [PageAllocator A] {s : DestroyState E} {next : Option (DestroyState E)}
    {alloc alloc' : A} (below : s.currentLevel ≤ Mapper.level M - 1) (run : destroyStep M mem s alloc = .ok (next, alloc')) :
    match next with
    | none => ∃ frame, (s.pageTables (Mapper.level M - 1)).pageNumber = .ok frame
    | some s' => s'.currentLevel ≤ Mapper.level M - 1 ∧
        s'.pageTables (Mapper.level M - 1) = s.pageTables (Mapper.level M - 1) := by
  have deep := (LawfulMapper.levels (M := M)).1
  obtain ⟨_, round, _⟩ := Round.of_step run
  cases round with
  | root upper full linear top => exact ⟨_, top ▸ physPage_eq linear⟩
  | entries | table | skip | descend => grind [update_apply]

omit [Mmu E] in
theorem destroyLoop_root {A : Type} [PageAllocator A] {fuel : Nat} {s : DestroyState E} {alloc alloc' : A}
    (below : s.currentLevel ≤ Mapper.level M - 1) (run : destroyLoop M mem fuel s alloc = .ok alloc') :
    ∃ frame, (s.pageTables (Mapper.level M - 1)).pageNumber = .ok frame := by
  induction fuel generalizing s alloc with
  | zero => simp [destroyLoop, throw_ok] at run
  | succ fuel ih =>
    simp only [destroyLoop, bind_ok, Prod.exists] at run
    obtain ⟨next, middle, step, run⟩ := run
    have kept := destroyStep_root below step
    cases next with
    | none => exact kept
    | some s' => exact kept.2 ▸ ih kept.1 run

omit [Mmu E] in
theorem destroy_rooted {A : Type} [PageAllocator A] {self : M} {machine machine' : Machine A}
    (run : destroyWithAllocator self machine = .ok machine') :
    ∃ frame, (rootTable self).pageNumber = .ok frame := by
  unfold destroyWithAllocator at run
  split at run
  · obtain ⟨alloc, loop, _⟩ := bind_ok.mp run
    simpa using destroyLoop_root le_rfl loop
  · simp [throw_ok] at run


end Loop

end Kernel31.Paging
