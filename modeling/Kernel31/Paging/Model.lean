import Kernel31.Paging.Entry
import Kernel31.Library.Radix

namespace Kernel31.Paging

open Function

open Page

/-- `mem page index` is the word at `(page << PAGE_BITS) + 8 * index`; pages are numbers below `2 ^ 52`. -/
abbrev Memory := Nat → Nat → BitVec 64

def pageOffset : Nat := (virtAddr - phyAddr) >>> pageBits

/-- `PhysPage::from(VirtualPage)`: the subtraction panics on underflow. -/
def physPage (virtualPage : Nat) : Exec Nat :=
  if virtualPage < pageOffset then throw .overflow else pure (virtualPage - pageOffset)

/-- A page number read from an entry has at most 54 bits, so the sum does not overflow. -/
def virtPage (physicalPage : Nat) : Nat := physicalPage + pageOffset

structure Table (E : Type) where
  ptr : Nat
  deriving DecidableEq, Repr

structure Machine (A : Type) where
  alloc : A
  mem : Memory

section Table

variable {E A : Type} [Entry E] [PageAllocator A]

def Table.page (table : Table E) : Nat := table.ptr >>> pageBits

def Table.empty : Table E := ⟨0⟩

def Table.fromPage (pageNumber : Nat) : Table E := ⟨(pageNumber <<< pageBits) % 2 ^ 64⟩

def Table.new (machine : Machine A) : Exec (Table E × Machine A) := do
  let (result, alloc) ← PageAllocator.allocPages machine.alloc 1
  match result with
  | .error _ => throw .outOfMemory
  | .ok page =>
    let table : Table E := Table.fromPage page
    pure (table, { alloc := alloc, mem := update machine.mem table.page fun _ => 0 })

def Table.pageNumber (table : Table E) : Exec Nat := physPage table.page

def Table.setEntry (mem : Memory) (table : Table E) (index : Nat) (entry : E) : Memory :=
  Radix.Scheme.write mem table.page index (Entry.bits entry)

def Table.getEntry (mem : Memory) (table : Table E) (index : Nat) : E := Entry.ofBits (mem table.page index)

def Table.isEmpty (mem : Memory) (table : Table E) (entryCount : Nat) : Bool :=
  (List.range entryCount).all fun index => !Entry.isValid (table.getEntry mem index)

end Table

/-- The trait `Mapper`: its constants and `root_table`. `from_root` and `new_with_allocator` both only
    store the root. -/
class Mapper (M : Type) (E : outParam Type) where
  level : Nat
  ptesPerDir : Nat
  pteBits : Nat
  rootTable : M → Table E
  ofRoot : Table E → M

structure Sv39Mapper where
  root : Table PageTableEntry
  deriving DecidableEq, Repr

instance : Mapper Sv39Mapper PageTableEntry where
  level := 3
  ptesPerDir := 512
  pteBits := 9
  rootTable := Sv39Mapper.root
  ofRoot := Sv39Mapper.mk

structure Arm64Mapper where
  root : Table TableDescriptor
  deriving DecidableEq, Repr

instance : Mapper Arm64Mapper TableDescriptor where
  level := 4
  ptesPerDir := 512
  pteBits := 9
  rootTable := Arm64Mapper.root
  ofRoot := Arm64Mapper.mk

namespace Mapper

variable {M E A : Type} [Entry E] [Mapper M E] [PageAllocator A]

def newWithAllocator (machine : Machine A) : Exec (M × Machine A) := do
  let (root, machine) ← Table.new machine
  pure (ofRoot root, machine)

def index (M : Type) {E : Type} [Mapper M E] (level vpn : Nat) : Nat :=
  (vpn >>> (pteBits M * level)) &&& (ptesPerDir M - 1)

/-- `for level in (1..Self::LEVEL).rev()`: the table of level 0, with the missing ones created. -/
def descend (M : Type) {E : Type} [Entry E] [Mapper M E] (vpn : Nat) :
    Nat → Table E → Machine A → Exec (Table E × Machine A)
  | 0, currentTable, machine => pure (currentTable, machine)
  | level + 1, currentTable, machine => do
    let index := index M (level + 1) vpn
    let entry := currentTable.getEntry machine.mem index
    if !Entry.isValid entry then
      let (subTable, machine) ← Table.new (E := E) machine
      let entry : E := Entry.new (← subTable.pageNumber) false []
      let machine := { machine with mem := currentTable.setEntry machine.mem index entry }
      descend M vpn level (Table.fromPage (virtPage (Entry.pageNumber entry))) machine
    else descend M vpn level (Table.fromPage (virtPage (Entry.pageNumber entry))) machine

def map4k (self : M) (machine : Machine A) (vpn ppn : Nat) (mode : List PageACL) : Exec (Machine A) := do
  let (currentTable, machine) ← descend M vpn (level M - 1) (rootTable self) machine
  let entry : E := Entry.new ppn true mode
  pure { machine with mem := currentTable.setEntry machine.mem (vpn &&& (ptesPerDir M - 1)) entry }

def mapWithAllocator (self : M) : Machine A → Nat → Nat → Nat → List PageACL → Exec (Machine A)
  | machine, _, _, 0, _ => pure machine
  | machine, vpn, ppn, pages + 1, mode => do
    let machine ← map4k self machine vpn ppn mode
    if vpn + 1 < 2 ^ 64 ∧ ppn + 1 < 2 ^ 64 then mapWithAllocator self machine (vpn + 1) (ppn + 1) pages mode
    else throw .overflow

def maxSupportedLevel : Nat := 5

/-- `for level in (0..Self::LEVEL).rev()` of `unmap_4k`: no entry on the way is looked at for validity. -/
def unmapDescend (M : Type) {E : Type} [Entry E] [Mapper M E] (vpn : Nat) :
    Nat → Memory → (Nat → Table E) → Memory × (Nat → Table E)
  | 0, mem, pageTables => (mem, pageTables)
  | level + 1, mem, pageTables =>
    let index := index M level vpn
    if level = 0 then
      unmapDescend M vpn level ((pageTables level).setEntry mem index Entry.empty) pageTables
    else
      let entry := (pageTables level).getEntry mem index
      unmapDescend M vpn level mem
        (update pageTables (level - 1) (Table.fromPage (virtPage (Entry.pageNumber entry))))

/-- `for table in page_tables.iter().take(Self::LEVEL - 1)`, with `remaining` tables to go. -/
def freeEmptied (M : Type) {E : Type} [Entry E] [Mapper M E] (mem : Memory) (pageTables : Nat → Table E) :
    Nat → Nat → A → Exec A
  | 0, _, alloc => pure alloc
  | remaining + 1, level, alloc =>
    if (pageTables level).isEmpty mem (ptesPerDir M) then do
      let pageStart := virtPage (← (pageTables level).pageNumber)
      let alloc ← PageAllocator.freePages alloc pageStart 1
      freeEmptied M mem pageTables remaining (level + 1) alloc
    else pure alloc

def unmap4k (self : M) (machine : Machine A) (vpn : Nat) : Exec (Machine A) :=
  if level M ≤ maxSupportedLevel then do
    let pageTables := update (fun _ => Table.empty) (level M - 1) (rootTable self)
    let (mem, pageTables) := unmapDescend M vpn (level M) machine.mem pageTables
    let alloc ← freeEmptied M mem pageTables (level M - 1) 0 machine.alloc
    pure { alloc := alloc, mem := mem }
  else throw .assertion

/-- The local variables of `destroy_with_allocator`. -/
structure DestroyState (E : Type) where
  currentLevel : Nat
  pageTables : Nat → Table E
  indexes : Nat → Nat

/-- The frees of the last-level tables: `for index in 0..Self::PTES_PER_DIR` at level 1. -/
def freeEntries (mem : Memory) (table : Table E) : List Nat → A → Exec A
  | [], alloc => pure alloc
  | index :: indexes, alloc => do
    let entry := table.getEntry mem index
    if Entry.isValid entry then
      let alloc ← PageAllocator.freePages alloc (virtPage (Entry.pageNumber entry)) 1
      freeEntries mem table indexes alloc
    else freeEntries mem table indexes alloc

/-- One round of the loop of `destroy_with_allocator`; no state is left after `break`. -/
def destroyStep (M : Type) {E : Type} [Entry E] [Mapper M E] (mem : Memory) (s : DestroyState E) (alloc : A) :
    Exec (Option (DestroyState E) × A) :=
  let table := s.pageTables s.currentLevel
  let index := s.indexes s.currentLevel
  let up := s.currentLevel + 1
  if s.currentLevel = 1 then do
    let alloc ← freeEntries mem table (List.range (ptesPerDir M)) alloc
    pure (some { s with currentLevel := up, indexes := update s.indexes up (s.indexes up + 1) }, alloc)
  else if index = ptesPerDir M then do
    let alloc ← PageAllocator.freePages alloc (virtPage (← table.pageNumber)) 1
    if s.currentLevel = level M - 1 then pure (none, alloc)
    else
      let indexes := update s.indexes s.currentLevel 0
      pure (some { s with currentLevel := up, indexes := update indexes up (indexes up + 1) }, alloc)
  else if !Entry.isValid (table.getEntry mem index) then
    pure (some { s with indexes := update s.indexes s.currentLevel (index + 1) }, alloc)
  else
    let entry := table.getEntry mem index
    let down := s.currentLevel - 1
    pure (some { s with
      currentLevel := down
      pageTables := update s.pageTables down (Table.fromPage (virtPage (Entry.pageNumber entry))) }, alloc)

def destroyLoop (M : Type) {E : Type} [Entry E] [Mapper M E] (mem : Memory) :
    Nat → DestroyState E → A → Exec A
  | 0, _, _ => throw .recursion
  | fuel + 1, s, alloc => do
    let (next, alloc) ← destroyStep M mem s alloc
    match next with
    | some s => destroyLoop M mem fuel s alloc
    | none => pure alloc

def destroyFuel (M : Type) {E : Type} [Mapper M E] : Nat := (ptesPerDir M + 2) ^ level M

def destroyWithAllocator (self : M) (machine : Machine A) : Exec (Machine A) :=
  if level M ≤ maxSupportedLevel then do
    let s : DestroyState E :=
      { currentLevel := level M - 1
        pageTables := update (fun _ => Table.empty) (level M - 1) (rootTable self)
        indexes := fun _ => 0 }
    let alloc ← destroyLoop M machine.mem (destroyFuel M) s machine.alloc
    pure { machine with alloc := alloc }
  else throw .assertion

end Mapper

end Kernel31.Paging
