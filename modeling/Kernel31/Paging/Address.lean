import Kernel31.Paging.Frame

namespace Kernel31.Paging

/-- What the hardware lets pass: the page numbers whose upper bits are in order, and the permissions with which
    user mode and the kernel read. -/
class AddressSpace (E : Type) [Mmu E] where
  canonical : Nat → Bool
  userReads : Mmu.Perms E → Bool
  kernelReads : Mmu.Perms E → Bool

/-- Sv39: the bits 39 to 63 of an address repeat bit 38; the kernel does not read user pages with SUM clear. -/
instance : AddressSpace PageTableEntry where
  canonical page := page < 2 ^ 26 || (2 ^ 52 - 2 ^ 26 ≤ page && page < 2 ^ 52)
  userReads perms := perms.user && perms.read
  kernelReads perms := !perms.user && perms.read

/-- VMSAv8-64: the bits 48 to 63 of an address are all zero or all one; `set_ttbrx` gives both halves the same
    root. -/
instance : AddressSpace TableDescriptor where
  canonical page := page < 2 ^ 36 || (2 ^ 52 - 2 ^ 36 ≤ page && page < 2 ^ 52)
  userReads perms := perms.user && perms.accessed
  kernelReads perms := perms.accessed

/-- The physical page an access to a virtual page reaches with the table at physical page `root`. -/
def translate (M : Type) {E : Type} [Entry E] [Mapper M E] [Mmu E] [AddressSpace E] (allows : Mmu.Perms E → Bool)
    (mem : Memory) (root vpn : Nat) : Option Nat :=
  if AddressSpace.canonical E vpn then
    match walk M mem vpn (Mapper.level M - 1) root with
    | some (frame, perms) => if allows perms then some frame else none
    | none => none
  else none

theorem SameTables.translate {M E : Type} [Entry E] [Mapper M E] [Mmu E] [AddressSpace E] {mem mem' : Memory}
    {table : Table E} {owned : Nat → Prop} {frame : Nat} (same : SameTables M mem mem' table.page)
    (tree : Tree M mem table.page owned) (rooted : table.pageNumber = .ok frame) (allows : Mmu.Perms E → Bool) (vpn : Nat) :
    Paging.translate M allows mem' frame vpn = Paging.translate M allows mem frame vpn := by
  rw [Paging.translate, Paging.translate, (tree.frame same).walk_root rooted, tree.walk_root rooted, same.lookup]

/-- A leaf made for user mode is one that user mode reads, and the linear map has the right upper bits. -/
class LawfulSpace (E : Type) [Mmu E] [AddressSpace E] : Prop where
  userReads_granted : ∀ mode, PageACL.read ∈ mode →
    AddressSpace.userReads (Mmu.granted (E := E) mode) = mode.contains .user
  kernelReads_granted : ∀ mode, PageACL.read ∈ mode → PageACL.user ∉ mode →
    AddressSpace.kernelReads (Mmu.granted (E := E) mode) = true
  canonical_small : ∀ page, AddressSpace.canonical E page = true → page < 2 ^ 52
  canonical_linear : ∀ page, pageOffset ≤ page → page < 2 ^ 52 → AddressSpace.canonical E page = true

instance : LawfulSpace PageTableEntry where
  userReads_granted mode readable := by simp [AddressSpace.userReads, Mmu.granted, readable]
  kernelReads_granted mode readable kernel := by simp [AddressSpace.kernelReads, Mmu.granted, readable, kernel]
  canonical_small page canonical := by
    simp only [AddressSpace.canonical, Bool.or_eq_true, Bool.and_eq_true, decide_eq_true_eq] at canonical
    omega
  canonical_linear page low high := by
    rw [pageOffset_eq] at low
    simp only [AddressSpace.canonical, Bool.or_eq_true, Bool.and_eq_true, decide_eq_true_eq]
    omega

instance : LawfulSpace TableDescriptor where
  userReads_granted mode _ := by simp [AddressSpace.userReads, Mmu.granted]
  kernelReads_granted mode _ _ := by simp [AddressSpace.kernelReads, Mmu.granted]
  canonical_small page canonical := by
    simp only [AddressSpace.canonical, Bool.or_eq_true, Bool.and_eq_true, decide_eq_true_eq] at canonical
    omega
  canonical_linear page low high := by
    rw [pageOffset_eq] at low
    simp only [AddressSpace.canonical, Bool.or_eq_true, Bool.and_eq_true, decide_eq_true_eq]
    omega

end Kernel31.Paging
