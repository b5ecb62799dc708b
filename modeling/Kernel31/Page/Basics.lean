import Kernel31.Library.Checked

namespace Kernel31

/-- The panics of the kernel, by the check that raises them, and its accesses to pages that are not mapped. -/
inductive Fault where
  | noFreeNode
  | unwrapNone
  | outOfMemory
  | indexOutOfBounds
  | overflow
  | assertion
  | recursion
  | pageFault
  deriving DecidableEq, Repr

abbrev Exec := Except Fault

namespace Page

def pageBits : Nat := 12
def vaBits : Nat := 48
def pageSize : Nat := 2 ^ pageBits

theorem pageSize_eq : pageSize = 4096 := by decide

def virtAddr : Nat := 0xffffffc040000000
def phyAddr : Nat := 0x40000000

inductive AllocError where
  | outOfMemory
  deriving DecidableEq, Repr

/-- `alloc_pages` leaves a state behind when it returns an error, too. -/
class PageAllocator (A : Type) where
  allocPages : A → Nat → Exec (Except AllocError Nat × A)
  freePages : A → Nat → Nat → Exec A

/-- The function `alloc_pages`: it panics where the allocator returns an error. -/
def allocPages {A : Type} [PageAllocator A] (alloc : A) (pagesCount : Nat) : Exec (Nat × A) := do
  let (result, alloc) ← PageAllocator.allocPages alloc pagesCount
  match result with
  | .error _ => throw .outOfMemory
  | .ok page => pure (page, alloc)

open Checked in
theorem allocPages_ok {A : Type} [PageAllocator A] {alloc alloc' : A} {count page : Nat} :
    allocPages alloc count = .ok (page, alloc') ↔ PageAllocator.allocPages alloc count = .ok (.ok page, alloc') := by
  simp only [allocPages, bind_ok, Prod.exists]
  constructor
  · rintro ⟨result, after, run, rest⟩
    cases result with
    | error failure => simp [throw_ok] at rest
    | ok start =>
      obtain ⟨⟩ := pure_ok.mp rest
      exact run
  · intro run
    exact ⟨_, _, run, rfl⟩

end Page

end Kernel31
