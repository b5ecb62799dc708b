import Kernel31.Page.Basics

namespace Kernel31.Page

open Checked

structure Bump where
  next : Nat
  used : List Nat
  below : ∀ page ∈ used, page < next

def Bump.allocPages (self : Bump) (count : Nat) : Exec (Except AllocError Nat × Bump) :=
  if self.next + count ≤ 2 ^ 52 then
    pure (.ok self.next,
      { next := self.next + count
        used := List.range' self.next count ++ self.used
        below := by
          intro page member
          rcases List.mem_append.mp member with new | old
          · have bounds := List.mem_range'_1.mp new
            omega
          · have bound := self.below page old
            omega })
  else pure (.error .outOfMemory, self)

def Bump.freePages (self : Bump) (start count : Nat) : Exec Bump :=
  pure
    { self with
      used := self.used.filter fun page => ¬ (start ≤ page ∧ page < start + count)
      below := fun page member => self.below page (List.mem_filter.mp member).1 }

instance : PageAllocator Bump := ⟨Bump.allocPages, Bump.freePages⟩

end Kernel31.Page
