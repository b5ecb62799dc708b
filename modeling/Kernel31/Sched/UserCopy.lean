import Kernel31.Library.Utf8
import Kernel31.Sched.Model

namespace Kernel31.Sched

open Page Paging Kernel31.Task

/-- `(*vpage..vpage + page_count).contains(&page)` -/
def PageAlloc.covers (alloc : PageAlloc) (page : Nat) : Bool :=
  alloc.info.vPage ≤ page && page < alloc.info.vPage + alloc.info.vPages

/-- The first block `for alloc in &self.page_allocs` stops at. -/
def findAlloc (allocs : List PageAlloc) (userAddr : Nat) : Option PageAlloc :=
  allocs.find? fun alloc => alloc.covers (userAddr >>> pageBits)

/-- `VirtPage::from(*p_page).0 * PAGE_SIZE` -/
def PageAlloc.base (alloc : PageAlloc) : Nat := virtPage alloc.info.pPage * pageSize

/-- `page_count << PAGE_BITS` -/
def PageAlloc.limit (alloc : PageAlloc) : Nat := alloc.info.vPages <<< pageBits % 2 ^ 64

/-- `user_addr - (vpage << PAGE_BITS)` -/
def PageAlloc.offset (alloc : PageAlloc) (userAddr : Nat) : Nat := userAddr - alloc.info.vPage <<< pageBits % 2 ^ 64

/-- `(vpage + page_count) << PAGE_BITS` -/
def PageAlloc.next (alloc : PageAlloc) : Nat := (alloc.info.vPage + alloc.info.vPages) <<< pageBits % 2 ^ 64

/-- The inner loop of `copy_from_user`: how many of the `count` bytes it leaves, and the bytes it read. -/
def readBlock (mem : Memory) (base limit : Nat) : (count offset : Nat) → Nat × List UInt8
  | 0, _ => (0, [])
  | count + 1, offset =>
    if offset < limit then
      let (left, bytes) := readBlock mem base limit count (offset + 1)
      (left, loadByte mem (base + offset) :: bytes)
    else (count + 1, [])

/-- The loop `'main` of `copy_from_user`. -/
def copyFromUserLoop (allocs : List PageAlloc) (mem : Memory) : (fuel userAddr count : Nat) → Exec (List UInt8)
  | _, _, 0 => pure []
  | 0, _, _ + 1 => throw .recursion
  | fuel + 1, userAddr, count + 1 =>
    match findAlloc allocs userAddr with
    | none => pure []
    | some alloc => do
      let (left, bytes) := readBlock mem alloc.base alloc.limit (count + 1) (alloc.offset userAddr)
      pure (bytes ++ (← copyFromUserLoop allocs mem fuel alloc.next left))

/-- Every round of the loop reads a byte, unless it never ends. -/
def copyFromUser (allocs : List PageAlloc) (mem : Memory) (userAddr size : Nat) : Exec (List UInt8) :=
  copyFromUserLoop allocs mem size userAddr size

/-- The inner loop of `copy_to_user`: the bytes it leaves, and the memory. -/
def writeBlock (base limit : Nat) : List UInt8 → (offset : Nat) → Memory → List UInt8 × Memory
  | [], _, mem => ([], mem)
  | byte :: rest, offset, mem =>
    if offset < limit then writeBlock base limit rest (offset + 1) (storeByte mem (base + offset) byte)
    else (byte :: rest, mem)

/-- The loop `'main` of `copy_to_user`. -/
def copyToUserLoop (allocs : List PageAlloc) : (fuel userAddr : Nat) → List UInt8 → Memory → Exec (List UInt8 × Memory)
  | _, _, [], mem => pure ([], mem)
  | 0, _, _ :: _, _ => throw .recursion
  | fuel + 1, userAddr, byte :: rest, mem =>
    match findAlloc allocs userAddr with
    | none => pure (byte :: rest, mem)
    | some alloc =>
      let (left, mem) := writeBlock alloc.base alloc.limit (byte :: rest) (alloc.offset userAddr) mem
      copyToUserLoop allocs fuel alloc.next left mem

/-- `copy_to_user` returns the number of bytes it wrote. -/
def copyToUser (allocs : List PageAlloc) (mem : Memory) (userAddr : Nat) (kernelBuf : List UInt8) :
    Exec (Nat × Memory) := do
  let (left, mem) ← copyToUserLoop allocs kernelBuf.length userAddr kernelBuf mem
  pure (kernelBuf.length - left.length, mem)

/-- The loop of `copy_user_string`: every round reads at the same address. -/
def copyUserStringLoop (allocs : List PageAlloc) (mem : Memory) (userAddr : Nat) :
    Nat → List UInt8 → Exec (List UInt8)
  | 0, _ => throw .recursion
  | fuel + 1, stringVec => do
    let bytes ← copyFromUser allocs mem userAddr 16
    let text := bytes.takeWhile (· ≠ 0)
    if text.length < bytes.length ∨ bytes.length < 16 then pure (stringVec ++ text)
    else copyUserStringLoop allocs mem userAddr fuel (stringVec ++ text)

/-- The bytes of the string that `copy_user_string` returns. -/
def copyUserString (fuel : Nat) (allocs : List PageAlloc) (mem : Memory) (userAddr : Nat) : Exec (List UInt8) := do
  let stringVec ← copyUserStringLoop allocs mem userAddr fuel []
  pure (Utf8.lossy stringVec)

end Kernel31.Sched
