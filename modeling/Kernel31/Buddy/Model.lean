import Kernel31.Page.Basics

namespace Kernel31.Buddy

open Page List

def nodeCompatibility : Nat := 512
def extNodeCompatibility : Nat := 8196
def buddyAllocMaxPow : Nat := vaBits - pageBits
def minPoolRemain : Nat := buddyAllocMaxPow
def memZones : Nat := 16

/-- A `NonNull<FreeNode>`, in `FreeNodePool::free_nodes` or in the extended pool at the pages from `page` on. -/
inductive NodePtr where
  | fixed (index : Nat)
  | extended (page index : Nat)
  deriving DecidableEq, Repr

structure FreeNode where
  ptr : NodePtr
  pageNumber : Nat
  deriving DecidableEq, Repr

/-- `freeStart` lists the nodes reachable from `free_start`, first node first. -/
structure FreeNodePool where
  freenodeRemain : Nat
  freeStart : List NodePtr
  deriving DecidableEq, Repr

def FreeNodePool.default : FreeNodePool := { freenodeRemain := 0, freeStart := [] }

def FreeNodePool.init : FreeNodePool :=
  { freenodeRemain := nodeCompatibility, freeStart := (range nodeCompatibility).map .fixed }

def FreeNodePool.allocNode (pool : FreeNodePool) : Exec (NodePtr × FreeNodePool) :=
  match pool.freeStart with
  | [] => throw .noFreeNode
  | node :: rest =>
    if pool.freenodeRemain = 0 then throw .overflow
    else pure (node, { freenodeRemain := pool.freenodeRemain - 1, freeStart := rest })

def FreeNodePool.recycleNode (pool : FreeNodePool) (node : NodePtr) : FreeNodePool :=
  { freenodeRemain := pool.freenodeRemain + 1, freeStart := node :: pool.freeStart }

/-- `pows pow` lists the nodes linked from `self.pows[pow]`, head first. -/
structure MemoryZone where
  base : Nat
  pages : Nat
  pows : Nat → List FreeNode

def MemoryZone.setPow (zone : MemoryZone) (pow : Nat) (nodes : List FreeNode) : MemoryZone :=
  { zone with pows := Function.update zone.pows pow nodes }

def floorToPower2 (memSize : Nat) : Nat := Nat.log2 memSize

def ceilOrder (memSize : Nat) : Nat := if memSize ≤ 1 then 0 else Nat.log2 (memSize - 1) + 1

def nextPowerOfTwo (memSize : Nat) : Nat := 2 ^ ceilOrder memSize

def ceilToPower2 (memSize : Nat) : Exec Nat :=
  if memSize ≤ 2 ^ 63 then pure (nextPowerOfTwo memSize) else throw .overflow

def MemoryZone.addNode (zone : MemoryZone) (pool : FreeNodePool) (pow pageNumber : Nat) :
    Exec (MemoryZone × FreeNodePool) := do
  let (newNode, pool) ← pool.allocNode
  if pow < buddyAllocMaxPow then
    pure (zone.setPow pow ({ ptr := newNode, pageNumber := pageNumber } :: zone.pows pow), pool)
  else throw .indexOutOfBounds

def MemoryZone.newLoop (zone : MemoryZone) (pool : FreeNodePool) (pages currentPtr : Nat) :
    Exec (MemoryZone × FreeNodePool) :=
  if _more : 0 < pages then do
    let pow := floorToPower2 pages
    let (zone, pool) ← zone.addNode pool pow currentPtr
    let nodePages := 2 ^ pow
    zone.newLoop pool (pages - nodePages) (currentPtr + nodePages)
  else pure (zone, pool)
termination_by pages
decreasing_by
  have positive : 0 < 2 ^ floorToPower2 pages := Nat.two_pow_pos _
  omega

def MemoryZone.new (pool : FreeNodePool) (base pages : Nat) : Exec (MemoryZone × FreeNodePool) :=
  MemoryZone.newLoop { base := base, pages := pages, pows := fun _ => [] } pool pages 0

def MemoryZone.splitLoop (zone : MemoryZone) (pool : FreeNodePool) (pagesCount leftStart : Nat) :
    Nat → Exec (Option Nat × MemoryZone × FreeNodePool)
  | 0 => pure (none, zone, pool)
  | i + 1 => do
    let rightStart := leftStart + 2 ^ i
    let (zone, pool) ← zone.addNode pool i rightStart
    if pagesCount = 2 ^ i then pure (some (zone.base + leftStart), zone, pool)
    else zone.splitLoop pool pagesCount leftStart i

/-- `for pow in 0..BUDDY_ALLOC_MAX_POW`, with `remaining` levels to go. -/
def MemoryZone.allocLoop (pagesCount : Nat) :
    Nat → Nat → MemoryZone → FreeNodePool → Exec (Option Nat × MemoryZone × FreeNodePool)
  | 0, _, zone, pool => pure (none, zone, pool)
  | remaining + 1, pow, zone, pool =>
    match zone.pows pow with
    | [] => allocLoop pagesCount remaining (pow + 1) zone pool
    | newNode :: next =>
      if 2 ^ pow = pagesCount then
        pure (some (zone.base + newNode.pageNumber), zone.setPow pow next, pool.recycleNode newNode.ptr)
      else if 2 ^ pow > pagesCount then do
        let leftStart := newNode.pageNumber
        let (found, zone, pool) ←
          (zone.setPow pow next).splitLoop (pool.recycleNode newNode.ptr) pagesCount leftStart pow
        match found with
        | some page => pure (some page, zone, pool)
        | none => allocLoop pagesCount remaining (pow + 1) zone pool
      else allocLoop pagesCount remaining (pow + 1) zone pool

def MemoryZone.allocPages (zone : MemoryZone) (pool : FreeNodePool) (pagesCount : Nat) :
    Exec (Option Nat × MemoryZone × FreeNodePool) :=
  if pagesCount = nextPowerOfTwo pagesCount then
    MemoryZone.allocLoop pagesCount buddyAllocMaxPow 0 zone pool
  else throw .assertion

/-- The head is compared first, then each `next` node, and the first match is unlinked. -/
def unlinkPartner (isPartner : FreeNode → Bool) : List FreeNode → Option (FreeNode × List FreeNode)
  | [] => none
  | current :: next =>
    if isPartner current then some (current, next)
    else (unlinkPartner isPartner next).map fun (node, rest) => (node, current :: rest)

structure MergeState where
  zone : MemoryZone
  pool : FreeNodePool
  powFinal : Nat
  pageRelative : Nat
  pagesCount : Nat

/-- The block to the right of an aligned `page_relative`, and the block to the left of any other. -/
def isPartner (pow pageRelative : Nat) (node : FreeNode) : Bool :=
  if pageRelative % 2 ^ (pow + 1) = 0 then pageRelative + 2 ^ pow = node.pageNumber
  else node.pageNumber + 2 ^ pow = pageRelative

/-- `'pow_loop`, with `remaining` levels to go. Only an empty list ends it, not one without a partner. -/
def mergeLoop : Nat → Nat → MergeState → Exec MergeState
  | 0, _, s => pure s
  | remaining + 1, pow, s =>
    match s.zone.pows pow with
    | [] => pure s
    | current :: next =>
      match unlinkPartner (isPartner pow s.pageRelative) (current :: next) with
      | none => mergeLoop remaining (pow + 1) s
      | some (partner, nodes) =>
        let merged : MergeState :=
          { s with
            zone := s.zone.setPow pow nodes
            pool := s.pool.recycleNode partner.ptr
            powFinal := s.powFinal + 1
            pagesCount := s.pagesCount <<< 1 }
        if s.pageRelative % 2 ^ (pow + 1) = 0 then mergeLoop remaining (pow + 1) merged
        else if s.pageRelative < s.pagesCount then throw .overflow
        else mergeLoop remaining (pow + 1) { merged with pageRelative := s.pageRelative - s.pagesCount }

def findPow (pagesCount : Nat) : Nat :=
  ((range buddyAllocMaxPow).find? fun pow => 2 ^ pow = pagesCount).getD 0

def MemoryZone.freePages (zone : MemoryZone) (pool : FreeNodePool) (pageStart pagesCount : Nat) :
    Exec (MemoryZone × FreeNodePool) :=
  if pagesCount ≠ nextPowerOfTwo pagesCount then throw .assertion
  else if pageStart < zone.base then throw .overflow
  else do
    let powStart := findPow pagesCount
    let s ← mergeLoop (buddyAllocMaxPow - powStart) powStart
      { zone := zone, pool := pool, powFinal := powStart, pageRelative := pageStart - zone.base,
        pagesCount := pagesCount }
    s.zone.addNode s.pool s.powFinal s.pageRelative

/-- `zones` is `self.zones[..self.zone_num]`; `extendedPools` are the first pages of the linked pools. -/
structure BuddyAllocator where
  free : Nat
  zones : List MemoryZone
  nodePool : FreeNodePool
  extendedPools : List Nat

def BuddyAllocator.default : BuddyAllocator :=
  { free := 0, zones := [], nodePool := .default, extendedPools := [] }

def BuddyAllocator.init (self : BuddyAllocator) : BuddyAllocator := { self with nodePool := .init }

def BuddyAllocator.addZone (self : BuddyAllocator) (base pages : Nat) : Exec BuddyAllocator := do
  let (zone, pool) ← MemoryZone.new self.nodePool base pages
  if self.zones.length < memZones then
    pure { self with zones := self.zones ++ [zone], nodePool := pool, free := self.free + pages }
  else throw .indexOutOfBounds

def allocZones (pagesCount : Nat) :
    List MemoryZone → FreeNodePool → Exec (Option Nat × List MemoryZone × FreeNodePool)
  | [], pool => pure (none, [], pool)
  | zone :: zones, pool => do
    let (found, zone, pool) ← zone.allocPages pool pagesCount
    match found with
    | some page => pure (some page, zone :: zones, pool)
    | none =>
      let (found, zones, pool) ← allocZones pagesCount zones pool
      pure (found, zone :: zones, pool)

def BuddyAllocator.request (self : BuddyAllocator) (pagesCount : Nat) :
    Exec (Except AllocError Nat × BuddyAllocator) := do
  let pagesCount ← ceilToPower2 pagesCount
  let (found, zones, pool) ← allocZones pagesCount self.zones self.nodePool
  let self := { self with zones := zones, nodePool := pool }
  match found with
  | some page =>
    if self.free < pagesCount then throw .overflow
    else pure (.ok page, { self with free := self.free - pagesCount })
  | none => pure (.error .outOfMemory, self)

def extendedPoolSize : Nat := extNodeCompatibility * 16 + 8

def extendedPoolPages : Nat := nextPowerOfTwo ((extendedPoolSize + pageSize - 1) / pageSize)

def BuddyAllocator.newExtendedPool
    (allocPages : BuddyAllocator → Nat → Exec (Except AllocError Nat × BuddyAllocator)) (self : BuddyAllocator) :
    Exec (Except AllocError Unit × BuddyAllocator) := do
  let self := { self with nodePool.freenodeRemain := self.nodePool.freenodeRemain + extNodeCompatibility }
  let (result, self) ← allocPages self extendedPoolPages
  match result with
  | .error failure => pure (.error failure, self)
  | .ok pageNum =>
    let nodes := (range extNodeCompatibility).map (NodePtr.extended pageNum)
    pure (.ok (),
      { self with
        extendedPools := pageNum :: self.extendedPools
        nodePool.freeStart := nodes ++ self.nodePool.freeStart })

/-- `alloc_pages` with a bound on the depth of the recursion through `new_extended_pool`. -/
def BuddyAllocator.allocDepth : Nat → BuddyAllocator → Nat → Exec (Except AllocError Nat × BuddyAllocator)
  | 0, _, _ => throw .recursion
  | depth + 1, self, pagesCount =>
    if self.nodePool.freenodeRemain ≤ minPoolRemain then do
      let (result, self) ← self.newExtendedPool (allocDepth depth)
      match result with
      | .error failure => pure (.error failure, self)
      | .ok () => self.request pagesCount
    else self.request pagesCount

/-- The raised `freenode_remain` keeps the inner call from recursing, so depth two is enough. -/
def BuddyAllocator.allocPages (self : BuddyAllocator) (pagesCount : Nat) :
    Exec (Except AllocError Nat × BuddyAllocator) :=
  self.allocDepth 2 pagesCount

/-- The zone that contains `page_start` takes the block; without one nothing happens. -/
def freeZones (pageStart pagesCount : Nat) :
    List MemoryZone → FreeNodePool → Exec (Bool × List MemoryZone × FreeNodePool)
  | [], pool => pure (false, [], pool)
  | zone :: zones, pool =>
    if zone.base ≤ pageStart ∧ pageStart < zone.base + zone.pages then do
      let (zone, pool) ← zone.freePages pool pageStart pagesCount
      pure (true, zone :: zones, pool)
    else do
      let (found, zones, pool) ← freeZones pageStart pagesCount zones pool
      pure (found, zone :: zones, pool)

def BuddyAllocator.freePages (self : BuddyAllocator) (pageStart pagesCount : Nat) : Exec BuddyAllocator := do
  let pagesCount ← ceilToPower2 pagesCount
  let (found, zones, pool) ← freeZones pageStart pagesCount self.zones self.nodePool
  let self := { self with zones := zones, nodePool := pool }
  pure (if found then { self with free := self.free + pagesCount } else self)

instance : PageAllocator BuddyAllocator where
  allocPages := BuddyAllocator.allocPages
  freePages := BuddyAllocator.freePages

end Kernel31.Buddy
