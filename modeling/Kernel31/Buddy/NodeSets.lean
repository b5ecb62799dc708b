import Kernel31.Buddy.Exhaustion

namespace Kernel31.Buddy

open Checked Page BuddyAllocator List MemoryZone

variable {before after self middle : BuddyAllocator} {zones later : List MemoryZone} {zone zone' : MemoryZone}
  {pool : FreeNodePool} {page : Nat}

/-- Where a node is: one of the static nodes, or its address in an extended pool. -/
def NodePtr.place : NodePtr → Nat ⊕ Nat
  | .fixed index => .inl index
  | .extended page index => .inr (page * pageSize + 16 * index)

def staticNodes : List NodePtr := (range nodeCompatibility).map .fixed

def poolNodes (page : Nat) : List NodePtr := (range extNodeCompatibility).map (.extended page)

/-- The nodes reachable from `free_start` and from the lists of all zones. -/
def BuddyAllocator.linked (self : BuddyAllocator) : List NodePtr :=
  self.nodePool.freeStart ++ self.zones.flatMap MemoryZone.nodes

def BuddyAllocator.owned (self : BuddyAllocator) : List NodePtr :=
  staticNodes ++ self.extendedPools.flatMap poolNodes

/-- For a pool at address 0 `NonNull::new` gives `None`, and its nodes are not reachable. -/
structure BuddyAllocator.NodesExact (now : BuddyAllocator) : Prop where
  distinct : (now.linked.map NodePtr.place).Nodup
  complete : now.linked.Perm now.owned
  nonNull : ∀ page ∈ now.extendedPools, 0 < page
  counted : now.nodePool.freenodeRemain = now.nodePool.freeStart.length

/-- The pages in which the nodes of a pool are. -/
def poolNodePages : Nat := (extNodeCompatibility * 16 + pageSize - 1) / pageSize

def PoolsApart (page other : Nat) : Prop := page + poolNodePages ≤ other ∨ other + poolNodePages ≤ page

inductive Call where
  | addZone (base pages : Nat)
  | alloc (pagesCount : Nat)
  | free (pageStart pagesCount : Nat)
  deriving DecidableEq, Repr

def BuddyAllocator.call (self : BuddyAllocator) : Call → Exec BuddyAllocator
  | .addZone base pages => self.addZone base pages
  | .alloc pagesCount => do
    let (_, self) ← self.allocPages pagesCount
    pure self
  | .free pageStart pagesCount => self.freePages pageStart pagesCount

/-- Where the node pool has to be extended, the pages for it are found, and apart from the pools there are. -/
def BuddyAllocator.PoolPlaced (self : BuddyAllocator) : Call → Prop
  | .alloc _ => self.nodePool.freenodeRemain ≤ minPoolRemain →
      ∃ page after, self.bumped.request extendedPoolPages = .ok (.ok page, after) ∧ 0 < page ∧
        ∀ pool ∈ self.extendedPools, PoolsApart page pool
  | _ => True

def BuddyAllocator.Calls (guard : BuddyAllocator → Call → Prop) (before after : BuddyAllocator) : Prop :=
  ∃ call, guard before call ∧ before.call call = .ok after

theorem poolsApart_iff {other : Nat} :
    PoolsApart page other ↔ ∀ i < extNodeCompatibility, ∀ j < extNodeCompatibility,
      page * pageSize + 16 * i ≠ other * pageSize + 16 * j := by
  have pages : poolNodePages = 33 := by decide
  simp only [PoolsApart, pages, extNodeCompatibility, pageSize_eq]
  constructor
  · omega
  · intro different
    by_contra near
    rcases Nat.le_total page other with below | above
    · exact different (256 * (other - page)) (by omega) 0 (by omega) (by omega)
    · exact different 0 (by omega) (256 * (page - other)) (by omega) (by omega)

structure BuddyAllocator.Moved (before after : BuddyAllocator) : Prop where
  perm : after.linked.Perm before.linked
  pools : after.extendedPools = before.extendedPools
  counted : after.nodePool.freenodeRemain + before.nodePool.freeStart.length =
    before.nodePool.freenodeRemain + after.nodePool.freeStart.length

theorem linked_replace {free : List NodePtr} {free' : List NodePtr}
    (perm : (free' ++ zone'.nodes).Perm (free ++ zone.nodes)) :
    (free' ++ (zones ++ zone' :: later).flatMap MemoryZone.nodes).Perm
      (free ++ (zones ++ zone :: later).flatMap MemoryZone.nodes) := by
  have front : ∀ (free : List NodePtr) (zone : MemoryZone),
      (free ++ (zones ++ zone :: later).flatMap MemoryZone.nodes).Perm
        ((free ++ zone.nodes) ++ (zones ++ later).flatMap MemoryZone.nodes) := by
    intro free zone
    rw [append_assoc]
    exact (perm_middle.flatMap_right _).append_left _
  exact (front free' zone').trans ((perm.append_right _).trans (front free zone).symm)

theorem BuddyAllocator.Moved.request {count : Nat} {result : Except AllocError Nat}
    (run : before.request count = .ok (result, after)) : before.Moved after := by
  rcases request_cases run with ⟨_, rfl, _⟩ | ⟨_, _, _, _, _, _, _, split, taken, _, _, rfl⟩
  · exact ⟨.refl _, rfl, rfl⟩
  · refine ⟨?_, rfl, (Moves.alloc taken).counted⟩
    rw [linked, linked, split]
    exact linked_replace (Moves.alloc taken).perm

theorem BuddyAllocator.Moved.free {start count : Nat} (run : before.freePages start count = .ok after) :
    before.Moved after := by
  rcases freePages_cases run with ⟨rfl, _⟩ | ⟨_, _, _, _, _, split, _, freed, rfl⟩
  · exact ⟨.refl _, rfl, rfl⟩
  · refine ⟨?_, rfl, (Moves.free freed).counted⟩
    rw [linked, linked, split]
    exact linked_replace (Moves.free freed).perm

theorem BuddyAllocator.Moved.addZone {base pages : Nat} (run : before.addZone base pages = .ok after) :
    before.Moved after := by
  obtain ⟨zone, pool, new, rfl⟩ := addZone_ok run
  have moves := Moves.new new
  refine ⟨?_, rfl, moves.counted⟩
  have empty : (empty base pages).nodes = [] := by simp [MemoryZone.nodes, empty]
  have added := @linked_replace before.zones [] _ _ _ _ moves.perm
  simpa [linked, empty] using added

theorem BuddyAllocator.Moved.exact_iff (moved : before.Moved after) : after.NodesExact ↔ before.NodesExact := by
  have places := (moved.perm.map NodePtr.place).nodup_iff
  have owned : after.owned = before.owned := by rw [owned, moved.pools, owned]
  have counted := moved.counted
  constructor
  · intro nodes
    refine ⟨places.mp nodes.distinct, ?_, moved.pools ▸ nodes.nonNull, ?_⟩
    · rw [← owned]
      exact moved.perm.symm.trans nodes.complete
    · have now := nodes.counted
      omega
  · intro nodes
    refine ⟨places.mpr nodes.distinct, ?_, moved.pools ▸ nodes.nonNull, ?_⟩
    · rw [owned]
      exact moved.perm.trans nodes.complete
    · have now := nodes.counted
      omega

theorem nodup_poolNodes (page : Nat) : ((poolNodes page).map NodePtr.place).Nodup := by
  rw [poolNodes, map_map]
  refine nodup_range.map fun i j same => ?_
  have equal := Sum.inr.inj same
  omega

theorem BuddyAllocator.NodesExact.apart_iff (nodes : self.NodesExact) :
    List.Disjoint ((poolNodes page).map NodePtr.place) (self.linked.map NodePtr.place) ↔
      ∀ pool ∈ self.extendedPools, PoolsApart page pool := by
  simp only [poolsApart_iff, List.Disjoint, mem_map, poolNodes, mem_range, nodes.complete.mem_iff,
    owned, staticNodes, mem_append, mem_flatMap]
  constructor
  · intro disjoint pool member i inside j within same
    exact disjoint ⟨_, ⟨i, inside, rfl⟩, rfl⟩ ⟨.extended pool j, .inr ⟨pool, member, j, within, rfl⟩, (congrArg _ same).symm⟩
  · rintro apart _ ⟨_, ⟨i, inside, rfl⟩, rfl⟩ ⟨_, ⟨index, _, rfl⟩ | ⟨pool, member, j, within, rfl⟩, same⟩
    · cases same
    · exact apart pool member i inside j within (Sum.inr.inj same).symm

theorem BuddyAllocator.NodesExact.withPool_iff (nodes : self.NodesExact) (moved : self.bumped.Moved middle) :
    (middle.withPool page).NodesExact ↔ 0 < page ∧ ∀ pool ∈ self.extendedPools, PoolsApart page pool := by
  have linked : (middle.withPool page).linked.Perm (poolNodes page ++ self.linked) := by
    rw [linked, withPool, append_assoc]
    exact moved.perm.append_left _
  have owned : (middle.withPool page).owned.Perm (poolNodes page ++ self.owned) := by
    rw [owned, withPool, flatMap_cons, moved.pools]
    exact perm_append_comm_assoc ..
  have counted := moved.counted
  have now := nodes.counted
  have places := (linked.map NodePtr.place).nodup_iff
  rw [map_append, nodup_append'] at places
  constructor
  · intro after
    exact ⟨after.nonNull page mem_cons_self, nodes.apart_iff.mp (places.mp after.distinct).2.2⟩
  · rintro ⟨positive, apart⟩
    refine ⟨places.mpr ⟨nodup_poolNodes page, nodes.distinct, nodes.apart_iff.mpr apart⟩, ?_, ?_, ?_⟩
    · exact linked.trans ((nodes.complete.append_left _).trans owned.symm)
    · exact forall_mem_cons.mpr ⟨positive, moved.pools ▸ nodes.nonNull⟩
    · simp only [bumped, withPool, length_append, length_map, length_range]
        at counted ⊢
      omega

theorem BuddyAllocator.NodesExact.bumped (nodes : self.NodesExact) : ¬ self.bumped.NodesExact := by
  intro after
  have now := nodes.counted
  have raised := after.counted
  simp only [BuddyAllocator.bumped, extNodeCompatibility] at raised
  omega

theorem BuddyAllocator.NodesExact.call_iff {call : Call} (nodes : self.NodesExact)
    (run : self.call call = .ok after) : after.NodesExact ↔ self.PoolPlaced call := by
  cases call with
  | addZone base pages => exact iff_of_true ((Moved.addZone run).exact_iff.mpr nodes) trivial
  | free start count => exact iff_of_true ((Moved.free run).exact_iff.mpr nodes) trivial
  | alloc count =>
    simp only [call, bind_ok, pure_ok, Prod.exists, allocPages_eq] at run
    obtain ⟨result, last, run, rfl⟩ := run
    unfold PoolPlaced
    split at run
    · rename_i low
      obtain ⟨⟨first, middle⟩, request, run⟩ := bind_ok.mp run
      have moved := Moved.request request
      simp only [low, true_imp_iff, request, Except.ok.injEq, Prod.mk.injEq]
      cases first with
      | error failure =>
        obtain ⟨_, rfl⟩ := Prod.mk.inj (pure_ok.mp run)
        obtain rfl := request_refused request
        exact iff_of_false nodes.bumped (by simp)
      | ok page =>
        rw [(Moved.request run).exact_iff, nodes.withPool_iff moved]
        simp
    · rename_i plenty
      exact iff_of_true ((Moved.request run).exact_iff.mpr nodes) fun low => absurd low plenty

theorem nodesExact_init : BuddyAllocator.default.init.NodesExact := by
  refine ⟨?_, ?_, ?_, ?_⟩
  · simp only [linked, init, BuddyAllocator.default, FreeNodePool.init, flatMap_nil,
      append_nil, map_map]
    exact nodup_range.map fun i j same => Sum.inl.inj same
  · simp only [linked, owned, init, BuddyAllocator.default, FreeNodePool.init,
      staticNodes, flatMap_nil, List.Perm.refl]
  · simp [init, BuddyAllocator.default]
  · simp [init, FreeNodePool.init]

theorem System.Steps.calls {s s' : System} {guard : System → Op → Prop} (steps : s.Steps guard s') :
    s.allocator.Calls (fun _ _ => True) s'.allocator := by
  obtain ⟨op, _, _, run⟩ := steps
  cases op with
  | alloc count =>
    obtain ⟨⟨result, after⟩, request, run⟩ := bind_ok.mp run
    refine ⟨.alloc count, trivial, ?_⟩
    rw [call, request, ok_bind]
    cases result with
    | ok page =>
      obtain rfl := pure_ok.mp run
      rfl
    | error failure =>
      obtain rfl := pure_ok.mp run
      rfl
  | free start count =>
    obtain ⟨after, freed, run⟩ := bind_ok.mp run
    obtain rfl := pure_ok.mp run
    exact ⟨.free start count, trivial, freed⟩

end Kernel31.Buddy
