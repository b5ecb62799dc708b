import Kernel31.Paging.Map
import Kernel31.Page.Bump

namespace Kernel31.Paging

open Page Checked Radix List Mapper

inductive MapCall where
  | map4k (vpn ppn : Nat) (mode : List PageACL)
  | mapWithAllocator (vpn ppn pages : Nat) (mode : List PageACL)
  deriving DecidableEq, Repr

structure Mapping where
  vpn : Nat
  ppn : Nat
  mode : List PageACL
  deriving DecidableEq, Repr

def MapCall.mappings : MapCall → List Mapping
  | .map4k vpn ppn mode => [⟨vpn, ppn, mode⟩]
  | .mapWithAllocator vpn ppn pages mode => (List.range pages).map fun i => ⟨vpn + i, ppn + i, mode⟩

def Mapping.Fits (E : Type) [Mmu E] (mapping : Mapping) : Prop :=
  mapping.ppn < 2 ^ Mmu.fieldBits E ∧ PageACL.read ∈ mapping.mode

/-- The last of the mappings whose page is congruent to `vpn` modulo `2 ^ (9 * levels)`. -/
def latest (levels : Nat) (mappings : List Mapping) (vpn : Nat) : Option Mapping :=
  mappings.reverse.find? fun mapping => mapping.vpn % 2 ^ (9 * levels) = vpn % 2 ^ (9 * levels)

section Calls

variable {M E A : Type} [Entry E] [Mapper M E] [PageAllocator A]

def MapCall.run (self : M) (machine : Machine A) : MapCall → Exec (Machine A)
  | .map4k vpn ppn mode => Mapper.map4k self machine vpn ppn mode
  | .mapWithAllocator vpn ppn pages mode => Mapper.mapWithAllocator self machine vpn ppn pages mode

structure Represents [Mmu E] (inUse : A → Nat → Prop) (mapper : M) (machine : Machine A) (mappings : List Mapping) :
    Prop where
  tree : Tree M machine.mem (rootTable mapper).page (inUse machine.alloc)
  present : ∀ mapping ∈ mappings, ∃ table,
    (scheme M).tableAt machine.mem (rootTable mapper).page (height M) mapping.vpn = some table
  translation : (∀ mapping ∈ mappings, mapping.Fits E) → ∀ vpn,
    lookup M machine.mem (rootTable mapper).page vpn =
      (latest (level M) mappings vpn).map fun mapping => (mapping.ppn, Mmu.granted (E := E) mapping.mode)

variable [Mmu E] [LawfulEntry E] [LawfulMapper M] {inUse : A → Nat → Prop} (sound : SoundAllocator inUse)

theorem latest_append (levels : Nat) (mappings : List Mapping) (mapping : Mapping) (vpn : Nat) :
    latest levels (mappings ++ [mapping]) vpn =
      if vpn % 2 ^ (9 * levels) = mapping.vpn % 2 ^ (9 * levels) then some mapping else latest levels mappings vpn := by
  rw [latest, reverse_append, reverse_singleton, singleton_append, find?_cons]
  by_cases same : vpn % 2 ^ (9 * levels) = mapping.vpn % 2 ^ (9 * levels)
  · simp [same]
  · rw [if_neg same]
    simp [Ne.symm same, latest]

omit [LawfulMapper M] in
theorem Tree.blank {mem : Memory} {root : Nat} {owned : Nat → Prop} (blank : ∀ index, mem root index = 0)
    (mine : owned root) (small : root < 2 ^ 52) :
    Tree M mem root owned ∧ ∀ depth key, 0 < depth → (scheme M).tableAt mem root depth key = none := by
  have none : ∀ depth key, 0 < depth → (scheme M).tableAt mem root depth key = none := by
    intro depth key positive
    have first : (scheme M).tableAt mem root 1 key = .none := by
      rw [Scheme.tableAt, Scheme.tableAt, Option.bind_some, blank, child_blank]
    exact Scheme.tableAt_none first positive
  have only : ∀ depth key table, (scheme M).tableAt mem root depth key = some table → depth = 0 ∧ table = root := by
    intro depth key table reached
    rcases Nat.eq_zero_or_pos depth with rfl | positive
    · exact ⟨rfl, (Option.some.inj reached).symm⟩
    · rw [none depth key positive] at reached
      cases reached
  refine ⟨⟨?_, ?_, ?_, ?_⟩, none⟩
  · intro i j key other table _ _ first second
    obtain ⟨rfl, _⟩ := only i key table first
    obtain ⟨rfl, _⟩ := only j other table second
    exact ⟨rfl, fun _ below => by omega⟩
  · rintro table ⟨depth, key, _, reached⟩
    obtain ⟨_, rfl⟩ := only depth key table reached
    exact ⟨mine, small⟩
  · intro depth key table positive _ reached
    rw [none depth key positive] at reached
    cases reached
  · intro depth key table _ reached
    obtain ⟨_, rfl⟩ := only depth key table reached
    rw [blank]
    exact tableWord_blank

include sound

variable {self : M} {machine machine' : Machine A}

variable {vpn ppn : Nat} {mode : List PageACL} {calls : List MapCall}

theorem Represents.map4k {mappings : List Mapping} (represents : Represents inUse self machine mappings)
    (run : Mapper.map4k self machine vpn ppn mode = .ok machine') :
    Represents inUse self machine' (mappings ++ [⟨vpn, ppn, mode⟩]) := by
  obtain ⟨tree, kept, last, moved, _⟩ := map4k_spec sound represents.tree run
  refine ⟨tree, ?_, ?_⟩
  · rw [forall_mem_append, forall_mem_singleton]
    refine ⟨fun mapping member => ?_, last⟩
    obtain ⟨table, found⟩ := represents.present mapping member
    exact ⟨table, kept _ _ _ le_rfl found⟩
  intro fits other
  rw [forall_mem_append, forall_mem_singleton] at fits
  obtain ⟨small, readable⟩ := fits.2
  rw [moved small readable, latest_append, represents.translation fits.1]
  split <;> rfl

theorem Represents.mapWithAllocator {mappings : List Mapping} {pages : Nat}
    (represents : Represents inUse self machine mappings)
    (run : Mapper.mapWithAllocator self machine vpn ppn pages mode = .ok machine') :
    Represents inUse self machine' (mappings ++ (MapCall.mapWithAllocator vpn ppn pages mode).mappings) := by
  induction pages generalizing machine mappings vpn ppn with
  | zero =>
    obtain rfl := pure_ok.mp run
    simpa [MapCall.mappings] using represents
  | succ pages ih =>
    simp only [Mapper.mapWithAllocator, bind_ok] at run
    obtain ⟨middle, first, run⟩ := run
    split at run
    · have after := ih (represents.map4k sound first) run
      have shifted : (MapCall.mapWithAllocator vpn ppn (pages + 1) mode).mappings =
          ⟨vpn, ppn, mode⟩ :: (MapCall.mapWithAllocator (vpn + 1) (ppn + 1) pages mode).mappings := by
        simp only [MapCall.mappings, range_succ_eq_map, map_cons, map_map, Nat.add_zero]
        congr 1
        apply map_congr_left
        intro i _
        simp [Nat.add_assoc, Nat.add_comm 1]
      rw [shifted, append_cons]
      exact after
    · simp [throw_ok] at run

theorem Represents.run {mappings : List Mapping} {call : MapCall}
    (represents : Represents inUse self machine mappings) (run : call.run self machine = .ok machine') :
    Represents inUse self machine' (mappings ++ call.mappings) := by
  cases call with
  | map4k vpn ppn mode => exact represents.map4k sound run
  | mapWithAllocator vpn ppn pages mode => exact represents.mapWithAllocator sound run

theorem Represents.runs {mappings : List Mapping} (represents : Represents inUse self machine mappings)
    (run : calls.foldlM (MapCall.run self) machine = .ok machine') :
    Represents inUse self machine' (mappings ++ calls.flatMap MapCall.mappings) := by
  induction calls generalizing machine mappings with
  | nil =>
    obtain rfl := pure_ok.mp run
    simpa using represents
  | cons call calls ih =>
    simp only [foldlM_cons, bind_ok] at run
    obtain ⟨middle, first, run⟩ := run
    have after := ih (represents.run sound first) run
    rwa [append_assoc, ← flatMap_cons] at after

theorem Represents.new (run : newWithAllocator machine = .ok (self, machine')) :
    Represents inUse self machine' [] := by
  simp only [newWithAllocator, bind_ok, pure_ok, Prod.exists] at run
  obtain ⟨root, after, created, ⟨⟩⟩ := run
  obtain ⟨_, small, cleared, owned⟩ := Table.new_ok sound created
  have blank : ∀ index, machine'.mem root.page index = 0 := by
    intro index
    rw [cleared, Function.update_self]
  have tree := Tree.blank (M := M) blank ((owned _).mpr (Or.inl rfl)) small
  rw [← LawfulMapper.root (M := M) root] at tree blank
  refine ⟨tree.1, by simp, ?_⟩
  intro _ vpn
  have levels := height_succ M
  have deep := (LawfulMapper.levels (M := M)).1
  rw [lookup, Scheme.leafAt, tree.2 (height M) vpn (by omega)]
  rfl

theorem walk_of_calls {begun : Machine A} {frame : Nat}
    (new : newWithAllocator machine = .ok (self, begun))
    (run : calls.foldlM (MapCall.run self) begun = .ok machine')
    (fits : ∀ call ∈ calls, ∀ mapping ∈ call.mappings, mapping.Fits E)
    (rooted : (rootTable self).pageNumber = .ok frame) (vpn : Nat) :
    walk M machine'.mem vpn (level M - 1) frame =
      (latest (level M) (calls.flatMap MapCall.mappings) vpn).map
        fun mapping => (mapping.ppn, Mmu.granted (E := E) mapping.mode) := by
  have represents := (Represents.new sound new).runs sound run
  rw [nil_append] at represents
  rw [represents.tree.walk_root rooted]
  refine represents.translation ?_ vpn
  intro mapping member
  obtain ⟨call, called, listed⟩ := mem_flatMap.mp member
  exact fits call called mapping listed

end Calls

theorem latest_of_missed {levels vpn : Nat} {mappings later : List Mapping}
    (missed : ∀ mapping ∈ later, mapping.vpn % 2 ^ (9 * levels) ≠ vpn % 2 ^ (9 * levels)) :
    latest levels (mappings ++ later) vpn = latest levels mappings vpn := by
  have none : later.reverse.find? (fun mapping => mapping.vpn % 2 ^ (9 * levels) = vpn % 2 ^ (9 * levels)) = none := by
    rw [find?_eq_none]
    intro mapping member
    simpa using missed mapping (mem_reverse.mp member)
  rw [latest, reverse_append, find?_append, none]
  rfl

/-- The walk gives the latest mapping of a congruent page, and one more call changes the walk of its own pages only.
    -/
def WalkIsLatest (M : Type) {E : Type} [Entry E] [Mmu E] [Mapper M E] (A : Type) [PageAllocator A] : Prop :=
  ∀ (self : M) (calls : List MapCall) (machine begun machine' : Machine A) (frame : Nat),
    newWithAllocator machine = .ok (self, begun) → calls.foldlM (MapCall.run self) begun = .ok machine' →
    (∀ call ∈ calls, ∀ mapping ∈ call.mappings, mapping.Fits E) →
    (rootTable self).pageNumber = .ok frame →
    (∀ vpn, walk M machine'.mem vpn (level M - 1) frame =
      (latest (level M) (calls.flatMap MapCall.mappings) vpn).map
        fun mapping => (mapping.ppn, Mmu.granted (E := E) mapping.mode)) ∧
    ∀ call after, MapCall.run self machine' call = .ok after → (∀ mapping ∈ call.mappings, mapping.Fits E) →
      ∀ vpn, (∀ mapping ∈ call.mappings,
        mapping.vpn % 2 ^ (9 * level M) ≠ vpn % 2 ^ (9 * level M)) →
      walk M after.mem vpn (level M - 1) frame = walk M machine'.mem vpn (level M - 1) frame

theorem SoundAllocator.walkIsLatest {A : Type} [PageAllocator A] {inUse : A → Nat → Prop}
    (sound : SoundAllocator inUse) (M : Type) {E : Type} [Entry E] [Mmu E] [Mapper M E] [LawfulEntry E]
    [LawfulMapper M] : WalkIsLatest M A := by
  intro self calls machine begun machine' frame new run fits rooted
  have here := walk_of_calls sound new run fits rooted
  refine ⟨here, ?_⟩
  intro call after called fitting vpn missed
  have longer : (calls ++ [call]).foldlM (MapCall.run self) begun = .ok after := by
    rw [foldlM_append, run, ok_bind, foldlM_cons, called, ok_bind]
    rfl
  have all : ∀ other ∈ calls ++ [call], ∀ mapping ∈ other.mappings, mapping.Fits E := by
    rw [forall_mem_append, forall_mem_singleton]
    exact ⟨fits, fitting⟩
  rw [here vpn, walk_of_calls sound new longer all rooted vpn, flatMap_append, flatMap_singleton,
    latest_of_missed missed]

/-- Both mappers translate every page by the latest mapping of a congruent page. -/
theorem walk_is_latest_mapping {A : Type} [PageAllocator A] {inUse : A → Nat → Prop}
    (sound : SoundAllocator inUse) : WalkIsLatest Sv39Mapper A ∧ WalkIsLatest Arm64Mapper A :=
  ⟨sound.walkIsLatest Sv39Mapper, sound.walkIsLatest Arm64Mapper⟩

def Bump.start : Bump := ⟨pageOffset, [], by simp⟩

theorem Bump.sound : SoundAllocator fun (alloc : Bump) page => page ∈ alloc.used where
  fresh alloc page alloc' run := by
    change Bump.allocPages alloc 1 = _ at run
    unfold Bump.allocPages at run
    split at run
    · rename_i small
      obtain ⟨⟩ := pure_ok.mp run
      refine ⟨fun member => lt_irrefl _ (alloc.below _ member), by omega, ?_⟩
      intro other
      simp
    · simp [pure_ok] at run
  freed alloc page alloc' run other := by
    obtain rfl := pure_ok.mp run
    simp only [mem_filter, decide_eq_true_eq]
    constructor
    · rintro ⟨member, outside⟩
      exact ⟨by omega, member⟩
    · rintro ⟨different, member⟩
      exact ⟨member, by omega⟩

theorem walk_of_overlapping_calls :
    ∃ self begun machine' frame, newWithAllocator (M := Sv39Mapper) ⟨Bump.start, fun _ _ => 0⟩ = .ok (self, begun) ∧
      [MapCall.map4k 5 7 [.read], .mapWithAllocator 4 8 2 [.read, .write]].foldlM (MapCall.run self) begun =
        .ok machine' ∧
      (rootTable self).pageNumber = .ok frame ∧
      walk Sv39Mapper machine'.mem (2 ^ 27 + 5) 2 frame = some (9, ⟨true, true, false, false⟩) ∧
      walk Sv39Mapper machine'.mem 6 2 frame = none := by
  have played : ∃ self begun machine' frame,
      newWithAllocator (M := Sv39Mapper) ⟨Bump.start, fun _ _ => 0⟩ = .ok (self, begun) ∧
      [MapCall.map4k 5 7 [.read], .mapWithAllocator 4 8 2 [.read, .write]].foldlM (MapCall.run self) begun =
        .ok machine' ∧ (rootTable self).pageNumber = .ok frame := ⟨_, _, _, _, rfl, rfl, rfl⟩
  obtain ⟨self, begun, machine', frame, new, run, rooted⟩ := played
  have fits : ∀ call ∈ [MapCall.map4k 5 7 [.read], .mapWithAllocator 4 8 2 [.read, .write]],
      ∀ mapping ∈ call.mappings, mapping.Fits PageTableEntry := by
    simp only [forall_mem_cons, MapCall.mappings, Mapping.Fits, Mmu.fieldBits]
    decide
  have latest := ((walk_is_latest_mapping Bump.sound).1 self _ _ begun machine' frame new run fits rooted).1
  exact ⟨self, begun, machine', frame, new, run, rooted, latest _, latest _⟩

end Kernel31.Paging
