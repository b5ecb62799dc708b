import Kernel31.Sched.Ownership
import Kernel31.Paging.Leaks

namespace Kernel31.Sched

open Page Paging Elf Kernel31.Task Checked Radix Function Scheduler List Mapper

variable {layout : KernelLayout} {elfBytes : List UInt8} {beyond : Nat → UInt8} {entries : List PageAlloc}
  {pid count : Nat} {M E A C F : Type} {page : M} {alloc alloc' base : Traced A} {result : Except AllocError Nat}
  {before middle after : Kernel (Traced A) M C F} {taken given : List (Nat × Nat)}

theorem traced_soundFrees [PageAllocator A] {inUse : A → Nat → Prop} (sound : SoundFrees inUse) :
    SoundFrees fun (alloc : Traced A) page => inUse alloc.inner page := by
  have allocated {alloc alloc' : Traced A} {count page : Nat}
      (run : PageAllocator.allocPages alloc count = .ok (.ok page, alloc')) :
      PageAllocator.allocPages alloc.inner count = .ok (.ok page, alloc'.inner) := by
    obtain ⟨⟨outcome, inner⟩, allocated, run⟩ := bind_ok.mp run
    cases outcome with
    | error failure => simp [pure_ok] at run
    | ok given =>
      obtain ⟨⟩ := pure_ok.mp run
      exact allocated
  have freed {alloc alloc' : Traced A} {start count : Nat}
      (run : PageAllocator.freePages alloc start count = .ok alloc') :
      PageAllocator.freePages alloc.inner start count = .ok alloc'.inner := by
    obtain ⟨inner, freed, run⟩ := bind_ok.mp run
    obtain rfl := pure_ok.mp run
    exact freed
  exact
    { fresh := fun _ _ _ run => sound.fresh _ _ _ (allocated run)
      freed := fun _ _ _ run => sound.freed _ _ _ (freed run)
      block := fun _ _ _ _ run => sound.block _ _ _ _ (allocated run)
      released := fun _ _ _ _ run => sound.released _ _ _ _ (freed run) }

section AllocRule

variable [Entry E] [Mapper M E] [PageAllocator A] (inv : A → Prop)
  (keeps : ∀ alloc count result alloc', PageAllocator.allocPages alloc count = .ok (result, alloc') → inv alloc → inv alloc')
  {machine machine' : Machine A}
include keeps

omit [Entry E] in
theorem newWithAllocator_rule (start : inv machine.alloc) (run : newWithAllocator machine = .ok (page, machine')) :
    inv machine'.alloc := by
  simp only [newWithAllocator, bind_ok, Prod.exists] at run
  obtain ⟨root, after, created, run⟩ := run
  obtain ⟨_, rfl⟩ := Prod.mk.inj (pure_ok.mp run)
  exact Table.new_rule inv (fun alloc result alloc' => keeps alloc 1 result alloc') start created

theorem mapWithAllocator_rule {vpn ppn pages : Nat} {mode : List PageACL} (start : inv machine.alloc)
    (run : mapWithAllocator page machine vpn ppn pages mode = .ok machine') : inv machine'.alloc := by
  have calls : [MapCall.mapWithAllocator vpn ppn pages mode].foldlM (MapCall.run page) machine = .ok machine' := by
    rw [foldlM_cons, MapCall.run, run]
    rfl
  exact calls_rule inv (fun alloc result alloc' => keeps alloc 1 result alloc') start calls

theorem mapKernelRegion_rule (start : inv machine.alloc)
    (run : mapKernelRegion page layout machine = .ok machine') : inv machine'.alloc := by
  simp only [mapKernelRegion, bind_ok] at run
  obtain ⟨_, rodata, _, data, _, bss, text⟩ := run
  have first := mapWithAllocator_rule inv keeps start (mapRangeWithAlloc_ok rodata).2
  have second := mapWithAllocator_rule inv keeps first (mapRangeWithAlloc_ok data).2
  have third := mapWithAllocator_rule inv keeps second (mapRangeWithAlloc_ok bss).2
  exact mapWithAllocator_rule inv keeps third (mapRangeWithAlloc_ok text).2

theorem loadSegments_rule {progs : List Program} {s s' : Loading A} (start : inv s.machine.alloc)
    (run : loadSegments page elfBytes beyond progs s = .ok s') : inv s'.machine.alloc := by
  induction progs generalizing s with
  | nil =>
    obtain rfl := pure_ok.mp run
    exact start
  | cons prog rest ih =>
    rw [loadSegments] at run
    split at run
    · obtain ⟨middle, segment, run⟩ := bind_ok.mp run
      obtain ⟨block, alloc, mapped, allocated, _, mapping, rfl⟩ := loadSegment_ok segment
      have after : inv mapped.alloc := mapWithAllocator_rule inv keeps (keeps _ _ _ _ allocated start) mapping
      exact ih after run
    · exact ih start run

theorem forkAllocs_rule [Mmu E] [AddressSpace E] {kernelPt : M} {s s' : Forking A} (start : inv s.machine.alloc)
    (run : forkAllocs kernelPt page entries s = .ok s') : inv s'.machine.alloc := by
  induction entries generalizing s with
  | nil =>
    obtain rfl := pure_ok.mp run
    exact start
  | cons entry rest ih =>
    obtain ⟨middle, step, run⟩ := bind_ok.mp run
    rcases forkAlloc_ok step with ⟨_, machine, mapping, rfl⟩ | ⟨_, block, alloc, machine, mem, allocated, _, mapping, _, rfl⟩
    · have after : inv machine.alloc := mapWithAllocator_rule inv keeps start mapping
      exact ih after run
    · have after : inv machine.alloc := mapWithAllocator_rule inv keeps (keeps _ _ _ _ allocated start) mapping
      exact ih after run

theorem createImage_rule {trapStack : Nat} {image : Image M} (start : inv machine.alloc)
    (run : createImage layout trapStack elfBytes beyond machine = .ok (.ok (image, machine'))) :
    inv machine'.alloc := by
  obtain ⟨elf, parsed⟩ := createImage_parsed run
  obtain ⟨begun, alloc, kernel, trap, user, new, allocated, mapsKernel, _, mapsTrap, _, mapsUser, loading⟩ :=
    createImage_ok parsed run
  have first := keeps _ _ _ _ allocated (newWithAllocator_rule inv keeps start new)
  have second : inv kernel.alloc := mapKernelRegion_rule inv keeps first mapsKernel
  have third := mapWithAllocator_rule inv keeps second mapsTrap
  have fourth : inv user.alloc := mapWithAllocator_rule inv keeps third mapsUser
  exact loadSegments_rule inv keeps fourth loading

end AllocRule

def blockCall (info : PageAllocInfo) : Nat × Nat := (virtPage info.pPage, Buddy.nextPowerOfTwo info.vPages)

def Logged {A : Type} (base : List (Nat × Nat)) (call : Nat × Nat) (alloc : Traced A) : Prop :=
  ∃ calls, alloc.allocated = calls ++ base ∧ call ∈ calls

def Grown {A : Type} (base alloc : Traced A) : Prop :=
  (∃ calls, alloc.allocated = calls ++ base.allocated) ∧ alloc.freed = base.freed

section Logs

variable [PageAllocator A]

theorem allocPages_allocated (run : PageAllocator.allocPages alloc count = .ok (result, alloc')) :
    alloc'.allocated = result.toOption.toList.map (·, count) ++ alloc.allocated := by
  obtain ⟨⟨outcome, inner⟩, _, run⟩ := bind_ok.mp run
  cases outcome with
  | ok page =>
    obtain ⟨⟩ := pure_ok.mp run
    rfl
  | error failure =>
    obtain ⟨⟩ := pure_ok.mp run
    rfl

omit [PageAllocator A] in
theorem Grown.refl (alloc : Traced A) : Grown alloc alloc := ⟨⟨[], rfl⟩, rfl⟩

theorem Grown.keeps (alloc : Traced A) (count : Nat) (result : Except AllocError Nat) (alloc' : Traced A)
    (run : PageAllocator.allocPages alloc count = .ok (result, alloc')) (grown : Grown base alloc) : Grown base alloc' := by
  obtain ⟨⟨calls, same⟩, freed⟩ := grown
  refine ⟨⟨result.toOption.toList.map (·, count) ++ calls, ?_⟩, (Traced.allocPages_freed run).trans freed⟩
  rw [allocPages_allocated run, same, append_assoc]

theorem Logged.keeps {log : List (Nat × Nat)} {call : Nat × Nat} (alloc : Traced A) (count : Nat)
    (result : Except AllocError Nat) (alloc' : Traced A)
    (run : PageAllocator.allocPages alloc count = .ok (result, alloc')) (logged : Logged log call alloc) :
    Logged log call alloc' := by
  obtain ⟨calls, same, member⟩ := logged
  refine ⟨result.toOption.toList.map (·, count) ++ calls, ?_, mem_append_right _ member⟩
  rw [allocPages_allocated run, same, append_assoc]

theorem Grown.logged {page : Nat} (grown : Grown base alloc)
    (run : PageAllocator.allocPages alloc count = .ok (.ok page, alloc')) : Logged base.allocated (page, count) alloc' := by
  obtain ⟨⟨calls, same⟩, _⟩ := grown
  exact ⟨(page, count) :: calls, by rw [allocPages_allocated run, same]; rfl, mem_cons_self⟩

variable [Entry E] [Mapper M E] {machine machine' : Machine (Traced A)}

theorem loadSegments_logged {progs : List Program} {s s' : Loading (Traced A)}
    (grown : Grown base s.machine.alloc)
    (logged : ∀ info ∈ s.pageAllocs, Logged base.allocated (blockCall info) s.machine.alloc)
    (run : loadSegments page elfBytes beyond progs s = .ok s') :
    ∀ info ∈ s'.pageAllocs, Logged base.allocated (blockCall info) s'.machine.alloc := by
  induction progs generalizing s with
  | nil =>
    obtain rfl := pure_ok.mp run
    exact logged
  | cons prog rest ih =>
    rw [loadSegments] at run
    split at run
    · obtain ⟨middle, segment, run⟩ := bind_ok.mp run
      obtain ⟨block, alloc, mapped, allocated, linear, mapping, rfl⟩ := loadSegment_ok segment
      have after : Grown base mapped.alloc :=
        mapWithAllocator_rule _ Grown.keeps (Grown.keeps _ _ _ _ allocated grown) mapping
      refine ih after (forall_mem_append.mpr ⟨fun info member => ?_, forall_mem_singleton.mpr ?_⟩) run
      · have kept : Logged base.allocated (blockCall info) mapped.alloc :=
          mapWithAllocator_rule _ Logged.keeps (Logged.keeps _ _ _ _ allocated (logged info member)) mapping
        exact kept
      · have back : blockCall (allocOf prog block) =
            (block, Buddy.nextPowerOfTwo ((prog.pMemsz + pageSize - 1) / pageSize)) := by
          rw [blockCall, allocOf, virtPage, Nat.sub_add_cancel linear]
        rw [back]
        have kept : Logged base.allocated _ mapped.alloc :=
          mapWithAllocator_rule _ Logged.keeps (grown.logged allocated) mapping
        exact kept
    · exact ih grown logged run

theorem createImage_logged {trapStack : Nat} {image : Image M}
    (run : createImage layout trapStack elfBytes beyond machine = .ok (.ok (image, machine'))) :
    ∀ info ∈ image.pageAllocs, Logged machine.alloc.allocated (blockCall info) machine'.alloc := by
  obtain ⟨elf, parsed⟩ := createImage_parsed run
  obtain ⟨begun, alloc, kernel, trap, user, new, allocated, mapsKernel, _, mapsTrap, linear, mapsUser, loading⟩ :=
    createImage_ok parsed run
  have begunGrown := newWithAllocator_rule _ Grown.keeps (Grown.refl machine.alloc) new
  have rest (inv : Traced A → Prop) (keeps : ∀ alloc count result alloc',
      PageAllocator.allocPages alloc count = .ok (result, alloc') → inv alloc → inv alloc') (start : inv alloc) :
      inv user.alloc := by
    have second : inv kernel.alloc := mapKernelRegion_rule inv keeps start mapsKernel
    exact mapWithAllocator_rule inv keeps (mapWithAllocator_rule inv keeps second mapsTrap) mapsUser
  refine loadSegments_logged (rest _ Grown.keeps (Grown.keeps _ _ _ _ allocated begunGrown)) ?_ loading
  rw [forall_mem_singleton]
  have back : blockCall (stackAlloc image.stack) = (image.stack, userStackPages) := by
    rw [blockCall, stackAlloc, virtPage, Nat.sub_add_cancel linear, userStackPages,
      show Buddy.nextPowerOfTwo 16 = 16 by decide]
  rw [back]
  exact rest _ Logged.keeps (begunGrown.logged allocated)

variable [Mmu E] [AddressSpace E]

theorem forkAllocs_logged {kernelPt : M} {old : PageAlloc → Prop} {s s' : Forking (Traced A)}
    (grown : Grown base s.machine.alloc) (olds : ∀ entry ∈ entries, old entry)
    (logged : ∀ entry ∈ s.pageAllocs, old entry ∨ Logged base.allocated (blockCall entry.info) s.machine.alloc)
    (run : forkAllocs kernelPt page entries s = .ok s') :
    ∀ entry ∈ s'.pageAllocs, old entry ∨ Logged base.allocated (blockCall entry.info) s'.machine.alloc := by
  induction entries generalizing s with
  | nil =>
    obtain rfl := pure_ok.mp run
    exact logged
  | cons entry rest ih =>
    obtain ⟨middle, step, run⟩ := bind_ok.mp run
    obtain ⟨isOld, olds⟩ := forall_mem_cons.mp olds
    rcases forkAlloc_ok step with ⟨_, machine, mapping, rfl⟩ |
      ⟨_, block, alloc, machine, mem, allocated, linear, mapping, _, rfl⟩
    · have after : Grown base machine.alloc := mapWithAllocator_rule _ Grown.keeps grown mapping
      refine ih after olds (forall_mem_append.mpr ⟨fun other member => ?_, forall_mem_singleton.mpr (.inl isOld)⟩) run
      exact (logged other member).imp_right fun before => mapWithAllocator_rule _ Logged.keeps before mapping
    · have after : Grown base machine.alloc :=
        mapWithAllocator_rule _ Grown.keeps (Grown.keeps _ _ _ _ allocated grown) mapping
      refine ih after olds (forall_mem_append.mpr ⟨fun other member => ?_, forall_mem_singleton.mpr (.inr ?_)⟩) run
      · refine (logged other member).imp_right fun before => ?_
        have kept : Logged base.allocated (blockCall other.info) machine.alloc :=
          mapWithAllocator_rule _ Logged.keeps (Logged.keeps _ _ _ _ allocated before) mapping
        exact kept
      · have kept : Logged base.allocated (block, Buddy.nextPowerOfTwo entry.info.vPages) machine.alloc :=
          mapWithAllocator_rule _ Logged.keeps (grown.logged allocated) mapping
        have back : blockCall { entry.info with pPage := block - pageOffset } =
            (block, Buddy.nextPowerOfTwo entry.info.vPages) := by
          rw [blockCall, virtPage, Nat.sub_add_cancel linear]
        rw [back]
        exact kept

end Logs

def Touches (info : PageAllocInfo) (call : Nat × Nat) : Prop := ∃ page, call.1 ≤ page ∧ page < call.1 + call.2 ∧ info.holds page

theorem touches_iff (info : PageAllocInfo) (call : Nat × Nat) :
    Touches info call ↔ max call.1 (virtPage info.pPage) <
      min (call.1 + call.2) (virtPage info.pPage + Buddy.nextPowerOfTwo info.vPages) := by
  constructor
  · rintro ⟨page, low, high, low', high'⟩
    omega
  · intro overlap
    exact ⟨max call.1 (virtPage info.pPage), by omega, by omega, by omega, by omega⟩

instance (info : PageAllocInfo) (call : Nat × Nat) : Decidable (Touches info call) :=
  decidable_of_iff _ (touches_iff info call).symm

def lastCalls (arcs : Arcs) (entries : List PageAlloc) : List (Nat × Nat) :=
  ((entries.filter fun entry => arcs.strong entry.id = 1).map fun entry => blockCall entry.info).reverse

section Frees

variable [PageAllocator A]

theorem freeBlocks_freed {arcs : Arcs} (run : freeBlocks arcs entries alloc = .ok alloc') :
    alloc'.freed = lastCalls arcs entries ++ alloc.freed ∧ alloc'.allocated = alloc.allocated := by
  induction entries generalizing alloc with
  | nil =>
    obtain rfl := pure_ok.mp run
    exact ⟨rfl, rfl⟩
  | cons entry rest ih =>
    rw [freeBlocks] at run
    split at run
    · rename_i last
      simp only [bind_ok] at run
      obtain ⟨count, rounded, middle, freeing, run⟩ := run
      obtain ⟨rfl, _⟩ := Buddy.ceilToPower2_ok rounded
      obtain ⟨inner, _, freeing⟩ := bind_ok.mp freeing
      obtain rfl := pure_ok.mp freeing
      obtain ⟨freed, allocated⟩ := ih run
      refine ⟨?_, allocated⟩
      rw [freed, lastCalls, lastCalls, filter_cons_of_pos (by simpa using last), map_cons, reverse_cons,
        append_assoc]
      rfl
    · rename_i shared
      rw [lastCalls, filter_cons_of_neg (by simpa using shared)]
      exact ih run

variable [Entry E] [Mapper M E] [Mmu E] [LawfulMapper M] {inUse : A → Nat → Prop}

theorem Kernel.dropTask_freed {self : Kernel (Traced A) M C F} {task : Task M C F}
    (run : self.dropTask task = .ok after) {owned : Nat → Prop}
    (tree : Tree M self.machine.mem (rootTable task.page).page owned) :
    after.machine.alloc.allocated = self.machine.alloc.allocated ∧
      ∃ tables : List Nat,
        (∀ table ∈ tables, (scheme M).Reachable self.machine.mem (rootTable task.page).page (height M) table) ∧
        after.machine.alloc.freed = lastCalls self.arcs task.pageAllocs ++
          ((tables.map fun table => (table, 1)).reverse ++ self.machine.alloc.freed) := by
  simp only [dropTask, bind_ok, pure_ok] at run
  obtain ⟨machine, destroyed, alloc, freed, rfl⟩ := run
  obtain ⟨frame, rooted⟩ := destroy_rooted destroyed
  rw [destroy_eq tree rooted] at destroyed
  obtain ⟨middle, tables, destroyed⟩ := bind_ok.mp destroyed
  obtain rfl := pure_ok.mp destroyed
  obtain ⟨blocks, kept⟩ := freeBlocks_freed freed
  obtain ⟨given, same⟩ := freeAll_freed tables
  dsimp only at blocks kept
  refine ⟨kept.trans same, _, fun table member => ?_, by rw [blocks, given]⟩
  exact reachable_of_freed tree member

end Frees

/-- The calls of `alloc_pages` and `free_pages` between two states, and what they mean for the blocks. -/
structure Ledger {A M C F : Type} (before after : Kernel (Traced A) M C F) (taken given : List (Nat × Nat)) : Prop where
  allocated : after.machine.alloc.allocated = taken ++ before.machine.alloc.allocated
  freed : after.machine.alloc.freed = given ++ before.machine.alloc.freed
  next : before.arcs.next ≤ after.arcs.next
  new : ∀ entry, ¬ Held before.scheduler.spaces entry → Held after.scheduler.spaces entry →
    before.arcs.next ≤ entry.id ∧ blockCall entry.info ∈ taken ∧ given = []
  kept : ∀ entry, Held before.scheduler.spaces entry → Held after.scheduler.spaces entry →
    given.filter (Touches entry.info) = []
  gone : ∀ entry, Held before.scheduler.spaces entry → ¬ Held after.scheduler.spaces entry →
    given.filter (Touches entry.info) = [blockCall entry.info]

section Ledger

theorem Ledger.refl (before : Kernel (Traced A) M C F) : Ledger before before [] [] where
  allocated := rfl
  freed := rfl
  next := le_rfl
  new _ unheld held := absurd held unheld
  kept _ _ _ := rfl
  gone _ held left := absurd held left

theorem Ledger.idle (ledger : Ledger before middle taken given) (spaces : after.scheduler.spaces = middle.scheduler.spaces)
    (alloc : after.machine.alloc = middle.machine.alloc) (arcs : after.arcs = middle.arcs) :
    Ledger before after taken given := by
  refine ⟨?_, ?_, ?_, ?_, ?_, ?_⟩
  · exact alloc ▸ ledger.allocated
  · exact alloc ▸ ledger.freed
  · exact arcs ▸ ledger.next
  · exact spaces ▸ ledger.new
  · exact spaces ▸ ledger.kept
  · exact spaces ▸ ledger.gone

theorem Ledger.join {space : Space M} (fresh : before.scheduler.spaces pid = none)
    (spaces : after.scheduler.spaces = update before.scheduler.spaces pid (some space))
    (grown : Grown before.machine.alloc after.machine.alloc) (next : before.arcs.next ≤ after.arcs.next)
    (entries : ∀ entry ∈ space.allocs, Held before.scheduler.spaces entry ∨
      before.arcs.next ≤ entry.id ∧ Logged before.machine.alloc.allocated (blockCall entry.info) after.machine.alloc) :
    ∃ taken, Ledger before after taken [] := by
  obtain ⟨⟨taken, allocated⟩, freed⟩ := grown
  refine ⟨taken, allocated, freed, next, fun entry unheld held => ?_, fun _ _ _ => rfl, fun entry held left => ?_⟩
  · rw [spaces] at held
    obtain ⟨other, found, live, member⟩ := held
    by_cases here : other = pid
    · subst here
      obtain rfl : space = found := by simpa using live
      rcases entries entry member with held | ⟨low, calls, same, logged⟩
      · exact absurd held unheld
      · obtain rfl : taken = calls := append_cancel_right (allocated.symm.trans same)
        exact ⟨low, logged, rfl⟩
    · rw [update_of_ne here] at live
      exact absurd ⟨other, found, live, member⟩ unheld
  · obtain ⟨other, found, live, member⟩ := held
    have differs : other ≠ pid := by
      rintro rfl
      simp [fresh] at live
    refine absurd ⟨other, found, ?_, member⟩ left
    rwa [spaces, update_of_ne differs]

theorem touches_blockCall (info other : PageAllocInfo) :
    Touches info (blockCall other) ↔ ∃ page, other.holds page ∧ info.holds page := by
  simp only [Touches, blockCall, PageAllocInfo.holds, and_assoc]

theorem filter_blockCalls {entry : PageAlloc} (nodup : entries.Nodup)
    (apart : ∀ own ∈ entries, own ≠ entry → own.info.Apart entry.info) :
    ((entries.map fun own => blockCall own.info).reverse.filter (Touches entry.info)) =
      if entry ∈ entries then [blockCall entry.info] else [] := by
  have same : entries.filter ((fun call => decide (Touches entry.info call)) ∘ fun own => blockCall own.info) =
      entries.filter (· == entry) := by
    refine filter_congr fun own member => ?_
    rw [comp_apply, Bool.eq_iff_iff, decide_eq_true_iff, beq_iff_eq, touches_blockCall]
    constructor
    · rintro ⟨page, held, inside⟩
      by_contra differs
      exact apart own member differs page held inside
    · rintro rfl
      have some : 0 < Buddy.nextPowerOfTwo own.info.vPages := Nat.two_pow_pos _
      exact ⟨virtPage own.info.pPage, ⟨le_rfl, by omega⟩, le_rfl, by omega⟩
  rw [filter_reverse, filter_map, same, filter_beq]
  split
  · rename_i member
    rw [count_eq_one_of_mem nodup member]
    rfl
  · rename_i missing
    rw [count_eq_zero.mpr missing]
    rfl

variable [Entry E] [Mapper M E] [Mmu E] {inUse : Traced A → Nat → Prop}

theorem Ledger.leave {space : Space M} (housed : before.Housed inUse)
    (live : before.scheduler.spaces pid = some space)
    (spaces : after.scheduler.spaces = update before.scheduler.spaces pid none)
    (arcs : after.arcs.next = before.arcs.next)
    (allocated : after.machine.alloc.allocated = before.machine.alloc.allocated) {tables : List Nat}
    (owns : ∀ table ∈ tables, space.Owns before.machine.mem table)
    (freed : after.machine.alloc.freed = lastCalls before.arcs space.allocs ++
      ((tables.map fun table => (table, 1)).reverse ++ before.machine.alloc.freed)) :
    Ledger before after [] (lastCalls before.arcs space.allocs ++ (tables.map fun table => (table, 1)).reverse) := by
  have holder {own : PageAlloc} (member : own ∈ space.allocs) : Held before.scheduler.spaces own := ⟨pid, space, live, member⟩
  have calls {entry : PageAlloc} (held : Held before.scheduler.spaces entry) :
      (lastCalls before.arcs space.allocs ++ (tables.map fun table => (table, 1)).reverse).filter (Touches entry.info) =
      if entry ∈ space.allocs ∧ before.arcs.strong entry.id = 1 then [blockCall entry.info] else [] := by
    have none : (tables.map fun table => (table, 1)).reverse.filter (Touches entry.info) = [] := by
      refine filter_eq_nil_iff.mpr fun call member => ?_
      obtain ⟨table, listed, rfl⟩ := mem_map.mp (mem_reverse.mp member)
      rw [decide_eq_true_iff]
      rintro ⟨page, low, high, inside⟩
      obtain rfl : page = table := by dsimp only at low high; omega
      exact housed.spaces.off entry held pid space live page inside (owns page listed)
    have nodup : space.allocs.Nodup := by
      have distinct := housed.spaces.nodup pid
      rw [ids, live, Option.elim_some] at distinct
      exact distinct.of_map
    rw [filter_append, none, append_nil, lastCalls, filter_blockCalls (nodup.filter _)]
    · simp
    · intro own member differs
      have mine := holder (mem_of_mem_filter member)
      exact housed.spaces.disjoint own entry mine held fun equal => differs (housed.spaces.same own entry mine held equal)
  refine ⟨?_, ?_, arcs.ge, fun entry unheld held => ?_, fun entry held left => ?_, fun entry held left => ?_⟩
  · rw [allocated, nil_append]
  · rw [freed, ← append_assoc]
  · rw [spaces] at held
    obtain ⟨other, _, holder⟩ := held_leave held
    exact absurd holder.held unheld
  · rw [calls held, if_neg]
    rintro ⟨member, last⟩
    rw [spaces] at left
    obtain ⟨other, differs, another⟩ := held_leave left
    exact differs (housed.spaces.unique_holder live member last another)
  · rw [spaces] at left
    rw [calls held, if_pos (housed.spaces.last_holder live held left)]

variable [PageAllocator A] [LawfulMapper M]

theorem Ledger.forget (housed : before.Housed inUse) (run : before.forget pid = .ok after) :
    ∃ given, Ledger before after [] given := by
  obtain ⟨scheduler, mem, _, _⟩ := Kernel.forget_ok run
  have spaces : after.scheduler.spaces = update before.scheduler.spaces pid none := by
    rw [scheduler, spaces_forgotten]
  rcases Kernel.forget_cases run with ⟨none, arcs, machine⟩ | ⟨_, task, dropped, live, drop, arcs, machine⟩
  · have gone : before.scheduler.spaces pid = .none := by rw [Scheduler.spaces, none, Option.map_none]
    rw [update_eq_self_iff.mpr gone.symm] at spaces
    exact ⟨[], (Ledger.refl before).idle spaces (by rw [machine]) arcs⟩
  · have found := spaces_of_live live
    have tree : Tree M before.machine.mem (rootTable task.page).page (inUse before.machine.alloc) :=
      housed.spaces.tree pid ⟨task.page, task.pageAllocs⟩ found
    obtain ⟨allocated, tables, owns, freed⟩ := Kernel.dropTask_freed drop tree
    have next : after.arcs.next = before.arcs.next := by
      rw [arcs, Kernel.dropTask_arcs drop, (foldl_drop _ _).1]
    rw [← machine] at allocated freed
    exact ⟨_, Ledger.leave housed found spaces next allocated owns freed⟩

variable [LawfulEntry E] [AddressSpace E]

theorem Ledger.fork {current : Task M C F} {forked : Forking (Traced A)} (sound : SoundFrees inUse)
    (wide : 2 ^ 27 ≤ 2 ^ Mmu.fieldBits E) (housed : before.Housed inUse)
    (forks : before.Forks current page forked) (spaces : after.scheduler.spaces =
      update before.scheduler.spaces (before.scheduler.maxPid + 1) (some ⟨page, forked.pageAllocs⟩))
    (same : before.SameBut after forked.machine forked.arcs) : ∃ taken, Ledger before after taken [] := by
  obtain ⟨begun, start, children, new, base, result⟩ := forks.forked sound wide housed
  have found := spaces_of_live forks.parent
  have joins := Forked.joins sound.toSoundAllocator housed.spaces found new base rfl rfl result
  obtain ⟨created, region, machine, _, create, mapsRegion, _, mapsTrap, loop⟩ := forks.loop
  have first := newWithAllocator_rule _ Grown.keeps (Grown.refl _) create
  have grown : Grown before.machine.alloc machine.alloc :=
    mapWithAllocator_rule _ Grown.keeps (mapKernelRegion_rule _ Grown.keeps first mapsRegion) mapsTrap
  have logged := forkAllocs_logged grown (fun entry member => (⟨_, _, found, member⟩ : Held before.scheduler.spaces entry))
    (by simp) loop
  refine Ledger.join housed.spaces.fresh_pid spaces (same.machine ▸ forkAllocs_rule _ Grown.keeps grown loop)
    (same.arcs ▸ joins.next) fun entry member => ?_
  rw [same.machine]
  rcases joins.entries entry member with ⟨held, _⟩ | ⟨low, _⟩
  · exact Or.inl held
  · exact (logged entry member).imp_right fun logged => ⟨low, logged⟩

variable [ArchContext C]

theorem Step.ledger (sound : SoundFrees inUse) (wide : 2 ^ 27 ≤ 2 ^ Mmu.fieldBits E) {op : Op C F} {issued : Option Nat}
    (housed : before.Housed inUse) (step : Step before op issued after) :
    ∃ taken given, Ledger before after taken given := by
  cases step with
  | create run =>
    obtain ⟨_, image, machine, create, ⟨current, least, adds⟩, same⟩ := Kernel.createFromElf_ok housed.fresh run
    obtain ⟨infos, ids, next, _⟩ := before.arcs.newAll_ok image.pageAllocs
    have grown : Grown before.machine.alloc after.machine.alloc :=
      same.machine ▸ createImage_rule _ Grown.keeps (Grown.refl _) create
    have entries : ∀ entry ∈ (before.arcs.newAll image.pageAllocs).1, Held before.scheduler.spaces entry ∨
        before.arcs.next ≤ entry.id ∧
          Logged before.machine.alloc.allocated (blockCall entry.info) after.machine.alloc := by
      intro entry member
      have id : entry.id ∈ List.range' before.arcs.next image.pageAllocs.length := ids ▸ mem_map_of_mem member
      rw [same.machine]
      exact Or.inr ⟨(mem_range'_1.mp id).1, createImage_logged create _ (infos ▸ mem_map_of_mem member)⟩
    obtain ⟨taken, ledger⟩ := Ledger.join housed.spaces.fresh_pid adds.spaces grown (by rw [same.arcs]; omega) entries
    exact ⟨taken, [], ledger⟩
  | refuse run =>
    obtain rfl := Kernel.createFromElf_error run
    exact ⟨[], [], Ledger.refl _⟩
  | fork run =>
    obtain ⟨_, current, page, forked, forks, ⟨least, adds⟩, same⟩ := Kernel.fork_ok housed.fresh run
    obtain ⟨taken, ledger⟩ := Ledger.fork sound wide housed forks adds.spaces same
    exact ⟨taken, [], ledger⟩
  | kernelFork run =>
    obtain ⟨current, page, machine, _, new, same, scheduler⟩ := Kernel.kernelFork_ok housed.fresh run
    have spaces : after.scheduler.spaces =
        update before.scheduler.spaces (before.scheduler.maxPid + 1) (some ⟨page, []⟩) := by
      rw [scheduler]
      exact spaces_update _ _ _
    obtain ⟨taken, ledger⟩ := Ledger.join housed.spaces.fresh_pid spaces
      (same.machine ▸ newWithAllocator_rule _ Grown.keeps (Grown.refl _) new) (by rw [same.arcs]) (by simp)
    exact ⟨taken, [], ledger⟩
  | schedule run => exact ⟨[], [], (Ledger.refl _).idle (schedule_spaces run).spaces rfl rfl⟩
  | @switchTask clock fuel ctx written next scheduler run =>
    obtain ⟨current, live, _, schedule⟩ := Scheduler.switchTask_ok run
    have saved : (before.scheduler.setTask before.scheduler.currentPid { current with context := ctx }).spaces =
        before.scheduler.spaces := spaces_of_update live rfl rfl rfl
    exact ⟨[], [], (Ledger.refl _).idle ((schedule_spaces schedule).spaces.trans saved) rfl rfl⟩
  | kill run =>
    obtain ⟨forgotten, next, scheduler, forget, schedule, rfl⟩ := Kernel.kill_ok run
    obtain ⟨given, ledger⟩ := Ledger.forget housed forget
    exact ⟨[], given, ledger.idle (schedule_spaces schedule).spaces rfl rfl⟩
  | @renice pid nice task live =>
    have same : (before.scheduler.setTask pid (task.renice nice)).spaces = before.scheduler.spaces :=
      spaces_of_update live rfl (Task.renice_space _ _).1 (Task.renice_space _ _).2
    exact ⟨[], [], (Ledger.refl _).idle same rfl rfl⟩
  | @touch pid context nextSchedule fds task live =>
    have same : (before.scheduler.setTask pid
        { task with context := context, nextSchedule := nextSchedule, fds := fds }).spaces = before.scheduler.spaces :=
      spaces_of_update live rfl rfl rfl
    exact ⟨[], [], (Ledger.refl _).idle same rfl rfl⟩
  | copyToUser live run => exact ⟨[], [], (Ledger.refl before).idle rfl rfl rfl⟩

end Ledger

end Kernel31.Sched
