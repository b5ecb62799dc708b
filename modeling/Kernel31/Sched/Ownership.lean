import Kernel31.Sched.Addresses
import Kernel31.Sched.Fork
import Kernel31.Paging.Destroy

namespace Kernel31.Sched

open Page Paging Elf Kernel31.Task Checked Radix Function Scheduler List Mapper PageAllocInfo

variable {pid fuel : Nat}

section Spaces

variable {M C F : Type} {s s' : Scheduler M C F}

def Scheduler.spaces (s : Scheduler M C F) (pid : Nat) : Option (Space M) :=
  (s.tasks pid).map fun task => ⟨task.page, task.pageAllocs⟩

structure Scheduler.SameSpaces (s s' : Scheduler M C F) : Prop where
  spaces : s'.spaces = s.spaces
  maxPid : s'.maxPid = s.maxPid
  trapStack : s'.trapStack = s.trapStack

theorem Scheduler.spaces_of_live {task : Task M C F} (live : s.tasks pid = some task) :
    s.spaces pid = some ⟨task.page, task.pageAllocs⟩ := by
  rw [Scheduler.spaces, live, Option.map_some]

theorem spaces_update (tasks : Nat → Option (Task M C F)) (pid : Nat) (task : Option (Task M C F)) :
    (fun other => (update tasks pid task other).map fun task => (⟨task.page, task.pageAllocs⟩ : Space M)) =
      update (fun other => (tasks other).map fun task => ⟨task.page, task.pageAllocs⟩) pid
        (task.map fun task => ⟨task.page, task.pageAllocs⟩) := by
  funext other
  exact apply_update (fun _ (task : Option (Task M C F)) => task.map fun task =>
    (⟨task.page, task.pageAllocs⟩ : Space M)) tasks pid task other

theorem Scheduler.spaces_of_update {old new : Task M C F} (live : s.tasks pid = some old)
    (tasks : s'.tasks = update s.tasks pid (some new)) (page : new.page = old.page)
    (allocs : new.pageAllocs = old.pageAllocs) : s'.spaces = s.spaces := by
  unfold spaces
  rw [tasks, spaces_update, update_eq_self_iff, live, Option.map_some, Option.map_some, page, allocs]

theorem Scheduler.Adds.spaces {current : Task M C F} {least : Nat} {page : M} {context : C}
    {pageAllocs : List PageAlloc} (adds : s.Adds current least page context pageAllocs s') :
    s'.spaces = update s.spaces (s.maxPid + 1) (some ⟨page, pageAllocs⟩) := by
  rw [adds.result]
  exact spaces_update _ _ _

theorem Scheduler.spaces_forgotten (s : Scheduler M C F) (pid : Nat) :
    (s.forgotten pid).spaces = update s.spaces pid none := spaces_update _ _ _

theorem Scheduler.schedule_spaces {clock : Nat → Nat} {next : Task M C F}
    (run : s.schedule clock fuel = .ok (next, s')) : s.SameSpaces s' := by
  refine (schedule_rule s.SameSpaces (fun before after now done same round => ?_) ⟨rfl, rfl, rfl⟩ run).1
  obtain ⟨vruntime, pid, slice, task, nextSchedule, picks, rfl⟩ := round_ok round
  have tasks : (before.advanced vruntime pid slice task nextSchedule).tasks =
      update before.tasks pid (some { task with nextSchedule := nextSchedule }) := rfl
  exact ⟨(spaces_of_update picks.live tasks rfl rfl).trans same.spaces, same.maxPid, same.trapStack⟩

end Spaces

section Arcs

theorem Arcs.newAll_ok (arcs : Arcs) (infos : List PageAllocInfo) :
    (arcs.newAll infos).1.map PageAlloc.info = infos ∧
      (arcs.newAll infos).1.map PageAlloc.id = range' arcs.next infos.length ∧
      (arcs.newAll infos).2.next = arcs.next + infos.length ∧
      (arcs.Blank → ∀ id, (arcs.newAll infos).2.strong id =
        arcs.strong id + ((arcs.newAll infos).1.map PageAlloc.id).count id) := by
  induction infos generalizing arcs with
  | nil => simp [Arcs.newAll]
  | cons info rest ih =>
    obtain ⟨infos, ids, next, strong⟩ := ih (arcs.new info).2
    refine ⟨?_, ?_, ?_, fun blank id => ?_⟩
    · rw [Arcs.newAll, map_cons, infos]
      rfl
    · rw [Arcs.newAll, map_cons, ids]
      rfl
    · have one : (arcs.new info).2.next = arcs.next + 1 := rfl
      rw [Arcs.newAll, next, length_cons, one]
      omega
    · have later : (arcs.new info).2.Blank := by
        intro other above
        have below : arcs.next < other := above
        rw [Arcs.new_strong blank, blank other below.le]
        simp [below.ne]
      rw [Arcs.newAll, map_cons, strong later, Arcs.new_strong blank]
      simp only [count_cons, count_nil, Arcs.new]
      omega

end Arcs

section Joins

variable {A M E : Type} [Entry E] [Mapper M E] [Mmu E] {inUse : A → Nat → Prop}
variable {base : List Mapping} {spaces : Nat → Option (Space M)} {bound : Nat} {arcs : Arcs} {machine after : Machine A}

theorem Created.joins {layout : KernelLayout} {trapStack : Nat} {elfBytes : List UInt8} {beyond : Nat → UInt8}
    {image : Image M} {segments : List (Program × Nat)}
    (housed : Housed inUse (baseMappings layout trapStack) spaces bound arcs machine)
    (created : Created inUse layout trapStack elfBytes beyond machine image segments after) :
    Joins inUse (baseMappings layout trapStack) spaces arcs machine ⟨image.page, (arcs.newAll image.pageAllocs).1⟩
      (arcs.newAll image.pageAllocs).2 after := by
  obtain ⟨infos, ids, next, counted⟩ := arcs.newAll_ok image.pageAllocs
  have fresh : ∀ entry ∈ (arcs.newAll image.pageAllocs).1, arcs.next ≤ entry.id ∧
      entry.id < (arcs.newAll image.pageAllocs).2.next ∧ entry.info ∈ image.pageAllocs := by
    intro entry member
    have id : entry.id ∈ range' arcs.next image.pageAllocs.length := ids ▸ mem_map_of_mem member
    have bounds := mem_range'_1.mp id
    exact ⟨bounds.1, by omega, infos ▸ mem_map_of_mem member⟩
  refine ⟨created.kept, created.mapped.represents.tree, created.tables, fun _ => ?_, fun entry member => ?_, ?_, ?_,
    by omega, counted housed.blank⟩
  · rw [Space.mappings, infos]
    exact created.mapped
  · obtain ⟨low, high, recorded⟩ := fresh entry member
    exact Or.inr ⟨low, high, created.blocks.holds _ recorded⟩
  · intro entry member other member' _ _ differs
    have apart := created.blocks.apart
    rw [← infos, pairwise_map] at apart
    have : Std.Symm fun first second : PageAlloc => first.info.Apart second.info :=
      ⟨fun _ _ apart page held inside => apart page inside held⟩
    exact apart.forall member member' fun equal => differs (congrArg PageAlloc.id equal)
  · rw [ids]
    exact nodup_range'

theorem nodup_children {entries children : List PageAlloc} {next : Nat}
    (inherited : List.Forall₂ (fun entry child => Shared child.info → child = entry) entries children)
    (nodup : (entries.map PageAlloc.id).Nodup) (old : ∀ entry ∈ entries, entry.id < next)
    (fresh : ((copies children).map PageAlloc.id).Nodup) (new : ∀ child ∈ copies children, next ≤ child.id) :
    (children.map PageAlloc.id).Nodup ∧ ∀ child ∈ children, Shared child.info → child ∈ entries := by
  induction inherited with
  | nil => simp
  | @cons entry child entries children same _ ih =>
    obtain ⟨different, others⟩ := nodup_cons.mp nodup
    obtain ⟨below, lower⟩ := forall_mem_cons.mp old
    have copied {other : PageAlloc} (member : other ∈ children) (own : ¬ Shared other.info) : other ∈ copies children :=
      mem_filter.mpr ⟨member, by simpa using own⟩
    by_cases shared : Shared child.info
    · obtain rfl := same shared
      have skip : copies (child :: children) = copies children := by simp [copies, shared]
      rw [skip] at fresh new
      obtain ⟨distinct, held⟩ := ih others lower fresh new
      refine ⟨nodup_cons.mpr ⟨fun again => ?_, distinct⟩, fun other member isShared => ?_⟩
      · obtain ⟨other, member, equal⟩ := mem_map.mp again
        by_cases isShared : Shared other.info
        · exact different (mem_map.mpr ⟨other, held other member isShared, equal⟩)
        · have above := new other (copied member isShared)
          omega
      · rcases mem_cons.mp member with rfl | member
        · exact mem_cons_self
        · exact mem_cons_of_mem _ (held other member isShared)
    · have keep : copies (child :: children) = child :: copies children := by simp [copies, shared]
      rw [keep] at fresh new
      obtain ⟨alone, fresh⟩ := nodup_cons.mp fresh
      obtain ⟨above, new⟩ := forall_mem_cons.mp new
      obtain ⟨distinct, held⟩ := ih others lower fresh new
      refine ⟨nodup_cons.mpr ⟨fun again => ?_, distinct⟩, fun other member isShared => ?_⟩
      · obtain ⟨other, member, equal⟩ := mem_map.mp again
        by_cases isShared : Shared other.info
        · have low := lower other (held other member isShared)
          omega
        · exact alone (mem_map.mpr ⟨other, copied member isShared, equal⟩)
      · rcases mem_cons.mp member with rfl | member
        · exact absurd isShared shared
        · exact mem_cons_of_mem _ (held other member isShared)

variable [PageAllocator A] [AddressSpace E] [LawfulEntry E] [LawfulMapper M]

theorem Forked.joins {kernelPt page : M} {parent : Space M} {begun : Machine A} {s s' : Forking A}
    {children : List PageAlloc} (sound : SoundAllocator inUse)
    (housed : Housed inUse base spaces bound arcs machine) (live : spaces pid = some parent)
    (new : newWithAllocator machine = .ok (page, begun)) (maps : Maps inUse page begun [] base s.machine)
    (same : s.arcs = arcs) (empty : s.pageAllocs = [])
    (forked : Forked inUse kernelPt page base parent.allocs s children s') :
    Joins inUse base spaces arcs machine ⟨page, s'.pageAllocs⟩ s'.arcs s'.machine := by
  subst same
  rw [forked.allocs, empty, nil_append]
  have held {entry : PageAlloc} (member : entry ∈ parent.allocs) : Held spaces entry := ⟨pid, parent, live, member⟩
  obtain ⟨kept, tables⟩ := Builds.extends sound new (maps.builds.trans forked.maps.builds)
  have blocks := forked.blocks.mono (Builds.extends sound new maps.builds).1.used
  have bounds : ∀ child ∈ copies children, s.arcs.next ≤ child.id ∧ child.id < s'.arcs.next := by
    intro child member
    have id : child.id ∈ range' s.arcs.next (s'.arcs.next - s.arcs.next) := forked.fresh ▸ mem_map_of_mem member
    have inside := mem_range'_1.mp id
    have next := forked.next
    omega
  obtain ⟨nodup, shared⟩ := nodup_children
    (forked.inherited.imp fun _ _ inherited shared => inherited.shared (inherited.shared_iff.mp shared))
    (by simpa [ids, live] using housed.nodup pid) (fun entry member => housed.issued entry (held member))
    (forked.fresh ▸ nodup_range') fun child member => (bounds child member).1
  have copied {child : PageAlloc} (member : child ∈ children) (own : ¬ Shared child.info) : child ∈ copies children :=
    mem_filter.mpr ⟨member, by simpa using own⟩
  refine ⟨kept, forked.maps.mapped.represents.tree, tables, fun _ => forked.maps.mapped, ?_, ?_, nodup, forked.next,
    forked.counted housed.blank⟩
  · intro child member
    by_cases isShared : Shared child.info
    · exact Or.inl ⟨held (shared child member isShared), isShared⟩
    · have mine := copied member isShared
      exact Or.inr ⟨(bounds child mine).1, (bounds child mine).2, blocks.holds _ (mem_map_of_mem mine)⟩
  · intro child member other member' low low' differs
    -- only new entries have such ids
    have fresh {child : PageAlloc} (member : child ∈ children) (low : s.arcs.next ≤ child.id) : child ∈ copies children := by
      refine copied member fun isShared => ?_
      have below := housed.issued child (held (shared child member isShared))
      omega
    have : Std.Symm fun first second : PageAlloc => first.info.Apart second.info :=
      ⟨fun _ _ apart page held inside => apart page inside held⟩
    exact (pairwise_map.mp blocks.apart).forall (fresh member low) (fresh member' low') fun equal =>
      differs (congrArg PageAlloc.id equal)

omit [AddressSpace E] in
theorem new_joins {page : M} (sound : SoundAllocator inUse) (new : newWithAllocator machine = .ok (page, after)) :
    Joins inUse base spaces arcs machine ⟨page, []⟩ arcs after := by
  obtain ⟨kept, tables⟩ := Builds.extends sound new (Builds.refl inUse _ after)
  exact ⟨kept, (Represents.new sound new).tree, tables, fun some => absurd rfl some, by simp, by simp, nodup_nil,
    le_rfl, fun _ => rfl⟩

end Joins

section Writes

theorem copyAddresses_held {allocs : List PageAlloc} {userAddr count place : Nat} {addresses : List Nat}
    (run : copyAddresses allocs fuel userAddr count = .ok addresses) (member : place ∈ addresses) :
    ∃ entry ∈ allocs, entry.info.holds (place / pageSize) := by
  induction fuel generalizing userAddr count addresses with
  | zero =>
    cases count with
    | zero =>
      obtain rfl := pure_ok.mp run
      cases member
    | succ count => simp [copyAddresses, throw_ok] at run
  | succ fuel ih =>
    cases count with
    | zero =>
      obtain rfl := pure_ok.mp run
      cases member
    | succ count =>
      rw [copyAddresses] at run
      cases found : findAlloc allocs userAddr with
      | none =>
        rw [found] at run
        obtain rfl := pure_ok.mp run
        cases member
      | some alloc =>
        rw [found] at run
        obtain ⟨later, rest, run⟩ := bind_ok.mp run
        obtain rfl := pure_ok.mp run
        rcases mem_append.mp member with here | there
        · have small : alloc.limit ≤ alloc.info.vPages * pageSize := by
            rw [PageAlloc.limit, Nat.shiftLeft_eq]
            exact Nat.mod_le _ _
          have enough := Buddy.le_nextPowerOfTwo alloc.info.vPages
          obtain ⟨above, below⟩ := mem_range'_1.mp here
          refine ⟨alloc, mem_of_find?_eq_some found, ?_⟩
          simp only [holds, PageAlloc.base, pageSize_eq] at small above below ⊢
          omega
        · exact ih rest there

theorem copyToUser_page {allocs : List PageAlloc} {userAddr count page : Nat} {bytes : List UInt8} {mem mem' : Memory}
    (outside : ∀ entry ∈ allocs, ¬ entry.info.holds page)
    (run : copyToUser allocs mem userAddr bytes = .ok (count, mem')) : mem' page = mem page := by
  rw [copyToUser_eq, map_ok] at run
  obtain ⟨addresses, walked, same⟩ := run
  obtain ⟨_, rfl⟩ := Prod.mk.inj same
  refine storeBytes_page (fun address member here => ?_) bytes mem
  obtain ⟨entry, listed, held⟩ := copyAddresses_held walked member
  exact outside entry listed (here ▸ held)

end Writes

section Drop

variable {A M E C F : Type} [Entry E] [Mapper M E] [PageAllocator A] [Mmu E] [LawfulMapper M] {inUse : A → Nat → Prop}

theorem freeBlocks_inUse (sound : SoundFrees inUse) {arcs : Arcs} {entries : List PageAlloc} {alloc alloc' : A}
    (run : freeBlocks arcs entries alloc = .ok alloc') (page : Nat) :
    inUse alloc' page ↔ (∀ entry ∈ entries, arcs.strong entry.id = 1 → ¬ entry.info.holds page) ∧ inUse alloc page := by
  induction entries generalizing alloc with
  | nil =>
    obtain rfl := pure_ok.mp run
    simp
  | cons entry rest ih =>
    rw [forall_mem_cons]
    rw [freeBlocks] at run
    split at run
    · rename_i last
      simp only [bind_ok] at run
      obtain ⟨count, rounded, middle, freed, run⟩ := run
      obtain ⟨rfl, _⟩ := Buddy.ceilToPower2_ok rounded
      rw [ih run, sound.released _ _ _ _ freed, holds, Buddy.nextPowerOfTwo]
      tauto
    · rename_i shared
      rw [ih run]
      tauto

omit [Mmu E] [LawfulMapper M] in
theorem Kernel.dropTask_arcs {self after : Kernel A M C F} {task : Task M C F} (run : self.dropTask task = .ok after) :
    after.arcs = task.pageAllocs.foldl Arcs.drop self.arcs := by
  simp only [dropTask, bind_ok, pure_ok] at run
  obtain ⟨_, _, _, _, rfl⟩ := run
  rfl

theorem Kernel.dropTask_kept (sound : SoundFrees inUse) {self after : Kernel A M C F} {task : Task M C F}
    (run : self.dropTask task = .ok after)
    (tree : Tree M self.machine.mem (rootTable task.page).page (inUse self.machine.alloc)) (page : Nat)
    (used : inUse self.machine.alloc page)
    (off : ¬ (scheme M).Reachable self.machine.mem (rootTable task.page).page (height M) page)
    (apart : ∀ entry ∈ task.pageAllocs, self.arcs.strong entry.id = 1 → ¬ entry.info.holds page) :
    inUse after.machine.alloc page := by
  simp only [dropTask, bind_ok, pure_ok] at run
  obtain ⟨machine, destroyed, alloc, freed, rfl⟩ := run
  obtain ⟨frame, rooted⟩ := destroy_rooted destroyed
  rw [destroy_eq tree rooted] at destroyed
  obtain ⟨middle, tables, destroyed⟩ := bind_ok.mp destroyed
  obtain rfl := pure_ok.mp destroyed
  rw [freeBlocks_inUse sound freed, freeAll_inUse sound.toSoundAllocator tables]
  exact ⟨apart, fun member => off (reachable_of_freed tree member), used⟩

end Drop

section Kernel

variable {A M E C F : Type} [Entry E] [Mapper M E] [PageAllocator A] [Mmu E] {inUse : A → Nat → Prop}

structure Kernel.Housed (inUse : A → Nat → Prop) (kernel : Kernel A M C F) : Prop where
  spaces : Sched.Housed inUse (baseMappings kernel.layout kernel.scheduler.trapStack) kernel.scheduler.spaces
    kernel.scheduler.maxPid kernel.arcs kernel.machine
  trap : kernel.scheduler.trapStack + 16 ≤ 2 ^ 52

def FitsBlocks (elfBytes : List UInt8) : Prop :=
  ∀ elf, Elf.parse elfBytes = .ok (.ok elf) → ∀ prog ∈ loads elf, BlockFits prog

def Op.Fits : Op C F → Prop
  | .create elfBytes _ => FitsBlocks elfBytes
  | _ => True

variable {self after : Kernel A M C F}

omit [PageAllocator A] in
theorem Kernel.Housed.fresh (housed : self.Housed inUse) : self.scheduler.tasks (self.scheduler.maxPid + 1) = none := by
  have none := housed.spaces.fresh_pid
  rwa [Scheduler.spaces, Option.map_eq_none_iff] at none

omit [PageAllocator A] in
theorem Kernel.Housed.schedule (housed : self.Housed inUse) {scheduler : Scheduler M C F}
    (same : self.scheduler.SameSpaces scheduler) : { self with scheduler := scheduler }.Housed inUse := by
  refine ⟨?_, ?_⟩
  · rw [same.trapStack, same.spaces, same.maxPid]
    exact housed.spaces
  · rw [same.trapStack]
    exact housed.trap

omit [PageAllocator A] in
theorem Kernel.Housed.add (housed : self.Housed inUse) {page : M} {pageAllocs : List PageAlloc} {arcs : Arcs}
    {machine : Machine A}
    (joins : Joins inUse (baseMappings self.layout self.scheduler.trapStack) self.scheduler.spaces self.arcs self.machine
      ⟨page, pageAllocs⟩ arcs machine)
    (spaces : after.scheduler.spaces =
      update self.scheduler.spaces (self.scheduler.maxPid + 1) (some ⟨page, pageAllocs⟩))
    (maxPid : after.scheduler.maxPid = self.scheduler.maxPid + 1)
    (trapStack : after.scheduler.trapStack = self.scheduler.trapStack) (same : self.SameBut after machine arcs) :
    after.Housed inUse := by
  refine ⟨?_, ?_⟩
  · rw [same.layout, trapStack, spaces, maxPid, same.arcs, same.machine]
    exact housed.spaces.join joins
  · rw [trapStack]
    exact housed.trap

variable [LawfulMapper M]

omit [Mmu E] [LawfulMapper M] in
theorem Kernel.forget_cases (run : self.forget pid = .ok after) :
    (self.scheduler.tasks pid = none ∧ after.arcs = self.arcs ∧ after.machine = self.machine) ∨
      ∃ (scheduler : Scheduler M C F) (task : Task M C F) (dropped : Kernel A M C F),
        self.scheduler.tasks pid = some task ∧ { self with scheduler := scheduler }.dropTask task = .ok dropped ∧
        after.arcs = dropped.arcs ∧ after.machine = dropped.machine := by
  simp only [Kernel.forget, bind_ok, pure_ok] at run
  obtain ⟨removed, remove, rfl⟩ := run
  unfold removeTask at remove
  split at remove
  · rename_i none
    obtain rfl := pure_ok.mp remove
    exact Or.inl ⟨none, rfl, rfl⟩
  · rename_i task live
    exact Or.inr ⟨_, task, removed, live, remove, rfl, rfl⟩

theorem Kernel.Housed.forget (sound : SoundFrees inUse) (housed : self.Housed inUse)
    (run : self.forget pid = .ok after) : after.Housed inUse := by
  obtain ⟨scheduler, mem, layout, _⟩ := forget_ok run
  have trapStack : after.scheduler.trapStack = self.scheduler.trapStack := by rw [scheduler, forgotten]
  have maxPid : after.scheduler.maxPid = self.scheduler.maxPid := by rw [scheduler, forgotten]
  refine ⟨?_, trapStack ▸ housed.trap⟩
  rw [layout, trapStack, maxPid, scheduler, spaces_forgotten]
  rcases forget_cases run with ⟨none, arcs, machine⟩ | ⟨_, task, dropped, live, drop, arcs, machine⟩
  · have gone : self.scheduler.spaces pid = .none := by rw [Scheduler.spaces, none, Option.map_none]
    rw [arcs, machine, update_eq_self_iff.mpr gone.symm]
    exact housed.spaces
  · have found := spaces_of_live live
    have tree : Tree M self.machine.mem (rootTable task.page).page (inUse self.machine.alloc) :=
      housed.spaces.tree pid ⟨task.page, task.pageAllocs⟩ found
    have same : after.machine = ⟨after.machine.alloc, self.machine.mem⟩ := by rw [← mem]
    rw [arcs, dropTask_arcs drop, same]
    refine housed.spaces.leave found fun page used off apart => ?_
    rw [machine]
    exact dropTask_kept sound drop tree page used off apart

omit [PageAllocator A] [LawfulMapper M] in
theorem Kernel.Housed.write (housed : self.Housed inUse) {task : Task M C F}
    (live : self.scheduler.tasks pid = some task) {mem : Memory}
    (same : ∀ page, (∀ entry ∈ task.pageAllocs, ¬ entry.info.holds page) → mem page = self.machine.mem page) :
    { self with machine := { self.machine with mem := mem } }.Housed inUse := by
  have found := spaces_of_live live
  refine ⟨housed.spaces.write fun page outside => same page fun entry member => ?_, housed.trap⟩
  exact outside entry ⟨pid, _, found, member⟩

omit [PageAllocator A] [LawfulMapper M] in
theorem Kernel.Housed.setTask (housed : self.Housed inUse) {old new : Task M C F}
    (live : self.scheduler.tasks pid = some old) (page : new.page = old.page)
    (allocs : new.pageAllocs = old.pageAllocs) :
    { self with scheduler := self.scheduler.setTask pid new }.Housed inUse :=
  housed.schedule ⟨spaces_of_update live rfl page allocs, rfl, rfl⟩

theorem Task.renice_space (task : Task M C F) (nice : Int) :
    (task.renice nice).page = task.page ∧ (task.renice nice).pageAllocs = task.pageAllocs := by
  unfold Task.renice
  split <;> exact ⟨rfl, rfl⟩

theorem Kernel.Housed.kill (sound : SoundFrees inUse) (housed : self.Housed inUse) {clock : Nat → Nat}
    (run : self.kill clock fuel pid = .ok after) : after.Housed inUse := by
  obtain ⟨forgotten, next, scheduler, forget, schedule, rfl⟩ := kill_ok run
  exact (housed.forget sound forget).schedule (schedule_spaces schedule)

variable [LawfulEntry E]

theorem Kernel.Housed.create [ArchContext C] (sound : SoundFrees inUse) (wide : 2 ^ 27 ≤ 2 ^ Mmu.fieldBits E)
    (housed : self.Housed inUse) {elfBytes : List UInt8} {beyond : Nat → UInt8} (fits : FitsBlocks elfBytes)
    (run : self.createFromElf elfBytes beyond = .ok (.ok pid, after)) : after.Housed inUse := by
  obtain ⟨_, image, machine, create, ⟨current, least, adds⟩, same⟩ := createFromElf_ok housed.fresh run
  obtain ⟨elf, parsed⟩ := createImage_parsed create
  have low := housed.trap
  obtain ⟨segments, _, created⟩ := createImage_created sound.toSoundBlocks wide (by omega) parsed create (fits elf parsed)
  exact housed.add (Created.joins housed.spaces created) adds.spaces (by rw [adds.result]) (by rw [adds.result]) same

theorem Kernel.Housed.kernelFork [ArchContext C] (sound : SoundFrees inUse) (housed : self.Housed inUse)
    (run : self.kernelFork = .ok after) : after.Housed inUse := by
  obtain ⟨current, page, machine, _, new, same, scheduler⟩ := kernelFork_ok housed.fresh run
  refine housed.add (new_joins sound.toSoundAllocator new) ?_ (by rw [scheduler]) (by rw [scheduler]) same
  rw [scheduler]
  exact spaces_update _ _ _

variable [AddressSpace E]

theorem Kernel.Forks.forked {current : Task M C F} {page : M} {forked : Forking A} (sound : SoundFrees inUse)
    (wide : 2 ^ 27 ≤ 2 ^ Mmu.fieldBits E) (housed : self.Housed inUse) (forks : self.Forks current page forked) :
    ∃ begun start children,
      newWithAllocator self.machine = .ok (page, begun) ∧
      Maps inUse page begun [] (baseMappings self.layout self.scheduler.trapStack) start ∧
      Forked inUse self.kernelPt page (baseMappings self.layout self.scheduler.trapStack) current.pageAllocs
        ⟨start, self.arcs, []⟩ children forked := by
  obtain ⟨begun, region, start, trapFrame, new, mapsKernel, framed, mapsTrap, loop⟩ := forks.loop
  rw [(physPage_ok framed).2] at mapsTrap
  have low := housed.trap
  have blank : Mapped inUse page begun [] := ⟨Represents.new sound.toSoundAllocator new, by simp⟩
  have kernel := blank.kernel sound.toSoundBlocks wide mapsKernel
  have base := kernel.trans (kernel.mapped.trap sound.toSoundBlocks wide (by omega) mapsTrap)
  have found := spaces_of_live forks.parent
  have held {entry : PageAlloc} (member : entry ∈ current.pageAllocs) : Held self.scheduler.spaces entry :=
    ⟨_, _, found, member⟩
  obtain ⟨children, result⟩ := forkAllocs_forked sound.toSoundBlocks wide base.mapped
    (fun entry member => housed.spaces.inside entry (held member))
    (fun entry member => housed.spaces.issued entry (held member)) loop
  exact ⟨begun, start, children, new, base, result⟩

theorem Kernel.Housed.fork_joins (sound : SoundFrees inUse) (wide : 2 ^ 27 ≤ 2 ^ Mmu.fieldBits E)
    (housed : self.Housed inUse) (run : self.fork = .ok (pid, after)) :
    ∃ (current : Task M C F) (least : Nat) (page : M) (forked : Forking A),
      self.scheduler.Adds current least page current.context forked.pageAllocs after.scheduler ∧
      self.SameBut after forked.machine forked.arcs ∧
      Joins inUse (baseMappings self.layout self.scheduler.trapStack) self.scheduler.spaces self.arcs self.machine
        ⟨page, forked.pageAllocs⟩ forked.arcs forked.machine := by
  obtain ⟨_, current, page, forked, forks, ⟨least, adds⟩, same⟩ := fork_ok housed.fresh run
  obtain ⟨begun, start, children, new, base, result⟩ := forks.forked sound wide housed
  have found := spaces_of_live forks.parent
  exact ⟨current, least, page, forked, adds, same,
    Forked.joins sound.toSoundAllocator housed.spaces found new base rfl rfl result⟩

theorem Kernel.Housed.fork (sound : SoundFrees inUse) (wide : 2 ^ 27 ≤ 2 ^ Mmu.fieldBits E)
    (housed : self.Housed inUse) (run : self.fork = .ok (pid, after)) : after.Housed inUse := by
  obtain ⟨current, least, page, forked, adds, same, joins⟩ := housed.fork_joins sound wide run
  exact housed.add joins adds.spaces (by rw [adds.result]) (by rw [adds.result]) same

theorem Step.housed [ArchContext C] (sound : SoundFrees inUse) (wide : 2 ^ 27 ≤ 2 ^ Mmu.fieldBits E) {op : Op C F}
    {issued : Option Nat} (housed : self.Housed inUse) (fits : op.Fits) (step : Step self op issued after) :
    after.Housed inUse := by
  cases step with
  | create run => exact housed.create sound wide fits run
  | refuse run =>
    obtain rfl := Kernel.createFromElf_error run
    exact housed
  | fork run => exact housed.fork sound wide run
  | kernelFork run => exact housed.kernelFork sound run
  | schedule run => exact housed.schedule (schedule_spaces run)
  | @switchTask clock fuel ctx written next scheduler run =>
    obtain ⟨current, live, _, schedule⟩ := Scheduler.switchTask_ok run
    have saved : { self with
        scheduler := self.scheduler.setTask self.scheduler.currentPid { current with context := ctx } }.Housed inUse :=
      housed.setTask live rfl rfl
    exact saved.schedule (schedule_spaces schedule)
  | kill run => exact housed.kill sound run
  | renice live => exact housed.setTask live (Task.renice_space _ _).1 (Task.renice_space _ _).2
  | touch live => exact housed.setTask live rfl rfl
  | copyToUser live run => exact housed.write live fun page outside => copyToUser_page outside run

end Kernel

section Runs

variable {A M E C F : Type} [Entry E] [Mapper M E] [PageAllocator A] [ArchContext C] [Mmu E] {inUse : A → Nat → Prop}
variable {layout : KernelLayout} {kernelPt : M} {machine : Machine A} {start self : Kernel A M C F}

theorem taskInit_housed (sound : SoundBlocks inUse)
    (tree : Tree M machine.mem (rootTable kernelPt).page (inUse machine.alloc))
    (run : taskInit layout kernelPt machine = .ok self) : self.Housed inUse := by
  have only {pid : Nat} {space : Space M} (live : self.scheduler.spaces pid = some space) :
      pid = kernelPid ∧ space = ⟨kernelPt, []⟩ := by
    obtain ⟨task, found, rfl⟩ := Option.map_eq_some_iff.mp live
    obtain ⟨here, rfl⟩ := taskInit_only run found
    exact ⟨here, rfl⟩
  have unheld (entry : PageAlloc) : ¬ Held self.scheduler.spaces entry := by
    rintro ⟨pid, space, live, member⟩
    obtain ⟨_, rfl⟩ := only live
    exact not_mem_nil member
  have empty (pid : Nat) : ids self.scheduler.spaces pid = [] := eq_nil_iff_forall_not_mem.mpr fun id member => by
    obtain ⟨entry, holder, _⟩ := mem_ids.mp member
    exact unheld entry holder.held
  simp only [taskInit, bind_ok, pure_ok, Prod.exists] at run
  obtain ⟨trapStack, alloc, allocated, rfl⟩ := run
  have taken : PageAllocator.allocPages machine.alloc (2 ^ 4) = .ok (.ok trapStack, alloc) := allocPages_ok.mp allocated
  obtain ⟨_, inside, used⟩ := sound.block _ _ _ _ taken
  refine ⟨?_, inside⟩
  exact
    { bounded := fun pid space live => (only live).1.le
      tree := fun pid space live => by
        obtain ⟨_, rfl⟩ := only live
        exact tree.mono fun page held => (used page).mpr (Or.inr held)
      apart := fun pid space other space' live live' differs => absurd ((only live).1.trans (only live').1.symm) differs
      mapped := fun pid space live some => by
        obtain ⟨_, rfl⟩ := only live
        exact absurd rfl some
      inside := fun entry held => absurd held (unheld entry)
      used := fun entry held => absurd held (unheld entry)
      off := fun entry held => absurd held (unheld entry)
      issued := fun entry held => absurd held (unheld entry)
      same := fun entry _ held => absurd held (unheld entry)
      disjoint := fun entry _ held => absurd held (unheld entry)
      counted := fun id => (Finset.sum_eq_zero fun pid _ => by rw [empty pid, count_nil]).symm
      nodup := fun pid => by
        rw [empty pid]
        exact nodup_nil
      unshared := fun _ _ entry holder => absurd holder.held (unheld entry) }

def FittingStep [AddressSpace E] (self after : Kernel A M C F) : Prop :=
  ∃ op issued, Op.Fits op ∧ Step self op issued after

theorem housed_of_run [AddressSpace E] [LawfulEntry E] [LawfulMapper M] (sound : SoundFrees inUse)
    (wide : 2 ^ 27 ≤ 2 ^ Mmu.fieldBits E) (housed : start.Housed inUse)
    (run : Relation.ReflTransGen FittingStep start self) : self.Housed inUse :=
  Runs.preserved (Kernel.Housed inUse) (fun _ _ housed ⟨_, _, fits, step⟩ => step.housed sound wide housed fits) housed run

end Runs

end Kernel31.Sched
