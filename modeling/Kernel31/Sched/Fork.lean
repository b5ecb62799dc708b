import Kernel31.Sched.Spaces

namespace Kernel31.Sched

open Page Paging Elf Kernel31.Task Checked Radix List Mapper

variable {A M E : Type} {kernelPt page : M} {entry child : PageAlloc} {s s' middle : Forking A} {inUse : A → Nat → Prop}
  {mappings : List Mapping} {first second third : Machine A} {entries children more others : List PageAlloc}

section Effects

variable [Entry E] [Mapper M E] [PageAllocator A] [Mmu E] [AddressSpace E]
instance (info : PageAllocInfo) : Decidable (Shared info) := inferInstanceAs (Decidable (_ ∨ _))

theorem copyMemory_ok {mem mem' : Memory} {source destination count : Nat}
    (run : copyMemory kernelPt mem source destination count = .ok mem') :
    (∀ page, (∀ i, i < count → (destination + i) / pageSize ≠ page) → mem' page = mem page) ∧
      ∀ i, i < count → kernelByte kernelPt mem ((source + i) % 2 ^ 64) = .ok (loadByte mem' (destination + i)) := by
  obtain ⟨bytes, read, run⟩ := bind_ok.mp run
  obtain rfl := pure_ok.mp run
  refine ⟨fun page outside => Copy.store_page _ _ _ _ outside, fun i below => ?_⟩
  have reads := mapM_ok read
  have length : count = bytes.length := by simpa using reads.length_eq
  have byte := reads.get (by simpa using below) (length ▸ below)
  rw [Copy.run, Copy.loadByte_store, if_pos (by dsimp only; omega)]
  simpa [getElem?_eq_getElem (length ▸ below)] using byte

theorem forkAlloc_ok (run : forkAlloc kernelPt page entry s = .ok s') :
    (Shared entry.info ∧ ∃ machine,
      mapWithAllocator page s.machine entry.info.vPage entry.info.pPage entry.info.vPages
        (segmentMode entry.info.flags) = .ok machine ∧
      s' = ⟨machine, s.arcs.clone entry, s.pageAllocs ++ [entry]⟩) ∨
    (¬ Shared entry.info ∧ ∃ (block : Nat) (alloc : A) (machine : Machine A) (mem : Memory),
      let info : PageAllocInfo := { entry.info with pPage := block - pageOffset }
      PageAllocator.allocPages s.machine.alloc (Buddy.nextPowerOfTwo entry.info.vPages) = .ok (.ok block, alloc) ∧
      pageOffset ≤ block ∧
      mapWithAllocator page { s.machine with alloc := alloc } info.vPage info.pPage info.vPages
        (segmentMode info.flags) = .ok machine ∧
      copyMemory kernelPt machine.mem ((info.vPage <<< pageBits) % 2 ^ 64) ((block <<< pageBits) % 2 ^ 64)
        ((info.vPages <<< pageBits) % 2 ^ 64) = .ok mem ∧
      s' = ⟨{ machine with mem := mem }, (s.arcs.new info).2, s.pageAllocs ++ [⟨s.arcs.next, info⟩]⟩) := by
  simp only [forkAlloc] at run
  split at run
  · rename_i exec
    obtain ⟨machine, mapping, run⟩ := bind_ok.mp run
    refine Or.inl ⟨Or.inl exec, machine, ?_, (pure_ok.mp run).symm⟩
    rwa [segmentMode, if_pos exec]
  · rename_i exec
    split at run
    · rename_i write
      right
      simp only [bind_ok, Prod.exists] at run
      obtain ⟨count, rounded, block, alloc, taken, pPage, framed, machine, mapping, mem, copy, run⟩ := run
      obtain ⟨rfl, _⟩ := Buddy.ceilToPower2_ok rounded
      obtain ⟨linear, same⟩ := physPage_ok framed
      have back : virtPage pPage = block := by
        unfold virtPage
        omega
      rw [back] at copy
      rw [same] at mapping run
      refine ⟨by simp [Shared, exec, write], block, alloc, machine, mem, allocPages_ok.mp taken, linear, ?_, copy,
        (pure_ok.mp run).symm⟩
      rwa [segmentMode, if_neg exec, if_pos write]
    · rename_i write
      obtain ⟨machine, mapping, run⟩ := bind_ok.mp run
      refine Or.inl ⟨Or.inr write, machine, ?_, (pure_ok.mp run).symm⟩
      rwa [segmentMode, if_neg exec, if_neg write]

end Effects

structure Inherited {A M E : Type} [Entry E] [Mapper M E] [Mmu E] [AddressSpace E] (inUse : A → Nat → Prop)
    (kernelPt page : M) (first last : Machine A) (entry child : PageAlloc) : Prop where
  vPage : child.info.vPage = entry.info.vPage
  vPages : child.info.vPages = entry.info.vPages
  flags : child.info.flags = entry.info.flags
  shared : Shared entry.info → child = entry
  copied : ¬ Shared entry.info → ∀ i, i < entry.info.vPages * pageSize → ∃ middle,
    Builds M inUse (rootTable page).page first middle ∧
    kernelByte kernelPt middle.mem ((entry.info.vPage * pageSize + i) % 2 ^ 64) =
      .ok (loadByte last.mem (virtPage child.info.pPage * pageSize + i))

def copies (entries : List PageAlloc) : List PageAlloc := entries.filter fun entry => ¬ Shared entry.info

structure Forked {A M E : Type} [Entry E] [Mapper M E] [Mmu E] [AddressSpace E] (inUse : A → Nat → Prop)
    (kernelPt page : M) (mappings : List Mapping) (entries : List PageAlloc) (s : Forking A) (children : List PageAlloc)
    (s' : Forking A) : Prop where
  allocs : s'.pageAllocs = s.pageAllocs ++ children
  maps : Maps inUse page s.machine mappings ((children.map PageAlloc.info).flatMap allocMappings) s'.machine
  blocks : Blocks M inUse (rootTable page).page s.machine s'.machine ((copies children).map PageAlloc.info)
  inherited : List.Forall₂ (Inherited inUse kernelPt page s.machine s'.machine) entries children
  next : s.arcs.next ≤ s'.arcs.next
  fresh : (copies children).map PageAlloc.id = range' s.arcs.next (s'.arcs.next - s.arcs.next)
  blank : s.arcs.Blank → s'.arcs.Blank
  counted : s.arcs.Blank → ∀ id, s'.arcs.strong id = s.arcs.strong id + (children.map PageAlloc.id).count id

section Loop

variable [Entry E] [Mapper M E] [Mmu E] [AddressSpace E]
theorem Inherited.shared_iff (inherited : Inherited inUse kernelPt page first second entry child) :
    Shared child.info ↔ Shared entry.info := by
  rw [Shared, Shared, inherited.flags]

theorem Inherited.later (inherited : Inherited inUse kernelPt page first second entry child)
    (builds : Builds M inUse (rootTable page).page second third)
    (holds : ¬ Shared entry.info → Holds M inUse (rootTable page).page first second child.info) :
    Inherited inUse kernelPt page first third entry child := by
  refine { inherited with copied := fun own i below => ?_ }
  obtain ⟨machine, built, read⟩ := inherited.copied own i below
  obtain ⟨_, _, used, off⟩ := holds own
  have enough := Buddy.le_nextPowerOfTwo child.info.vPages
  have inside : child.info.holds ((virtPage child.info.pPage * pageSize + i) / pageSize) := by
    rw [← inherited.vPages] at below
    simp only [PageAllocInfo.holds, pageSize_eq] at below ⊢
    omega
  exact ⟨machine, built, by rw [read, loadByte_congr (builds.kept _ (used _ inside) (off _ inside))]⟩

theorem Inherited.earlier (inherited : Inherited inUse kernelPt page second third entry child)
    (builds : Builds M inUse (rootTable page).page first second) :
    Inherited inUse kernelPt page first third entry child := by
  refine { inherited with copied := fun own i below => ?_ }
  obtain ⟨machine, built, read⟩ := inherited.copied own i below
  exact ⟨machine, builds.trans built, read⟩

theorem Forked.append (before : Forked inUse kernelPt page mappings entries s children middle)
    (after : Forked inUse kernelPt page (mappings ++ (children.map PageAlloc.info).flatMap allocMappings) more middle others
      s') :
    Forked inUse kernelPt page mappings (entries ++ more) s (children ++ others) s' := by
  have joined : copies (children ++ others) = copies children ++ copies others := filter_append ..
  refine ⟨?_, ?_, ?_, rel_append ?_ ?_, before.next.trans after.next, ?_, after.blank ∘ before.blank, ?_⟩
  · rw [after.allocs, before.allocs, append_assoc]
  · rw [map_append, flatMap_append]
    exact before.maps.trans after.maps
  · rw [joined, map_append]
    exact before.blocks.append after.blocks before.maps.builds after.maps.builds
  · refine forall₂_iff_zip.mpr ⟨before.inherited.length_eq, fun member => ?_⟩
    have inherited := (forall₂_iff_zip.mp before.inherited).2 member
    refine inherited.later after.maps.builds fun own => before.blocks.holds _ (mem_map_of_mem ?_)
    exact mem_filter.mpr ⟨(of_mem_zip member).2, by simpa [inherited.shared_iff] using own⟩
  · exact after.inherited.imp fun _ _ inherited => inherited.earlier before.maps.builds
  · have low := before.next
    have high := after.next
    rw [joined, map_append, before.fresh, after.fresh, ← Nat.add_sub_of_le low, Nat.add_sub_cancel_left,
      range'_append_1]
    congr 1
    omega
  · intro blank id
    rw [after.counted (before.blank blank), before.counted blank, map_append, count_append, Nat.add_assoc]

theorem Arcs.clone_strong (arcs : Arcs) (entry : PageAlloc) (id : Nat) :
    (arcs.clone entry).strong id = arcs.strong id + [entry.id].count id := by
  by_cases here : entry.id = id
  · subst here
    simp [Arcs.clone]
  · simp [Arcs.clone, Ne.symm here, here]

theorem Arcs.new_strong {arcs : Arcs} (blank : arcs.Blank) (info : PageAllocInfo) (id : Nat) :
    (arcs.new info).2.strong id = arcs.strong id + [arcs.next].count id := by
  by_cases here : arcs.next = id
  · subst here
    simp [Arcs.new, blank _ le_rfl]
  · simp [Arcs.new, Ne.symm here, here]

variable [PageAllocator A] [LawfulEntry E] [LawfulMapper M] (sound : SoundBlocks inUse)
  (wide : 2 ^ 27 ≤ 2 ^ Mmu.fieldBits E)
include sound wide

theorem Forked.share {machine : Machine A} (mapped : Mapped inUse page s.machine mappings)
    (inside : virtPage entry.info.pPage + Buddy.nextPowerOfTwo entry.info.vPages ≤ 2 ^ 52)
    (issued : entry.id < s.arcs.next) (shared : Shared entry.info)
    (run : mapWithAllocator page s.machine entry.info.vPage entry.info.pPage entry.info.vPages
      (segmentMode entry.info.flags) = .ok machine) :
    Forked inUse kernelPt page mappings [entry] s [entry] ⟨machine, s.arcs.clone entry, s.pageAllocs ++ [entry]⟩ := by
  have none : copies [entry] = [] := by simp [copies, shared]
  have enough := Buddy.le_nextPowerOfTwo entry.info.vPages
  have small : entry.info.pPage + entry.info.vPages ≤ 2 ^ Mmu.fieldBits E := by
    rw [virtPage, pageOffset_eq] at inside
    omega
  refine ⟨rfl, ?_, ?_, ?_, le_rfl, ?_, fun blank id above => ?_, fun _ id => Arcs.clone_strong _ _ _⟩
  · rw [map_singleton, flatMap_singleton]
    exact mapped.map sound.toSoundAllocator run small (read_mem_segmentMode _)
  · rw [none]
    exact Blocks.nil _ _
  · exact .cons ⟨rfl, rfl, rfl, fun _ => rfl, fun own => absurd shared own⟩ .nil
  · rw [none]
    simp [Arcs.clone]
  · have below : entry.id < id := lt_of_lt_of_le issued above
    rw [Arcs.clone_strong, blank id above]
    simp [below.ne]

theorem Forked.duplicate {block : Nat} {alloc : A} {machine : Machine A} {mem : Memory} {info : PageAllocInfo}
    (mapped : Mapped inUse page s.machine mappings) (vPage : info.vPage = entry.info.vPage)
    (vPages : info.vPages = entry.info.vPages) (flags : info.flags = entry.info.flags)
    (back : virtPage info.pPage = block) (own : ¬ Shared entry.info)
    (allocated : PageAllocator.allocPages s.machine.alloc (Buddy.nextPowerOfTwo info.vPages) = .ok (.ok block, alloc))
    (run : mapWithAllocator page { s.machine with alloc := alloc } info.vPage info.pPage info.vPages
      (segmentMode info.flags) = .ok machine)
    (copy : copyMemory kernelPt machine.mem ((info.vPage <<< pageBits) % 2 ^ 64) ((block <<< pageBits) % 2 ^ 64)
      ((info.vPages <<< pageBits) % 2 ^ 64) = .ok mem) :
    Forked inUse kernelPt page mappings [entry] s [⟨s.arcs.next, info⟩]
      ⟨{ machine with mem := mem }, (s.arcs.new info).2, s.pageAllocs ++ [⟨s.arcs.next, info⟩]⟩ := by
  obtain ⟨_, inside, used⟩ := sound.block _ _ _ _ allocated
  have some : 0 < 2 ^ Buddy.ceilOrder info.vPages := Nat.two_pow_pos _
  rw [← Buddy.nextPowerOfTwo] at inside some
  have enough := Buddy.le_nextPowerOfTwo info.vPages
  have destination : (block <<< pageBits) % 2 ^ 64 = block * pageSize := by
    simp only [Nat.shiftLeft_eq, pageBits, show pageSize = 2 ^ 12 from rfl]
    omega
  have count : (info.vPages <<< pageBits) % 2 ^ 64 = info.vPages * pageSize := by
    rw [← back, virtPage, pageOffset_eq] at inside
    simp only [Nat.shiftLeft_eq, pageBits, show pageSize = 2 ^ 12 from rfl]
    omega
  rw [destination, count] at copy
  obtain ⟨outside, reads⟩ := copyMemory_ok copy
  have off : ∀ other, ¬ info.holds other → mem other = machine.mem other := by
    intro other missed
    apply outside
    intro i below here
    apply missed
    rw [PageAllocInfo.holds, back]
    simp only [pageSize_eq] at below here
    omega
  obtain ⟨maps, blocks, _⟩ := mapped.fill sound wide (by rwa [back]) run off
  have shared : ¬ Shared info := by rwa [Shared, flags]
  have mine : copies [(⟨s.arcs.next, info⟩ : PageAlloc)] = [⟨s.arcs.next, info⟩] := by simp [copies, shared]
  refine ⟨rfl, ?_, ?_, .cons ⟨vPage, vPages, flags, fun shared => absurd shared own, fun _ i below => ?_⟩ .nil,
    Nat.le_succ _, ?_, fun blank id above => ?_, fun blank id => Arcs.new_strong blank info id⟩
  · rw [map_singleton, flatMap_singleton]
    exact maps
  · rw [mine]
    exact blocks
  · have start : Builds M inUse (rootTable page).page s.machine { s.machine with alloc := alloc } :=
      Builds.alloc sound allocated
    have begun : Mapped inUse page { s.machine with alloc := alloc } mappings :=
      ⟨mapped.represents.frame (fun _ _ _ => rfl) start.used, mapped.fits⟩
    have number : (entry.info.vPage * pageSize + i) % 2 ^ 64 = ((info.vPage <<< pageBits) % 2 ^ 64 + i) % 2 ^ 64 := by
      rw [vPage, Nat.shiftLeft_eq, show (2 ^ pageBits : Nat) = pageSize from rfl]
      omega
    refine ⟨machine, start.trans (begun.represents.builds sound.toSoundAllocator run), ?_⟩
    rw [number, back]
    exact reads i (vPages ▸ below)
  · rw [mine]
    simp [Arcs.new]
  · have below : s.arcs.next < id := above
    rw [Arcs.new_strong blank, blank id below.le]
    simp [below.ne]

theorem forkAllocs_forked (mapped : Mapped inUse page s.machine mappings)
    (inside : ∀ entry ∈ entries, virtPage entry.info.pPage + Buddy.nextPowerOfTwo entry.info.vPages ≤ 2 ^ 52)
    (issued : ∀ entry ∈ entries, entry.id < s.arcs.next)
    (run : forkAllocs kernelPt page entries s = .ok s') :
    ∃ children, Forked inUse kernelPt page mappings entries s children s' := by
  induction entries generalizing s mappings with
  | nil =>
    obtain rfl := pure_ok.mp run
    refine ⟨[], (append_nil _).symm, ⟨by simpa using mapped, Builds.refl _ _ _⟩, Blocks.nil _ _, .nil, le_rfl,
      by simp [copies], id, fun _ _ => rfl⟩
  | cons entry rest ih =>
    obtain ⟨middle, step, run⟩ := bind_ok.mp run
    obtain ⟨here, there⟩ := forall_mem_cons.mp inside
    obtain ⟨old, others⟩ := forall_mem_cons.mp issued
    have first : ∃ child, Forked inUse kernelPt page mappings [entry] s [child] middle := by
      rcases forkAlloc_ok step with ⟨shared, machine, mapping, rfl⟩ |
        ⟨own, block, alloc, machine, mem, allocated, linear, mapping, copy, rfl⟩
      · exact ⟨entry, Forked.share sound wide mapped here old shared mapping⟩
      · have back : virtPage (block - pageOffset) = block := Nat.sub_add_cancel linear
        exact ⟨_, Forked.duplicate sound wide mapped rfl rfl rfl back own allocated mapping copy⟩
    obtain ⟨child, first⟩ := first
    obtain ⟨children, later⟩ := ih first.maps.mapped there (fun entry member =>
      lt_of_lt_of_le (others entry member) first.next) run
    exact ⟨child :: children, first.append later⟩

end Loop

end Kernel31.Sched
