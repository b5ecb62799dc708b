import Kernel31.Library.Maps
import Kernel31.Vfs.Model

namespace Kernel31.Vfs

open Checked List
open Std (ExtTreeMap)

namespace VirtualFileSystem

section Lookup
variable {S : Type} (self : VirtualFileSystem S) (path : Path)

def FirstPoint (fsId : Nat) (mpoint : Path) : Prop :=
  self.mountPoints[fsId]? = some mpoint ∧ mpoint <+: path ∧
    ∀ (before : Nat) (point : Path), before < fsId → self.mountPoints[before]? = some point → ¬ point <+: path

theorem findMount_eq_some {fsId : Nat} {mpoint : Path} :
    self.findMount path = some (fsId, mpoint) ↔ self.FirstPoint path fsId mpoint := by
  rw [findMount, Maps.find?_toList, FirstPoint]
  simp only [Nat.compare_eq_lt, ← Bool.not_eq_true, Path.startsWith_iff]

theorem findMount_eq_none : self.findMount path = none ↔
    ∀ (fsId : Nat) (mpoint : Path), self.mountPoints[fsId]? = some mpoint → ¬ mpoint <+: path := by
  rw [findMount, Maps.find?_toList_none]
  simp only [← Bool.not_eq_true, Path.startsWith_iff]

theorem dispatch_eq :
    self.dispatch path = .ok ((self.findMount path).bind fun entry =>
      self.mountedFs[entry.1]?.map fun fs => (entry.1, fs, path.drop entry.2.length)) := by
  rw [dispatch]
  cases found : self.findMount path with
  | none => rfl
  | some entry =>
    obtain ⟨fsId, mpoint⟩ := entry
    cases mounted : self.mountedFs[fsId]? with
    | none => simp only [Option.bind_some, mounted, Option.map_none, pure_eq]
    | some fs =>
      simp only [Option.bind_some, mounted, Option.map_some, Path.stripPrefix,
        if_pos (Path.startsWith_iff.mpr ((self.findMount_eq_some path).mp found).2.1), pure_eq]

theorem mounted_of_dispatch {fsId : Nat} {fs : S} {rest : Path} (run : self.dispatch path = .ok (some (fsId, fs, rest))) :
    self.mountedFs[fsId]? = some fs := by
  rw [dispatch_eq] at run
  obtain ⟨entry, _, there⟩ := Option.bind_eq_some_iff.mp (Except.ok.inj run)
  obtain ⟨_, mounted, same⟩ := Option.map_eq_some_iff.mp there
  simp only [Prod.mk.injEq] at same
  obtain ⟨rfl, rfl, _⟩ := same
  exact mounted

end Lookup

section Mounts
variable {S : Type}

def mountAll (mounts : List (Path × S)) : Exec (VirtualFileSystem S) :=
  mounts.foldlM (fun self entry => self.mount entry.2 entry.1) default

structure Mounted (now : VirtualFileSystem S) (mounts : List (Path × S)) : Prop where
  maxId : now.maxId = mounts.length
  points : ∀ fsId : Nat, now.mountPoints[fsId]? = mounts[fsId]?.map Prod.fst
  systems : ∀ fsId : Nat, now.mountedFs[fsId]? = mounts[fsId]?.map Prod.snd

variable {mounts : List (Path × S)}

theorem Mounted.mount {self self' : VirtualFileSystem S} (here : self.Mounted mounts) {fs : S} {mpoint : Path}
    (run : self.mount fs mpoint = .ok self') : self'.Mounted (mounts ++ [(mpoint, fs)]) := by
  rw [VirtualFileSystem.mount] at run
  split at run
  · split at run
    · obtain rfl := pure_ok.mp run
      rw [here.maxId]
      exact ⟨by rw [length_append]; rfl, Maps.getElem?_insert_length here.points (mpoint, fs),
        Maps.getElem?_insert_length here.systems (mpoint, fs)⟩
    · cases run
  · cases run

theorem mountAll_mounted {self : VirtualFileSystem S} (run : mountAll mounts = .ok self) : self.Mounted mounts := by
  suffices general : ∀ (before after : List (Path × S)) (start : VirtualFileSystem S), start.Mounted before →
      after.foldlM (fun self entry => self.mount entry.2 entry.1) start = .ok self → self.Mounted (before ++ after) from
    general [] mounts default ⟨rfl, by simp [default], by simp [default]⟩ run
  intro before after
  induction after generalizing before with
  | nil =>
    intro start here run
    obtain rfl := pure_ok.mp run
    rwa [append_nil]
  | cons entry after ih =>
    intro start here run
    simp only [foldlM_cons, bind_ok] at run
    obtain ⟨middle, first, run⟩ := run
    have there := ih (before ++ [entry]) middle (here.mount first) run
    rwa [append_assoc, singleton_append] at there

theorem Mounted.findMount {self : VirtualFileSystem S} (here : self.Mounted mounts) {path : Path} {fsId : Nat}
    {mpoint : Path} (found : self.findMount path = some (fsId, mpoint)) :
    (∃ fs, mounts[fsId]? = some (mpoint, fs)) ∧ mpoint <+: path ∧
      ∀ (before : Nat) (entry : Path × S), before < fsId → mounts[before]? = some entry → ¬ entry.1 <+: path := by
  obtain ⟨point, covers, first⟩ := (self.findMount_eq_some path).mp found
  rw [here.points, Option.map_eq_some_iff] at point
  obtain ⟨⟨mpoint, fs⟩, there, rfl⟩ := point
  refine ⟨⟨fs, there⟩, covers, fun before entry below inside => first before entry.1 below ?_⟩
  rw [here.points, inside]
  rfl

theorem Mounted.findMount_none {self : VirtualFileSystem S} (here : self.Mounted mounts) {path : Path}
    (missed : self.findMount path = none) : ∀ entry ∈ mounts, ¬ entry.1 <+: path := by
  intro entry member
  obtain ⟨fsId, inside⟩ := mem_iff_getElem?.mp member
  refine (self.findMount_eq_none path).mp missed fsId entry.1 ?_
  rw [here.points, inside]
  rfl

/-- The mount point is the longest one that starts the path by components, and the other components follow. -/
def LongestMatch (mounts : List (Path × S)) (path : Path) : Option (Nat × S × Path) → Prop
  | none => ∀ entry ∈ mounts, ¬ Path.iter entry.1 <+: Path.iter path
  | some (fsId, fs, rest) => ∃ mpoint others, mounts[fsId]? = some (mpoint, fs) ∧
      Path.iter path = Path.iter mpoint ++ others ∧ rest = Path.rejoin others ∧
      ∀ entry ∈ mounts, Path.iter entry.1 <+: Path.iter path → (Path.iter entry.1).length ≤ (Path.iter mpoint).length

/-- The first mount point that starts the path by bytes does so by components, too, and none that does is longer. -/
def FirstIsLongest (mounts : List (Path × S)) (path : Path) : Prop :=
  ∀ (fsId : Nat) (found : Path × S), mounts[fsId]? = some found → found.1 <+: path →
    (∀ (before : Nat) (entry : Path × S), before < fsId → mounts[before]? = some entry → ¬ entry.1 <+: path) →
    Path.iter found.1 <+: Path.iter path ∧
      ∀ entry ∈ mounts, Path.iter entry.1 <+: Path.iter path → (Path.iter entry.1).length ≤ (Path.iter found.1).length

theorem LongestMatch.unique {mounts' : List (Path × S)} {path : Path} (distinct : (mounts.map Prod.fst).Nodup)
    (same : mounts'.Perm mounts) {target target' : Option (Nat × S × Path)}
    (here : LongestMatch mounts path target) (there : LongestMatch mounts' path target') :
    target'.map Prod.snd = target.map Prod.snd := by
  match target, target' with
  | none, none => rfl
  | none, some (fsId, fs, rest) =>
    obtain ⟨mpoint, others, found, split, -⟩ := there
    exact absurd ⟨others, split.symm⟩ (here _ (same.mem_iff.mp (mem_of_getElem? found)))
  | some (fsId, fs, rest), none =>
    obtain ⟨mpoint, others, found, split, -⟩ := here
    exact absurd ⟨others, split.symm⟩ (there _ (same.mem_iff.mpr (mem_of_getElem? found)))
  | some (fsId, fs, rest), some (fsId', fs', rest') =>
    obtain ⟨mpoint, others, found, split, rfl, longest⟩ := here
    obtain ⟨mpoint', others', found', split', rfl, longest'⟩ := there
    have member := mem_of_getElem? found
    have member' := same.mem_iff.mp (mem_of_getElem? found')
    have lengths : (Path.iter mpoint).length = (Path.iter mpoint').length :=
      Nat.le_antisymm (longest' _ (same.mem_iff.mpr member) ⟨others, split.symm⟩)
        (longest _ member' ⟨others', split'.symm⟩)
    obtain ⟨components, rfl⟩ := append_inj (split.symm.trans split') lengths
    have point : mpoint = mpoint' := by rw [← Path.intercalate_iter mpoint, components, Path.intercalate_iter]
    have entry : (mpoint, fs) = (mpoint', fs') := inj_on_of_nodup_map distinct member member' point
    rw [(Prod.mk.inj entry).2]
    rfl

theorem Mounted.dispatch_iff {self : VirtualFileSystem S} (here : self.Mounted mounts) (path : Path)
    {target : Option (Nat × S × Path)} (run : self.dispatch path = .ok target) :
    LongestMatch mounts path target ↔ FirstIsLongest mounts path := by
  rw [dispatch_eq] at run
  obtain rfl := Except.ok.inj run
  cases found : self.findMount path with
  | none =>
    have missed := here.findMount_none found
    refine iff_of_true (fun entry member covers => missed entry member (Path.iter_prefix_iff.mp covers).1) ?_
    intro fsId entry there covers
    exact absurd covers (missed entry (mem_of_getElem? there))
  | some entry =>
    obtain ⟨fsId, mpoint⟩ := entry
    obtain ⟨⟨fs, there⟩, covers, first⟩ := here.findMount found
    have mounted : self.mountedFs[fsId]? = some fs := by rw [here.systems, there]; rfl
    simp only [Option.bind_some, mounted, Option.map_some]
    constructor
    · rintro ⟨point, others, same, split, _, longest⟩ other entry inside hit before
      have equal : other = fsId := by
        rcases Nat.lt_trichotomy other fsId with below | equal | above
        · exact absurd hit (first other entry below inside)
        · exact equal
        · exact absurd covers (before fsId (mpoint, fs) above there)
      subst equal
      obtain rfl := Option.mem_unique same inside
      exact ⟨⟨others, split.symm⟩, longest⟩
    · intro condition
      obtain ⟨⟨others, split⟩, longest⟩ := condition fsId (mpoint, fs) there covers first
      refine ⟨mpoint, others, there, split.symm, ?_, longest⟩
      rw [Path.eq_append_rejoin split.symm, drop_left]

end Mounts

section Unmount
variable {S : Type} {self : VirtualFileSystem S} {path : Path}

def DistinctPoints (self : VirtualFileSystem S) : Prop :=
  ∀ (fsId other : Nat) (point : Path), self.mountPoints[fsId]? = some point → self.mountPoints[other]? = some point →
    fsId = other

theorem Mounted.distinctPoints {mounts : List (Path × S)} (here : self.Mounted mounts)
    (distinct : (mounts.map Prod.fst).Nodup) : self.DistinctPoints := by
  intro fsId other point first second
  rw [here.points, ← getElem?_map] at first second
  exact (getElem?_inj (List.getElem?_eq_some_iff.mp first).1 distinct).mp (first.trans second.symm)

/-- The mount at exactly this path is gone, and every other one is as it was. -/
structure Unmounted (now after : VirtualFileSystem S) (path : Path) : Prop where
  maxId : after.maxId = now.maxId
  points : ∀ fsId : Nat, after.mountPoints[fsId]? =
    if now.mountPoints[fsId]? = some path then none else now.mountPoints[fsId]?
  systems : ∀ fsId : Nat, after.mountedFs[fsId]? =
    if now.mountPoints[fsId]? = some path then none else now.mountedFs[fsId]?

theorem unmounted_none (missed : self.findMount path = none) : self.Unmounted self path := by
  have absent (fsId : Nat) : self.mountPoints[fsId]? ≠ some path := fun here =>
    (self.findMount_eq_none path).mp missed fsId path here (prefix_refl path)
  exact ⟨rfl, fun fsId => (if_neg (absent fsId)).symm, fun fsId => (if_neg (absent fsId)).symm⟩

theorem umount_eq {fsId : Nat} {mpoint : Path} (found : self.findMount path = some (fsId, mpoint)) :
    self.umount path =
      { self with mountedFs := self.mountedFs.erase fsId, mountPoints := self.mountPoints.erase fsId } := by
  rw [umount, found]

/-- Exactly when no other mount point that starts the path by bytes has a smaller number. -/
theorem umount_exact_iff (self : VirtualFileSystem S) (distinct : self.DistinctPoints) (path : Path) :
    self.Unmounted (self.umount path) path ↔
      ∀ (fsId : Nat) (mpoint : Path), self.FirstPoint path fsId mpoint → mpoint = path := by
  cases found : self.findMount path with
  | none =>
    have same : self.umount path = self := by rw [umount, found]
    refine iff_of_true (same.symm ▸ unmounted_none found) fun fsId mpoint first => ?_
    exact absurd first.2.1 ((self.findMount_eq_none path).mp found fsId mpoint first.1)
  | some entry =>
    obtain ⟨fsId, mpoint⟩ := entry
    have first := (self.findMount_eq_some path).mp found
    have gone (other : Nat) : (self.umount path).mountPoints[other]? =
        if fsId = other then none else self.mountPoints[other]? := by
      simp only [umount_eq found, ExtTreeMap.getElem?_erase, Nat.compare_eq_eq]
    have gone' (other : Nat) : (self.umount path).mountedFs[other]? =
        if fsId = other then none else self.mountedFs[other]? := by
      simp only [umount_eq found, ExtTreeMap.getElem?_erase, Nat.compare_eq_eq]
    constructor
    · intro unmounted other point there
      rw [← findMount_eq_some, found] at there
      obtain ⟨rfl, rfl⟩ := Prod.mk.inj (Option.some.inj there)
      have removed := unmounted.points fsId
      rw [gone, if_pos rfl, first.1] at removed
      split at removed
      case isTrue here => exact Option.some.inj here
      case isFalse => cases removed
    · intro exact
      obtain rfl := exact fsId mpoint first
      have place (other : Nat) : self.mountPoints[other]? = some mpoint ↔ fsId = other :=
        ⟨fun there => distinct fsId other mpoint first.1 there, fun same => same ▸ first.1⟩
      refine ⟨by rw [umount_eq found], fun other => ?_, fun other => ?_⟩
      · simp only [gone, place]
      · simp only [gone', place]

end Unmount

section Open
variable {S W : Type} [FileSystem S W]

def openAt (self : VirtualFileSystem S) : Option (Nat × S × Path) → Exec (Except VfsError VfsFile × VirtualFileSystem S)
  | none => pure (.error .notMounted, self)
  | some (fsId, fs, rest) => do
    let (result, fs) ← FileSystem.openPath fs rest
    pure ((result.mapError .fsError).map (⟨·, 0, fsId⟩), { self with mountedFs := self.mountedFs.insert fsId fs })

theorem open_eq (self : VirtualFileSystem S) {path : Path} (absolute : path.isAbsolute = true) :
    self.open path = self.dispatch path >>= self.openAt := by
  rw [VirtualFileSystem.open, if_pos absolute]
  refine bind_congr fun target => ?_
  match target with
  | none => rfl
  | some (fsId, fs, rest) =>
    refine bind_congr fun answer => ?_
    obtain ⟨_ | _, fs⟩ := answer <;> rfl

theorem open_ok {self self' : VirtualFileSystem S} {path : Path} {result : Except VfsError VfsFile} :
    self.open path = .ok (result, self') ↔ path.isAbsolute = true ∧
      ∃ target, self.dispatch path = .ok target ∧ self.openAt target = .ok (result, self') := by
  by_cases absolute : path.isAbsolute = true
  · rw [self.open_eq absolute, bind_ok, and_iff_right absolute]
  · rw [VirtualFileSystem.open, if_neg absolute]
    exact iff_of_false nofun fun both => absolute both.1

theorem openAt_notMounted (self : VirtualFileSystem S) (target : Option (Nat × S × Path)) :
    (∃ after, self.openAt target = .ok (.error .notMounted, after)) ↔ target = none := by
  match target with
  | none => exact ⟨fun _ => rfl, fun _ => ⟨self, rfl⟩⟩
  | some (fsId, fs, rest) =>
    refine ⟨?_, nofun⟩
    rintro ⟨after, run⟩
    simp only [openAt, bind_ok, Prod.exists, pure_ok, Prod.mk.injEq] at run
    obtain ⟨_ | _, _, _, wrong, _⟩ := run <;> cases wrong

/-- In any order of mounting, exactly when the first mount point that starts the path by bytes is the longest by
    components. -/
theorem open_asks_longest_iff (mounts : List (Path × S)) (self : VirtualFileSystem S)
    (mounted : mountAll mounts = .ok self) (path : Path) (absolute : path.isAbsolute = true) :
    ∃ target, self.dispatch path = .ok target ∧ self.open path = self.openAt target ∧
      ((∃ after, self.open path = .ok (.error .notMounted, after)) ↔ target = none) ∧
      (LongestMatch mounts path target ↔ FirstIsLongest mounts path) ∧
      (FirstIsLongest mounts path → (mounts.map Prod.fst).Nodup →
        ∀ (mounts' : List (Path × S)) (self' : VirtualFileSystem S), mounts'.Perm mounts → mountAll mounts' = .ok self' →
          FirstIsLongest mounts' path →
          ∃ target', self'.dispatch path = .ok target' ∧ self'.open path = self'.openAt target' ∧
            target'.map Prod.snd = target.map Prod.snd) := by
  have here := mountAll_mounted mounted
  have longest := here.dispatch_iff path (self.dispatch_eq path)
  have opened := self.open_eq absolute
  rw [dispatch_eq, ok_bind] at opened
  refine ⟨_, self.dispatch_eq path, opened, ?_, longest, fun first distinct mounts' self' same mounted' first' => ?_⟩
  · rw [opened, openAt_notMounted]
  · have longest' := (mountAll_mounted mounted').dispatch_iff path (self'.dispatch_eq path)
    have opened' := self'.open_eq absolute
    rw [dispatch_eq, ok_bind] at opened'
    exact ⟨_, self'.dispatch_eq path, opened', LongestMatch.unique distinct same (longest.mpr first) (longest'.mpr first')⟩

end Open

def pointPts : Path := pointDev ++ [slash, 0x70, 0x74, 0x73]

theorem inner_point_mounted_first :
    ∃ self, mountAll [(pointPts, DevFS.default), (pointDev, DevFS.default)] = .ok self ∧
      FirstIsLongest [(pointPts, DevFS.default), (pointDev, DevFS.default)] (pointPts ++ slash :: nameZero) ∧
      ∃ target, self.dispatch (pointPts ++ slash :: nameZero) = .ok target ∧
        LongestMatch [(pointPts, DevFS.default), (pointDev, DevFS.default)] (pointPts ++ slash :: nameZero) target := by
  obtain ⟨self, mounted, -⟩ : ∃ self, mountAll [(pointPts, DevFS.default), (pointDev, DevFS.default)] = .ok self ∧
      true = true := exists_of_passes (by decide +kernel)
  have first : FirstIsLongest [(pointPts, DevFS.default), (pointDev, DevFS.default)] (pointPts ++ slash :: nameZero) := by
    intro fsId found inside covers before
    have zero : fsId = 0 := by
      by_contra above
      exact before 0 _ (Nat.pos_of_ne_zero above) rfl (prefix_append pointPts _)
    subst zero
    obtain rfl := Option.some.inj inside
    refine ⟨by decide +kernel, fun entry member _ => ?_⟩
    rcases mem_pair.mp member with rfl | rfl <;> decide +kernel
  obtain ⟨target, found, _, _, longest, _⟩ := open_asks_longest_iff _ self mounted
    (pointPts ++ slash :: nameZero) (by decide +kernel)
  exact ⟨self, mounted, first, target, found, longest.mpr first⟩

/-- With `/dev` mounted first, `/dev/pts/zero` is looked for there, and `/dev` has no `pts`. -/
theorem outer_point_mounted_first :
    ∃ self target after, mountAll [(pointDev, DevFS.default), (pointPts, DevFS.default)] = .ok self ∧
      self.dispatch (pointPts ++ slash :: nameZero) = .ok target ∧
      self.open (pointPts ++ slash :: nameZero) = .ok (.error (.fsError .noSuchFile), after) ∧
      ¬ LongestMatch [(pointDev, DevFS.default), (pointPts, DevFS.default)] (pointPts ++ slash :: nameZero) target := by
  have played : passes (mountAll [(pointDev, DevFS.default), (pointPts, DevFS.default)]) (fun self =>
      passes (self.open (pointPts ++ slash :: nameZero)) fun answer => match answer.1 with
        | .error err => decide (err = .fsError .noSuchFile)
        | .ok _ => false) = true := by
    decide +kernel
  obtain ⟨self, mounted, test⟩ := exists_of_passes played
  obtain ⟨⟨result, after⟩, opened, test⟩ := exists_of_passes test
  obtain ⟨err, rfl, rfl⟩ : ∃ err, result = .error err ∧ err = .fsError .noSuchFile := by
    cases result with
    | error err => exact ⟨err, rfl, of_decide_eq_true test⟩
    | ok file => cases test
  have here := mountAll_mounted mounted
  refine ⟨self, _, after, mounted, self.dispatch_eq _, opened, fun longest => ?_⟩
  have first := (here.dispatch_iff _ (self.dispatch_eq _)).mp longest
  obtain ⟨_, longest⟩ := first 0 _ rfl (by decide +kernel) (fun before _ below => absurd below (Nat.not_lt_zero before))
  exact absurd (longest (pointPts, DevFS.default) (by simp) (by decide +kernel)) (by decide +kernel)

theorem inner_point_unmounted :
    ∃ self, mountAll [(pointPts, DevFS.default), (pointDev, DevFS.default)] = .ok self ∧
      self.Unmounted (self.umount pointPts) pointPts ∧ (self.umount pointPts).mountPoints[1]? = some pointDev := by
  obtain ⟨self, mounted, kept⟩ : ∃ self, mountAll [(pointPts, DevFS.default), (pointDev, DevFS.default)] = .ok self ∧
      (self.umount pointPts).mountPoints[1]? = some pointDev := exists_of_decide (by decide +kernel)
  have here := mountAll_mounted mounted
  refine ⟨self, mounted, (umount_exact_iff self (here.distinctPoints (by decide)) pointPts).mpr ?_, kept⟩
  intro fsId mpoint first
  cases fsId with
  | zero =>
    have point := first.1
    rw [here.points] at point
    exact (Option.some.inj point).symm
  | succ fsId => exact absurd (prefix_refl pointPts) (first.2.2 0 pointPts (Nat.succ_pos fsId) (here.points 0))

/-- With `/dev` mounted before `/dev/pts`, `umount("/dev/pts")` removes `/dev`. -/
theorem outer_point_unmounted :
    ∃ self, mountAll [(pointDev, DevFS.default), (pointPts, DevFS.default)] = .ok self ∧
      (self.umount pointPts).mountPoints[0]? = none ∧ (self.umount pointPts).mountPoints[1]? = some pointPts ∧
      (self.umount pointPts).mountedFs[0]?.isNone = true ∧ (self.umount pointPts).mountedFs[1]?.isSome = true :=
  exists_of_decide (by decide +kernel)

end VirtualFileSystem

end Kernel31.Vfs
