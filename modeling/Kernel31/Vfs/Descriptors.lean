import Kernel31.Vfs.Dispatch

namespace Kernel31

namespace Sched

open Checked Function

def FdTable.Numbered {F : Type} (self : FdTable F) : Prop := ∀ fd, self.maxFd ≤ fd → self.fds fd = none

namespace FdTable.Numbered

variable {F : Type} {self self' : FdTable F}

theorem default : (FdTable.default : FdTable F).Numbered := fun _ _ => rfl

theorem add (numbered : self.Numbered) {file : F} {fd : Nat} (run : self.add file = .ok (fd, self')) :
    self.fds fd = none ∧ self'.Numbered := by
  rw [FdTable.add] at run
  split at run
  case isTrue =>
    obtain ⟨⟩ := pure_ok.mp run
    refine ⟨numbered _ (Nat.le_refl _), fun fd above => ?_⟩
    have away : fd ≠ self.maxFd := Nat.ne_of_gt above
    exact (update_of_ne away ..).trans (numbered fd (Nat.le_of_lt above))
  case isFalse => cases run

theorem set (numbered : self.Numbered) {fd : Nat} {old : F} (found : self.fds fd = some old) (file : F) :
    (self.set fd file).Numbered := by
  intro other above
  have away : other ≠ fd := by
    rintro rfl
    rw [numbered _ above] at found
    cases found
  exact (update_of_ne away ..).trans (numbered other above)

end FdTable.Numbered

end Sched

namespace Vfs

open Checked Sched

theorem openFile_eq {S W : Type} [FileSystem S W] (vfs : VirtualFileSystem S × W) (path : Path) :
    Sched.Vfs.openFile vfs path = (vfs.1.open path).map fun answer => (answer.1.toOption, answer.2, vfs.2) := by
  change (vfs.1.open path >>= fun answer => _) = _
  cases vfs.1.open path <;> rfl

section Open
variable {M C : Type} (s : Serving M C VfsFile (VirtualFileSystem DevFS × Devices)) (path : Path)

/-- The call does not panic, and returns `-1` or a number from `0` on under which the task has no file. -/
def OpenReturns : Prop :=
  ∃ ret s', syscallOpen s path = .ok (ret, s') ∧
    (ret = syscallRetErr ∨ ret.toNat < 2 ^ 63 ∧ s.task.fds.fds ret.toNat = none)

/-- The path has a slash, and when the device that follows exists the next number of the task is not negative. -/
def RestFits (fs : DevFS) (rest : Path) : Prop :=
  slash ∈ rest ∧ ∀ dev, (Path.iter rest)[1]? = some dev → fs.has dev = true → s.task.fds.maxFd < 2 ^ 63

/-- The path is absolute, and what follows its first mount point fits. -/
def PathFits : Prop :=
  path.isAbsolute = true ∧ ∀ (fsId : Nat) (mpoint : Path) (fs : DevFS), s.vfs.1.FirstPoint path fsId mpoint →
    s.vfs.1.mountedFs[fsId]? = some fs → RestFits s fs (path.drop mpoint.length)

variable {s path}

theorem openReturns_of_error {fault : Fault} (failed : s.vfs.1.open path = .error fault) : ¬ OpenReturns s path := by
  rintro ⟨ret, s', run, _⟩
  rw [syscallOpen, openFile_eq, failed] at run
  cases run

theorem openReturns_of_refused {err : VfsError} {vfs : VirtualFileSystem DevFS}
    (refused : s.vfs.1.open path = .ok (.error err, vfs)) : OpenReturns s path := by
  refine ⟨syscallRetErr, { s with vfs := (vfs, s.vfs.2) }, ?_, .inl rfl⟩
  rw [syscallOpen, openFile_eq, refused]
  rfl

theorem openReturns_of_opened (numbered : s.task.fds.Numbered) {file : VfsFile} {vfs : VirtualFileSystem DevFS}
    (opened : s.vfs.1.open path = .ok (.ok file, vfs)) : OpenReturns s path ↔ s.task.fds.maxFd < 2 ^ 63 := by
  have unfolded : syscallOpen s path = s.task.fds.add file >>= fun answer =>
      pure (UInt64.ofNat answer.1, { s with task := { s.task with fds := answer.2 }, vfs := (vfs, s.vfs.2) }) := by
    rw [syscallOpen, openFile_eq, opened]
    rfl
  rw [OpenReturns, unfolded]
  constructor
  · rintro ⟨ret, s', run, result⟩
    simp only [bind_ok, Prod.exists, pure_ok, Prod.mk.injEq] at run
    obtain ⟨fd, fds, added, rfl, _⟩ := run
    rw [FdTable.add] at added
    split at added
    case isTrue room =>
      obtain ⟨rfl, _⟩ := Prod.mk.inj (pure_ok.mp added)
      have same : (UInt64.ofNat s.task.fds.maxFd).toNat = s.task.fds.maxFd :=
        UInt64.toNat_ofNat_of_lt' (Nat.lt_of_succ_lt room)
      rcases result with minus | ⟨small, _⟩
      · rw [minus] at same
        exact absurd (same ▸ room) (by decide)
      · exact same ▸ small
    case isFalse => cases added
  · intro small
    have room : s.task.fds.maxFd + 1 < 2 ^ 64 := by omega
    have same : (UInt64.ofNat s.task.fds.maxFd).toNat = s.task.fds.maxFd :=
      UInt64.toNat_ofNat_of_lt' (Nat.lt_of_succ_lt room)
    rw [FdTable.add, if_pos room]
    exact ⟨_, _, rfl, .inr ⟨same.symm ▸ small, same.symm ▸ numbered _ (Nat.le_refl _)⟩⟩

theorem pathFits_of_found (absolute : path.isAbsolute = true) {fsId : Nat} {mpoint : Path}
    (found : s.vfs.1.findMount path = some (fsId, mpoint)) :
    PathFits s path ↔ ∀ fs, s.vfs.1.mountedFs[fsId]? = some fs → RestFits s fs (path.drop mpoint.length) := by
  constructor
  · intro fits fs mounted
    exact fits.2 fsId mpoint fs ((s.vfs.1.findMount_eq_some path).mp found) mounted
  · intro each
    refine ⟨absolute, fun fsId' mpoint' fs first mounted => ?_⟩
    rw [← VirtualFileSystem.findMount_eq_some, found] at first
    obtain ⟨rfl, rfl⟩ := Prod.mk.inj (Option.some.inj first)
    exact each fs mounted

theorem openReturns_of_asked (numbered : s.task.fds.Numbered) {fsId : Nat} {fs : DevFS} {rest : Path}
    (opened : s.vfs.1.open path = s.vfs.1.openAt (some (fsId, fs, rest))) :
    OpenReturns s path ↔ RestFits s fs rest := by
  have asked : s.vfs.1.openAt (some (fsId, fs, rest)) = (fs.open rest >>= fun answer =>
      pure ((answer.1.mapError .fsError).map (⟨·, 0, fsId⟩), { s.vfs.1 with
        mountedFs := s.vfs.1.mountedFs.insert fsId answer.2 })) := rfl
  rw [asked] at opened
  cases second : (Path.iter rest)[1]? with
  | none =>
    rw [DevFS.open, second] at opened
    exact iff_of_false (openReturns_of_error opened) fun fits => Path.iter_second.mp second fits.1
  | some dev =>
    have slashed : slash ∈ rest := by
      by_contra missing
      rw [Path.iter_second.mpr missing] at second
      cases second
    cases known : fs.has dev with
    | false =>
      rw [DevFS.open_ok.mpr (.inr ⟨dev, second, known, rfl, rfl⟩)] at opened
      refine iff_of_true (openReturns_of_refused opened) ⟨slashed, fun _ same has => ?_⟩
      rw [second] at same
      obtain rfl := Option.some.inj same
      exact absurd (known.symm.trans has) (by decide)
    | true =>
      rw [DevFS.open_ok.mpr (.inl ⟨dev, second, known, rfl, rfl⟩)] at opened
      rw [openReturns_of_opened numbered opened]
      exact ⟨fun small => ⟨slashed, fun _ _ _ => small⟩, fun fits => fits.2 dev second known⟩

/-- Over any mounted file systems, `syscall_open` returns as it should exactly on the paths that fit. -/
theorem openReturns_iff_pathFits (numbered : s.task.fds.Numbered) : OpenReturns s path ↔ PathFits s path := by
  by_cases absolute : path.isAbsolute = true
  case neg =>
    have failed : s.vfs.1.open path = .error .assertion := by
      rw [VirtualFileSystem.open, if_neg absolute]
      rfl
    exact iff_of_false (openReturns_of_error failed) fun fits => absolute fits.1
  have opened := s.vfs.1.open_eq absolute
  rw [VirtualFileSystem.dispatch_eq, ok_bind] at opened
  cases found : s.vfs.1.findMount path with
  | none =>
    rw [found] at opened
    refine iff_of_true (openReturns_of_refused opened) ⟨absolute, fun fsId mpoint fs first => ?_⟩
    rw [← VirtualFileSystem.findMount_eq_some, found] at first
    cases first
  | some entry =>
    obtain ⟨fsId, mpoint⟩ := entry
    rw [pathFits_of_found absolute found]
    cases mounted : s.vfs.1.mountedFs[fsId]? with
    | none =>
      rw [found, Option.bind_some, mounted, Option.map_none] at opened
      exact iff_of_true (openReturns_of_refused opened) (by simp)
    | some fs =>
      rw [found, Option.bind_some, mounted, Option.map_some] at opened
      rw [openReturns_of_asked numbered opened]
      simp only [Option.some.injEq, forall_eq']

end Open

def serving (vfs : VirtualFileSystem DevFS) : Serving Unit Unit VfsFile (VirtualFileSystem DevFS × Devices) where
  task := ⟨0, 1, 0, (), 0, (), [], none, FdTable.default⟩
  mem _ _ := 0
  vfs := (vfs, Devices.default)

theorem device_opened :
    ∃ root, vfsInit = .ok root ∧ PathFits (serving root) (pointDev ++ slash :: nameZero) ∧
      OpenReturns (serving root) (pointDev ++ slash :: nameZero) := by
  have played : passes vfsInit (fun root =>
      decide (root.findMount (pointDev ++ slash :: nameZero) = some (0, pointDev))) = true := by
    decide +kernel
  obtain ⟨root, init, test⟩ := exists_of_passes played
  have fits : PathFits (serving root) (pointDev ++ slash :: nameZero) := by
    refine (pathFits_of_found (by decide) (of_decide_eq_true test)).mpr fun fs _ => ⟨by decide, fun _ _ _ => ?_⟩
    exact Nat.two_pow_pos 63
  exact ⟨root, init, fits, (openReturns_iff_pathFits FdTable.Numbered.default).mpr fits⟩

/-- The mount point itself has no second component after it. -/
theorem mount_point_opened :
    ∃ root, vfsInit = .ok root ∧ syscallOpen (serving root) pointDev = .error .unwrapNone := by
  have played : passes vfsInit (fun root => decide (fails (syscallOpen (serving root) pointDev) = some .unwrapNone)) =
      true := by
    decide +kernel
  obtain ⟨root, init, test⟩ := exists_of_passes played
  exact ⟨root, init, error_of_fails (of_decide_eq_true test)⟩

end Vfs

end Kernel31
