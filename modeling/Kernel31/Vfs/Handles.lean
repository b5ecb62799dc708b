import Kernel31.Vfs.Dispatch

namespace Kernel31.Vfs

open Checked VirtualFileSystem
open List hiding Vector
open Std (ExtTreeMap)

structure Labelled (ι S : Type) where
  label : ι
  fs : S

instance {ι S W : Type} [FileSystem S W] : FileSystem (Labelled ι S) W where
  openPath self path := do
    let (result, fs) ← FileSystem.openPath self.fs path
    pure (result, { self with fs := fs })
  read self world file buf offset := do
    let (result, buf, fs, world) ← FileSystem.read self.fs world file buf offset
    pure (result, buf, { self with fs := fs }, world)
  write self world file buf offset := do
    let (result, fs, world) ← FileSystem.write self.fs world file buf offset
    pure (result, { self with fs := fs }, world)
  close self file := do
    let (result, fs) ← FileSystem.close self.fs file
    pure (result, { self with fs := fs })

section Labelled
variable {ι S W : Type} [FileSystem S W] {self self' : Labelled ι S} {world world' : W} {file : File} {offset : Nat}

theorem Labelled.openPath_ok {path : Path} {result : Except FsError File} :
    FileSystem.openPath self path = .ok (result, self') ↔
      ∃ fs, FileSystem.openPath self.fs path = .ok (result, fs) ∧ self' = { self with fs := fs } := by
  change (_ >>= fun _ => _) = _ ↔ _
  simp only [bind_ok, Prod.exists, pure_ok, Prod.mk.injEq]
  constructor
  · rintro ⟨_, fs, own, rfl, rfl⟩
    exact ⟨fs, own, rfl⟩
  · rintro ⟨fs, own, rfl⟩
    exact ⟨result, fs, own, rfl, rfl⟩

theorem Labelled.read_ok {n : Nat} {buf buf' : Vector UInt8 n} {result : Except FsError Nat} :
    FileSystem.read self world file buf offset = .ok (result, buf', self', world') ↔
      ∃ fs, FileSystem.read self.fs world file buf offset = .ok (result, buf', fs, world') ∧
        self' = { self with fs := fs } := by
  change (_ >>= fun _ => _) = _ ↔ _
  simp only [bind_ok, Prod.exists, pure_ok, Prod.mk.injEq]
  constructor
  · rintro ⟨_, _, fs, _, own, rfl, rfl, rfl, rfl⟩
    exact ⟨fs, own, rfl⟩
  · rintro ⟨fs, own, rfl⟩
    exact ⟨result, buf', fs, world', own, rfl, rfl, rfl, rfl⟩

theorem Labelled.write_ok {buf : List UInt8} {result : Except FsError Nat} :
    FileSystem.write self world file buf offset = .ok (result, self', world') ↔
      ∃ fs, FileSystem.write self.fs world file buf offset = .ok (result, fs, world') ∧ self' = { self with fs := fs } := by
  change (_ >>= fun _ => _) = _ ↔ _
  simp only [bind_ok, Prod.exists, pure_ok, Prod.mk.injEq]
  constructor
  · rintro ⟨_, fs, _, own, rfl, rfl, rfl⟩
    exact ⟨fs, own, rfl⟩
  · rintro ⟨fs, own, rfl⟩
    exact ⟨result, fs, world', own, rfl, rfl, rfl⟩

theorem Labelled.close_ok {result : Except FsError Unit} :
    FileSystem.close self file = .ok (result, self') ↔
      ∃ fs, FileSystem.close self.fs file = .ok (result, fs) ∧ self' = { self with fs := fs } := by
  change (_ >>= fun _ => _) = _ ↔ _
  simp only [bind_ok, Prod.exists, pure_ok, Prod.mk.injEq]
  constructor
  · rintro ⟨_, fs, own, rfl, rfl⟩
    exact ⟨fs, own, rfl⟩
  · rintro ⟨fs, own, rfl⟩
    exact ⟨result, fs, own, rfl, rfl⟩

end Labelled

structure Handles (ι S W : Type) where
  vfs : VirtualFileSystem (Labelled ι S)
  world : W
  labels : List ι
  files : List (VfsFile × ι)

inductive FileOp where
  | read (n : Nat) (buf : Vector UInt8 n)
  | write (buf : List UInt8)
  | close

inductive Op (ι S : Type) where
  | mount (label : ι) (fs : S) (mountPoint : Path)
  | umount (mountPoint : Path)
  | openPath (path : Path)
  | use (place : Nat) (op : FileOp)

namespace Handles

section Sound
variable {ι S W : Type}

def start (world : W) : Handles ι S W := ⟨VirtualFileSystem.default, world, [], []⟩

structure Sound (now : Handles ι S W) : Prop where
  nodup : now.labels.Nodup
  maxId : now.vfs.maxId = now.labels.length
  mounted : ∀ (fsId : Nat) (inst : Labelled ι S), now.vfs.mountedFs[fsId]? = some inst →
    now.labels[fsId]? = some inst.label
  opened : ∀ entry ∈ now.files, now.labels[entry.1.fsId]? = some entry.2

theorem sound_start (world : W) : (start world : Handles ι S W).Sound := by
  refine ⟨nodup_nil, rfl, fun fsId inst found => ?_, nofun⟩
  simp [start, VirtualFileSystem.default] at found

theorem Sound.replace {s : Handles ι S W} (sound : s.Sound) {fsId : Nat} {inst : Labelled ι S}
    (found : s.vfs.mountedFs[fsId]? = some inst) (fs : S) (world : W) {files : List (VfsFile × ι)}
    (opened : ∀ entry ∈ files, s.labels[entry.1.fsId]? = some entry.2) :
    Sound ⟨{ s.vfs with mountedFs := s.vfs.mountedFs.insert fsId { inst with fs := fs } }, world, s.labels, files⟩ := by
  refine ⟨sound.nodup, sound.maxId, fun other inst' there => ?_, opened⟩
  by_cases equal : fsId = other
  · subst equal
    rw [ExtTreeMap.getElem?_insert_self] at there
    obtain rfl := Option.some.inj there
    exact sound.mounted fsId inst found
  · rw [Maps.getElem?_insert_of_ne equal] at there
    exact sound.mounted other inst' there

end Sound

variable {ι S W : Type} [FileSystem S W]

def use (s : Handles ι S W) (place : Nat) (file : VfsFile) (label : ι) : FileOp → Exec (Handles ι S W)
  | .read _ buf => do
    let (_, _, file, vfs, world) ← s.vfs.read s.world file buf
    pure { s with vfs := vfs, world := world, files := s.files.set place (file, label) }
  | .write buf => do
    let (_, file, vfs, world) ← s.vfs.write s.world file buf
    pure { s with vfs := vfs, world := world, files := s.files.set place (file, label) }
  | .close => do
    let (_, vfs) ← s.vfs.close file
    pure { s with vfs := vfs }

def call (s : Handles ι S W) : Op ι S → Exec (Handles ι S W)
  | .mount label fs mountPoint => do
    let vfs ← s.vfs.mount ⟨label, fs⟩ mountPoint
    pure { s with vfs := vfs, labels := s.labels ++ [label] }
  | .umount mountPoint => pure { s with vfs := s.vfs.umount mountPoint }
  | .openPath path => do
    let target ← s.vfs.dispatch path
    let (result, vfs) ← s.vfs.open path
    match target, result with
    | some (_, fs, _), .ok file => pure { s with vfs := vfs, files := s.files ++ [(file, fs.label)] }
    | _, _ => pure { s with vfs := vfs }
  | .use place op =>
    match s.files[place]? with
    | none => pure s
    | some (file, label) => s.use place file label op

def Fresh (s : Handles ι S W) : Op ι S → Prop
  | .mount label _ _ => label ∉ s.labels
  | .umount _ | .openPath _ | .use _ _ => True

def Step (s s' : Handles ι S W) : Prop := ∃ op, s.Fresh op ∧ s.call op = .ok s'

section Steps
variable {s s' : Handles ι S W}

omit [FileSystem S W] in
theorem Sound.mount (sound : s.Sound) {label : ι} {fs : S} {mountPoint : Path} {vfs : VirtualFileSystem (Labelled ι S)}
    (fresh : label ∉ s.labels) (run : s.vfs.mount ⟨label, fs⟩ mountPoint = .ok vfs) :
    Sound { s with vfs := vfs, labels := s.labels ++ [label] } := by
  have before {place : Nat} {known : ι} (found : s.labels[place]? = some known) :
      (s.labels ++ [label])[place]? = some known :=
    (getElem?_append_left (List.getElem?_eq_some_iff.mp found).1).trans found
  rw [VirtualFileSystem.mount] at run
  split at run
  · split at run
    · obtain rfl := pure_ok.mp run
      refine ⟨nodup_append.mpr ⟨sound.nodup, nodup_singleton _, ?_⟩, ?_, fun fsId inst found => ?_,
        fun entry member => before (sound.opened entry member)⟩
      · rintro known member _ last rfl
        exact fresh (mem_singleton.mp last ▸ member)
      · rw [length_append, ← sound.maxId]
        rfl
      · by_cases last : s.vfs.maxId = fsId
        · subst last
          rw [ExtTreeMap.getElem?_insert_self] at found
          obtain rfl := Option.some.inj found
          rw [sound.maxId, getElem?_concat_length]
        · rw [Maps.getElem?_insert_of_ne last] at found
          exact before (sound.mounted fsId inst found)
    · cases run
  · cases run

omit [FileSystem S W] in
theorem Sound.umount (sound : s.Sound) (mountPoint : Path) : Sound { s with vfs := s.vfs.umount mountPoint } := by
  rw [VirtualFileSystem.umount]
  split
  · exact sound
  case h_2 fsId _ _ =>
    refine ⟨sound.nodup, sound.maxId, fun other inst found => ?_, sound.opened⟩
    by_cases same : fsId = other
    · subst same
      rw [ExtTreeMap.getElem?_erase_self] at found
      cases found
    · rw [Maps.getElem?_erase_of_ne same] at found
      exact sound.mounted other inst found

theorem Sound.openPath (sound : s.Sound) {path : Path} (run : s.call (.openPath path) = .ok s') : s'.Sound := by
  simp only [call, bind_ok, Prod.exists] at run
  obtain ⟨target, asked, result, vfs, opened, run⟩ := run
  obtain ⟨_, target', same, opened⟩ := open_ok.mp opened
  obtain rfl := ok_unique asked same
  match target with
  | none =>
    obtain ⟨_, rfl⟩ := Prod.mk.inj (pure_ok.mp opened)
    obtain rfl := pure_ok.mp run
    exact sound
  | some (fsId, inst, rest) =>
    have found := s.vfs.mounted_of_dispatch path asked
    simp only [openAt, bind_ok, Prod.exists, pure_ok, Prod.mk.injEq] at opened
    obtain ⟨answer, _, own, rfl, rfl⟩ := opened
    obtain ⟨fs, _, rfl⟩ := Labelled.openPath_ok.mp own
    cases answer with
    | error err =>
      obtain rfl := pure_ok.mp run
      exact sound.replace found fs s.world sound.opened
    | ok file =>
      obtain rfl := pure_ok.mp run
      refine sound.replace found fs s.world fun entry member => ?_
      rcases mem_append.mp member with before | last
      · exact sound.opened entry before
      · rw [mem_singleton.mp last]
        exact sound.mounted fsId inst found

theorem Sound.use (sound : s.Sound) {place : Nat} {file : VfsFile} {label : ι} {op : FileOp}
    (opened : s.files[place]? = some (file, label)) (run : s.use place file label op = .ok s') : s'.Sound := by
  have stays {result : Except FsError Nat} :
      ∀ entry ∈ s.files.set place (file.advanced result, label), s.labels[entry.1.fsId]? = some entry.2 := by
    intro entry member
    rcases mem_or_eq_of_mem_set member with before | rfl
    · exact sound.opened entry before
    · have known := sound.opened _ (mem_of_getElem? opened)
      cases result <;> exact known
  cases op with
  | read n buf =>
    simp only [Handles.use, bind_ok, Prod.exists, pure_ok] at run
    obtain ⟨_, _, _, _, world, run, rfl⟩ := run
    obtain ⟨inst, _, found, own, _, rfl, rfl⟩ := read_ok.mp run
    obtain ⟨fs, _, rfl⟩ := Labelled.read_ok.mp own
    exact sound.replace found fs world stays
  | write buf =>
    simp only [Handles.use, bind_ok, Prod.exists, pure_ok] at run
    obtain ⟨_, _, _, world, run, rfl⟩ := run
    obtain ⟨inst, _, found, own, _, rfl, rfl⟩ := write_ok.mp run
    obtain ⟨fs, _, rfl⟩ := Labelled.write_ok.mp own
    exact sound.replace found fs world stays
  | close =>
    simp only [Handles.use, bind_ok, Prod.exists, pure_ok] at run
    obtain ⟨_, _, run, rfl⟩ := run
    obtain ⟨inst, _, found, own, rfl⟩ := close_ok.mp run
    obtain ⟨fs, _, rfl⟩ := Labelled.close_ok.mp own
    exact sound.replace found fs s.world sound.opened

theorem Sound.step (sound : s.Sound) (step : s.Step s') : s'.Sound := by
  obtain ⟨op, fresh, run⟩ := step
  cases op with
  | mount label fs mountPoint =>
    simp only [call, bind_ok, pure_ok] at run
    obtain ⟨vfs, mounted, rfl⟩ := run
    exact sound.mount fresh mounted
  | umount mountPoint =>
    obtain rfl := pure_ok.mp run
    exact sound.umount mountPoint
  | openPath path => exact sound.openPath run
  | use place op =>
    rw [call] at run
    split at run
    · obtain rfl := pure_ok.mp run
      exact sound
    case h_2 file label opened => exact sound.use opened run

theorem sound_of_run {world : W} (run : Relation.ReflTransGen Step (start world) s) : s.Sound :=
  Runs.preserved Sound (fun _ _ sound step => sound.step step) (sound_start world) run

end Steps

def StillMounted (s : Handles ι S W) (label : ι) : Prop :=
  ∃ (fsId : Nat) (inst : Labelled ι S), s.vfs.mountedFs[fsId]? = some inst ∧ inst.label = label

def Fits (file : VfsFile) : FileOp → Prop
  | .read n _ => file.offset + n < 2 ^ 64
  | .write buf => file.offset + buf.length < 2 ^ 64
  | .close => True

/-- The call is one of the instance and changes no other; what the instance handles is no more than the buffer. -/
def Forwarded (s : Handles ι S W) (file : VfsFile) (inst : Labelled ι S) : FileOp → Prop
  | .read n buf => ∀ result buf' fs world, FileSystem.read inst.fs s.world file.fd buf file.offset =
      .ok (result, buf', fs, world) → (∀ size, result = .ok size → size ≤ n) →
    s.vfs.read s.world file buf = .ok (result, buf', file.advanced result,
      { s.vfs with mountedFs := s.vfs.mountedFs.insert file.fsId { inst with fs := fs } }, world)
  | .write buf => ∀ result fs world, FileSystem.write inst.fs s.world file.fd buf file.offset =
      .ok (result, fs, world) → (∀ size, result = .ok size → size ≤ buf.length) →
    s.vfs.write s.world file buf = .ok (result, file.advanced result,
      { s.vfs with mountedFs := s.vfs.mountedFs.insert file.fsId { inst with fs := fs } }, world)
  | .close => ∀ result fs, FileSystem.close inst.fs file.fd = .ok (result, fs) →
    s.vfs.close file = .ok (result,
      { s.vfs with mountedFs := s.vfs.mountedFs.insert file.fsId { inst with fs := fs } })

section Use
variable {s : Handles ι S W} {file : VfsFile} {label : ι} {place : Nat}

theorem forwarded_of_mounted {inst : Labelled ι S} (found : s.vfs.mountedFs[file.fsId]? = some inst) {op : FileOp}
    (fits : Fits file op) : s.Forwarded file inst op := by
  cases op with
  | read n buf =>
    intro result buf' fs world own small
    refine read_ok.mpr ⟨inst, _, found, Labelled.read_ok.mpr ⟨fs, own, rfl⟩, ?_, rfl, rfl⟩
    intro size returned
    exact Nat.lt_of_le_of_lt (Nat.add_le_add_left (small size returned) _) fits
  | write buf =>
    intro result fs world own small
    refine write_ok.mpr ⟨inst, _, found, Labelled.write_ok.mpr ⟨fs, own, rfl⟩, ?_, rfl, rfl⟩
    intro size returned
    exact Nat.lt_of_le_of_lt (Nat.add_le_add_left (small size returned) _) fits
  | close =>
    intro result fs own
    exact close_ok.mpr ⟨inst, _, found, Labelled.close_ok.mpr ⟨fs, own, rfl⟩, rfl⟩

theorem use_of_unmounted (missing : s.vfs.mountedFs[file.fsId]? = none) (op : FileOp) :
    s.use place file label op = .error .unwrapNone := by
  cases op with
  | read n buf =>
    rw [use, VirtualFileSystem.read, missing]
    rfl
  | write buf =>
    rw [use, write, missing]
    rfl
  | close =>
    rw [use, close, missing]
    rfl

omit [FileSystem S W] in
theorem Sound.mounted_iff (sound : s.Sound) (opened : s.files[place]? = some (file, label)) :
    s.StillMounted label ↔ ∃ inst, s.vfs.mountedFs[file.fsId]? = some inst ∧ inst.label = label := by
  constructor
  · rintro ⟨fsId, inst, found, rfl⟩
    have here := sound.mounted fsId inst found
    have there := sound.opened _ (mem_of_getElem? opened)
    have same : fsId = file.fsId :=
      (getElem?_inj (List.getElem?_eq_some_iff.mp here).1 sound.nodup).mp (here.trans there.symm)
    exact ⟨inst, same ▸ found, rfl⟩
  · rintro ⟨inst, found, same⟩
    exact ⟨file.fsId, inst, found, same⟩

end Use

/-- An operation on a file is one of the instance that opened it while that is mounted, and panics afterwards. -/
theorem files_reach_their_instance {world : W} {s : Handles ι S W} (run : Relation.ReflTransGen Step (start world) s)
    {place : Nat} {file : VfsFile} {label : ι} (opened : s.files[place]? = some (file, label)) (op : FileOp) :
    (s.StillMounted label → Fits file op →
      ∃ inst, s.vfs.mountedFs[file.fsId]? = some inst ∧ inst.label = label ∧ s.Forwarded file inst op) ∧
    (¬ s.StillMounted label → s.call (.use place op) = .error .unwrapNone) := by
  have sound := sound_of_run run
  rw [sound.mounted_iff opened]
  constructor
  · rintro ⟨inst, found, same⟩ fits
    exact ⟨inst, found, same, forwarded_of_mounted found fits⟩
  · intro unmounted
    simp only [call, opened]
    refine use_of_unmounted ?_ op
    cases found : s.vfs.mountedFs[file.fsId]? with
    | none => rfl
    | some inst =>
      have known := sound.mounted file.fsId inst found
      rw [sound.opened _ (mem_of_getElem? opened)] at known
      exact absurd ⟨inst, found, (Option.some.inj known).symm⟩ unmounted

instance [DecidableEq ι] (s : Handles ι S W) : (op : Op ι S) → Decidable (s.Fresh op)
  | .mount label _ _ => inferInstanceAs (Decidable (label ∉ s.labels))
  | .umount _ | .openPath _ | .use _ _ => inferInstanceAs (Decidable True)

def zeroOpened : List (Op Nat DevFS) :=
  [.mount 31 DevFS.default pointDev, .openPath (pointDev ++ slash :: nameZero)]

theorem open_file_reaches_devfs :
    ∃ (s : Handles Nat DevFS Devices) (file : VfsFile), Relation.ReflTransGen Step (start Devices.default) s ∧
      s.files[0]? = some (file, 31) ∧ s.StillMounted 31 ∧ Fits file (.read 1 #v[1]) ∧
      ∃ inst, s.vfs.mountedFs[file.fsId]? = some inst ∧ inst.label = 31 ∧ s.Forwarded file inst (.read 1 #v[1]) := by
  have played : (zeroOpened.foldlM (Runs.play Fresh call) (start Devices.default)).any (fun s => decide
      (s.files[0]? = some (⟨⟨0, .charDev⟩, 0, 0⟩, 31) ∧ s.vfs.mountedFs[0]?.map Labelled.label = some 31)) = true := by
    decide +kernel
  obtain ⟨s, played, test⟩ := (Option.any_eq_true _ _).mp played
  obtain ⟨opened, there⟩ := of_decide_eq_true test
  have run := Runs.of_play played
  obtain ⟨inst, mounted, label⟩ := Option.map_eq_some_iff.mp there
  have still : s.StillMounted 31 := ⟨0, inst, mounted, label⟩
  have fits : Fits ⟨⟨0, .charDev⟩, 0, 0⟩ (.read 1 #v[1]) := by
    rw [Fits]
    decide
  exact ⟨s, _, run, opened, still, fits, (files_reach_their_instance run opened _).1 still fits⟩

/-- The file is still there after `umount`, and reading it panics. -/
theorem read_after_umount :
    (zeroOpened ++ [Op.umount pointDev, Op.use 0 (.read 1 #v[1])]).foldlM call (start Devices.default) = .error .unwrapNone :=
  error_of_fails (by decide +kernel)

end Handles

end Kernel31.Vfs
