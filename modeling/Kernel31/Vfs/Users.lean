import Kernel31.Library.Lists
import Kernel31.Library.Maps
import Kernel31.Library.Runs
import Kernel31.Vfs.Devfs

namespace Kernel31.Vfs

open Checked

/-- A `File` that `open` has returned, its device, and whether its user has not closed it yet. -/
structure Opened where
  file : File
  name : Path
  isOpen : Bool
  deriving DecidableEq

structure Users where
  fs : DevFS
  files : List Opened

inductive Call where
  | openPath (path : Path)
  | closeFile (place : Nat)
  deriving DecidableEq

namespace Users

def call (s : Users) : Call → Exec Users
  | .openPath path => do
    let (result, fs) ← s.fs.open path
    match result with
    | .ok file => pure ⟨fs, s.files ++ [⟨file, (Path.iter path)[1]?.getD [], true⟩]⟩
    | .error _ => pure { s with fs := fs }
  | .closeFile place =>
    match s.files[place]? with
    | none => pure s
    | some opened => pure ⟨(s.fs.close opened.file).2, s.files.set place { opened with isOpen := false }⟩

/-- No open file has the next number, and a closed file is closed again only while no file has its number. -/
def Safe (s : Users) : Call → Prop
  | .openPath _ => s.fs.fds[s.fs.fds.size]? = none
  | .closeFile place => ∀ opened ∈ s.files[place]?, opened.isOpen = true ∨ s.fs.fds[opened.file.fd]? = none

instance (s : Users) : (call : Call) → Decidable (s.Safe call)
  | .openPath _ => inferInstanceAs (Decidable (s.fs.fds[s.fs.fds.size]? = none))
  | .closeFile place => inferInstanceAs
      (Decidable (∀ opened ∈ s.files[place]?, opened.isOpen = true ∨ s.fs.fds[opened.file.fd]? = none))

def SafeStep (s s' : Users) : Prop := ∃ call, s.Safe call ∧ s.call call = .ok s'

theorem call_cases {s s' : Users} {call : Call} (run : s.call call = .ok s') :
    (∃ path dev, call = .openPath path ∧
      s' = ⟨{ s.fs with fds := s.fs.fds.insert s.fs.fds.size dev }, s.files ++ [⟨⟨s.fs.fds.size, .charDev⟩, dev, true⟩]⟩) ∨
    (∃ place opened, call = .closeFile place ∧ s.files[place]? = some opened ∧
      s' = ⟨{ s.fs with fds := s.fs.fds.erase opened.file.fd }, s.files.set place { opened with isOpen := false }⟩) ∨
    s' = s := by
  cases call with
  | openPath path =>
    simp only [Users.call, bind_ok, Prod.exists] at run
    obtain ⟨result, fs, opened, run⟩ := run
    rcases DevFS.open_ok.mp opened with ⟨dev, found, _, rfl, rfl⟩ | ⟨dev, _, _, rfl, rfl⟩
    · refine .inl ⟨path, dev, rfl, ?_⟩
      rw [← pure_ok.mp run, found]
      rfl
    · exact .inr (.inr (pure_ok.mp run).symm)
  | closeFile place =>
    cases found : s.files[place]? with
    | none =>
      simp only [Users.call, found, pure_ok] at run
      exact .inr (.inr run.symm)
    | some opened =>
      simp only [Users.call, found, pure_ok] at run
      exact .inr (.inl ⟨place, opened, rfl, found, run.symm⟩)

/-- Every open file has a number of its own, under which the table has its device. -/
structure Sound (s : Users) : Prop where
  named : ∀ (place : Nat) (opened : Opened), s.files[place]? = some opened → opened.isOpen = true →
    s.fs.fds[opened.file.fd]? = some opened.name
  distinct : ∀ (place place' : Nat) (opened opened' : Opened), s.files[place]? = some opened →
    s.files[place']? = some opened' → opened.isOpen = true → opened'.isOpen = true →
    opened.file.fd = opened'.file.fd → place = place'

section
variable {s s' : Users}

theorem Sound.next_ne (sound : s.Sound) (free : s.fs.fds[s.fs.fds.size]? = none) {place : Nat} {opened : Opened}
    (here : s.files[place]? = some opened) (isOpen : opened.isOpen = true) : s.fs.fds.size ≠ opened.file.fd := by
  intro same
  rw [same, sound.named place opened here isOpen] at free
  cases free

theorem Sound.opened (sound : s.Sound) (free : s.fs.fds[s.fs.fds.size]? = none) (dev : Path) :
    Sound ⟨{ s.fs with fds := s.fs.fds.insert s.fs.fds.size dev },
      s.files ++ [⟨⟨s.fs.fds.size, .charDev⟩, dev, true⟩]⟩ := by
  constructor
  · intro place opened here isOpen
    rcases Lists.getElem?_concat_cases here with before | ⟨_, rfl⟩
    · rw [Maps.getElem?_insert_of_ne (sound.next_ne free before isOpen)]
      exact sound.named place opened before isOpen
    · exact Std.ExtTreeMap.getElem?_insert_self
  · intro place place' opened opened' here here' isOpen isOpen' same
    rcases Lists.getElem?_concat_cases here with before | ⟨rfl, rfl⟩
    · rcases Lists.getElem?_concat_cases here' with before' | ⟨rfl, rfl⟩
      · exact sound.distinct place place' opened opened' before before' isOpen isOpen' same
      · exact absurd same.symm (sound.next_ne free before isOpen)
    · rcases Lists.getElem?_concat_cases here' with before' | ⟨rfl, rfl⟩
      · exact absurd same (sound.next_ne free before' isOpen')
      · rfl

theorem Sound.closed (sound : s.Sound) {place : Nat} {opened : Opened} (found : s.files[place]? = some opened)
    (safe : opened.isOpen = true ∨ s.fs.fds[opened.file.fd]? = none) :
    Sound ⟨{ s.fs with fds := s.fs.fds.erase opened.file.fd }, s.files.set place { opened with isOpen := false }⟩ := by
  constructor
  · intro place' other here isOpen
    rcases Lists.getElem?_set_cases here with ⟨before, away⟩ | ⟨_, rfl⟩
    · have named := sound.named place' other before isOpen
      have differ : opened.file.fd ≠ other.file.fd := by
        intro same
        rcases safe with wasOpen | absent
        · exact away (sound.distinct place' place other opened before found isOpen wasOpen same.symm)
        · rw [same, named] at absent
          cases absent
      rw [Maps.getElem?_erase_of_ne differ, named]
    · cases isOpen
  · intro place₁ place₂ first second here here' isOpen isOpen' same
    rcases Lists.getElem?_set_cases here with ⟨before, _⟩ | ⟨_, rfl⟩
    · rcases Lists.getElem?_set_cases here' with ⟨before', _⟩ | ⟨_, rfl⟩
      · exact sound.distinct place₁ place₂ first second before before' isOpen isOpen' same
      · cases isOpen'
    · cases isOpen

theorem Sound.call (sound : s.Sound) {call : Call} (safe : s.Safe call) (run : s.call call = .ok s') : s'.Sound := by
  rcases call_cases run with ⟨path, dev, rfl, rfl⟩ | ⟨place, opened, rfl, found, rfl⟩ | rfl
  · exact sound.opened safe dev
  · exact sound.closed found (safe opened found)
  · exact sound

theorem sound_empty (fs : DevFS) : Sound ⟨fs, []⟩ :=
  ⟨fun _ _ here => absurd here (by simp), fun _ _ _ _ here => absurd here (by simp)⟩

theorem sound_of_run {fs : DevFS} (run : Relation.ReflTransGen SafeStep ⟨fs, []⟩ s) : s.Sound :=
  Runs.preserved Sound (fun _ _ sound ⟨_, safe, step⟩ => sound.call safe step) (sound_empty fs) run

theorem Sound.reads (sound : s.Sound) {place : Nat} {opened : Opened} (here : s.files[place]? = some opened)
    (isOpen : opened.isOpen = true) {n : Nat} (world : Devices) (buf : Vector UInt8 n) (offset : Nat) :
    s.fs.read world opened.file buf offset = DevFS.readDevice world opened.name buf offset := by
  rw [DevFS.read, sound.named place opened here isOpen]

theorem Sound.writes (sound : s.Sound) {place : Nat} {opened : Opened} (here : s.files[place]? = some opened)
    (isOpen : opened.isOpen = true) (world : Devices) (buf : List UInt8) :
    s.fs.write world opened.file buf = s.fs.writeDevice world opened.name buf := by
  rw [DevFS.write, sound.named place opened here isOpen]

end

/-- Every open gives a number that no open file has, no call takes the device from another open file, and transfers
    reach the file's device. -/
theorem open_files_kept_apart {fs : DevFS} {s : Users} (run : Relation.ReflTransGen SafeStep ⟨fs, []⟩ s) :
    (∀ (place : Nat) (opened : Opened), s.files[place]? = some opened → opened.isOpen = true →
      s.fs.fds[opened.file.fd]? = some opened.name ∧
      (∀ (n : Nat) (world : Devices) (buf : Vector UInt8 n) (offset : Nat),
        s.fs.read world opened.file buf offset = DevFS.readDevice world opened.name buf offset) ∧
      ∀ (world : Devices) (buf : List UInt8),
        s.fs.write world opened.file buf = s.fs.writeDevice world opened.name buf) ∧
    ∀ (call : Call) (s' : Users), s.Safe call → s.call call = .ok s' →
      (∀ new, s'.files = s.files ++ [new] → ∀ opened ∈ s.files, opened.isOpen = true → opened.file.fd ≠ new.file.fd) ∧
      ∀ (place : Nat) (opened : Opened), s.files[place]? = some opened → opened.isOpen = true →
        call ≠ .closeFile place → s'.fs.fds[opened.file.fd]? = some opened.name := by
  have sound := sound_of_run run
  refine ⟨fun place opened here isOpen => ⟨sound.named place opened here isOpen, fun n => sound.reads here isOpen,
    sound.writes here isOpen⟩, fun call s' safe step => ?_⟩
  have after := sound.call safe step
  rcases call_cases step with ⟨path, dev, rfl, rfl⟩ | ⟨place, closed, rfl, found, rfl⟩ | rfl
  · refine ⟨fun new last opened member isOpen => ?_, fun place opened here isOpen _ => ?_⟩
    · obtain ⟨place, here⟩ := List.mem_iff_getElem?.mp member
      rw [← List.singleton_inj.mp (List.append_cancel_left last)]
      exact (sound.next_ne safe here isOpen).symm
    · exact after.named place opened ((List.getElem?_append_left (List.getElem?_eq_some_iff.mp here).1).trans here) isOpen
  · refine ⟨fun new last => ?_, fun place' opened here isOpen other => ?_⟩
    · exact absurd (congrArg List.length last) (by simp)
    · have away : place ≠ place' := fun same => other (same ▸ rfl)
      exact after.named place' opened ((List.getElem?_set_ne away).trans here) isOpen
  · refine ⟨fun new last => ?_, fun place opened here isOpen _ => sound.named place opened here isOpen⟩
    exact absurd (congrArg List.length last) (by simp)

theorem reopened_after_last_close :
    ∃ s, Relation.ReflTransGen SafeStep ⟨DevFS.default, []⟩ s ∧ s.Safe (.openPath (slash :: nameKmsg)) ∧
      s.files[0]? = some ⟨⟨0, .charDev⟩, nameZero, true⟩ ∧ s.fs.fds[0]? = some nameZero := by
  have played : ([.openPath (slash :: nameZero), .openPath (slash :: nameNull), .closeFile 1].foldlM (Runs.play Safe call)
      (⟨DevFS.default, []⟩ : Users)).any (fun s => decide (s.Safe (.openPath (slash :: nameKmsg)) ∧
        s.files[0]? = some ⟨⟨0, .charDev⟩, nameZero, true⟩)) = true := by
    decide +kernel
  obtain ⟨s, played, test⟩ := (Option.any_eq_true _ _).mp played
  obtain ⟨safe, here⟩ := of_decide_eq_true test
  have run := Runs.of_play played
  exact ⟨s, run, safe, here, ((open_files_kept_apart run).1 0 _ here rfl).1⟩

/-- The next file gets the number of the second one, which then reads the log. -/
theorem number_given_twice :
    ∃ s, [.openPath (slash :: nameZero), .openPath (slash :: nameNull), .closeFile 0,
        .openPath (slash :: nameKmsg)].foldlM call (⟨DevFS.default, []⟩ : Users) = .ok s ∧
      s.files[1]? = some ⟨⟨1, .charDev⟩, nameNull, true⟩ ∧ s.files[2]? = some ⟨⟨1, .charDev⟩, nameKmsg, true⟩ ∧
      s.fs.fds[1]? = some nameKmsg := by
  have played : passes ([.openPath (slash :: nameZero), .openPath (slash :: nameNull), .closeFile 0,
        .openPath (slash :: nameKmsg)].foldlM call (⟨DevFS.default, []⟩ : Users)) (fun s => decide
      (s.files[1]? = some ⟨⟨1, .charDev⟩, nameNull, true⟩ ∧ s.files[2]? = some ⟨⟨1, .charDev⟩, nameKmsg, true⟩ ∧
        s.fs.fds[1]? = some nameKmsg)) = true := by
    decide +kernel
  obtain ⟨s, run, test⟩ := exists_of_passes played
  exact ⟨s, run, of_decide_eq_true test⟩

end Users

end Kernel31.Vfs
