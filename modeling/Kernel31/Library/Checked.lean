import Mathlib.Tactic

namespace Kernel31.Checked

open List

variable {ε α β : Type}

variable {first run : Except ε α} {next : α → Except ε β} {fault : ε} {values : List α}

theorem bind_ok {result : β} :
    (first >>= next) = .ok result ↔ ∃ value, first = .ok value ∧ next value = .ok result := by
  cases first with
  | error fault => simp [Bind.bind, Except.bind]
  | ok value => simp [Bind.bind, Except.bind]

theorem bind_error :
    (first >>= next) = .error fault ↔
      first = .error fault ∨ ∃ value, first = .ok value ∧ next value = .error fault := by
  cases first with
  | error other => simp [Bind.bind, Except.bind]
  | ok value => simp [Bind.bind, Except.bind]

theorem pure_ok {value result : α} : (pure value : Except ε α) = .ok result ↔ value = result := by
  simp [Pure.pure, Except.pure]

theorem throw_ok {result : α} : (throw fault : Except ε α) = .ok result ↔ False := by
  simp [throw, throwThe, MonadExceptOf.throw]

theorem ok_bind (value : α) (next : α → Except ε β) : ((.ok value : Except ε α) >>= next) = next value := rfl

theorem ok_unique {value other : α} (runs : run = .ok value) (again : run = .ok other) : value = other :=
  Except.ok.inj (runs.symm.trans again)

theorem toOption_ok {result : α} : run.toOption = some result ↔ run = .ok result := by
  cases run <;> simp [Except.toOption]

theorem mapM_ok {results : List β} (run : values.mapM next = .ok results) :
    List.Forall₂ (fun value result => next value = .ok result) values results := by
  induction values generalizing results with
  | nil =>
    obtain rfl := pure_ok.mp run
    exact .nil
  | cons value rest ih =>
    simp only [mapM_cons, bind_ok, pure_ok] at run
    obtain ⟨first, here, others, there, rfl⟩ := run
    exact .cons here (ih there)

theorem mapM_of_ok {result : α → β} (each : ∀ value ∈ values, next value = .ok (result value)) :
    values.mapM next = .ok (values.map result) := by
  induction values with
  | nil => rfl
  | cons value rest ih =>
    obtain ⟨first, others⟩ := forall_mem_cons.mp each
    rw [mapM_cons, first, ih others]
    rfl

theorem foldlM_mono {step step' : β → α → Except ε β}
    (mono : ∀ state value result, step state value = .ok result → step' state value = .ok result)
    {state result : β} (run : values.foldlM step state = .ok result) : values.foldlM step' state = .ok result := by
  induction values generalizing state with
  | nil => exact run
  | cons value rest ih =>
    simp only [foldlM_cons, bind_ok] at run ⊢
    obtain ⟨middle, first, run⟩ := run
    exact ⟨middle, mono _ _ _ first, ih run⟩

theorem foldlM_range' {step : β → Nat → Except ε β} {inv : Nat → β → Prop} {start count : Nat} {state : β}
    (init : inv start state) (each : ∀ i state, start ≤ i → i < start + count → inv i state →
      ∃ next, step state i = .ok next ∧ inv (i + 1) next) :
    ∃ final, (range' start count).foldlM step state = .ok final ∧ inv (start + count) final := by
  induction count generalizing start state with
  | zero => exact ⟨state, rfl, init⟩
  | succ count ih =>
    obtain ⟨next, first, kept⟩ := each start state le_rfl (by omega) init
    obtain ⟨final, rest, done⟩ := ih kept fun i state low high => each i state (by omega) (by omega)
    refine ⟨final, ?_, by rwa [Nat.add_right_comm, Nat.add_assoc] at done⟩
    rw [range'_succ, foldlM_cons, first, ok_bind, rest]

theorem map_ok {f : α → β} {value : β} : run.map f = .ok value ↔ ∃ answer, run = .ok answer ∧ f answer = value := by
  cases run with
  | error fault => exact iff_of_false nofun (by rintro ⟨_, ⟨⟩, _⟩)
  | ok answer =>
    refine ⟨fun same => ⟨answer, rfl, Except.ok.inj same⟩, ?_⟩
    rintro ⟨_, ⟨⟩, rfl⟩
    rfl

def Returns (run : Except ε α) : Prop := ∃ value, run = .ok value

theorem returns_bind : Returns (first >>= next) ↔ ∃ value, first = .ok value ∧ Returns (next value) := by
  simp only [Returns, bind_ok]
  exact ⟨fun ⟨result, value, here, there⟩ => ⟨value, here, result, there⟩,
    fun ⟨value, here, result, there⟩ => ⟨result, value, here, there⟩⟩

def passes (run : Except ε α) (test : α → Bool) : Bool :=
  match run with
  | .ok value => test value
  | .error _ => false

theorem exists_of_passes {test : α → Bool} (passed : passes run test = true) :
    ∃ value, run = .ok value ∧ test value = true := by
  cases run with
  | error fault => cases passed
  | ok value => exact ⟨value, rfl, passed⟩

theorem exists_of_decide {test : α → Prop} [DecidablePred test]
    (passed : passes run (fun value => decide (test value)) = true) : ∃ value, run = .ok value ∧ test value := by
  obtain ⟨value, returned, tested⟩ := exists_of_passes passed
  exact ⟨value, returned, of_decide_eq_true tested⟩

def fails (run : Except ε α) : Option ε :=
  match run with
  | .ok _ => none
  | .error fault => some fault

theorem error_of_fails (failed : fails run = some fault) : run = .error fault := by
  cases run with
  | error _ => rw [Option.some.inj failed]
  | ok value => cases failed

theorem pure_eq (value : α) : (pure value : Except ε α) = .ok value := rfl

/-- The first program stops with the fault where the second one goes on. -/
def Stricter (fault : ε) (first second : Except ε α) : Prop := first = .error fault ∨ first = second

theorem Stricter.bind {second : Except ε α} {next' : α → Except ε β} (runs : Stricter fault first second)
    (later : ∀ value, Stricter fault (next value) (next' value)) :
    Stricter fault (first >>= next) (second >>= next') := by
  rcases runs with stopped | rfl
  · exact .inl (by rw [stopped]; rfl)
  · cases first with
    | error other => exact .inr rfl
    | ok value => exact later value

theorem Stricter.after {next' : α → Except ε β} (later : ∀ value, Stricter fault (next value) (next' value)) :
    Stricter fault (run >>= next) (run >>= next') := Stricter.bind (.inr rfl) later

def Yields (fault : ε) (run : Except ε α) (post : α → Prop) : Prop := run = .error fault ∨ ∃ value, run = .ok value ∧ post value

/-- With enough fuel a program has one result, the fault or a value with `post`. -/
def Settles (fault : ε) (bound : Nat) (program : Nat → Except ε α) (post : α → Prop) : Prop :=
  ∃ run, (∀ fuel, bound ≤ fuel → program fuel = run) ∧ Yields fault run post

section Settles

variable {bound : Nat} {program : Nat → Except ε α} {post : α → Prop} {post' : β → Prop}

theorem Yields.pure {value : α} (holds : post value) : Yields fault (pure value) post := .inr ⟨value, rfl, holds⟩

theorem Yields.bind (yields : Yields fault first post) (later : ∀ value, post value → Yields fault (next value) post') :
    Yields fault (first >>= next) post' := by
  rcases yields with failed | ⟨value, returned, holds⟩
  · exact .inl (by rw [failed]; rfl)
  · rw [returned, ok_bind]
    exact later value holds

theorem Yields.settles (yields : Yields fault run post) : Settles fault bound (fun _ => run) post :=
  ⟨run, fun _ _ => rfl, yields⟩

theorem Settles.mono {bound' : Nat} {weaker : α → Prop} (settles : Settles fault bound program post) (le : bound ≤ bound')
    (imp : ∀ value, post value → weaker value) : Settles fault bound' program weaker := by
  obtain ⟨run, fixed, yields⟩ := settles
  refine ⟨run, fun fuel enough => fixed fuel (le.trans enough), ?_⟩
  rcases yields with failed | ⟨value, returned, holds⟩
  · exact .inl failed
  · exact .inr ⟨value, returned, imp value holds⟩

theorem Settles.bind {later : Nat → α → Except ε β} (settles : Settles fault bound program post)
    (each : ∀ value, post value → Settles fault bound (fun fuel => later fuel value) post') :
    Settles fault bound (fun fuel => program fuel >>= later fuel) post' := by
  obtain ⟨run, fixed, failed | ⟨value, returned, holds⟩⟩ := settles
  · refine ⟨.error fault, fun fuel enough => ?_, .inl rfl⟩
    simp only [fixed fuel enough, failed]
    rfl
  · obtain ⟨result, same, yields⟩ := each value holds
    refine ⟨result, fun fuel enough => ?_, yields⟩
    simp only [fixed fuel enough, returned, ok_bind, same fuel enough]

theorem Settles.turn {body : Nat → Except ε α} (unfolds : ∀ fuel, program (fuel + 1) = body fuel)
    (settles : Settles fault bound body post) : Settles fault (bound + 1) program post := by
  obtain ⟨run, fixed, yields⟩ := settles
  refine ⟨run, fun fuel enough => ?_, yields⟩
  obtain ⟨less, rfl⟩ := Nat.exists_eq_add_of_le' (show 1 ≤ fuel by omega)
  rw [unfolds, fixed less (by omega)]

end Settles

end Kernel31.Checked
