import Kernel31.Library.Checked

namespace Kernel31.Runs

variable {σ τ ο : Type} {steps : σ → σ → Prop}

theorem preserved (inv : σ → Prop) (keeps : ∀ s s', inv s → steps s s' → inv s') {s s' : σ} (start : inv s)
    (run : Relation.ReflTransGen steps s s') : inv s' := by
  induction run with
  | refl => exact start
  | tail _ last ih => exact keeps _ _ ih last

theorem of_foldlM {next : σ → ο → Option σ} (sound : ∀ s op s', next s op = some s' → steps s s') {ops : List ο}
    {s s' : σ} (played : ops.foldlM next s = some s') : Relation.ReflTransGen steps s s' := by
  induction ops generalizing s with
  | nil =>
    simp only [List.foldlM_nil, Option.pure_def, Option.some.injEq] at played
    subst played
    exact .refl
  | cons op ops ih =>
    simp only [List.foldlM_cons, Option.bind_eq_bind, Option.bind_eq_some_iff] at played
    obtain ⟨middle, first, rest⟩ := played
    exact .head (sound s op middle first) (ih rest)

theorem of_guarded {ε : Type} {allowed : Prop} [Decidable allowed] {call : Except ε σ} {s : σ}
    (played : (if allowed then call.toOption else none) = some s) : allowed ∧ call = .ok s := by
  split at played
  case isTrue permitted => exact ⟨permitted, Checked.toOption_ok.mp played⟩
  case isFalse => cases played

def play {ε : Type} (allowed : σ → ο → Prop) [∀ s op, Decidable (allowed s op)] (call : σ → ο → Except ε σ) (s : σ) (op : ο) :
    Option σ :=
  if allowed s op then (call s op).toOption else none

theorem of_play {ε : Type} {allowed : σ → ο → Prop} [∀ s op, Decidable (allowed s op)] {call : σ → ο → Except ε σ}
    {ops : List ο} {s s' : σ} (played : ops.foldlM (play allowed call) s = some s') :
    Relation.ReflTransGen (fun s s' => ∃ op, allowed s op ∧ call s op = .ok s') s s' := by
  refine of_foldlM (fun s op s' next => ?_) played
  exact ⟨op, of_guarded next⟩

end Kernel31.Runs
