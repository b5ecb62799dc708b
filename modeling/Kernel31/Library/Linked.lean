import Mathlib.Data.List.Basic
import Mathlib.Logic.Function.Basic

namespace Kernel31

open List

/-- The nodes of a list threaded through `next`, from `start` to its end. -/
def Linked {α : Type} (next : α → Option α) : Option α → List α → Prop
  | start, [] => start = none
  | start, node :: rest => start = some node ∧ Linked next (next node) rest

namespace Linked

variable {α : Type} {next next' : α → Option α} {start : Option α} {nodes : List α}

theorem frame (linked : Linked next start nodes) (same : ∀ node ∈ nodes, next' node = next node) :
    Linked next' start nodes := by
  induction nodes generalizing start with
  | nil => exact linked
  | cons node rest ih =>
    obtain ⟨here, there⟩ := linked
    rw [forall_mem_cons] at same
    refine ⟨here, ?_⟩
    rw [same.1]
    exact ih there same.2

theorem unique {other : List α} (linked : Linked next start nodes) (linked' : Linked next start other) :
    nodes = other := by
  induction nodes generalizing start other with
  | nil =>
    cases other with
    | nil => rfl
    | cons node rest =>
      obtain ⟨here, _⟩ := linked'
      rw [linked] at here
      cases here
  | cons node rest ih =>
    obtain ⟨rfl, there⟩ := linked
    cases other with
    | nil => cases linked'
    | cons node' rest' =>
      obtain ⟨here, there'⟩ := linked'
      obtain rfl := Option.some.inj here
      rw [ih there there']

theorem start_eq (linked : Linked next start nodes) : start = nodes.head? := by
  cases nodes with
  | nil => exact linked
  | cons node rest => exact linked.1

theorem drop {front back : List α} (linked : Linked next start (front ++ back)) : Linked next back.head? back := by
  induction front generalizing start with
  | nil =>
    rw [nil_append] at linked
    rwa [linked.start_eq] at linked
  | cons node rest ih => exact ih linked.2

theorem exists_before (linked : Linked next start nodes) {node : α} (member : node ∈ nodes) (later : start ≠ some node) :
    ∃ before ∈ nodes, next before = some node := by
  induction nodes generalizing start with
  | nil => cases member
  | cons first rest ih =>
    obtain ⟨rfl, there⟩ := linked
    have inside : node ∈ rest := by
      refine (mem_cons.mp member).resolve_left ?_
      rintro rfl
      exact later rfl
    by_cases second : next first = some node
    · exact ⟨first, mem_cons_self, second⟩
    · obtain ⟨before, old, link⟩ := ih there inside second
      exact ⟨before, mem_cons_of_mem _ old, link⟩

theorem snoc {front : List α} {last node : α} (linked : Linked next start (front ++ [last]))
    (same : ∀ other ∈ front, next' other = next other) (link : next' last = some node) (stop : next' node = none) :
    Linked next' start (front ++ [last, node]) := by
  induction front generalizing start with
  | nil => exact ⟨linked.1, link, stop⟩
  | cons other rest ih =>
    obtain ⟨here, there⟩ := linked
    rw [forall_mem_cons] at same
    refine ⟨here, ?_⟩
    rw [same.1]
    exact ih there same.2

theorem of_range (node : Nat → α) {first count : Nat} (positive : 0 < count)
    (step : ∀ i, first ≤ i → i + 1 < first + count → next (node i) = some (node (i + 1)))
    (stop : next (node (first + count - 1)) = none) :
    Linked next (some (node first)) ((range' first count).map node) := by
  induction count generalizing first with
  | zero => omega
  | succ count ih =>
    rw [range'_succ, map_cons]
    refine ⟨rfl, ?_⟩
    rcases Nat.eq_zero_or_pos count with rfl | more
    · exact stop
    · rw [step first (Nat.le_refl first) (by omega)]
      apply ih more
      · intro i low high
        exact step i (by omega) (by omega)
      · rwa [show first + 1 + count - 1 = first + (count + 1) - 1 by omega]

end Linked

def Enrolled {α : Type} (next : α → Option α) (start : Option α) (has : α → Prop) : Prop :=
  ∃ nodes, Linked next start nodes ∧ nodes.Nodup ∧ ∀ node, node ∈ nodes ↔ has node

namespace Enrolled

variable {α : Type} {next next' : α → Option α} {start start' : Option α} {has has' : α → Prop} {node : α}

theorem congr (enrolled : Enrolled next start has) (first : start' = start) (links : ∀ node, has node → next' node = next node)
    (same : ∀ node, has' node ↔ has node) : Enrolled next' start' has' := by
  obtain ⟨nodes, linked, nodup, member⟩ := enrolled
  refine ⟨nodes, ?_, nodup, fun node => (member node).trans (same node).symm⟩
  rw [first]
  exact linked.frame fun node inside => links node ((member node).mp inside)

theorem start_has (enrolled : Enrolled next start has) (first : start = some node) : has node := by
  obtain ⟨nodes, linked, _, member⟩ := enrolled
  rw [linked.start_eq] at first
  exact (member node).mp (mem_of_mem_head? first)

theorem join (enrolled : Enrolled next start has) (new : ¬ has node) (first : start' = some node) (link : next' node = start)
    (links : ∀ node, has node → next' node = next node) (same : ∀ other, has' other ↔ other = node ∨ has other) :
    Enrolled next' start' has' := by
  obtain ⟨nodes, linked, nodup, member⟩ := enrolled
  refine ⟨node :: nodes, ⟨first, ?_⟩, nodup_cons.mpr ⟨fun inside => new ((member node).mp inside), nodup⟩, ?_⟩
  · rw [link]
    exact linked.frame fun other inside => links other ((member other).mp inside)
  · intro other
    rw [same, mem_cons, member]

theorem leave (enrolled : Enrolled next (some node) has) (first : start' = next node)
    (links : ∀ node, has node → next' node = next node) (same : ∀ other, has' other ↔ has other ∧ other ≠ node) :
    Enrolled next' start' has' := by
  obtain ⟨nodes, linked, nodup, member⟩ := enrolled
  cases nodes with
  | nil => cases linked
  | cons head rest =>
    obtain ⟨here, there⟩ := linked
    obtain rfl := Option.some.inj here
    rw [nodup_cons] at nodup
    refine ⟨rest, ?_, nodup.2, fun other => ?_⟩
    · rw [first]
      exact there.frame fun other inside => links other ((member other).mp (mem_cons_of_mem _ inside))
    · rw [same, ← member, mem_cons]
      constructor
      · intro inside
        refine ⟨.inr inside, ?_⟩
        rintro rfl
        exact nodup.1 inside
      · rintro ⟨inside, other⟩
        exact inside.resolve_left other

end Enrolled

end Kernel31
