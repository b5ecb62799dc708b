import Kernel31.Dtb.Utils
import Mathlib.Data.Fintype.Basic

namespace Kernel31.Dtb

open Checked List Node

inductive Node.Reaches : Node → List (List UInt8) → Node → Prop where
  | here (node : Node) : node.Reaches [] node
  | down {root child node : Node} {component : List UInt8} {path : List (List UInt8)} (mem : child ∈ root.childNodes)
    (named : utf8 child.name = component) (below : child.Reaches path node) : root.Reaches (component :: path) node

def Node.DistinctSiblings (root : Node) : Prop :=
  ∀ path node, root.Reaches path node → (node.childNodes.map name).Nodup

def components (path : List UInt8) : List (List UInt8) := (path.splitOn slash).drop 1

section Strings

theorem byte_cases {claim : UInt8 → Prop} (all : ∀ value : Fin 256, claim (UInt8.ofFin value)) (byte : UInt8) : claim byte :=
  all byte.toFin

theorem utf8_cons (char : UInt8) (string : List UInt8) :
    utf8 (char :: string) =
      (if char < 0x80 then [char] else [(0xc0 : UInt8) ||| (char >>> 6), (0x80 : UInt8) ||| (char &&& 0x3f)]) ++ utf8 string :=
  flatMap_cons

theorem double_bytes (char : UInt8) : ¬ char < 0x80 →
    ((0xc0 : UInt8) ||| (char >>> 6) = 0xc2 ∨ (0xc0 : UInt8) ||| (char >>> 6) = 0xc3) ∧
      Utf8.isContinuation ((0x80 : UInt8) ||| (char &&& 0x3f)) = true := by
  revert char
  exact byte_cases (by decide +kernel)

theorem double_inverse (char : UInt8) :
    (((0xc0 : UInt8) ||| (char >>> 6)) <<< 6) ||| (((0x80 : UInt8) ||| (char &&& 0x3f)) &&& 0x3f) = char := by
  revert char
  exact byte_cases (by decide +kernel)

theorem utf8_injective : Function.Injective utf8 := by
  -- the first byte of a character of two bytes is from `0xc2` on, so that it is not one of a single byte
  have high {char : UInt8} (double : ¬ char < 0x80) : ¬ ((0xc0 : UInt8) ||| (char >>> 6)) < 0x80 := by
    rcases (double_bytes char double).1 with lead | lead <;> rw [lead] <;> decide
  intro left
  induction left with
  | nil =>
    intro right same
    cases right with
    | nil => rfl
    | cons char right =>
      rw [utf8_cons] at same
      split at same <;> cases same
  | cons char left ih =>
    intro right same
    cases right with
    | nil =>
      rw [utf8_cons] at same
      split at same <;> cases same
    | cons char' right =>
      rw [utf8_cons, utf8_cons] at same
      split at same <;> split at same <;> simp only [cons_append, nil_append, List.cons.injEq] at same
      case isTrue.isTrue => rw [same.1, ih same.2]
      case isTrue.isFalse single double => exact absurd (same.1 ▸ single) (high double)
      case isFalse.isTrue double single => exact absurd (same.1 ▸ single) (high double)
      case isFalse.isFalse => rw [← double_inverse char, same.1, same.2.1, double_inverse, ih same.2.2]

theorem lossy_utf8 (string : List UInt8) : Utf8.lossy (utf8 string) = utf8 string := by
  induction string with
  | nil => rfl
  | cons char string ih =>
    rw [utf8_cons]
    split
    case isTrue single => rw [cons_append, nil_append, Utf8.lossy_ascii single, ih]
    case isFalse double =>
      obtain ⟨lead, second⟩ := double_bytes char double
      rw [cons_append, cons_append, nil_append]
      have width : Utf8.charWidth ((0xc0 : UInt8) ||| (char >>> 6)) = 2 := by
        rcases lead with lead | lead <;> rw [lead] <;> rfl
      have fits : Utf8.secondFits ((0xc0 : UInt8) ||| (char >>> 6)) ((0x80 : UInt8) ||| (char &&& 0x3f)) = true := by
        rcases lead with lead | lead <;> rw [lead] <;> exact second
      rw [Utf8.lossy_double width fits, ih]

theorem not_mem_utf8 (string : List UInt8) : 0xef ∉ utf8 string := by
  intro mem
  obtain ⟨char, _, mem⟩ := mem_flatMap.mp mem
  split at mem
  case isTrue single =>
    rw [mem_singleton] at mem
    exact absurd (mem ▸ single) (by decide)
  case isFalse double =>
    obtain ⟨lead, second⟩ := double_bytes char double
    rcases mem_cons.mp mem with same | mem
    · rcases lead with lead | lead <;> exact absurd (same.trans lead) (by decide)
    · rw [← mem_singleton.mp mem] at second
      exact absurd second (by decide)

theorem utf8_eq_lossy_iff (string component : List UInt8) : utf8 string = Utf8.lossy component ↔ utf8 string = component := by
  constructor
  · intro same
    rw [same, Utf8.lossy_eq_self_of_not_mem (same ▸ not_mem_utf8 string)]
  · rintro rfl
    exact (lossy_utf8 string).symm

end Strings

section Lookup
variable {root : Node}

theorem findChild_some {child : Node} {component : List UInt8} (found : root.findChild component = some child) :
    child ∈ root.childNodes ∧ utf8 child.name = component := by
  rw [findChild] at found
  exact ⟨mem_of_find?_eq_some found, by simpa using find?_some found⟩

theorem findChild_lossy (root : Node) (component : List UInt8) :
    root.findChild (Utf8.lossy component) = root.findChild component := by
  simp only [findChild, utf8_eq_lossy_iff]

theorem aliasLoop_lossy (fuel : Nat) (root : Node) (path : List (List UInt8)) :
    aliasLoop fuel root (path.map Utf8.lossy) = aliasLoop fuel root path := by
  induction fuel generalizing root path with
  | zero => rfl
  | succ fuel ih =>
    cases path with
    | nil => rfl
    | cons component path =>
      rw [map_cons, aliasLoop, aliasLoop, findChild_lossy]
      cases root.findChild component with
      | none => exact ih root (component :: path)
      | some node => simp only [map_eq_nil_iff, ih]

theorem nodeByAlias_eq (fuel : Nat) (root : Node) (path : List UInt8) :
    nodeByAlias fuel root (path ++ [0]) = aliasLoop fuel root (components path) := by
  rw [nodeByAlias, if_neg (by simp), length_append, length_singleton, Nat.add_sub_cancel, take_left',
    Utf8.splitOn_lossy (by decide), ← map_drop, aliasLoop_lossy]
  · rfl
  · rfl

/-- The loop never returns `None`: as long as a component is missing it goes on with the same node. -/
theorem aliasLoop_reaches {fuel : Nat} {path : List (List UInt8)} {result : Option Node} (nonempty : path ≠ [])
    (run : aliasLoop fuel root path = .ok result) : ∃ node, result = some node ∧ root.Reaches path node := by
  induction fuel generalizing root path with
  | zero => cases run
  | succ fuel ih =>
    cases path with
    | nil => exact absurd rfl nonempty
    | cons component path =>
      rw [aliasLoop] at run
      cases found : root.findChild component with
      | none =>
        rw [found] at run
        exact ih nonempty run
      | some child =>
        rw [found] at run
        obtain ⟨mem, named⟩ := findChild_some found
        by_cases last : path = []
        · subst last
          obtain rfl := pure_ok.mp run
          exact ⟨child, rfl, .down mem named (.here child)⟩
        · obtain ⟨node, returned, below⟩ := ih last ((if_neg last).symm.trans run)
          exact ⟨node, returned, .down mem named below⟩

theorem Node.DistinctSiblings.child {child : Node} (distinct : root.DistinctSiblings) (mem : child ∈ root.childNodes) :
    child.DistinctSiblings :=
  fun _ node reaches => distinct _ node (.down mem rfl reaches)

theorem Node.DistinctSiblings.findChild {child : Node} (distinct : root.DistinctSiblings) (mem : child ∈ root.childNodes) :
    root.findChild (utf8 child.name) = some child := by
  cases found : root.findChild (utf8 child.name) with
  | none => exact absurd rfl (of_decide_eq_false (Bool.not_eq_true _ ▸ find?_eq_none.mp found child mem))
  | some first =>
    obtain ⟨mem', named⟩ := findChild_some found
    rw [inj_on_of_nodup_map (distinct [] root (.here root)) mem' mem (utf8_injective named)]

theorem aliasLoop_of_reaches {path : List (List UInt8)} {node : Node} (distinct : root.DistinctSiblings)
    (reaches : root.Reaches path node) (nonempty : path ≠ []) : aliasLoop path.length root path = .ok (some node) := by
  induction reaches with
  | here => exact absurd rfl nonempty
  | @down root child node component path mem named below ih =>
    subst named
    rw [length_cons, aliasLoop, distinct.findChild mem]
    by_cases last : path = []
    · subst last
      cases below
      rfl
    · exact (if_neg last).trans (ih (distinct.child mem) last)

theorem components_ne_nil {path : List UInt8} (absolute : path.head? = some slash) : components path ≠ [] := by
  obtain ⟨rest, rfl⟩ := head?_eq_some_iff.mp absolute
  have cut : (slash :: rest).splitOn slash = [] :: rest.splitOn slash :=
    splitOnP_append_cons [] rest (beq_self_eq_true slash)
  rw [components, cut, drop_succ_cons, drop_zero]
  exact splitOn_ne_nil slash rest

/-- A path with a missing component is looked for without end. -/
theorem nodeByAlias_returns_iff (distinct : root.DistinctSiblings) {path : List UInt8} (absolute : path.head? = some slash) :
    (∃ fuel result, nodeByAlias fuel root (path ++ [0]) = .ok result ∧
      ∀ node, result = some node ↔ root.Reaches (components path) node) ↔ ∃ node, root.Reaches (components path) node := by
  have nonempty := components_ne_nil absolute
  simp only [nodeByAlias_eq]
  constructor
  · rintro ⟨fuel, result, run, -⟩
    obtain ⟨node, -, reaches⟩ := aliasLoop_reaches nonempty run
    exact ⟨node, reaches⟩
  · rintro ⟨node, reaches⟩
    have run := aliasLoop_of_reaches distinct reaches nonempty
    refine ⟨_, _, run, fun other => ⟨?_, fun reaches' => ?_⟩⟩
    · rintro ⟨rfl⟩
      exact reaches
    · exact ok_unique run (aliasLoop_of_reaches distinct reaches' nonempty)

def socTree : Node :=
  (named []).pushChild ((named (chars ['s', 'o', 'c'])).pushChild (named (chars ['u', 'a', 'r', 't'])))

theorem socTree_distinctSiblings : socTree.DistinctSiblings := by
  intro path node reaches
  cases reaches with
  | here => exact nodup_singleton _
  | down mem _ below =>
    obtain rfl := mem_singleton.mp mem
    cases below with
    | here => exact nodup_singleton _
    | down mem _ below =>
      obtain rfl := mem_singleton.mp mem
      cases below with
      | here => exact nodup_nil
      | down mem _ _ => exact absurd mem not_mem_nil

def uartPath : List UInt8 := chars ['/', 's', 'o', 'c', '/', 'u', 'a', 'r', 't']
def spiPath : List UInt8 := chars ['/', 's', 'o', 'c', '/', 's', 'p', 'i']

theorem uart_found : ∃ fuel result, nodeByAlias fuel socTree (uartPath ++ [0]) = .ok result ∧
    ∀ node, result = some node ↔ socTree.Reaches (components uartPath) node := by
  refine (nodeByAlias_returns_iff socTree_distinctSiblings rfl).mpr ?_
  exact ⟨_, .down mem_cons_self rfl (.down mem_cons_self rfl (.here _))⟩

/-- The child `soc` has no child `spi`, and the loop never ends. -/
theorem missing_component_loops : socTree.DistinctSiblings ∧
    ¬ ∃ fuel result, nodeByAlias fuel socTree (spiPath ++ [0]) = .ok result := by
  refine ⟨socTree_distinctSiblings, ?_⟩
  rintro ⟨fuel, result, run⟩
  rw [nodeByAlias_eq] at run
  obtain ⟨node, -, reaches⟩ := aliasLoop_reaches (components_ne_nil rfl) run
  rw [show components spiPath = [chars ['s', 'o', 'c'], chars ['s', 'p', 'i']] from rfl] at reaches
  obtain ⟨⟩ | ⟨mem, -, below⟩ := reaches
  obtain rfl := mem_singleton.mp mem
  obtain ⟨⟩ | ⟨mem, named, -⟩ := below
  obtain rfl := mem_singleton.mp mem
  exact absurd named (by decide)

end Lookup

end Kernel31.Dtb
