import Kernel31.Page.Basics

namespace Kernel31.Vfs

open List

abbrev Path := List UInt8

def slash : UInt8 := 0x2f

namespace Path

def iter (self : Path) : List Path := splitOn slash self

/-- `starts_with`, by bytes and not by components. -/
def startsWith (self other : Path) : Bool := other.isPrefixOf self

def isAbsolute (self : Path) : Bool := Path.startsWith self [slash]

def stripPrefix (self start : Path) : Option Path :=
  if Path.startsWith self start then some (self.drop start.length) else none

theorem startsWith_iff {self other : Path} : Path.startsWith self other = true ↔ other <+: self := isPrefixOf_iff_prefix

theorem iter_append_slash (self other : Path) : Path.iter (self ++ slash :: other) = Path.iter self ++ Path.iter other :=
  splitOnP_append_cons self other (beq_self_eq_true slash)

def rejoin (components : List Path) : Path := components.flatMap (slash :: ·)

theorem intercalate_cons (component : Path) (others : List Path) :
    [slash].intercalate (component :: others) = component ++ rejoin others := by
  induction others generalizing component with
  | nil => rw [intercalate_singleton, rejoin, flatMap_nil, append_nil]
  | cons other others ih =>
    rw [intercalate_cons_cons, ih, rejoin, rejoin, flatMap_cons, append_assoc, singleton_append,
      cons_append]

theorem iter_ne_nil (self : Path) : Path.iter self ≠ [] := splitOn_ne_nil slash self

theorem intercalate_iter (self : Path) : [slash].intercalate (Path.iter self) = self := intercalate_splitOn slash

theorem eq_append_rejoin {self start : Path} {others : List Path} (split : Path.iter self = Path.iter start ++ others) :
    self = start ++ rejoin others := by
  obtain ⟨component, rest, parts⟩ := exists_cons_of_ne_nil (iter_ne_nil start)
  have head := intercalate_iter start
  have whole := intercalate_iter self
  rw [parts, intercalate_cons] at head
  rw [split, parts, cons_append, intercalate_cons, rejoin, flatMap_append, ← append_assoc] at whole
  rw [← whole, ← head]
  rfl

theorem iter_prefix_iff {self start : Path} :
    Path.iter start <+: Path.iter self ↔ start <+: self ∧ ∀ byte ∈ (self.drop start.length)[0]?, byte = slash := by
  constructor
  · rintro ⟨others, split⟩
    have whole := eq_append_rejoin split.symm
    refine ⟨⟨rejoin others, whole.symm⟩, ?_⟩
    rw [whole, drop_left]
    cases others with
    | nil => simp [rejoin]
    | cons other others => simp [rejoin]
  · rintro ⟨⟨rest, rfl⟩, follows⟩
    rw [drop_left] at follows
    cases rest with
    | nil => rw [append_nil]
    | cons byte rest =>
      rw [follows byte rfl, iter_append_slash]
      exact prefix_append _ _

theorem iter_second {self : Path} : (Path.iter self)[1]? = none ↔ slash ∉ self := by
  constructor
  · intro none inside
    obtain ⟨before, after, rfl⟩ := append_of_mem inside
    rw [iter_append_slash] at none
    have some := length_pos_iff.mpr (iter_ne_nil before)
    have some' := length_pos_iff.mpr (iter_ne_nil after)
    have short := getElem?_eq_none_iff.mp none
    rw [length_append] at short
    omega
  · intro outside
    rw [iter, splitOn_eq_singleton outside]
    rfl

end Path

end Kernel31.Vfs
