import Kernel31.Dtb.Parse

namespace Kernel31.Dtb

open Checked List Node
open Elf (slice fromBeBytes)

mutual

/-- `Node::parse` of a release build, without the `debug_assert_eq!`: every other token is taken for a property. -/
def Node.parseRelease (stringsBuf : List UInt8) : Nat → List UInt8 → Exec (List UInt8 × Node)
  | 0, _ => throw .recursion
  | fuel + 1, bytes => do
    let bytes ← suffix bytes 4
    let (bytes, name) ← parseNullString bytes
    let bytes ← suffix bytes (4 - len name % 4)
    parseBodyRelease stringsBuf fuel bytes (Node.named name)

def Node.parseBodyRelease (stringsBuf : List UInt8) : Nat → List UInt8 → Node → Exec (List UInt8 × Node)
  | 0, _, _ => throw .recursion
  | fuel + 1, bytes, node => do
    let token ← u32 bytes 0
    if token = fdtEndNode then pure (bytes, node)
    else if token = fdtBeginNode then do
      let (bytes, childNode) ← parseRelease stringsBuf fuel bytes
      let bytes ← suffix bytes 4
      parseBodyRelease stringsBuf fuel bytes (node.pushChild childNode)
    else if token = fdtNop then do
      let bytes ← suffix bytes 4
      parseBodyRelease stringsBuf fuel bytes node
    else do
      let len ← u32 bytes 4
      let nameoff ← u32 bytes 8
      let bytes ← suffix bytes 12
      let strings ← suffix stringsBuf nameoff
      let (_, name) ← parseNullString strings
      let value ← slice bytes 0 len
      let bytes ← suffix bytes (len + (4 - len % 4) % 4)
      let node ← node.pushProperty name value
      parseBodyRelease stringsBuf fuel bytes node

end

theorem stricter_debugAssertEq {α : Type} {first : Unit → Exec α} {second : Exec α} (left right : Nat)
    (rest : Stricter .assertion (first ()) second) : Stricter .assertion (debugAssertEq left right >>= first) second := by
  rw [debugAssertEq]
  split
  · exact rest
  · exact .inl rfl

theorem suffix_of_u32_error {bytes : List UInt8} {fault : Fault} (failed : u32 bytes 0 = .error fault) :
    suffix bytes 4 = .error fault := by
  by_cases inside : 4 ≤ bytes.length
  · rw [u32, slice, if_pos ⟨Nat.zero_le _, inside⟩] at failed
    cases failed
  · rw [u32, slice, if_neg fun both => inside both.2] at failed
    cases failed
    rw [suffix, slice, if_neg fun both => inside both.1]
    rfl

/-- What a debug build does if no assertion stops it, a release build does. -/
theorem parse_stricter (stringsBuf : List UInt8) (fuel : Nat) :
    (∀ bytes, Stricter .assertion (parse stringsBuf fuel bytes) (parseRelease stringsBuf fuel bytes)) ∧
      ∀ bytes node, Stricter .assertion (Node.parseBody stringsBuf fuel bytes node)
        (parseBodyRelease stringsBuf fuel bytes node) := by
  induction fuel with
  | zero => exact ⟨fun _ => .inr rfl, fun _ _ => .inr rfl⟩
  | succ fuel ih =>
    obtain ⟨ofNode, ofBody⟩ := ih
    constructor
    · intro bytes
      rw [parse, parseRelease]
      exact .after fun _ => .after fun _ => .after fun _ => ofBody _ _
    · intro bytes node
      rw [Node.parseBody, parseBodyRelease]
      refine .after fun token => ?_
      split
      · exact .inr rfl
      split
      · refine (ofNode bytes).bind fun ⟨rest, child⟩ => ?_
        -- The token that only a debug build reads is as long as what both builds skip.
        cases read : u32 rest 0 with
        | error fault => exact .inr (by simp only [read, suffix_of_u32_error read]; rfl)
        | ok token =>
          simp only [read, ok_bind]
          exact stricter_debugAssertEq _ _ (.after fun _ => ofBody _ _)
      split
      · exact .after fun _ => ofBody _ _
      · refine stricter_debugAssertEq _ _ (.after fun _ => .after fun _ => .after fun _ => .after fun _ => .after fun _ => ?_)
        exact .after fun _ => .after fun _ => .after fun _ => ofBody _ _

section Reads

theorem slice_yields (bytes : List UInt8) (start stop : Nat) :
    Yields .indexOutOfBounds (slice bytes start stop) fun _ => start ≤ stop ∧ stop ≤ bytes.length := by
  rw [slice]
  split
  · rename_i inside
    exact .pure inside
  · exact .inl rfl

theorem u32_yields (bytes : List UInt8) (offset : Nat) :
    Yields .indexOutOfBounds (u32 bytes offset) fun value => u32 bytes offset = .ok value ∧ offset + 4 ≤ bytes.length := by
  rcases slice_yields bytes offset (offset + 4) with failed | ⟨field, read, _, inside⟩
  · exact .inl (by rw [u32, failed]; rfl)
  · have value : u32 bytes offset = .ok (fromBeBytes field) := by
      rw [u32, read]
      rfl
    exact .inr ⟨_, value, value, inside⟩

theorem suffix_yields (bytes : List UInt8) (start : Nat) :
    Yields .indexOutOfBounds (suffix bytes start) fun rest => rest <:+ bytes ∧ rest.length + start = bytes.length := by
  rcases slice_yields bytes start bytes.length with failed | ⟨rest, read, inside, _⟩
  · exact .inl failed
  · obtain ⟨_, rfl⟩ := suffix_ok.mp read
    exact .inr ⟨_, read, drop_suffix _ _, by rw [length_drop]; omega⟩

theorem parseNullString_yields (bytes : List UInt8) :
    Yields .indexOutOfBounds (parseNullString bytes) fun result => result.1 <:+ bytes := by
  induction bytes with
  | nil => exact .inl rfl
  | cons byte rest ih =>
    rw [parseNullString]
    split
    · exact ih.bind fun result inside => .pure (inside.trans (suffix_cons _ _))
    · exact .pure suffix_rfl

theorem pushProperty_yields (node : Node) (name value : List UInt8) :
    Yields .indexOutOfBounds (node.pushProperty name value) fun _ => True := by
  rw [Node.pushProperty]
  split
  · exact (u32_yields value 0).bind fun _ _ => .pure trivial
  split
  · exact (u32_yields value 0).bind fun _ _ => .pure trivial
  · exact .pure trivial

end Reads

section Progress

variable {stringsBuf bytes : List UInt8}

/-- What is left of the bytes begins with the token that ends a node. -/
def AtEndNode (bytes : List UInt8) (result : List UInt8 × Node) : Prop :=
  result.1 <:+ bytes ∧ u32 result.1 0 = .ok fdtEndNode

def BodySettles (stringsBuf bytes : List UInt8) : Prop :=
  ∀ node, Settles .indexOutOfBounds (bytes.length + 2) (parseBodyRelease stringsBuf · bytes node) (AtEndNode bytes)

def NodeSettles (stringsBuf bytes : List UInt8) : Prop :=
  Settles .indexOutOfBounds (bytes.length + 1) (parseRelease stringsBuf · bytes) fun result =>
    AtEndNode bytes result ∧ result.1.length < bytes.length

theorem AtEndNode.mono {rest : List UInt8} {result : List UInt8 × Node} (done : AtEndNode rest result) (inside : rest <:+ bytes) :
    AtEndNode bytes result := ⟨done.1.trans inside, done.2⟩

/-- What a turn leaves to the loop is shorter, and so is settled with one unit of fuel less. -/
theorem BodySettles.later {rest : List UInt8} (settled : BodySettles stringsBuf rest) (node : Node) (inside : rest <:+ bytes)
    (shorter : rest.length < bytes.length) :
    Settles .indexOutOfBounds (bytes.length + 1) (parseBodyRelease stringsBuf · rest node) (AtEndNode bytes) :=
  (settled node).mono (by omega) fun _ done => done.mono inside

theorem nodeSettles (shorter : ∀ rest : List UInt8, rest.length < bytes.length → BodySettles stringsBuf rest) :
    NodeSettles stringsBuf bytes := by
  refine Settles.turn (fun fuel => by rw [parseRelease]) ?_
  refine (suffix_yields bytes 4).settles.bind fun after ⟨inside, skipped⟩ => ?_
  refine (parseNullString_yields after).settles.bind fun ⟨named, name⟩ within => ?_
  refine (suffix_yields named _).settles.bind fun rest ⟨behind, _⟩ => ?_
  have named_le : named.length ≤ after.length := within.length_le
  have rest_le := behind.length_le
  refine (shorter rest (by omega) (Node.named name)).mono (by omega) fun result done => ?_
  have result_le := done.1.length_le
  exact ⟨done.mono (behind.trans (within.trans inside)), by omega⟩

theorem bodySettles (ofNode : NodeSettles stringsBuf bytes)
    (shorter : ∀ rest : List UInt8, rest.length < bytes.length → BodySettles stringsBuf rest) :
    BodySettles stringsBuf bytes := by
  intro node
  refine Settles.turn (fun fuel => by rw [parseBodyRelease]) ?_
  refine (u32_yields bytes 0).settles.bind fun token ⟨read, _⟩ => ?_
  by_cases ends : token = fdtEndNode
  · simp only [if_pos ends]
    exact (Yields.pure ⟨suffix_rfl, ends ▸ read⟩).settles
  simp only [if_neg ends]
  by_cases begins : token = fdtBeginNode
  · simp only [if_pos begins]
    refine ofNode.bind fun ⟨after, childNode⟩ ⟨⟨inside, _⟩, less⟩ => ?_
    refine (suffix_yields after 4).settles.bind fun rest ⟨behind, _⟩ => ?_
    have fewer : rest.length < bytes.length := behind.length_le.trans_lt less
    exact (shorter rest fewer).later _ (behind.trans inside) fewer
  simp only [if_neg begins]
  by_cases nop : token = fdtNop
  · simp only [if_pos nop]
    refine (suffix_yields bytes 4).settles.bind fun rest ⟨behind, skipped⟩ => ?_
    exact (shorter rest (by omega)).later _ behind (by omega)
  simp only [if_neg nop]
  refine (u32_yields bytes 4).settles.bind fun length _ => ?_
  refine (u32_yields bytes 8).settles.bind fun nameoff _ => ?_
  refine (suffix_yields bytes 12).settles.bind fun after ⟨inside, skipped⟩ => ?_
  refine (suffix_yields stringsBuf nameoff).settles.bind fun strings _ => ?_
  refine (parseNullString_yields strings).settles.bind fun ⟨_, name⟩ _ => ?_
  refine (slice_yields after 0 length).settles.bind fun value _ => ?_
  refine (suffix_yields after _).settles.bind fun rest ⟨behind, _⟩ => ?_
  refine (pushProperty_yields node name value).settles.bind fun _ _ => ?_
  have rest_le := behind.length_le
  exact (shorter rest (by omega)).later _ (behind.trans inside) (by omega)

theorem bodySettles_all (stringsBuf : List UInt8) (length : Nat) :
    ∀ bytes : List UInt8, bytes.length < length → BodySettles stringsBuf bytes := by
  induction length with
  | zero => exact fun _ short => absurd short (Nat.not_lt_zero _)
  | succ length ih =>
    intro bytes short
    have shorter := fun (rest : List UInt8) (less : rest.length < bytes.length) => ih rest (by omega)
    exact bodySettles (nodeSettles shorter) shorter

theorem nodeSettles_all (stringsBuf bytes : List UInt8) : NodeSettles stringsBuf bytes :=
  nodeSettles fun rest _ => bodySettles_all stringsBuf (rest.length + 1) rest (Nat.lt_succ_self _)

/-- The fuel that `DeviceTree::parse` starts with is enough for any buffer, however it ends. -/
theorem parse_ne_recursion {fuel : Nat} (enough : bytes.length < fuel) : parse stringsBuf fuel bytes ≠ .error .recursion := by
  obtain ⟨result, fixed, outcome⟩ := nodeSettles_all stringsBuf bytes
  rcases (parse_stricter stringsBuf fuel).1 bytes with stopped | same
  · rw [stopped]
    nofun
  · rw [same, show parseRelease stringsBuf fuel bytes = result from fixed fuel enough]
    rcases outcome with rfl | ⟨_, rfl, _⟩ <;> nofun

theorem small_node_parsed : parse [] 13 [0, 0, 0, 1, 0, 0, 0, 0, 0, 0, 0, 2] ≠ .error .recursion :=
  parse_ne_recursion (by decide)

/-- `Node::parse` ends: it reads outside of a slice, or returns what is left from the end of its node on. More turns
    than bytes change nothing. -/
theorem parseRelease_ends (stringsBuf bytes : List UInt8) :
    ∃ result, (∀ fuel, bytes.length < fuel → parseRelease stringsBuf fuel bytes = result) ∧
      (result = .error .indexOutOfBounds ∨
        ∃ rest node, result = .ok (rest, node) ∧ rest <:+ bytes ∧ rest.length < bytes.length ∧
          u32 rest 0 = .ok fdtEndNode) := by
  obtain ⟨result, fixed, outcome⟩ := nodeSettles_all stringsBuf bytes
  refine ⟨result, fixed, ?_⟩
  rcases outcome with failed | ⟨⟨rest, node⟩, returned, ⟨inside, token⟩, shorter⟩
  · exact .inl failed
  · exact .inr ⟨rest, node, returned, inside, shorter, token⟩

end Progress

end Kernel31.Dtb
