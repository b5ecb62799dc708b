import Kernel31.Dtb.Parse
import Kernel31.Elf.Fields

namespace Kernel31.Dtb

open Checked List Node
open Elf (slice fromBeBytes encodeInt Has)

structure Name where
  chars : List UInt8
  ascii : ∀ char ∈ chars, char ≠ 0 ∧ char < 0x80

inductive Body where
  | nil
  | nop (rest : Body)
  | prop (nameoff : Nat) (name : Name) (value : List UInt8) (rest : Body)
  | node (name : Name) (body rest : Body)

def be32 (value : Nat) : List UInt8 := encodeInt .big 4 value

def pad (size : Nat) : List UInt8 := List.replicate ((4 - size % 4) % 4) 0

def Name.encode (name : Name) : List UInt8 := name.chars ++ 0 :: pad (name.chars.length + 1)

def Body.encode : Body → List UInt8
  | .nil => []
  | .nop rest => be32 fdtNop ++ rest.encode
  | .prop nameoff _ value rest =>
    be32 fdtProp ++ (be32 value.length ++ (be32 nameoff ++ (value ++ (pad value.length ++ rest.encode))))
  | .node name body rest => be32 fdtBeginNode ++ (name.encode ++ (body.encode ++ (be32 fdtEndNode ++ rest.encode)))

def IsCells (name : List UInt8) : Prop := name = sizeCellsName ∨ name = addressCellsName

/-- The strings block has every property's name at the place the property gives, and a count of cells is one word. -/
def Body.Encodable (stringsBuf : List UInt8) : Body → Prop
  | .nil => True
  | .nop rest => rest.Encodable stringsBuf
  | .prop nameoff name value rest =>
    (nameoff < 256 ^ 4 ∧ value.length < 256 ^ 4 ∧ Has stringsBuf nameoff (name.chars ++ [0]) ∧
      (IsCells name.chars → value.length = 4)) ∧ rest.Encodable stringsBuf
  | .node _ body rest => body.Encodable stringsBuf ∧ rest.Encodable stringsBuf

section Words

@[simp] theorem length_be32 (value : Nat) : (be32 value).length = 4 := Elf.length_encodeInt .big 4 value

theorem fromBeBytes_be32 {value : Nat} (fits : value < 256 ^ 4) : fromBeBytes (be32 value) = value :=
  Elf.readInt_encodeInt .big fits

theorem u32_has {bytes : List UInt8} {offset value : Nat} (has : Has bytes offset (be32 value)) (fits : value < 256 ^ 4) :
    u32 bytes offset = .ok value := by
  rw [u32, has.slice (by rw [length_be32]), ok_bind, fromBeBytes_be32 fits]
  rfl

theorem u32_front (value : Nat) (rest : List UInt8) (fits : value < 256 ^ 4) : u32 (be32 value ++ rest) 0 = .ok value :=
  u32_has ⟨[], rest, rfl, rfl⟩ fits

theorem suffix_append (before after : List UInt8) {start : Nat} (size : start = before.length) :
    suffix (before ++ after) start = .ok after := by
  rw [suffix_ok, size, drop_left, length_append]
  exact ⟨by omega, rfl⟩

theorem suffix_has {bytes field : List UInt8} {offset : Nat} (has : Has bytes offset field) :
    ∃ after, suffix bytes offset = .ok (field ++ after) := by
  obtain ⟨before, after, place, rfl⟩ := has
  rw [append_assoc]
  exact ⟨after, suffix_append before _ place.symm⟩

theorem debugAssertEq_self (value : Nat) : debugAssertEq value value = .ok () := if_pos rfl

theorem parseNullString_name (name : Name) (rest : List UInt8) :
    parseNullString (name.chars ++ 0 :: rest) = .ok (0 :: rest, name.chars) := by
  obtain ⟨chars, ascii⟩ := name
  induction chars with
  | nil => rfl
  | cons char others ih =>
    obtain ⟨first, ascii⟩ := forall_mem_cons.mp ascii
    rw [cons_append, parseNullString, if_pos first.1, ih ascii]
    rfl

theorem len_name (name : Name) : len name.chars = name.chars.length := by
  obtain ⟨chars, ascii⟩ := name
  induction chars with
  | nil => rfl
  | cons char others ih =>
    obtain ⟨first, ascii⟩ := forall_mem_cons.mp ascii
    have tail := ih ascii
    simp only [len, map_cons, sum_cons, if_pos first.2, length_cons] at tail ⊢
    omega

end Words

section Turns
variable {stringsBuf : List UInt8} (fuel : Nat) (rest : List UInt8) (node : Node)

theorem parse_named (name : Name) :
    parse stringsBuf (fuel + 1) (be32 fdtBeginNode ++ (name.encode ++ rest)) =
      parseBody stringsBuf fuel rest (named name.chars) := by
  have string : parseNullString (name.encode ++ rest) = .ok (0 :: (pad (name.chars.length + 1) ++ rest), name.chars) := by
    rw [Name.encode, append_assoc, cons_append, parseNullString_name]
  have padding : suffix (0 :: (pad (name.chars.length + 1) ++ rest)) (4 - name.chars.length % 4) = .ok rest := by
    rw [← cons_append]
    apply suffix_append
    rw [length_cons, pad, length_replicate]
    omega
  rw [parse, suffix_append _ _ (length_be32 _).symm, ok_bind, string, ok_bind]
  simp only [len_name, padding, ok_bind]

theorem parseBody_end :
    parseBody stringsBuf (fuel + 1) (be32 fdtEndNode ++ rest) node = .ok (be32 fdtEndNode ++ rest, node) := by
  rw [parseBody, u32_front _ _ (by decide), ok_bind, if_pos rfl]
  rfl

theorem parseBody_nop :
    parseBody stringsBuf (fuel + 1) (be32 fdtNop ++ rest) node = parseBody stringsBuf fuel rest node := by
  rw [parseBody, u32_front _ _ (by decide), ok_bind, if_neg (by decide), if_neg (by decide), if_pos rfl,
    suffix_append _ _ (length_be32 _).symm, ok_bind]

theorem parseBody_child {tail : List UInt8} {child : Node}
    (read : parse stringsBuf fuel (be32 fdtBeginNode ++ tail) = .ok (be32 fdtEndNode ++ rest, child)) :
    parseBody stringsBuf (fuel + 1) (be32 fdtBeginNode ++ tail) node =
      parseBody stringsBuf fuel rest (node.pushChild child) := by
  rw [parseBody, u32_front _ _ (by decide), ok_bind, if_neg (by decide), if_pos rfl, read, ok_bind]
  simp only [u32_front fdtEndNode rest (by decide), debugAssertEq_self, suffix_append _ _ (length_be32 _).symm, ok_bind]

theorem parseBody_prop {nameoff : Nat} {name : Name} {value : List UInt8} (offFits : nameoff < 256 ^ 4)
    (fits : value.length < 256 ^ 4) (named : Has stringsBuf nameoff (name.chars ++ [0])) :
    parseBody stringsBuf (fuel + 1)
        (be32 fdtProp ++ (be32 value.length ++ (be32 nameoff ++ (value ++ (pad value.length ++ rest))))) node =
      node.pushProperty name.chars value >>= parseBody stringsBuf fuel rest := by
  obtain ⟨after, strings⟩ := suffix_has named
  rw [append_assoc, singleton_append] at strings
  have size : u32 (be32 fdtProp ++ (be32 value.length ++ (be32 nameoff ++ (value ++ (pad value.length ++ rest))))) 4 =
      .ok value.length := u32_has ⟨be32 fdtProp, _, length_be32 _, (append_assoc _ _ _).symm⟩ fits
  have off : u32 (be32 fdtProp ++ (be32 value.length ++ (be32 nameoff ++ (value ++ (pad value.length ++ rest))))) 8 =
      .ok nameoff := by
    apply u32_has ⟨be32 fdtProp ++ be32 value.length, value ++ (pad value.length ++ rest), ?_, ?_⟩ offFits
    · simp only [length_append, length_be32]
    · simp only [append_assoc]
  have behind : suffix (be32 fdtProp ++ (be32 value.length ++ (be32 nameoff ++ (value ++ (pad value.length ++ rest))))) 12 =
      .ok (value ++ (pad value.length ++ rest)) := by
    rw [← append_assoc (be32 value.length), ← append_assoc (be32 fdtProp)]
    apply suffix_append
    simp only [length_append, length_be32]
  have here : slice (value ++ (pad value.length ++ rest)) 0 value.length = .ok value :=
    Has.slice ⟨[], _, rfl, rfl⟩ (Nat.zero_add _).symm
  have later : suffix (value ++ (pad value.length ++ rest)) (value.length + (4 - value.length % 4) % 4) = .ok rest := by
    rw [← append_assoc]
    apply suffix_append
    rw [length_append, pad, length_replicate]
  rw [parseBody, u32_front _ _ (by decide), ok_bind, if_neg (by decide), if_neg (by decide), if_neg (by decide),
    debugAssertEq_self, ok_bind, size, ok_bind, off, ok_bind, behind, ok_bind, strings, ok_bind, parseNullString_name, ok_bind]
  simp only [here, later, ok_bind]

end Turns

def Node.withProperty (node : Node) (name value : List UInt8) : Node :=
  if name = sizeCellsName then node.setSizeCells (fromBeBytes value)
  else if name = addressCellsName then node.setAddressCells (fromBeBytes value)
  else { node with progs := node.progs ++ [⟨name, value⟩] }

def Body.fill : Body → Node → Node
  | .nil, now => now
  | .nop rest, now => rest.fill now
  | .prop _ name value rest, now => rest.fill (now.withProperty name.chars value)
  | .node name body rest, now => rest.fill (now.pushChild (body.fill (named name.chars)))

theorem pushProperty_eq (node : Node) {name value : List UInt8} (word : IsCells name → value.length = 4) :
    node.pushProperty name value = .ok (node.withProperty name value) := by
  have whole (four : value.length = 4) : u32 value 0 = .ok (fromBeBytes value) := by
    have has : Has value 0 value := ⟨[], [], rfl, (append_nil value).symm⟩
    rw [u32, has.slice (by rw [four]), ok_bind]
    rfl
  rw [Node.pushProperty, Node.withProperty]
  by_cases size : name = sizeCellsName
  · rw [if_pos size, if_pos size, whole (word (Or.inl size)), ok_bind]
    rfl
  by_cases address : name = addressCellsName
  · rw [if_neg size, if_neg size, if_pos address, if_pos address, whole (word (Or.inr address)), ok_bind]
    rfl
  · rw [if_neg size, if_neg size, if_neg address, if_neg address]
    rfl

theorem parseBody_encode {stringsBuf : List UInt8} (body : Body) (encodable : body.Encodable stringsBuf) (fuel : Nat)
    (enough : body.encode.length < fuel) (rest : List UInt8) (node : Node) :
    parseBody stringsBuf fuel (body.encode ++ (be32 fdtEndNode ++ rest)) node =
      .ok (be32 fdtEndNode ++ rest, body.fill node) := by
  induction body generalizing fuel rest node with
  | nil =>
    obtain ⟨fuel, rfl⟩ := Nat.exists_eq_add_one_of_ne_zero (Nat.ne_of_gt enough)
    exact parseBody_end fuel rest node
  | nop later ih =>
    obtain ⟨fuel, rfl⟩ := Nat.exists_eq_add_one_of_ne_zero (Nat.ne_zero_of_lt enough)
    rw [Body.encode, length_append, length_be32] at enough
    rw [Body.encode, append_assoc, parseBody_nop]
    exact ih encodable fuel (by omega) rest node
  | prop nameoff name value later ih =>
    obtain ⟨⟨offFits, fits, named, word⟩, encodable⟩ := encodable
    obtain ⟨fuel, rfl⟩ := Nat.exists_eq_add_one_of_ne_zero (Nat.ne_zero_of_lt enough)
    simp only [Body.encode, length_append, length_be32] at enough
    simp only [Body.encode, append_assoc]
    rw [parseBody_prop fuel _ node offFits fits named, pushProperty_eq node word, ok_bind]
    exact ih encodable fuel (by omega) rest _
  | node name body later ihBody ihLater =>
    obtain ⟨inner, outer⟩ := encodable
    simp only [Body.encode, length_append, length_be32] at enough
    obtain ⟨fuel, rfl⟩ : ∃ more, fuel = more + 2 := ⟨fuel - 2, by omega⟩
    have read := (parse_named fuel (body.encode ++ (be32 fdtEndNode ++ (later.encode ++ (be32 fdtEndNode ++ rest)))) name).trans
      (ihBody inner fuel (by omega) (later.encode ++ (be32 fdtEndNode ++ rest)) (named name.chars))
    simp only [Body.encode, append_assoc]
    rw [parseBody_child (fuel + 1) _ node read]
    exact ihLater outer (fuel + 1) (by omega) rest _

section Meaning

def Body.progs : Body → List Property
  | .nil => []
  | .nop rest => rest.progs
  | .prop _ name value rest =>
    if name.chars = sizeCellsName ∨ name.chars = addressCellsName then rest.progs else ⟨name.chars, value⟩ :: rest.progs
  | .node _ _ rest => rest.progs

def Body.declared (key : List UInt8) : Body → Option Nat
  | .nil => none
  | .nop rest => rest.declared key
  | .prop _ name value rest => rest.declared key <|> if name.chars = key then some (fromBeBytes value) else none
  | .node _ _ rest => rest.declared key

def Body.sizeCells (body : Body) : Nat := (body.declared sizeCellsName).getD 1

def Body.addressCells (body : Body) : Nat := (body.declared addressCellsName).getD 2

def Body.childNodes : Body → Nat → Nat → List Node
  | .nil, _, _ => []
  | .nop rest, sizeCells, addressCells => rest.childNodes sizeCells addressCells
  | .prop _ _ _ rest, sizeCells, addressCells => rest.childNodes sizeCells addressCells
  | .node name body rest, sizeCells, addressCells =>
    { name := name.chars
      progs := body.progs
      childNodes := body.childNodes body.sizeCells body.addressCells
      sizeCells := sizeCells
      addressCells := addressCells } :: rest.childNodes sizeCells addressCells

def Body.describes (body : Body) (name : Name) : Node where
  name := name.chars
  progs := body.progs
  childNodes := body.childNodes body.sizeCells body.addressCells
  sizeCells := body.sizeCells
  addressCells := body.addressCells

def Node.withCells (sizeCells addressCells : Nat) (node : Node) : Node :=
  { node with sizeCells := sizeCells, addressCells := addressCells }

def Node.Patched (node : Node) : Prop :=
  ∀ child ∈ node.childNodes, child.withCells node.sizeCells node.addressCells = child

theorem patched_named (name : List UInt8) : (named name).Patched := nofun

theorem Node.Patched.pushChild {node : Node} (patched : node.Patched) (child : Node) : (node.pushChild child).Patched := by
  intro other member
  obtain before | last := mem_append.mp member
  · exact patched other before
  · rw [mem_singleton.mp last]
    rfl

theorem Node.Patched.withProperty {node : Node} (patched : node.Patched) (name value : List UInt8) :
    (node.withProperty name value).Patched := by
  rw [Node.withProperty]
  split
  · intro other member
    obtain ⟨child, before, rfl⟩ := mem_map.mp member
    rw [← patched child before]
    rfl
  split
  · intro other member
    obtain ⟨child, before, rfl⟩ := mem_map.mp member
    rw [← patched child before]
    rfl
  · exact patched

theorem orElse_some_getD (found : Option Nat) (value start : Nat) : (found <|> some value).getD start = found.getD value := by
  cases found <;> rfl

theorem orElse_none_getD (found : Option Nat) (start : Nat) : (found <|> none).getD start = found.getD start := by
  cases found <;> rfl

theorem fill_eq (body : Body) (node : Node) (patched : node.Patched) :
    body.fill node =
      { name := node.name
        progs := node.progs ++ body.progs
        childNodes :=
          node.childNodes.map
              (withCells ((body.declared sizeCellsName).getD node.sizeCells)
                ((body.declared addressCellsName).getD node.addressCells)) ++
            body.childNodes ((body.declared sizeCellsName).getD node.sizeCells)
              ((body.declared addressCellsName).getD node.addressCells)
        sizeCells := (body.declared sizeCellsName).getD node.sizeCells
        addressCells := (body.declared addressCellsName).getD node.addressCells } := by
  induction body generalizing node with
  | nil =>
    have same : node.childNodes.map (withCells node.sizeCells node.addressCells) = node.childNodes :=
      (map_congr_left patched).trans (map_id' _)
    simp only [Body.fill, Body.progs, Body.declared, Body.childNodes, Option.getD_none, append_nil, same]
    cases node
    rfl
  | nop rest ih => exact ih node patched
  | prop nameoff name value rest ih =>
    rw [Body.fill, ih _ (patched.withProperty _ _), Node.withProperty, Body.progs, Body.declared, Body.declared, Body.childNodes]
    by_cases size : name.chars = sizeCellsName
    · have other : name.chars ≠ addressCellsName := size ▸ by decide
      simp only [if_pos size, if_neg other, if_pos (Or.inl size), Node.setSizeCells, map_map, orElse_some_getD,
        orElse_none_getD]
      rfl
    by_cases address : name.chars = addressCellsName
    · simp only [if_neg size, if_pos address, if_pos (Or.inr address), Node.setAddressCells, map_map, orElse_some_getD,
        orElse_none_getD]
      rfl
    · simp only [if_neg size, if_neg address, if_neg (not_or.mpr ⟨size, address⟩), orElse_none_getD, append_assoc,
        singleton_append]
  | node name body rest ihBody ihRest =>
    rw [Body.fill, ihRest _ (patched.pushChild _), ihBody _ (patched_named _), Body.progs, Body.declared, Body.declared,
      Body.childNodes]
    simp only [Node.pushChild, map_append, append_assoc]
    rfl

end Meaning

structure Tree where
  version : Nat
  name : Name
  body : Body

def Tree.encode (tree : Tree) : List UInt8 :=
  be32 fdtBeginNode ++ (tree.name.encode ++ (tree.body.encode ++ (be32 fdtEndNode ++ be32 fdtEnd)))

/-- The two blocks of a tree at the places the header gives; everything else in the file is free. -/
structure Encodes (tree : Tree) (structOff stringsOff : Nat) (bytes : List UInt8) : Prop where
  magic : Has bytes 0 magic
  structAt : Has bytes 8 (be32 structOff)
  structFits : structOff < 256 ^ 4
  stringsAt : Has bytes 12 (be32 stringsOff)
  stringsFits : stringsOff < 256 ^ 4
  versionAt : Has bytes 20 (be32 tree.version)
  versionFits : tree.version < 256 ^ 4
  structBlock : Has bytes structOff tree.encode
  stringsInside : stringsOff ≤ bytes.length
  stringsBlock : tree.body.Encodable (bytes.drop stringsOff)

theorem parse_encode {stringsBuf : List UInt8} {tree : Tree} (encodable : tree.body.Encodable stringsBuf)
    (after : List UInt8) :
    parse stringsBuf ((tree.encode ++ after).length + 1) (tree.encode ++ after) =
      .ok (be32 fdtEndNode ++ (be32 fdtEnd ++ after), tree.body.describes tree.name) := by
  have enough : tree.body.encode.length < (tree.encode ++ after).length := by
    simp only [Tree.encode, length_append, length_be32]
    omega
  simp only [Tree.encode, append_assoc] at enough ⊢
  rw [parse_named, parseBody_encode tree.body encodable _ enough, fill_eq _ _ (patched_named _)]
  rfl

/-- A file that encodes a device tree is read back, with the counts of cells that every node declares for those
    below it. -/
theorem DeviceTree.parse_eq_described {tree : Tree} {structOff stringsOff : Nat} {bytes : List UInt8}
    (encodes : Encodes tree structOff stringsOff bytes) :
    DeviceTree.parse bytes = .ok (.ok { version := tree.version, root := tree.body.describes tree.name }) := by
  obtain ⟨after, structBuf⟩ := suffix_has encodes.structBlock
  have strings : suffix bytes stringsOff = .ok (bytes.drop stringsOff) := suffix_ok.mpr ⟨encodes.stringsInside, rfl⟩
  have last : u32 (be32 fdtEndNode ++ (be32 fdtEnd ++ after)) 4 = .ok fdtEnd :=
    u32_has ⟨be32 fdtEndNode, after, length_be32 _, (append_assoc _ _ _).symm⟩ (by decide)
  rw [DeviceTree.parse, if_pos encodes.magic.isPrefixOf, u32_has encodes.structAt encodes.structFits, ok_bind,
    u32_has encodes.stringsAt encodes.stringsFits, ok_bind, u32_has encodes.versionAt encodes.versionFits, ok_bind,
    strings, ok_bind, structBuf, ok_bind, parse_encode encodes.stringsBlock, ok_bind]
  simp only [last, debugAssertEq_self, ok_bind]
  rfl

def sampleName (text : List Char) (ascii : ∀ char ∈ chars text, char ≠ 0 ∧ char < 0x80) : Name := ⟨chars text, ascii⟩

def sampleTree : Tree where
  version := 17
  name := sampleName [] (by decide +kernel)
  body :=
    .nop (.node (sampleName ['c', 'p', 'u'] (by decide +kernel))
      (.prop 0 (sampleName ['r', 'e', 'g'] (by decide +kernel)) [0, 0, 0, 1, 9] .nil)
      (.prop 4 ⟨addressCellsName, by decide +kernel⟩ [0, 0, 0, 1]
        (.node (sampleName ['m', 'e', 'm', '0'] (by decide +kernel)) (.nop .nil) .nil)))

def sampleBytes : List UInt8 :=
  magic ++ be32 0 ++ be32 24 ++ be32 (24 + sampleTree.encode.length) ++ be32 0 ++ be32 17 ++ sampleTree.encode ++
    (chars ['r', 'e', 'g'] ++ [0] ++ addressCellsName ++ [0])

theorem sample_encodes : Encodes sampleTree 24 (24 + sampleTree.encode.length) sampleBytes where
  magic := Elf.has_of_slice (by decide +kernel) (by decide +kernel)
  structAt := Elf.has_of_slice (by decide +kernel) (by decide +kernel)
  structFits := by decide +kernel
  stringsAt := Elf.has_of_slice (by decide +kernel) (by decide +kernel)
  stringsFits := by decide +kernel
  versionAt := Elf.has_of_slice (by decide +kernel) (by decide +kernel)
  versionFits := by decide +kernel
  structBlock := Elf.has_of_slice (by decide +kernel) (by decide +kernel)
  stringsInside := by decide +kernel
  stringsBlock := by
    refine ⟨⟨⟨by decide, by decide, Elf.has_of_slice (by decide +kernel) (by decide +kernel), fun cells => ?_⟩, trivial⟩,
      ⟨by decide, by decide, Elf.has_of_slice (by decide +kernel) (by decide +kernel), fun _ => rfl⟩, trivial, trivial⟩
    obtain cells | cells := cells <;> exact absurd cells (by decide)

theorem sample_read_back :
    ∃ tree, DeviceTree.parse sampleBytes = .ok (.ok tree) ∧
      tree.root.childNodes.map (fun child => (child.sizeCells, child.addressCells)) = [(1, 1), (1, 1)] :=
  ⟨_, DeviceTree.parse_eq_described sample_encodes, by decide⟩

end Kernel31.Dtb
