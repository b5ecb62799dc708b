import Kernel31.Elf.Slices

namespace Kernel31.Dtb

open Checked
open Elf (slice fromBeBytes)

def magic : List UInt8 := [0xd0, 0x0d, 0xfe, 0xed]
def fdtBeginNode : Nat := 0x01
def fdtEndNode : Nat := 0x02
def fdtProp : Nat := 0x03
def fdtNop : Nat := 0x04
def fdtEnd : Nat := 0x09

def u32 (bytes : List UInt8) (offset : Nat) : Exec Nat := do
  let field ← slice bytes offset (offset + 4)
  pure (fromBeBytes field)

def suffix (bytes : List UInt8) (start : Nat) : Exec (List UInt8) := slice bytes start bytes.length

def debugAssertEq (left right : Nat) : Exec Unit := if left = right then pure () else throw .assertion

/-- Each byte is pushed as the character of that number. -/
def parseNullString : List UInt8 → Exec (List UInt8 × List UInt8)
  | [] => throw .indexOutOfBounds
  | byte :: rest =>
    if byte ≠ 0 then do
      let (bytes, string) ← parseNullString rest
      pure (bytes, byte :: string)
    else pure (byte :: rest, [])

def len (string : List UInt8) : Nat := (string.map fun char => if char < 0x80 then 1 else 2).sum

def chars (text : List Char) : List UInt8 := text.map fun char => UInt8.ofNat char.toNat

def sizeCellsName : List UInt8 := chars ['#', 's', 'i', 'z', 'e', '-', 'c', 'e', 'l', 'l', 's']
def addressCellsName : List UInt8 := chars ['#', 'a', 'd', 'd', 'r', 'e', 's', 's', '-', 'c', 'e', 'l', 'l', 's']

inductive ParseError where
  | invalidHeader (header : List UInt8)
  deriving DecidableEq, Repr

structure Property where
  name : List UInt8
  value : List UInt8
  deriving DecidableEq, Repr

structure Node where
  name : List UInt8
  progs : List Property
  childNodes : List Node
  sizeCells : Nat
  addressCells : Nat

def Node.named (name : List UInt8) : Node where
  name := name
  progs := []
  childNodes := []
  sizeCells := 1
  addressCells := 2

def Node.pushChild (node childNode : Node) : Node :=
  { node with
    childNodes := node.childNodes ++ [{ childNode with sizeCells := node.sizeCells, addressCells := node.addressCells }] }

def Node.setSizeCells (node : Node) (sizeCells : Nat) : Node :=
  { node with
    sizeCells := sizeCells
    childNodes := node.childNodes.map fun child => { child with sizeCells := sizeCells } }

def Node.setAddressCells (node : Node) (addressCells : Nat) : Node :=
  { node with
    addressCells := addressCells
    childNodes := node.childNodes.map fun child => { child with addressCells := addressCells } }

def Node.pushProperty (node : Node) (name value : List UInt8) : Exec Node :=
  if name = sizeCellsName then do
    let sizeCells ← u32 value 0
    pure (node.setSizeCells sizeCells)
  else if name = addressCellsName then do
    let addressCells ← u32 value 0
    pure (node.setAddressCells addressCells)
  else pure { node with progs := node.progs ++ [⟨name, value⟩] }

mutual

def Node.parse (stringsBuf : List UInt8) : Nat → List UInt8 → Exec (List UInt8 × Node)
  | 0, _ => throw .recursion
  | fuel + 1, bytes => do
    let bytes ← suffix bytes 4
    let (bytes, name) ← parseNullString bytes
    let bytes ← suffix bytes (4 - len name % 4)
    Node.parseBody stringsBuf fuel bytes (Node.named name)

def Node.parseBody (stringsBuf : List UInt8) : Nat → List UInt8 → Node → Exec (List UInt8 × Node)
  | 0, _, _ => throw .recursion
  | fuel + 1, bytes, node => do
    let token ← u32 bytes 0
    if token = fdtEndNode then pure (bytes, node)
    else if token = fdtBeginNode then do
      let (bytes, childNode) ← Node.parse stringsBuf fuel bytes
      let token ← u32 bytes 0
      debugAssertEq token fdtEndNode
      let bytes ← suffix bytes 4
      Node.parseBody stringsBuf fuel bytes (node.pushChild childNode)
    else if token = fdtNop then do
      let bytes ← suffix bytes 4
      Node.parseBody stringsBuf fuel bytes node
    else do
      debugAssertEq token fdtProp
      let len ← u32 bytes 4
      let nameoff ← u32 bytes 8
      let bytes ← suffix bytes 12
      let strings ← suffix stringsBuf nameoff
      let (_, name) ← parseNullString strings
      let value ← slice bytes 0 len
      let bytes ← suffix bytes (len + (4 - len % 4) % 4)
      let node ← node.pushProperty name value
      Node.parseBody stringsBuf fuel bytes node

end

structure DeviceTree where
  version : Nat
  root : Node

/-- Every turn of the parser takes a token off the buffer, so that its length is enough fuel. -/
def DeviceTree.parse (bytes : List UInt8) : Exec (Except ParseError DeviceTree) :=
  if magic.isPrefixOf bytes then do
    let structOff ← u32 bytes 8
    let stringsOff ← u32 bytes 12
    let version ← u32 bytes 20
    let stringsBuf ← suffix bytes stringsOff
    let structBuf ← suffix bytes structOff
    let (structBuf, root) ← Node.parse stringsBuf (structBuf.length + 1) structBuf
    let token ← u32 structBuf 4
    debugAssertEq token fdtEnd
    pure (.ok { version := version, root := root })
  else do
    let header ← slice bytes 0 4
    pure (.error (.invalidHeader header))

theorem suffix_ok {bytes rest : List UInt8} {start : Nat} :
    suffix bytes start = .ok rest ↔ start ≤ bytes.length ∧ rest = bytes.drop start := by
  rw [suffix, slice]
  by_cases inside : start ≤ bytes.length
  · rw [if_pos ⟨inside, le_rfl⟩, pure_ok, List.take_of_length_le (by rw [List.length_drop])]
    exact ⟨fun same => ⟨inside, same.symm⟩, fun both => both.2.symm⟩
  · rw [if_neg fun both => inside both.1, throw_ok]
    exact ⟨False.elim, fun both => inside both.1⟩

end Kernel31.Dtb
