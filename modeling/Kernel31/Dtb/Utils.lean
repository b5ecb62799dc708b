import Kernel31.Dtb.Parse
import Kernel31.Elf.Fields
import Kernel31.Library.Utf8

namespace Kernel31.Dtb

open Checked List
open Elf (slice fromBeBytes fromLeBytes leBytes encodeInt fromLeBytes_leBytes leBytes_add length_encodeInt Has)

def Node.getProperty (self : Node) (name : List UInt8) : Option (List UInt8) :=
  (self.progs.find? fun prog => prog.name = name).map Property.value

def atSign : UInt8 := 0x40

def slash : UInt8 := 0x2f

def nodeName (node : List UInt8) : List UInt8 := node.takeWhile (· ≠ atSign)

def utf8 (string : List UInt8) : List UInt8 :=
  string.flatMap fun char => if char < 0x80 then [char] else [(0xc0 : UInt8) ||| (char >>> 6), (0x80 : UInt8) ||| (char &&& 0x3f)]

def Node.findChild (root : Node) (component : List UInt8) : Option Node :=
  root.childNodes.find? fun node => utf8 node.name = component

/-- The loop of `node_by_alias`. A turn that finds no child changes neither the node nor the path. -/
def aliasLoop : Nat → Node → List (List UInt8) → Exec (Option Node)
  | 0, _, _ => throw .recursion
  | _ + 1, _, [] => pure none
  | fuel + 1, root, component :: path =>
    match root.findChild component with
    | some node => if path = [] then pure (some node) else aliasLoop fuel node path
    | none => aliasLoop fuel root (component :: path)

def nodeByAlias (fuel : Nat) (root : Node) (name : List UInt8) : Exec (Option Node) :=
  if name.length = 0 then throw .overflow
  else aliasLoop fuel root ((List.splitOn slash (Utf8.lossy (name.take (name.length - 1)))).drop 1)

def checkCompatibleLoop (compatible : List UInt8) : Nat → List UInt8 → Bool
  | 0, _ => false
  | fuel + 1, value =>
    match value.idxOf? 0 with
    | some nullIdx =>
      if nullIdx = compatible.length ∧ compatible = value.take nullIdx then true
      else checkCompatibleLoop compatible fuel (value.drop (nullIdx + 1))
    | none => false

def checkCompatible (value compatible : List UInt8) : Bool := checkCompatibleLoop compatible value.length value

def beField (reg : List UInt8) (start stop : Nat) : Exec Nat := do
  let field ← slice reg start stop
  pure (fromBeBytes field)

def parseRegLoop (addressCells sizeCells : Nat) : Nat → List UInt8 → Exec (List (Nat × Nat))
  | 0, _ => pure []
  | count + 1, reg => do
    let regAddr ← if addressCells = 2 then beField reg 0 8 else beField reg 0 4
    let regSize ← if sizeCells = 2 then beField reg 8 16 else beField reg 4 8
    let reg ← suffix reg (4 * sizeCells + 4 * addressCells)
    let regs ← parseRegLoop addressCells sizeCells count reg
    pure ((regAddr, regSize) :: regs)

/-- `parse_reg`: the division by the size of an entry panics when there are no cells at all. -/
def parseReg (reg : List UInt8) (addressCells sizeCells : Nat) : Exec (List (Nat × Nat)) :=
  if 4 * sizeCells + 4 * addressCells = 0 then throw .overflow
  else parseRegLoop addressCells sizeCells (reg.length / (4 * sizeCells + 4 * addressCells)) reg

def encodeReg (addressCells sizeCells : Nat) (regs : List (Nat × Nat)) : List UInt8 :=
  regs.flatMap fun reg => encodeInt .big (4 * addressCells) reg.1 ++ encodeInt .big (4 * sizeCells) reg.2

section Reg
variable {addressCells sizeCells : Nat}

theorem fromBeBytes_encodeInt (size value : Nat) : fromBeBytes (encodeInt .big size value) = value % 256 ^ size := by
  rw [encodeInt, fromBeBytes, reverse_reverse, fromLeBytes_leBytes]

theorem encodeInt_big_double (value : Nat) :
    encodeInt .big 8 value = encodeInt .big 4 (value / 256 ^ 4) ++ encodeInt .big 4 value := by
  simp only [encodeInt, show (8 : Nat) = 4 + 4 from rfl, leBytes_add, reverse_append]

theorem encodeReg_cons (reg : Nat × Nat) (regs : List (Nat × Nat)) :
    encodeReg addressCells sizeCells (reg :: regs) = encodeInt .big (4 * addressCells) reg.1 ++
      (encodeInt .big (4 * sizeCells) reg.2 ++ encodeReg addressCells sizeCells regs) := by
  simp only [encodeReg, flatMap_cons, append_assoc]

theorem length_encodeReg (regs : List (Nat × Nat)) :
    (encodeReg addressCells sizeCells regs).length = regs.length * (4 * sizeCells + 4 * addressCells) := by
  induction regs with
  | nil => rw [length_nil, Nat.zero_mul]; rfl
  | cons reg regs ih =>
    rw [encodeReg_cons, length_append, length_append, length_encodeInt, length_encodeInt, ih, length_cons,
      Nat.succ_mul regs.length]
    omega

theorem suffix_encodeReg (reg : Nat × Nat) (regs : List (Nat × Nat)) :
    suffix (encodeReg addressCells sizeCells (reg :: regs)) (4 * sizeCells + 4 * addressCells) =
      .ok (encodeReg addressCells sizeCells regs) := by
  rw [suffix_ok, encodeReg_cons, ← append_assoc]
  have length : (encodeInt .big (4 * addressCells) reg.1 ++ encodeInt .big (4 * sizeCells) reg.2).length =
      4 * sizeCells + 4 * addressCells := by
    rw [length_append, length_encodeInt, length_encodeInt, Nat.add_comm]
  exact ⟨by rw [length_append, length]; omega, (drop_left' length).symm⟩

theorem beField_has {reg field : List UInt8} {start stop : Nat} (has : Has reg start field)
    (sized : stop = start + field.length) : beField reg start stop = .ok (fromBeBytes field) := by
  rw [beField, has.slice sized, ok_bind, pure_eq]

theorem beField_encoded {reg : List UInt8} {start stop size value : Nat}
    (has : Has reg start (encodeInt .big size value)) (sized : stop = start + size) (fits : value < 256 ^ size) :
    beField reg start stop = .ok value := by
  rw [beField_has has (by rw [length_encodeInt, sized]), fromBeBytes_encodeInt, Nat.mod_eq_of_lt fits]

section

variable (cells : addressCells = 1 ∨ addressCells = 2)
include cells

theorem parseRegLoop_cons {count size : Nat} {reg : Nat × Nat} {regs : List (Nat × Nat)}
    (fits : reg.1 < 256 ^ (4 * addressCells))
    (read : (if sizeCells = 2 then beField (encodeReg addressCells sizeCells (reg :: regs)) 8 16
      else beField (encodeReg addressCells sizeCells (reg :: regs)) 4 8) = .ok size) :
    parseRegLoop addressCells sizeCells (count + 1) (encodeReg addressCells sizeCells (reg :: regs)) =
      (parseRegLoop addressCells sizeCells count (encodeReg addressCells sizeCells regs)).map ((reg.1, size) :: ·) := by
  have address : (if addressCells = 2 then beField (encodeReg addressCells sizeCells (reg :: regs)) 0 8
      else beField (encodeReg addressCells sizeCells (reg :: regs)) 0 4) = .ok reg.1 := by
    have has : Has (encodeReg addressCells sizeCells (reg :: regs)) 0 (encodeInt .big (4 * addressCells) reg.1) :=
      ⟨[], _, rfl, encodeReg_cons reg regs⟩
    rcases cells with rfl | rfl
    · rw [if_neg (by decide), beField_encoded has rfl fits]
    · rw [if_pos rfl, beField_encoded has rfl fits]
  have rest := @suffix_encodeReg addressCells sizeCells reg regs
  have turn : parseRegLoop addressCells sizeCells (count + 1) (encodeReg addressCells sizeCells (reg :: regs)) =
      (parseRegLoop addressCells sizeCells count (encodeReg addressCells sizeCells regs)) >>= fun regs =>
        pure ((reg.1, size) :: regs) := by
    rw [parseRegLoop]
    by_cases two : addressCells = 2 <;> by_cases double : sizeCells = 2 <;>
      simp only [two, double, if_true, if_false] at address read rest ⊢ <;>
      rw [address, ok_bind, read, ok_bind, rest, ok_bind]
  rw [turn]
  cases parseRegLoop addressCells sizeCells count (encodeReg addressCells sizeCells regs) <;> rfl

theorem parseRegLoop_sizes {size : Nat × Nat → Nat}
    (read : ∀ reg regs, reg.1 < 256 ^ (4 * addressCells) → reg.2 < 256 ^ (4 * sizeCells) →
      (if sizeCells = 2 then beField (encodeReg addressCells sizeCells (reg :: regs)) 8 16
        else beField (encodeReg addressCells sizeCells (reg :: regs)) 4 8) = .ok (size reg)) :
    ∀ {regs : List (Nat × Nat)}, (∀ reg ∈ regs, reg.1 < 256 ^ (4 * addressCells) ∧ reg.2 < 256 ^ (4 * sizeCells)) →
      parseRegLoop addressCells sizeCells regs.length (encodeReg addressCells sizeCells regs) =
        .ok (regs.map fun reg => (reg.1, size reg)) := by
  intro regs fit
  induction regs with
  | nil => rfl
  | cons reg regs ih =>
    obtain ⟨fits, narrow⟩ := fit reg mem_cons_self
    rw [length_cons, parseRegLoop_cons cells fits (read reg regs fits narrow),
      ih fun reg mem => fit reg (mem_cons_of_mem _ mem)]
    rfl

theorem size_equal (reg : Nat × Nat) (regs : List (Nat × Nat)) (fits : reg.2 < 256 ^ (4 * addressCells)) :
    (if addressCells = 2 then beField (encodeReg addressCells addressCells (reg :: regs)) 8 16
      else beField (encodeReg addressCells addressCells (reg :: regs)) 4 8) = .ok reg.2 := by
  have has : Has (encodeReg addressCells addressCells (reg :: regs)) (4 * addressCells)
      (encodeInt .big (4 * addressCells) reg.2) :=
    ⟨encodeInt .big (4 * addressCells) reg.1, _, length_encodeInt _ _ _, by rw [encodeReg_cons, append_assoc]⟩
  rcases cells with rfl | rfl
  · rw [if_neg (by decide), beField_encoded has rfl fits]
  · rw [if_pos rfl, beField_encoded has rfl fits]

end

theorem size_single (reg : Nat × Nat) (regs : List (Nat × Nat)) :
    beField (encodeReg 2 1 (reg :: regs)) 4 8 = .ok (reg.1 % 2 ^ 32) := by
  have has : Has (encodeReg 2 1 (reg :: regs)) 4 (encodeInt .big 4 reg.1) := by
    refine ⟨encodeInt .big 4 (reg.1 / 256 ^ 4), encodeInt .big 4 reg.2 ++ encodeReg 2 1 regs, length_encodeInt _ _ _, ?_⟩
    rw [encodeReg_cons, show 4 * 2 = 8 from rfl, encodeInt_big_double]
  rw [beField_has has (by rw [length_encodeInt]), fromBeBytes_encodeInt, show 256 ^ 4 = 2 ^ 32 from rfl]

theorem parseRegLoop_double (regs : List (Nat × Nat)) (result : List (Nat × Nat)) (nonempty : regs ≠ []) :
    parseRegLoop 1 2 regs.length (encodeReg 1 2 regs) ≠ .ok result := by
  intro run
  induction regs generalizing result with
  | nil => exact nonempty rfl
  | cons reg regs ih =>
    simp only [length_cons, parseRegLoop, if_true, Nat.reduceEqDiff, if_false, bind_ok] at run
    obtain ⟨_, _, _, size, bytes, rest, values, run, -⟩ := run
    rw [suffix_encodeReg, Except.ok.injEq] at rest
    subst rest
    cases regs with
    | nil =>
      rw [beField, slice, if_neg (by rw [length_encodeReg, length_singleton]; decide)] at size
      cases size
    | cons next regs => exact ih values (cons_ne_nil _ _) run

theorem parseReg_encodeReg (cells : addressCells = 1 ∨ addressCells = 2) (regs : List (Nat × Nat)) :
    parseReg (encodeReg addressCells sizeCells regs) addressCells sizeCells =
      parseRegLoop addressCells sizeCells regs.length (encodeReg addressCells sizeCells regs) := by
  have positive : 0 < 4 * sizeCells + 4 * addressCells := by omega
  rw [parseReg, if_neg positive.ne', length_encodeReg, Nat.mul_div_cancel _ positive]

/-- Only a size of as many cells as the address is read where it is. -/
theorem parseReg_encodeReg_iff (address : addressCells = 1 ∨ addressCells = 2) (size : sizeCells = 1 ∨ sizeCells = 2)
    {regs : List (Nat × Nat)} (fit : ∀ reg ∈ regs, reg.1 < 256 ^ (4 * addressCells) ∧ reg.2 < 256 ^ (4 * sizeCells)) :
    parseReg (encodeReg addressCells sizeCells regs) addressCells sizeCells = .ok regs ↔
      ∀ reg ∈ regs, addressCells = sizeCells ∨ addressCells = 2 ∧ reg.2 = reg.1 % 2 ^ 32 := by
  rw [parseReg_encodeReg address]
  by_cases equal : addressCells = sizeCells
  · subst equal
    rw [parseRegLoop_sizes address (fun reg regs _ narrow => size_equal address reg regs narrow) fit, map_id']
    exact ⟨fun _ reg _ => Or.inl rfl, fun _ => rfl⟩
  rcases address with rfl | rfl
  · obtain rfl : sizeCells = 2 := size.resolve_left (Ne.symm equal)
    cases regs with
    | nil => exact ⟨fun _ reg mem => absurd mem not_mem_nil, fun _ => rfl⟩
    | cons reg regs =>
      refine ⟨fun run => absurd run (parseRegLoop_double _ _ (cons_ne_nil _ _)), fun exact => ?_⟩
      rcases exact reg mem_cons_self with same | same <;> omega
  · obtain rfl : sizeCells = 1 := size.resolve_right (Ne.symm equal)
    rw [parseRegLoop_sizes (Or.inr rfl) (fun reg regs _ _ => (if_neg (by decide)).trans (size_single reg regs)) fit,
      Except.ok.injEq]
    nth_rewrite 2 [← map_id regs]
    rw [map_inj_left]
    refine forall₂_congr fun reg _ => ?_
    rw [id, Prod.ext_iff]
    exact ⟨fun same => Or.inr ⟨rfl, same.2.symm⟩, fun same => ⟨rfl, (same.resolve_left equal).2.symm⟩⟩

theorem two_blocks_read_back :
    parseReg (encodeReg 2 2 [(0x9000000, 0x1000), (2 ^ 32, 0x200)]) 2 2 = .ok [(0x9000000, 0x1000), (2 ^ 32, 0x200)] :=
  (parseReg_encodeReg_iff (Or.inr rfl) (Or.inr rfl) (by decide)).mpr fun _ _ => Or.inl rfl

/-- With the default cells the address is returned as the size; the other way round the slice ends after the bytes. -/
theorem default_cells_misread : parseReg (encodeReg 2 1 [(0x10000000, 0x100)]) 2 1 = .ok [(0x10000000, 0x10000000)] ∧
    parseReg (encodeReg 1 2 [(0x10000000, 0x100)]) 1 2 = .error .indexOutOfBounds :=
  ⟨rfl, rfl⟩

end Reg

section Compatible

/-- The pieces of a value that a NUL ends; what follows the last NUL is none. -/
def nullTerminated (value : List UInt8) : List (List UInt8) := (value.splitOn 0).dropLast

def encodeStrings (strings : List (List UInt8)) : List UInt8 := strings.flatMap (· ++ [0])

theorem nullTerminated_cons {first rest : List UInt8} (free : 0 ∉ first) :
    nullTerminated (first ++ 0 :: rest) = first :: nullTerminated rest := by
  have pieces : (first ++ 0 :: rest).splitOn 0 = first :: rest.splitOn 0 := by
    refine splitOnP_append_cons_of_forall_mem ?_ 0 rfl rest
    intro byte member
    exact beq_false_of_ne fun same => free (same ▸ member)
  rw [nullTerminated, pieces]
  exact dropLast_cons_of_ne_nil (splitOnP_ne_nil _ _)

theorem nullTerminated_of_notMem {value : List UInt8} (free : 0 ∉ value) : nullTerminated value = [] := by
  rw [nullTerminated, splitOn_eq_singleton free, dropLast_singleton]

theorem nullTerminated_encodeStrings {strings : List (List UInt8)} (free : ∀ string ∈ strings, 0 ∉ string) :
    nullTerminated (encodeStrings strings) = strings := by
  induction strings with
  | nil => exact nullTerminated_of_notMem not_mem_nil
  | cons string strings ih =>
    rw [encodeStrings, flatMap_cons, append_assoc, singleton_append,
      nullTerminated_cons (free _ mem_cons_self), ← encodeStrings,
      ih fun other member => free other (mem_cons_of_mem _ member)]

theorem idxOf?_null_split {value : List UInt8} {nullIdx : Nat} (found : value.idxOf? 0 = some nullIdx) :
    nullIdx < value.length ∧ 0 ∉ value.take nullIdx ∧ value = value.take nullIdx ++ 0 :: value.drop (nullIdx + 1) := by
  obtain ⟨inside, null, before⟩ := idxOf?_eq_some_iff.mp found
  refine ⟨inside, ?_, ?_⟩
  · intro member
    obtain ⟨i, below, same⟩ := mem_take_iff_getElem.mp member
    exact before i (by omega) same
  · rw [← null, ← drop_eq_getElem_cons inside, take_append_drop]

theorem checkCompatibleLoop_iff (compatible : List UInt8) (fuel : Nat) :
    ∀ value : List UInt8, value.length ≤ fuel →
      (checkCompatibleLoop compatible fuel value = true ↔ compatible ∈ nullTerminated value) := by
  induction fuel with
  | zero =>
    intro value short
    rw [length_eq_zero_iff.mp (Nat.le_zero.mp short), nullTerminated_of_notMem not_mem_nil]
    simp [checkCompatibleLoop]
  | succ fuel ih =>
    intro value short
    rw [checkCompatibleLoop]
    cases found : value.idxOf? 0 with
    | none =>
      rw [nullTerminated_of_notMem (idxOf?_eq_none_iff.mp found)]
      simp
    | some nullIdx =>
      obtain ⟨inside, free, split⟩ := idxOf?_null_split found
      have pieces : nullTerminated value = value.take nullIdx :: nullTerminated (value.drop (nullIdx + 1)) := by
        conv_lhs => rw [split]
        exact nullTerminated_cons free
      have later := ih (value.drop (nullIdx + 1)) (by rw [length_drop]; omega)
      rw [pieces, mem_cons, ← later]
      -- The comparison of the lengths decides nothing that the one of the bytes does not.
      by_cases same : compatible = value.take nullIdx
      · simp [same, length_take, inside.le]
      · simp [same]

/-- A string is found exactly among the terminated pieces of a value, which in an encoding are the strings. -/
theorem checkCompatible_iff_mem (value compatible : List UInt8) (strings : List (List UInt8)) :
    (checkCompatible value compatible = true ↔ compatible ∈ nullTerminated value) ∧
      ((∀ string ∈ strings, 0 ∉ string) →
        (checkCompatible (encodeStrings strings) compatible = true ↔ compatible ∈ strings)) := by
  have pieces := fun value => checkCompatibleLoop_iff compatible value.length value le_rfl
  refine ⟨pieces value, ?_⟩
  intro free
  have encoded := pieces (encodeStrings strings)
  rw [nullTerminated_encodeStrings free] at encoded
  exact encoded

theorem second_string_found :
    (∀ string ∈ [[1, 2], [1, 2, 3]], (0 : UInt8) ∉ string) ∧ checkCompatible [1, 2, 0, 1, 2, 3, 0] [1, 2, 3] = true := by
  have free : ∀ string ∈ [[1, 2], [1, 2, 3]], (0 : UInt8) ∉ string := by decide
  exact ⟨free, ((checkCompatible_iff_mem [] [1, 2, 3] [[1, 2], [1, 2, 3]]).2 free).mpr (by decide)⟩

end Compatible

end Kernel31.Dtb
