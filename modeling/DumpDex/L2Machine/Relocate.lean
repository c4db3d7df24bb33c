import Mathlib.Data.List.Basic

/-!
# Moving instructions (`relocate.c`)

The 32-bit engine's counterpart of `FixInstructions`. The first instructions
of a hooked function, saved beforehand, are rewritten one by one into the
trampoline; behind them comes a jump to what follows them. There is no fix
map: a reference is always to where things were.

Each rewriting returns the words it writes, and so how many. The two walks
also record, for each instruction, how many bytes before it were read and
written: the boundaries by which the engine finds its way from an instruction
to its block and back.

Literals are read out of the memory as it is when the function is registered
(`mem`, by words).
-/
namespace DumpDex.L2.Relocate

abbrev Addr := BitVec 32

abbrev Half := BitVec 16

/-- mirrors app/src/main/cpp/relocate.c:14-73 -/
inductive InstructionType where
  | b1Thumb16
  | b2Thumb16
  | bxThumb16
  | addThumb16
  | movThumb16
  | adrThumb16
  | ldrThumb16
  | cbThumb16
  | blxThumb32
  | blThumb32
  | b1Thumb32
  | b2Thumb32
  | adr1Thumb32
  | adr2Thumb32
  | ldrThumb32
  | tbbThumb32
  | tbhThumb32
  | blxArm
  | blArm
  | bArm
  | bxArm
  | addArm
  | adr1Arm
  | adr2Arm
  | movArm
  | ldrArm
  | undefine
  deriving DecidableEq, Repr

/-- mirrors app/src/main/cpp/relocate.c:75-102 -/
def getTypeInThumb16 (instruction : Half) : InstructionType :=
  if instruction &&& 0xF000 = 0xD000 then .b1Thumb16
  else if instruction &&& 0xF800 = 0xE000 then .b2Thumb16
  else if instruction &&& 0xFFF8 = 0x4778 then .bxThumb16
  else if instruction &&& 0xFF78 = 0x4478 then .addThumb16
  else if instruction &&& 0xFF78 = 0x4678 then .movThumb16
  else if instruction &&& 0xF800 = 0xA000 then .adrThumb16
  else if instruction &&& 0xF800 = 0x4800 then .ldrThumb16
  else if instruction &&& 0xF500 = 0xB100 then .cbThumb16
  else .undefine

/-- mirrors app/src/main/cpp/relocate.c:104-134 -/
def getTypeInThumb32 (instruction : BitVec 32) : InstructionType :=
  if instruction &&& 0xF800D000 = 0xF000C000 then .blxThumb32
  else if instruction &&& 0xF800D000 = 0xF000D000 then .blThumb32
  else if instruction &&& 0xF800D000 = 0xF0008000 then .b1Thumb32
  else if instruction &&& 0xF800D000 = 0xF0009000 then .b2Thumb32
  else if instruction &&& 0xFBFF8000 = 0xF2AF0000 then .adr1Thumb32
  else if instruction &&& 0xFBFF8000 = 0xF20F0000 then .adr2Thumb32
  else if instruction &&& 0xFF7F0000 = 0xF85F0000 then .ldrThumb32
  else if instruction &&& 0xFFFF00F0 = 0xE8DF0000 then .tbbThumb32
  else if instruction &&& 0xFFFF00F0 = 0xE8DF0010 then .tbhThumb32
  else .undefine

/-- mirrors app/src/main/cpp/relocate.c:136-166 -/
def getTypeInArm (instruction : BitVec 32) : InstructionType :=
  if instruction &&& 0xFE000000 = 0xFA000000 then .blxArm
  else if instruction &&& 0xF000000 = 0xB000000 then .blArm
  else if instruction &&& 0xF000000 = 0xA000000 then .bArm
  else if instruction &&& 0xFF000FF = 0x120001F then .bxArm
  else if instruction &&& 0xFEF0010 = 0x8F0000 then .addArm
  else if instruction &&& 0xFFF0000 = 0x28F0000 then .adr1Arm
  else if instruction &&& 0xFFF0000 = 0x24F0000 then .adr2Arm
  else if instruction &&& 0xE5F0000 = 0x41F0000 then .ldrArm
  else if instruction &&& 0xFE00FFF = 0x1A0000F then .movArm
  else .undefine

/-- `for (r = from; ; --r) if (r is not among used) break;` -/
def freeRegister (used : List Nat) : Nat → Nat
  | 0 => 0
  | r + 1 => if r + 1 ∈ used then freeRegister used r else r + 1

/-- `ALIGN_PC` -/
def alignPc (pc : Addr) : Addr := pc &&& 0xFFFFFFFC

/-- `value & 0xFFFF` and `value >> 16` -/
def halves (value : BitVec 32) : List Half := [value.extractLsb' 0 16, value.extractLsb' 16 16]

section Thumb
variable (mem : Addr → BitVec 32) (pc : Addr)

/-- mirrors app/src/main/cpp/relocate.c:168-276 -/
def relocateInstructionInThumb16 (instruction : Half) : List Half :=
  let type := getTypeInThumb16 instruction
  let ins : BitVec 32 := instruction.setWidth 32
  match type with
  | .b1Thumb16 =>
    let x := (ins &&& 0xFF) <<< 1
    let imm32 := if x >>> 8 ≠ 0 then x ||| (0xFFFFFFFF <<< 8) else x
    [instruction &&& 0xFF00, 0xE003, 0xF8DF, 0xF000] ++ halves (pc + imm32)
  | .b2Thumb16 =>
    let x := (ins &&& 0x7FF) <<< 1
    let imm32 := if x >>> 11 ≠ 0 then x ||| (0xFFFFFFFF <<< 11) else x
    [0xF8DF, 0xF000] ++ halves (pc + imm32)
  | .bxThumb16 => [0xF8DF, 0xF000] ++ halves pc
  | .addThumb16 =>
    let rdn := ((instruction &&& 0x80) >>> 4) ||| (instruction &&& 0x7)
    let r : Half := BitVec.ofNat 16 (freeRegister [rdn.toNat] 7)
    [0xB400 ||| ((1 : Half) <<< r), 0x4802 ||| (r <<< 8), (instruction &&& 0xFF87) ||| (r <<< 3),
      0xBC00 ||| ((1 : Half) <<< r), 0xE002, 0xBF00] ++ halves pc
  | .movThumb16 =>
    let r := instruction &&& 0x7
    [0x4800 ||| (r <<< 8), 0xE001] ++ halves pc
  | .adrThumb16 =>
    let r := (instruction &&& 0x700) >>> 8
    let value := (alignPc pc + (ins &&& 0xFF)) <<< 2
    [0x4800 ||| (r <<< 8), 0xE001] ++ halves value
  | .ldrThumb16 =>
    let r := (instruction &&& 0x700) >>> 8
    let value := mem (alignPc pc + ((ins &&& 0xFF) <<< 2))
    [0x4800 ||| (r <<< 8), 0xE001] ++ halves value
  | .cbThumb16 =>
    let imm32 := ((ins &&& 0x200) >>> 3) ||| ((ins &&& 0xF8) >>> 2)
    [instruction &&& 0xFD07, 0xE003, 0xF8DF, 0xF000] ++ halves (pc + imm32 + 1)
  | _ => [instruction, 0xBF00]

/-- mirrors app/src/main/cpp/relocate.c:278-436 -/
def relocateInstructionInThumb32 (highInstruction lowInstruction : Half) : List Half :=
  let high : BitVec 32 := highInstruction.setWidth 32
  let low : BitVec 32 := lowInstruction.setWidth 32
  let instruction := (high <<< 16) ||| low
  let j1 := (low &&& 0x2000) >>> 13
  let j2 := (low &&& 0x800) >>> 11
  let s := (high &&& 0x400) >>> 10
  let i1 : BitVec 32 := if j1 ^^^ s = 0 then 1 else 0
  let i2 : BitVec 32 := if j2 ^^^ s = 0 then 1 else 0
  let ldrPc : List Half := [0xF8DF, 0xF000]
  let addLr : List Half := [0xF20F, 0x0E09]
  let extended (x : BitVec 32) (top : Nat) := if s ≠ 0 then x ||| (0xFFFFFFFF <<< top) else x
  match getTypeInThumb32 instruction with
  | .blxThumb32 =>
    let x := (s <<< 24) ||| (i1 <<< 23) ||| (i2 <<< 22) ||| ((high &&& 0x3FF) <<< 12) |||
      ((low &&& 0x7FE) <<< 1)
    addLr ++ ldrPc ++ halves (pc + extended x 25)
  | .blThumb32 =>
    let x := (s <<< 24) ||| (i1 <<< 23) ||| (i2 <<< 22) ||| ((high &&& 0x3FF) <<< 12) |||
      ((low &&& 0x7FF) <<< 1)
    addLr ++ ldrPc ++ halves (pc + extended x 25 + 1)
  | .b1Thumb32 =>
    let x := (s <<< 20) ||| (j2 <<< 19) ||| (j1 <<< 18) ||| ((high &&& 0x3F) <<< 12) |||
      ((low &&& 0x7FF) <<< 1)
    [0xD000 ||| ((highInstruction &&& 0x3C0) <<< 2), 0xE003] ++ ldrPc ++
      halves (pc + extended x 21 + 1)
  | .b2Thumb32 =>
    let x := (s <<< 24) ||| (i1 <<< 23) ||| (i2 <<< 22) ||| ((high &&& 0x3FF) <<< 12) |||
      ((low &&& 0x7FF) <<< 1)
    ldrPc ++ halves (pc + extended x 25 + 1)
  | .adr1Thumb32 | .adr2Thumb32 =>
    let r := (lowInstruction &&& 0xF00) >>> 8
    let i := (high &&& 0x400) >>> 10
    let imm3 := (low &&& 0x7000) >>> 12
    let imm8 := instruction &&& 0xFF
    let imm32 := (i <<< 31) ||| (imm3 <<< 30) ||| (imm8 <<< 27)
    let value :=
      if getTypeInThumb32 instruction = .adr1Thumb32 then alignPc pc + imm32 else alignPc pc - imm32
    [0x4800 ||| (r <<< 8), 0xE001] ++ halves value
  | .ldrThumb32 =>
    let isAdd := (high &&& 0x80) >>> 7
    let r := lowInstruction >>> 12
    let imm32 := low &&& 0xFFF
    let value := mem (if isAdd ≠ 0 then alignPc pc + imm32 else alignPc pc - imm32)
    [0x4800 ||| (r <<< 8), 0xE001] ++ halves value
  | .tbbThumb32 | .tbhThumb32 =>
    let rm := lowInstruction &&& 0xF
    let rNat := freeRegister [rm.toNat] 7
    let r : Half := BitVec.ofNat 16 rNat
    let rx : Half := BitVec.ofNat 16 (freeRegister [rm.toNat, rNat] 7)
    [0xB400 ||| ((1 : Half) <<< rx), 0x4805 ||| (r <<< 8), 0x4600 ||| (rm <<< 3) ||| rx] ++
      (if getTypeInThumb32 instruction = .tbbThumb32 then
        [0xEB00 ||| r, 0x0000 ||| (rx <<< 8) ||| rx, 0x7800 ||| (rx <<< 3) ||| rx]
      else [0xEB00 ||| r, 0x0040 ||| (rx <<< 8) ||| rx, 0x8800 ||| (rx <<< 3) ||| rx]) ++
      [0xEB00 ||| r, 0x0040 ||| (r <<< 8) ||| rx, 0x3001 ||| (r <<< 8), 0xBC00 ||| ((1 : Half) <<< rx),
        0x4700 ||| (r <<< 3), 0xBF00] ++ halves pc
  | _ => [highInstruction, lowInstruction]

end Thumb

/-- What a walk has written, and the two boundaries of each instruction. -/
structure Relocated (α : Type) where
  out : List α
  boundaries : List (Nat × Nat)

/-- `(orig_instructions[orig_pos] >> 11)` is 0x1D, 0x1E or 0x1F. -/
def isThumb32 (instruction : Half) : Bool := instruction >>> 11 ≥ 0x1D && instruction >>> 11 ≤ 0x1F

/-- The loop; the list is what is left of `orig_instructions` at `origPos`. A
32-bit instruction of which only the first half was saved ends it.
mirrors app/src/main/cpp/relocate.c:448-474 -/
def relocateLoopInThumb (mem : Addr → BitVec 32) :
    List Half → Nat → Addr → Relocated Half → Nat × Relocated Half
  | [], origPos, _, s => (origPos, s)
  | [instruction], origPos, pc, s =>
    let boundaries := s.boundaries ++ [(2 * origPos, 2 * s.out.length)]
    if isThumb32 instruction then (origPos, ⟨s.out, boundaries⟩)
    else (origPos + 1, ⟨s.out ++ relocateInstructionInThumb16 mem pc instruction, boundaries⟩)
  | instruction :: next :: rest, origPos, pc, s =>
    let boundaries := s.boundaries ++ [(2 * origPos, 2 * s.out.length)]
    if isThumb32 instruction then
      relocateLoopInThumb mem rest (origPos + 2) (pc + 4)
        ⟨s.out ++ relocateInstructionInThumb32 mem pc instruction next, boundaries⟩
    else
      relocateLoopInThumb mem (next :: rest) (origPos + 1) (pc + 2)
        ⟨s.out ++ relocateInstructionInThumb16 mem pc instruction, boundaries⟩

/-- mirrors app/src/main/cpp/relocate.c:438-483 -/
def relocateInstructionInThumb (mem : Addr → BitVec 32) (targetAddr : Addr)
    (origInstructions : List Half) : Relocated Half :=
  let (origPos, s) := relocateLoopInThumb mem origInstructions 0 (targetAddr + 4) ⟨[], []⟩
  let lr := targetAddr + BitVec.ofNat 32 (2 * origPos) + 1
  { s with out := s.out ++ ([0xF8DF, 0xF000] ++ halves lr) }

section Arm
variable (mem : Addr → BitVec 32) (pc : Addr) (instruction : BitVec 32)

/-- mirrors app/src/main/cpp/relocate.c:504-595 -/
def relocateOneInArm : List (BitVec 32) :=
  let type := getTypeInArm instruction
  let signed (x : BitVec 32) := if x >>> 25 ≠ 0 then x ||| (0xFFFFFFFF <<< 26) else x
  match type with
  | .blxArm =>
    let x := ((instruction &&& 0xFFFFFF) <<< 2) ||| ((instruction &&& 0x1000000) >>> 23)
    [0xE28FE004, 0xE51FF004, pc + signed x + 1]
  | .blArm => [0xE28FE004, 0xE51FF004, pc + signed ((instruction &&& 0xFFFFFF) <<< 2)]
  | .bArm => [0xE51FF004, pc + signed ((instruction &&& 0xFFFFFF) <<< 2)]
  | .bxArm => [0xE51FF004, pc + signed 0]
  | .addArm =>
    let rd := (instruction &&& 0xF000) >>> 12
    let rm := instruction &&& 0xF
    let r : BitVec 32 := BitVec.ofNat 32 (freeRegister [rd.toNat, rm.toNat] 12)
    [0xE52D0004 ||| (r <<< 12), 0xE59F0008 ||| (r <<< 12),
      (instruction &&& 0xFFF0FFFF) ||| (r <<< 16), 0xE49D0004 ||| (r <<< 12), 0xE28FF000, pc]
  | .adr1Arm | .adr2Arm | .ldrArm | .movArm =>
    let r := (instruction &&& 0xF000) >>> 12
    let imm32 := instruction &&& 0xFFF
    let value :=
      match type with
      | .adr1Arm => pc + imm32
      | .adr2Arm => pc - imm32
      | .ldrArm => if (instruction &&& 0x800000) >>> 23 ≠ 0 then mem (pc + imm32) else mem (pc - imm32)
      | _ => pc
    [0xE51F0000 ||| (r <<< 12), 0xE28FF000, value]
  | _ => [instruction]

end Arm

/-- The loop; the list is what is left of `orig_instructions` at `origPos`.
mirrors app/src/main/cpp/relocate.c:496-597 -/
def relocateLoopInArm (mem : Addr → BitVec 32) :
    List (BitVec 32) → Nat → Addr → Relocated (BitVec 32) → Relocated (BitVec 32)
  | [], _, _, s => s
  | instruction :: rest, origPos, pc, s =>
    relocateLoopInArm mem rest (origPos + 1) (pc + 4)
      ⟨s.out ++ relocateOneInArm mem pc instruction,
        s.boundaries ++ [(4 * origPos, 4 * s.out.length)]⟩

/-- mirrors app/src/main/cpp/relocate.c:485-602 -/
def relocateInstructionInArm (mem : Addr → BitVec 32) (targetAddr : Addr)
    (origInstructions : List (BitVec 32)) : Relocated (BitVec 32) :=
  let lr := targetAddr + BitVec.ofNat 32 (4 * origInstructions.length)
  let s := relocateLoopInArm mem origInstructions 0 (targetAddr + 8) ⟨[], []⟩
  { s with out := s.out ++ [0xE51FF004, lr] }

/-! ## Bytes, the least significant first -/

abbrev Byte := BitVec 8

def bytes16 (h : Half) : List Byte := [h.extractLsb' 0 8, h.extractLsb' 8 8]

def bytes32 (w : BitVec 32) : List Byte :=
  [w.extractLsb' 0 8, w.extractLsb' 8 8, w.extractLsb' 16 8, w.extractLsb' 24 8]

/-- `(uint16_t *) orig_instructions` -/
def halvesOf : List Byte → List Half
  | b0 :: b1 :: bs => (b1 ++ b0) :: halvesOf bs
  | _ => []

/-- `(uint32_t *) orig_instructions` -/
def wordsOf : List Byte → List (BitVec 32)
  | b0 :: b1 :: b2 :: b3 :: bs => (b3 ++ b2 ++ (b1 ++ b0)) :: wordsOf bs
  | _ => []

/-- mirrors app/src/main/cpp/relocate.c:604-612 -/
def relocateInstruction (mem : Addr → BitVec 32) (targetAddr : Addr) (origInstructions : List Byte) :
    Relocated Byte :=
  if targetAddr &&& 1 = 1 then
    let s := relocateInstructionInThumb mem (targetAddr - 1) (halvesOf origInstructions)
    ⟨s.out.flatMap bytes16, s.boundaries⟩
  else
    let s := relocateInstructionInArm mem targetAddr (wordsOf origInstructions)
    ⟨s.out.flatMap bytes32, s.boundaries⟩

end DumpDex.L2.Relocate
