import DumpDex.Core.Bits
import Mathlib.Logic.Relation
import Mathlib.Logic.Function.Basic

/-!
# A fragment of the A64 instruction set

The instructions whose meaning depends on where they stand: branches, loads
of a literal, address computations, and the indirect branches that save a
return address. Everything else is `plain`: it falls through to the next
instruction and does not look at the program counter, so what it does to the
registers and the memory is a parameter of the machine.

The class of an instruction is read off its top eight bits and bit 4
(`classOf`); `decode` adds the operands.

`exec` runs one instruction. Two maps, `ret` and `adr`, are applied to the
code addresses an instruction puts into a register: the return address of a
call, the result of `ADR` and `ADRP`. The machine itself is `ret = adr = id`
(`Steps`); with other maps `exec` says what an instruction means once the
code it belongs to has been moved.
-/
namespace DumpDex.Core.A64

abbrev Insn := BitVec 32

/-- Register 31 is the zero register. -/
abbrev Reg := BitVec 5

/-- Instruction memory, read in words at multiples of four. -/
abbrev Text := Int → Insn

structure Regs where
  x : Reg → BitVec 64
  v : Reg → BitVec 128
  negative : Bool
  zero : Bool
  carry : Bool
  overflow : Bool
  /-- Data memory. -/
  mem : Int → BitVec 8

namespace Regs

def get (r : Regs) (n : Reg) : BitVec 64 := if n = 31 then 0 else r.x n

def set (r : Regs) (n : Reg) (a : BitVec 64) : Regs :=
  if n = 31 then r else { r with x := Function.update r.x n a }

def setV (r : Regs) (n : Reg) (a : BitVec 128) : Regs := { r with v := Function.update r.v n a }

@[simp] theorem get_set {r : Regs} {n : Reg} (h : n ≠ 31) (a : BitVec 64) : (r.set n a).get n = a := by
  rw [get, if_neg h, set, if_neg h]
  exact Function.update_self ..

theorem set_comm {r : Regs} {m n : Reg} (h : m ≠ n) (a b : BitVec 64) :
    (r.set m a).set n b = (r.set n b).set m a := by
  unfold set
  by_cases hm : m = 31 <;> by_cases hn : n = 31 <;> simp only [hm, hn, if_true, if_false]
  rw [Function.update_comm h]

/-- The same but for X17, which a call may corrupt. -/
def Off17 (r r' : Regs) : Prop := ∃ a, r' = r.set 17 a

end Regs

/-- What a conditional branch tests. -/
inductive Test where
  | cond (c : BitVec 4)
  | cbz (wide nonzero : Bool) (rt : Reg)
  | tbz (nonzero : Bool) (bit : BitVec 6) (rt : Reg)
  deriving DecidableEq, Repr

def conditionHolds (c : BitVec 4) (r : Regs) : Bool :=
  let base :=
    match c.extractLsb' 1 3 with
    | 0 => r.zero
    | 1 => r.carry
    | 2 => r.negative
    | 3 => r.overflow
    | 4 => r.carry && !r.zero
    | 5 => r.negative == r.overflow
    | 6 => r.negative == r.overflow && !r.zero
    | _ => true
  -- the odd conditions are the negated ones, but 15 is "always" as well
  if c.getLsbD 0 && c ≠ 15 then !base else base

def Test.holds (r : Regs) : Test → Bool
  | .cond c => conditionHolds c r
  | .cbz wide nonzero rt =>
    let a := if wide then r.get rt else (r.get rt).setWidth 32 |>.setWidth 64
    (a == 0) != nonzero
  | .tbz nonzero bit rt => (r.get rt).getLsbD bit.toNat == nonzero

/-- What a load of a literal loads, and how. -/
inductive Lit where
  | w
  | x
  | sw
  | s
  | d
  | q
  deriving DecidableEq, Repr

def Lit.words : Lit → Nat
  | .w => 1
  | .x => 2
  | .sw => 1
  | .s => 1
  | .d => 2
  | .q => 4

def Lit.load (text : Text) (a : Int) (rt : Reg) (r : Regs) : Lit → Regs
  | .w => r.set rt ((text a).setWidth 64)
  | .x => r.set rt (text (a + 4) ++ text a)
  | .sw => r.set rt ((text a).signExtend 64)
  | .s => r.setV rt ((text a).setWidth 128)
  | .d => r.setV rt ((text (a + 4) ++ text a).setWidth 128)
  | .q => r.setV rt (text (a + 12) ++ text (a + 8) ++ (text (a + 4) ++ text a))

/-- A load reads its words only. -/
theorem Lit.load_congr {text text' : Text} {a a' : Int} (l : Lit)
    (h : ∀ k : Nat, k < l.words → text (a + 4 * k) = text' (a' + 4 * k)) (rt : Reg) (r : Regs) :
    l.load text a rt r = l.load text' a' rt r := by
  have h0 : text (a + 0) = text' (a' + 0) := h 0 (by cases l <;> decide)
  rw [Int.add_zero, Int.add_zero] at h0
  cases l with
  | w | sw | s => simp only [Lit.load, h0]
  | x | d =>
    have h1 : text (a + 4) = text' (a' + 4) := h 1 (by decide)
    simp only [Lit.load, h0, h1]
  | q =>
    have h1 : text (a + 4) = text' (a' + 4) := h 1 (by decide)
    have h2 : text (a + 8) = text' (a' + 8) := h 2 (by decide)
    have h3 : text (a + 12) = text' (a' + 12) := h 3 (by decide)
    simp only [Lit.load, h0, h1, h2, h3]

/-! ## Decoding -/

inductive InsnClass where
  | branch (link : Bool)
  | bcond
  | cbz (wide nonzero : Bool)
  | tbz (nonzero : Bool)
  | lit (l : Lit)
  | prfm
  | adr
  | adrp
  | other
  deriving DecidableEq, Repr

/-- Bits 31 to 24. -/
def top (w : Insn) : BitVec 8 := w.extractLsb' 24 8

/-- Bits 4 to 0: `Rt`, `Rd`, or bit 4 and the condition. -/
def low (w : Insn) : BitVec 5 := w.extractLsb' 0 5

def imm26 (w : Insn) : Int := (w.extractLsb' 0 26).toInt
def imm19 (w : Insn) : Int := (w.extractLsb' 5 19).toInt
def imm14 (w : Insn) : Int := (w.extractLsb' 5 14).toInt
def imm21 (w : Insn) : Int := (w.extractLsb' 5 19 ++ w.extractLsb' 29 2).toInt

/-- The class of an instruction with these bits 31 to 24 and 4. -/
def classOf (top : BitVec 8) (bit4 : Bool) : InsnClass :=
  if top.extractLsb' 2 5 = 0b00101 then .branch top.msb
  else if top = 0x54 ∧ bit4 = false then .bcond
  else if top.extractLsb' 1 6 = 0b011010 then .cbz top.msb (top.getLsbD 0)
  else if top.extractLsb' 1 6 = 0b011011 then .tbz (top.getLsbD 0)
  else if top.extractLsb' 3 3 = 0b011 ∧ top.extractLsb' 0 2 = 0 then
    match top.getLsbD 2, top.extractLsb' 6 2 with
    | false, 0 => .lit .w
    | false, 1 => .lit .x
    | false, 2 => .lit .sw
    | false, _ => .prfm
    | true, 0 => .lit .s
    | true, 1 => .lit .d
    | true, 2 => .lit .q
    | true, _ => .other
  else if top.extractLsb' 0 5 = 0b10000 then if top.msb then .adrp else .adr
  else .other

def classify (w : Insn) : InsnClass := classOf (top w) ((low w).getLsbD 4)

theorem classify_congr {w w' : Insn} (ht : top w = top w') (hl : low w = low w') :
    classify w = classify w' := by
  rw [classify, classify, ht, hl]

inductive Op where
  | b (off : Int)
  | bl (off : Int)
  | bcond (test : Test) (off : Int)
  | ldr (l : Lit) (rt : Reg) (off : Int)
  | prfm
  | adr (rd : Reg) (off : Int)
  | adrp (rd : Reg) (off : Int)
  | br (rn : Reg)
  | blr (rn : Reg)
  | nop
  | plain (w : Insn)
  deriving DecidableEq, Repr

def decode (w : Insn) : Op :=
  match classify w with
  | .branch false => .b (4 * imm26 w)
  | .branch true => .bl (4 * imm26 w)
  | .bcond => .bcond (.cond ((low w).setWidth 4)) (4 * imm19 w)
  | .cbz wide nonzero => .bcond (.cbz wide nonzero (low w)) (4 * imm19 w)
  | .tbz nonzero =>
    .bcond (.tbz nonzero (w.extractLsb' 31 1 ++ w.extractLsb' 19 5) (low w)) (4 * imm14 w)
  | .lit l => .ldr l (low w) (4 * imm19 w)
  | .prfm => .prfm
  | .adr => .adr (low w) (imm21 w)
  | .adrp => .adrp (low w) (4096 * imm21 w)
  | .other =>
    if w = 0xd503201f then .nop
    else if w &&& 0xfffffc1f = 0xd61f0000 ∨ w &&& 0xfffffc1f = 0xd65f0000 then
      .br (w.extractLsb' 5 5)
    else if w &&& 0xfffffc1f = 0xd63f0000 then .blr (w.extractLsb' 5 5)
    else .plain w

section
variable {w : Insn}

theorem decode_branch {link : Bool} (h : classify w = .branch link) :
    decode w = if link then .bl (4 * imm26 w) else .b (4 * imm26 w) := by
  rw [decode, h]; cases link <;> rfl

theorem decode_bcond (h : classify w = .bcond) :
    decode w = .bcond (.cond ((low w).setWidth 4)) (4 * imm19 w) := by rw [decode, h]

theorem decode_cbz {wide nonzero : Bool} (h : classify w = .cbz wide nonzero) :
    decode w = .bcond (.cbz wide nonzero (low w)) (4 * imm19 w) := by rw [decode, h]

theorem decode_tbz {nonzero : Bool} (h : classify w = .tbz nonzero) :
    decode w = .bcond (.tbz nonzero (w.extractLsb' 31 1 ++ w.extractLsb' 19 5) (low w))
      (4 * imm14 w) := by rw [decode, h]

theorem decode_lit {l : Lit} (h : classify w = .lit l) : decode w = .ldr l (low w) (4 * imm19 w) := by
  rw [decode, h]

theorem decode_prfm (h : classify w = .prfm) : decode w = .prfm := by rw [decode, h]

theorem decode_adr (h : classify w = .adr) : decode w = .adr (low w) (imm21 w) := by rw [decode, h]

theorem decode_adrp (h : classify w = .adrp) : decode w = .adrp (low w) (4096 * imm21 w) := by
  rw [decode, h]

/-- What is decoded as a conditional branch is one by its class, and so below. -/
theorem classify_bcond {test : Test} {off : Int} (h : decode w = .bcond test off) :
    classify w = .bcond ∨ (∃ a b, classify w = .cbz a b) ∨ ∃ a, classify w = .tbz a := by
  cases hc : classify w with
  | bcond => exact .inl rfl
  | cbz a b => exact .inr (.inl ⟨a, b, rfl⟩)
  | tbz a => exact .inr (.inr ⟨a, rfl⟩)
  | branch l => rw [decode_branch hc] at h; cases l <;> cases h
  | lit l => rw [decode_lit hc] at h; cases h
  | prfm => rw [decode_prfm hc] at h; cases h
  | adr => rw [decode_adr hc] at h; cases h
  | adrp => rw [decode_adrp hc] at h; cases h
  | other =>
    simp only [decode, hc] at h
    split at h
    · cases h
    · split at h
      · cases h
      · split at h <;> cases h

theorem classify_adrp {rd : Reg} {off : Int} (h : decode w = .adrp rd off) : classify w = .adrp := by
  cases hc : classify w with
  | adrp => rfl
  | bcond => rw [decode_bcond hc] at h; cases h
  | cbz a b => rw [decode_cbz hc] at h; cases h
  | tbz a => rw [decode_tbz hc] at h; cases h
  | branch l => rw [decode_branch hc] at h; cases l <;> cases h
  | lit l => rw [decode_lit hc] at h; cases h
  | prfm => rw [decode_prfm hc] at h; cases h
  | adr => rw [decode_adr hc] at h; cases h
  | other =>
    simp only [decode, hc] at h
    split at h
    · cases h
    · split at h
      · cases h
      · split at h <;> cases h

theorem decode_other (h : classify w = .other) :
    decode w = .nop ∨ (∃ rn, decode w = .br rn) ∨ (∃ rn, decode w = .blr rn) ∨ decode w = .plain w := by
  simp only [decode, h]
  split
  · exact .inl rfl
  · split
    · exact .inr (.inl ⟨_, rfl⟩)
    · split
      · exact .inr (.inr (.inl ⟨_, rfl⟩))
      · exact .inr (.inr (.inr rfl))

end

/-! ## Execution -/

abbrev State := Regs × Int

section Machine
variable (plain : Insn → Regs → Regs)

def exec (text : Text) (ret adr : Int → Int) (r : Regs) (pc : Int) : Op → State
  | .b off => (r, pc + off)
  | .bl off => (r.set 30 (BitVec.ofInt 64 (ret (pc + 4))), pc + off)
  | .bcond test off => (r, if test.holds r then pc + off else pc + 4)
  | .ldr l rt off => (l.load text (pc + off) rt r, pc + 4)
  | .prfm => (r, pc + 4)
  | .adr rd off => (r.set rd (BitVec.ofInt 64 (adr (pc + off))), pc + 4)
  | .adrp rd off => (r.set rd (BitVec.ofInt 64 (adr (pc - pc % 4096 + off))), pc + 4)
  | .br rn => (r, (r.get rn).toInt)
  | .blr rn => (r.set 30 (BitVec.ofInt 64 (ret (pc + 4))), (r.get rn).toInt)
  | .nop => (r, pc + 4)
  | .plain w => (plain w r, pc + 4)

/-- One instruction of code that has been moved. -/
def step (text : Text) (ret adr : Int → Int) (s : State) : State :=
  exec plain text ret adr s.1 s.2 (decode (text s.2))

/-- Some steps of the machine. -/
def Steps (text : Text) : State → State → Prop :=
  Relation.ReflTransGen fun s s' => step plain text id id s = s'

variable {plain} {text : Text}

theorem Steps.one {s s' : State} (h : step plain text id id s = s') : Steps plain text s s' :=
  .single h

theorem Steps.trans {s t u : State} (h : Steps plain text s t) (h' : Steps plain text t u) :
    Steps plain text s u := Relation.ReflTransGen.trans h h'

end Machine

end DumpDex.Core.A64
