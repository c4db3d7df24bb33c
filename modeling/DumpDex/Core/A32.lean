import DumpDex.Core.Bits
import Mathlib.Logic.Function.Basic
import Mathlib.Logic.Relation

/-!
# A fragment of the A32 instruction set

Branches, moves, additions, and loads and stores of a word: enough for code
that computes addresses from where it stands. Everything else is `other`; what
it does is a parameter of the machine.

An instruction's effect is what it does to the registers and where it goes, if
not to the next instruction (`effect`). A destination whose lowest bit is set
is in Thumb state.

As in `A64` a map `ret` is applied to the return address of a call; the
machine itself is `ret = id`.
-/
namespace DumpDex.Core.A32

abbrev Insn := BitVec 32

abbrev Reg := BitVec 4

abbrev Addr := BitVec 32

abbrev Memory := Addr → BitVec 8

/-- The word at `a`, the least significant byte first. -/
def word (m : Memory) (a : Addr) : BitVec 32 := m (a + 3) ++ m (a + 2) ++ (m (a + 1) ++ m a)

def storeWord (m : Memory) (a : Addr) (v : BitVec 32) : Memory := fun x =>
  if (x - a).toNat < 4 then v.extractLsb' (8 * (x - a).toNat) 8 else m x

@[ext]
structure Regs where
  /-- R15 is not one of them. -/
  r : Reg → BitVec 32
  negative : Bool
  zero : Bool
  carry : Bool
  overflow : Bool
  /-- Data memory. -/
  mem : Memory

namespace Regs

/-- R15 is the address of the instruction and eight more. -/
def get (s : Regs) (pc : Addr) (n : Reg) : BitVec 32 := if n = 15 then pc + 8 else s.r n

def set (s : Regs) (n : Reg) (v : BitVec 32) : Regs := { s with r := Function.update s.r n v }

/-- What is written into R15 is where to go. -/
def write (s : Regs) (n : Reg) (v : BitVec 32) : Regs × Option Addr :=
  if n = 15 then (s, some v) else (s.set n v, none)

def setFlags (s : Regs) (v : BitVec 32) (carry overflow : Bool) : Regs :=
  { s with negative := v.msb, zero := v == 0, carry := carry, overflow := overflow }

theorem set_same (s : Regs) (n : Reg) (v : BitVec 32) : (s.set n v).r n = v := by
  simp only [set, Function.update_self]

theorem set_of_ne {s : Regs} {n k : Reg} (h : k ≠ n) (v : BitVec 32) : (s.set n v).r k = s.r k := by
  simp only [set, Function.update_of_ne h]

end Regs

def holds (c : BitVec 4) (s : Regs) : Bool :=
  let base :=
    match c.extractLsb' 1 3 with
    | 0 => s.zero
    | 1 => s.carry
    | 2 => s.negative
    | 3 => s.overflow
    | 4 => s.carry && !s.zero
    | 5 => s.negative == s.overflow
    | 6 => s.negative == s.overflow && !s.zero
    | _ => true
  if c.getLsbD 0 && c ≠ 15 then !base else base

/-- Every other condition fails for some flags, whatever else the state is. -/
theorem exists_not_holds (c : BitVec 4) (h14 : c ≠ 14) (h15 : c ≠ 15) :
    ∃ n z cy v : Bool, ∀ r mem, holds c ⟨r, n, z, cy, v, mem⟩ = false := by
  have h : ∀ c : BitVec 4, c ≠ 14 → c ≠ 15 → ∃ n z cy v : Bool,
      holds c ⟨fun _ => 0, n, z, cy, v, fun _ => 0⟩ = false := by decide
  obtain ⟨n, z, cy, v, hf⟩ := h c h14 h15
  exact ⟨n, z, cy, v, fun r mem => hf⟩

theorem holds_always_iff (c : BitVec 4) (h15 : c ≠ 15) : (∀ s, holds c s = true) ↔ c = 14 := by
  constructor
  · intro ha
    by_contra h14
    obtain ⟨n, z, cy, v, hf⟩ := exists_not_holds c h14 h15
    have := hf (fun _ => 0) (fun _ => 0)
    rw [ha] at this
    cases this
  · intro he s
    rw [he]
    rfl

/-! ## Operands -/

inductive Operand where
  | imm (v : BitVec 12)
  | reg (rm : Reg) (kind : BitVec 2) (amount : BitVec 5)
  deriving DecidableEq, Repr

/-- Eight bits, rotated by twice the other four. -/
def expandImm (v : BitVec 12) : BitVec 32 :=
  ((v.extractLsb' 0 8).setWidth 32).rotateRight (2 * (v.extractLsb' 8 4).toNat)

/-- The shifted value, and the bit that is shifted out. -/
def shifted (kind : BitVec 2) (amount : BitVec 5) (x : BitVec 32) (carry : Bool) : BitVec 32 × Bool :=
  let n := amount.toNat
  -- a right shift by 0 stands for one by 32
  let n' := if n = 0 then 32 else n
  match kind with
  | 0 => if n = 0 then (x, carry) else (x <<< n, x.getLsbD (32 - n))
  | 1 => (x >>> n', x.getLsbD (n' - 1))
  | 2 => (x.sshiftRight n', x.getLsbD (n' - 1))
  | _ =>
    if n = 0 then ((x >>> 1) ||| (BitVec.ofBool carry).setWidth 32 <<< 31, x.getLsbD 0)
    else (x.rotateRight n, x.getLsbD (n - 1))

def Operand.value (s : Regs) (pc : Addr) : Operand → BitVec 32 × Bool
  | .imm v => (expandImm v, if v.extractLsb' 8 4 = 0 then s.carry else (expandImm v).msb)
  | .reg rm kind amount => shifted kind amount (s.get pc rm) s.carry

/-- `AddWithCarry`: the sum, the carry and the overflow. -/
def addWithCarry (x y : BitVec 32) (carry : Bool) : BitVec 32 × Bool × Bool :=
  let v := x + y + (BitVec.ofBool carry).setWidth 32
  (v, decide (2 ^ 32 ≤ x.toNat + y.toNat + carry.toNat), x.msb == y.msb && v.msb != x.msb)

/-! ## Decoding -/

inductive Op where
  | b (link : Bool) (off : Addr)
  | blx (off : Addr)
  | bx (rm : Reg)
  | add (flags : Bool) (rd rn : Reg) (y : Operand)
  | sub (flags : Bool) (rd rn : Reg) (y : Operand)
  | mov (flags : Bool) (rd rm : Reg)
  | ldr (rt rn : Reg) (pre up wback : Bool) (imm : BitVec 12)
  | str (rt rn : Reg) (pre up wback : Bool) (imm : BitVec 12)
  | other (w : Insn)
  deriving DecidableEq, Repr

def cond (w : Insn) : BitVec 4 := w.extractLsb' 28 4

def rn (w : Insn) : Reg := w.extractLsb' 16 4
def rd (w : Insn) : Reg := w.extractLsb' 12 4
def rm (w : Insn) : Reg := w.extractLsb' 0 4
def imm12 (w : Insn) : BitVec 12 := w.extractLsb' 0 12

/-- The distance of a branch. -/
def imm24 (w : Insn) : Addr := (w.extractLsb' 0 24 ++ 0#2).signExtend 32

def Operand.ofReg (w : Insn) : Operand := .reg (rm w) (w.extractLsb' 5 2) (w.extractLsb' 7 5)

/-- An addition that sets the flags does not write R15, nor does a load or
store write back into it. -/
def decode (w : Insn) : Op :=
  if cond w = 15 then
    if w &&& 0x0E000000 = 0x0A000000 then .blx (imm24 w + if w.getLsbD 24 then 2 else 0) else .other w
  else if w &&& 0x0E000000 = 0x0A000000 then .b (w.getLsbD 24) (imm24 w)
  else if w &&& 0x0FFFFFF0 = 0x012FFF10 then .bx (rm w)
  else if w &&& 0x0FE00000 = 0x02800000 then
    if w.getLsbD 20 ∧ rd w = 15 then .other w else .add (w.getLsbD 20) (rd w) (rn w) (.imm (imm12 w))
  else if w &&& 0x0FE00000 = 0x02400000 then
    if w.getLsbD 20 ∧ rd w = 15 then .other w else .sub (w.getLsbD 20) (rd w) (rn w) (.imm (imm12 w))
  else if w &&& 0x0FE00010 = 0x00800000 then
    if w.getLsbD 20 ∧ rd w = 15 then .other w else .add (w.getLsbD 20) (rd w) (rn w) (.ofReg w)
  else if w &&& 0x0FEF0FF0 = 0x01A00000 then
    if w.getLsbD 20 ∧ rd w = 15 then .other w else .mov (w.getLsbD 20) (rd w) (rm w)
  else if w &&& 0x0E400000 = 0x04000000 then
    if (¬ w.getLsbD 24 ∧ w.getLsbD 21) ∨ (rn w = 15 ∧ (¬ w.getLsbD 24 ∨ w.getLsbD 21)) then .other w
    else if w.getLsbD 20 then
      .ldr (rd w) (rn w) (w.getLsbD 24) (w.getLsbD 23) (w.getLsbD 21) (imm12 w)
    else .str (rd w) (rn w) (w.getLsbD 24) (w.getLsbD 23) (w.getLsbD 21) (imm12 w)
  else .other w

/-! ## Which words are what -/

section Decoding
variable {w : Insn}

theorem decode_branch (hc : cond w ≠ 15) (h : w &&& 0x0E000000 = 0x0A000000) :
    decode w = .b (w.getLsbD 24) (imm24 w) := by
  rw [decode, if_neg hc, if_pos h]

theorem decode_blx (h : w &&& 0xFE000000 = 0xFA000000) :
    cond w = 15 ∧ decode w = .blx (imm24 w + if w.getLsbD 24 then 2 else 0) := by
  have hc : cond w = 15 := Bits.field_of_and h (by decide)
  rw [decode, if_pos hc, if_pos (Bits.and_of_and h (by decide))]
  exact ⟨hc, rfl⟩

theorem decode_bx (hc : cond w ≠ 15) (h : w &&& 0x0FFFFFF0 = 0x012FFF10) : decode w = .bx (rm w) := by
  rw [decode, if_neg hc, if_neg (Bits.and_ne h (by decide)), if_pos h]

theorem decode_addImm (hc : cond w ≠ 15) (h : w &&& 0x0FF00000 = 0x02800000) :
    decode w = .add false (rd w) (rn w) (.imm (imm12 w)) := by
  have h20 : w.getLsbD 20 = false := Bits.getLsbD_of_and h (by decide)
  rw [decode, if_neg hc, if_neg (Bits.and_ne h (by decide)), if_neg (Bits.and_ne h (by decide)),
    if_pos (Bits.and_of_and h (by decide)), h20]
  exact if_neg (fun hn => Bool.false_ne_true hn.1)

theorem decode_subImm (hc : cond w ≠ 15) (h : w &&& 0x0FF00000 = 0x02400000) :
    decode w = .sub false (rd w) (rn w) (.imm (imm12 w)) := by
  have h20 : w.getLsbD 20 = false := Bits.getLsbD_of_and h (by decide)
  rw [decode, if_neg hc, if_neg (Bits.and_ne h (by decide)), if_neg (Bits.and_ne h (by decide)),
    if_neg (Bits.and_ne h (by decide)), if_pos (Bits.and_of_and h (by decide)), h20]
  exact if_neg (fun hn => Bool.false_ne_true hn.1)

theorem decode_addReg (hc : cond w ≠ 15) (h : w &&& 0x0FE00010 = 0x00800000) (hrd : rd w ≠ 15) :
    decode w = .add (w.getLsbD 20) (rd w) (rn w) (.ofReg w) := by
  rw [decode, if_neg hc, if_neg (Bits.and_ne h (by decide)), if_neg (Bits.and_ne h (by decide)),
    if_neg (Bits.and_ne h (by decide)), if_neg (Bits.and_ne h (by decide)), if_pos h]
  exact if_neg (fun hn => hrd hn.2)

theorem decode_mov (hc : cond w ≠ 15) (h : w &&& 0x0FFF0FF0 = 0x01A00000) :
    decode w = .mov false (rd w) (rm w) := by
  have h20 : w.getLsbD 20 = false := Bits.getLsbD_of_and h (by decide)
  rw [decode, if_neg hc, if_neg (Bits.and_ne h (by decide)), if_neg (Bits.and_ne h (by decide)),
    if_neg (Bits.and_ne h (by decide)), if_neg (Bits.and_ne h (by decide)), if_neg (Bits.and_ne h (by decide)),
    if_pos (Bits.and_of_and h (by decide)), h20]
  exact if_neg (fun hn => Bool.false_ne_true hn.1)

/-- A load without write-back. -/
theorem decode_ldr (hc : cond w ≠ 15) (h : w &&& 0x0F700000 = 0x05100000) :
    decode w = .ldr (rd w) (rn w) true (w.getLsbD 23) false (imm12 w) := by
  have h24 : w.getLsbD 24 = true := Bits.getLsbD_of_and h (by decide)
  have h21 : w.getLsbD 21 = false := Bits.getLsbD_of_and h (by decide)
  have h20 : w.getLsbD 20 = true := Bits.getLsbD_of_and h (by decide)
  rw [decode, if_neg hc, if_neg (Bits.and_ne h (by decide)), if_neg (Bits.and_ne h (by decide)),
    if_neg (Bits.and_ne h (by decide)), if_neg (Bits.and_ne h (by decide)), if_neg (Bits.and_ne h (by decide)),
    if_neg (Bits.and_ne h (by decide)), if_pos (Bits.and_of_and h (by decide)), h24, h21, h20]
  simp

end Decoding

/-! ## Execution -/

abbrev State := Regs × Addr

section Machine
variable (plain : Insn → Addr → Regs → Regs × Option Addr) (text : Memory) (ret : Addr → Addr)

/-- The address a load or store uses, and what its base becomes. -/
def address (s : Regs) (pc : Addr) (rn : Reg) (pre up wback : Bool) (imm : BitVec 12) : Addr × Regs :=
  let base := s.get pc rn
  let off := if up then base + imm.setWidth 32 else base - imm.setWidth 32
  (if pre then off else base, if pre && !wback then s else s.set rn off)

def exec (s : Regs) (pc : Addr) : Op → Regs × Option Addr
  | .b link off => (if link then s.set 14 (ret (pc + 4)) else s, some (pc + 8 + off))
  | .blx off => (s.set 14 (ret (pc + 4)), some (pc + 8 + off + 1))
  | .bx rm => (s, some (s.get pc rm))
  | .add flags rd rn y =>
    let (v, c, o) := addWithCarry (s.get pc rn) (y.value s pc).1 false
    (if flags then s.setFlags v c o else s).write rd v
  | .sub flags rd rn y =>
    let (v, c, o) := addWithCarry (s.get pc rn) (~~~(y.value s pc).1) true
    (if flags then s.setFlags v c o else s).write rd v
  | .mov flags rd rm =>
    let v := s.get pc rm
    (if flags then s.setFlags v s.carry s.overflow else s).write rd v
  | .ldr rt rn pre up wback imm =>
    let (a, s') := address s pc rn pre up wback imm
    s'.write rt (word (if rn = 15 then text else s.mem) a)
  | .str rt rn pre up wback imm =>
    let (a, s') := address s pc rn pre up wback imm
    ({ s' with mem := storeWord s.mem a (s.get pc rt) }, none)
  | .other w => plain w pc s

/-- What the instruction `w` does at `pc`. -/
def effect (w : Insn) (pc : Addr) (s : Regs) : Regs × Option Addr :=
  if holds (cond w) s then exec plain text ret s pc (decode w) else (s, none)

/-- One instruction. -/
def step (s : State) : State :=
  let (r, next) := effect plain text id (word text s.2) s.2 s.1
  (r, next.getD (s.2 + 4))

def Step (s s' : State) : Prop := step plain text s = s'

abbrev Steps : State → State → Prop := Relation.ReflTransGen (Step plain text)

end Machine

/-! ## Code -/

/-- `bs` are at `a`. -/
def Holds (m : Memory) (a : Addr) (bs : List (BitVec 8)) : Prop :=
  ∀ k b, bs[k]? = some b → m (a + BitVec.ofNat 32 k) = b

/-- `ws` stand at `a`. -/
def At (text : Memory) : Addr → List Insn → Prop
  | _, [] => True
  | a, w :: ws => word text a = w ∧ At text (a + 4) ws

theorem At.append {text : Memory} {vs ws : List Insn} {a : Addr} (h : At text a (vs ++ ws)) :
    At text a vs ∧ At text (a + BitVec.ofNat 32 (4 * vs.length)) ws := by
  induction vs generalizing a with
  | nil =>
    refine ⟨trivial, ?_⟩
    have e : a + BitVec.ofNat 32 (4 * ([] : List Insn).length) = a := BitVec.add_zero a
    rw [e]
    exact h
  | cons v vs ih =>
    obtain ⟨hv, h⟩ := h
    obtain ⟨hvs, hws⟩ := ih h
    refine ⟨⟨hv, hvs⟩, ?_⟩
    have e : a + BitVec.ofNat 32 (4 * (v :: vs).length) = a + 4 + BitVec.ofNat 32 (4 * vs.length) := by
      rw [List.length_cons]
      bv_omega
    rw [e]
    exact hws

section Execution
variable {plain : Insn → Addr → Regs → Regs × Option Addr} {text : Memory} {a : Addr} {s : Regs}

theorem Steps.at {w : Insn} {ws : List Insn} (h : At text a (w :: ws)) :
    Steps plain text (s, a) ((effect plain text id w a s).1, (effect plain text id w a s).2.getD (a + 4)) := by
  refine .single ?_
  rw [Step, step, h.1]

/-- An instruction that is executed whatever the flags are. -/
theorem effect_always {ret : Addr → Addr} {w : Insn} {op : Op} (hc : cond w = 14) (hd : decode w = op) :
    effect plain text ret w a s = exec plain text ret s a op := by
  have : holds (cond w) s = true := by
    rw [hc]
    rfl
  rw [effect, if_pos this, hd]

variable {ret : Addr → Addr}

/-- A literal. -/
theorem exec_literal (rt : Reg) (up : Bool) (imm : BitVec 12) :
    exec plain text ret s a (.ldr rt 15 true up false imm) =
      s.write rt (word text (if up then a + 8 + imm.setWidth 32 else a + 8 - imm.setWidth 32)) := by
  cases up <;> rfl

theorem addWithCarry_false (x y : BitVec 32) : (addWithCarry x y false).1 = x + y :=
  BitVec.add_zero (x + y)

theorem addWithCarry_not (x y : BitVec 32) : (addWithCarry x (~~~y) true).1 = x - y := by
  have e : (addWithCarry x (~~~y) true).1 = x + ~~~y + 1 := rfl
  rw [e, BitVec.sub_eq_add_neg, BitVec.neg_eq_not_add, BitVec.add_assoc]
  rfl

theorem exec_addPc (rd : Reg) (imm : BitVec 12) :
    exec plain text ret s a (.add false rd 15 (.imm imm)) = s.write rd (a + 8 + expandImm imm) := by
  rw [← addWithCarry_false]
  rfl

theorem exec_subPc (rd : Reg) (imm : BitVec 12) :
    exec plain text ret s a (.sub false rd 15 (.imm imm)) = s.write rd (a + 8 - expandImm imm) := by
  rw [← addWithCarry_not]
  rfl

theorem write_pc (v : BitVec 32) : s.write 15 v = (s, some v) := rfl

theorem write_of_ne {n : Reg} (h : n ≠ 15) (v : BitVec 32) : s.write n v = (s.set n v, none) := if_neg h

theorem write_inj {n : Reg} {v v' : BitVec 32} (h : s.write n v = s.write n v') : v = v' := by
  by_cases hn : n = 15
  · rw [hn, write_pc, write_pc] at h
    exact Option.some.inj (Prod.ext_iff.mp h).2
  · rw [write_of_ne hn, write_of_ne hn] at h
    have := congrArg (fun t : Regs => t.r n) (Prod.ext_iff.mp h).1
    simpa [Regs.set_same] using this

/-- What changes a register is noticed. -/
theorem write_ne {n : Reg} {v : BitVec 32} (hv : s.r n ≠ v) : s.write n v ≠ (s, none) := by
  intro h
  by_cases hn : n = 15
  · rw [hn, write_pc] at h
    cases (Prod.ext_iff.mp h).2
  · rw [write_of_ne hn] at h
    have := congrArg (fun t : Regs => t.r n) (Prod.ext_iff.mp h).1
    exact hv (this.symm.trans (Regs.set_same s n v))

theorem word_of_bytes {m : Memory} {v : BitVec 32} (h0 : m a = v.extractLsb' 0 8)
    (h1 : m (a + 1) = v.extractLsb' 8 8) (h2 : m (a + 2) = v.extractLsb' 16 8)
    (h3 : m (a + 3) = v.extractLsb' 24 8) : word m a = v := by
  rw [word, h0, h1, h2, h3]
  rw [BitVec.extractLsb'_append_extractLsb'_eq_extractLsb' (by rfl),
    BitVec.extractLsb'_append_extractLsb'_eq_extractLsb' (by rfl),
    BitVec.extractLsb'_append_extractLsb'_eq_extractLsb' (by rfl)]
  simp

theorem word_storeWord (m : Memory) (a : Addr) (v : BitVec 32) : word (storeWord m a v) a = v := by
  have byte (k : Nat) (hk : k < 4) : storeWord m a v (a + BitVec.ofNat 32 k) = v.extractLsb' (8 * k) 8 := by
    have h : (a + BitVec.ofNat 32 k - a).toNat = k := Bits.add_sub_toNat (by omega)
    unfold storeWord
    rw [h, if_pos hk]
  refine word_of_bytes ?_ (byte 1 (by decide)) (byte 2 (by decide)) (byte 3 (by decide))
  have h0 := byte 0 (by decide)
  rwa [show a + BitVec.ofNat 32 0 = a from BitVec.add_zero a] at h0

end Execution

end DumpDex.Core.A32
