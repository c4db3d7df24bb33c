import DumpDex.Core.A32
import DumpDex.Core.Straight
import DumpDex.L2Machine.Relocate

/-!
# What `relocate.c` writes for ARM

The blocks are made of four code sequences: a jump, a call, the load of a
value, and an addition to a borrowed register that is saved on the stack in
between.

* `jump_does`, `call_does`, `load_does`, `add_does`: what they do.
* `block_b` and so on: which of them stands for which instruction, with the
  fields that the masks and shifts of the source read.
-/
namespace DumpDex.L3.ArmBlocks
open DumpDex.Core DumpDex.Core.A32 DumpDex.Core.Straight
open DumpDex.L2.Relocate hiding Addr

/-! ## The fields `relocate.c` reads -/

section Fields
variable {w : Insn}

theorem rd_field : (w &&& 0xF000) >>> 12 = (rd w).setWidth 32 := by
  rw [BitVec.ushiftRight_and_distrib]
  exact @Bits.shift_and_field 32 w 12 4 (by decide)

theorem low_field {len : Nat} (h : len ≤ 32) :
    w &&& BitVec.ofNat 32 (2 ^ len - 1) = (w.extractLsb' 0 len).setWidth 32 := by
  rw [← Bits.shift_and_field w 0 h, BitVec.ushiftRight_zero]

/-- `if (x >> 25) x |= 0xFFFFFFFF << 26` -/
def signed (x : BitVec 32) : BitVec 32 := if x >>> 25 ≠ 0 then x ||| (0xFFFFFFFF <<< 26) else x

theorem signed_setWidth (v : BitVec 26) : signed (v.setWidth 32) = v.signExtend 32 := by
  have hv : ((v.setWidth 32) >>> 25).toNat = v.toNat / 2 ^ 25 := by
    have := v.isLt
    rw [BitVec.toNat_ushiftRight, BitVec.toNat_setWidth, Nat.mod_eq_of_lt (by omega), Nat.shiftRight_eq_div_pow]
  have hz : (v.setWidth 32) >>> 25 ≠ 0 ↔ v.msb = true := by
    rw [BitVec.msb_eq_decide, decide_eq_true_iff, ne_eq, ← BitVec.toNat_inj, hv]
    show ¬ v.toNat / 2 ^ 25 = 0 ↔ 2 ^ 25 ≤ v.toNat
    omega
  cases hm : v.msb with
  | false =>
    rw [signed, if_neg (by rw [hz, hm]; decide), BitVec.signExtend_eq_setWidth_of_msb_false hm]
  | true =>
    have hones : ∀ i : Fin 32, (0xFFFFFFFF <<< 26 : BitVec 32).getLsbD i = decide (26 ≤ i.val) := by decide
    rw [signed, if_pos (hz.mpr hm)]
    apply BitVec.eq_of_getLsbD_eq
    intro i hi
    rw [BitVec.getLsbD_or, hones ⟨i, hi⟩, BitVec.getLsbD_setWidth, BitVec.getLsbD_signExtend, hm]
    by_cases h26 : i < 26
    · simp [hi, h26]
    · simp [hi, h26]
      omega

theorem signed_imm24 : signed ((w &&& 0xFFFFFF) <<< 2) = imm24 w := by
  have e : (w &&& 0xFFFFFF) <<< 2 = (w.extractLsb' 0 24 ++ 0#2).setWidth 32 := by
    have h := @low_field w 24 (by decide)
    have h' : (0xFFFFFF : BitVec 32) = BitVec.ofNat 32 (2 ^ 24 - 1) := by decide
    rw [h', h]
    apply BitVec.eq_of_toNat_eq
    have hlt := (w.extractLsb' 0 24).isLt
    rw [BitVec.toNat_shiftLeft, BitVec.toNat_setWidth, BitVec.toNat_setWidth, BitVec.toNat_append,
      BitVec.toNat_ofNat, Nat.zero_mod, Nat.or_zero, Nat.shiftLeft_eq, Nat.shiftLeft_eq]
    omega
  rw [e, signed_setWidth, imm24]

theorem bit24_field : (w &&& 0x1000000) >>> 23 = if w.getLsbD 24 then 2 else 0 := by
  have h : (0x1000000 : BitVec 32) = BitVec.twoPow 32 24 := by decide
  rw [h, BitVec.and_twoPow]
  split <;> rfl

theorem signed_or_two (x : BitVec 32) : signed (x <<< 2 ||| 2) = signed (x <<< 2) + 2 := by
  have h0 : (x <<< 2 ||| 2) >>> 25 = (x <<< 2) >>> 25 := by
    rw [BitVec.ushiftRight_or_distrib]
    exact BitVec.or_zero
  have h2 : x <<< 2 &&& 2 = 0 := by
    have e : (2 : BitVec 32) = BitVec.twoPow 32 1 := by decide
    have hb : (x <<< 2).getLsbD 1 = false := by simp
    rw [e, BitVec.and_twoPow, hb]
    rfl
  rw [signed, signed, h0]
  split
  · have hF : (x <<< 2 ||| 0xFFFFFFFF <<< 26) &&& 2 = 0 := by
      rw [BitVec.and_comm, BitVec.and_or_distrib_left, BitVec.and_comm, h2]
      decide
    rw [BitVec.add_eq_or_of_and_eq_zero _ _ hF, BitVec.or_assoc, BitVec.or_assoc, BitVec.or_comm 2]
  · rw [BitVec.add_eq_or_of_and_eq_zero _ _ h2]

end Fields

/-! ## Some code sequences -/

section Sequences
variable {plain : Insn → Addr → Regs → Regs × Option Addr} {text : Memory} {a b v : Addr}

theorem decode_ldrPc : decode 0xE51FF004 = .ldr 15 15 true false false 4 := by decide

theorem decode_addLr : decode 0xE28FE004 = .add false 14 15 (.imm 4) := by decide

theorem decode_addPc : decode 0xE28FF000 = .add false 15 15 (.imm 0) := by decide

/-- A word with a register in bits 15 to 12. -/
def withRd (w : Insn) (q : Reg) : Insn := w ||| q.setWidth 32 <<< 12

theorem decode_load : ∀ q : Reg, cond (withRd 0xE51F0000 q) = 14 ∧
    decode (withRd 0xE51F0000 q) = .ldr q 15 true false false 0 := by decide

/-- `LDR PC, [PC, #-4]` and the address. -/
theorem jump_does (h : At text a [0xE51FF004, v]) :
    Does (Step plain text) a (fun s => (s, some v)) b := by
  intro s
  have h0 := @Steps.at plain text a s _ _ h
  have hv : word text (a + 8 - (4 : BitVec 12).setWidth 32) = v := by
    rw [show a + 8 - (4 : BitVec 12).setWidth 32 = a + 4 by bv_omega]
    exact h.2.1
  rw [effect_always rfl decode_ldrPc, exec_literal, write_pc] at h0
  simp only [Bool.false_eq_true, if_false, hv] at h0
  exact h0

/-- `ADD LR, PC, #4` before them. -/
theorem call_does (h : At text a [0xE28FE004, 0xE51FF004, v]) :
    Does (Step plain text) a (fun s => (s.set 14 (a + 12), some v)) b := by
  intro s
  have h0 := @Steps.at plain text a s _ _ h
  have e : a + 8 + expandImm 4 = a + 12 := by
    rw [show expandImm 4 = 4 by decide]
    bv_omega
  rw [effect_always rfl decode_addLr, exec_addPc, write_of_ne (by decide), e] at h0
  exact h0.trans (jump_does h.2 _)

/-- `LDR Rq, [PC]; ADD PC, PC, #0` and the value. -/
theorem load_does {q : Reg} (h : At text a [withRd 0xE51F0000 q, 0xE28FF000, v]) :
    Does (Step plain text) a (fun s => s.write q v) (a + 12) := by
  intro s
  have h0 := @Steps.at plain text a s _ _ h
  obtain ⟨hc, hd⟩ := decode_load q
  have hv : word text (a + 8 - (0 : BitVec 12).setWidth 32) = v := by
    rw [show a + 8 - (0 : BitVec 12).setWidth 32 = a + 4 + 4 by bv_omega]
    exact h.2.2.1
  rw [effect_always hc hd, exec_literal] at h0
  simp only [Bool.false_eq_true, if_false, hv] at h0
  by_cases hq : q = 15
  · subst hq
    exact h0
  · change Relation.ReflTransGen _ _ ((s.write q v).1, (s.write q v).2.getD (a + 12))
    rw [write_of_ne hq] at h0 ⊢
    have h1 := @Steps.at plain text (a + 4) (s.set q v) _ _ h.2
    have e : a + 4 + 8 + expandImm 0 = a + 12 := by
      rw [show expandImm 0 = 0 by decide]
      bv_omega
    rw [effect_always rfl decode_addPc, exec_addPc, write_pc, e] at h1
    exact h0.trans h1

end Sequences

/-! ## The block of an addition -/

/-- What the block leaves below the stack: the register it borrows. -/
def spilled (q : Reg) (s : Regs) : Regs := { s with mem := storeWord s.mem (s.r 13 - 4) (s.r q) }

/-- The sum of `x` and `y` in `n`. -/
def added (s : Regs) (flags : Bool) (n : Reg) (x y : BitVec 32) : Regs :=
  let (v, c, o) := addWithCarry x y false
  (if flags then s.setFlags v c o else s).set n v

section Addition
variable {plain : Insn → Addr → Regs → Regs × Option Addr} {text : Memory} {ret : Addr → Addr} {a pc : Addr}
  {s : Regs}

theorem decode_push : ∀ q : Reg, cond (withRd 0xE52D0004 q) = 14 ∧
    decode (withRd 0xE52D0004 q) = .str q 13 true false true 4 := by decide

theorem decode_value : ∀ q : Reg, cond (withRd 0xE59F0008 q) = 14 ∧
    decode (withRd 0xE59F0008 q) = .ldr q 15 true true false 8 := by decide

theorem decode_pop : ∀ q : Reg, cond (withRd 0xE49D0004 q) = 14 ∧
    decode (withRd 0xE49D0004 q) = .ldr q 13 false true false 4 := by decide

theorem exec_add {n : Reg} (hn : n ≠ 15) (flags : Bool) (m : Reg) (y : Operand) :
    exec plain text ret s pc (.add flags n m y) = (added s flags n (s.get pc m) (y.value s pc).1, none) := by
  simp only [exec, added, write_of_ne hn]

theorem value_reg {m : Reg} {kind : BitVec 2} {amount : BitVec 5} {s' : Regs} {pc' : Addr} (hm : m ≠ 15)
    (hr : s'.r m = s.r m) (hc : s'.carry = s.carry) :
    (Operand.reg m kind amount).value s' pc' = (Operand.reg m kind amount).value s pc := by
  simp only [Operand.value, Regs.get, if_neg hm, hr, hc]

/-- The state of the block before the addition. -/
def borrowed (q : Reg) (v : BitVec 32) (s : Regs) : Regs := ((spilled q s).set 13 (s.r 13 - 4)).set q v

theorem borrow_steps {q : Reg} {v : BitVec 32} {ws : List Insn} (hq : q ≠ 15)
    (h : At text a (withRd 0xE52D0004 q :: withRd 0xE59F0008 q :: ws)) (hv : word text (a + 20) = v) :
    Steps plain text (s, a) (borrowed q v s, a + 8) := by
  have h0 := @Steps.at plain text a s _ _ h
  obtain ⟨hc, hd⟩ := decode_push q
  have e : exec plain text id s a (.str q 13 true false true 4) =
      ((spilled q s).set 13 (s.r 13 - 4), none) := by
    simp only [exec, address, Regs.get, if_neg hq]
    rfl
  rw [effect_always hc hd, e] at h0
  have h1 := @Steps.at plain text (a + 4) ((spilled q s).set 13 (s.r 13 - 4)) _ _ h.2
  obtain ⟨hc, hd⟩ := decode_value q
  have ha : a + 4 + 8 + (8 : BitVec 12).setWidth 32 = a + 20 := by bv_omega
  rw [effect_always hc hd, exec_literal, if_pos rfl, ha, hv, write_of_ne hq] at h1
  have e8 : a + 4 + 4 = a + 8 := by bv_omega
  simp only [Option.getD_none, e8] at h0 h1
  exact h0.trans h1

/-- Behind the addition: `LDR Rq, [SP], #4; ADD PC, PC, #0` and the value. -/
theorem return_steps {q : Reg} {v : BitVec 32} (hq : q ≠ 15) (h : At text a [withRd 0xE49D0004 q, 0xE28FF000, v]) :
    Steps plain text (s, a) ((s.set 13 (s.r 13 + 4)).set q (word s.mem (s.r 13)), a + 12) := by
  have h0 := @Steps.at plain text a s _ _ h
  obtain ⟨hc, hd⟩ := decode_pop q
  have e : exec plain text id s a (.ldr q 13 false true false 4) =
      ((s.set 13 (s.r 13 + 4)).set q (word s.mem (s.r 13)), none) := by
    simp only [exec, address, write_of_ne hq]
    rfl
  rw [effect_always hc hd, e] at h0
  have h1 := @Steps.at plain text (a + 4) ((s.set 13 (s.r 13 + 4)).set q (word s.mem (s.r 13))) _ _ h.2
  have e12 : a + 4 + 8 + expandImm 0 = a + 12 := by
    rw [show expandImm 0 = 0 by decide]
    bv_omega
  rw [effect_always rfl decode_addPc, exec_addPc, write_pc, e12] at h1
  exact h0.trans h1

theorem added_same (flags : Bool) (n : Reg) (x y : BitVec 32) :
    (added s flags n x y).r n = (addWithCarry x y false).1 := Regs.set_same _ _ _

theorem added_of_ne {n k : Reg} (h : k ≠ n) (flags : Bool) (x y : BitVec 32) :
    (added s flags n x y).r k = s.r k := by
  cases flags <;> exact Regs.set_of_ne h _

theorem borrowed_sp {q : Reg} (hq : q ≠ 13) (v : BitVec 32) : (borrowed q v s).r 13 = s.r 13 - 4 := by
  rw [borrowed, Regs.set_of_ne hq.symm, Regs.set_same]

theorem borrowed_of_ne {q k : Reg} (hk : k ≠ q) (hk' : k ≠ 13) (v : BitVec 32) :
    (borrowed q v s).r k = s.r k := by
  rw [borrowed, Regs.set_of_ne hk, Regs.set_of_ne hk']
  rfl

/-- `t` is left behind the borrowed register and the stack pointer. -/
theorem returned {q : Reg} {t u : Regs} (hsp : t.r 13 = s.r 13 - 4) (hm : t.mem = (spilled q s).mem)
    (hr : u.r 13 = s.r 13 ∧ u.r q = s.r q) (hk : ∀ k, k ≠ q → k ≠ 13 → t.r k = u.r k)
    (ht : u = { t with r := u.r }) :
    (t.set 13 (t.r 13 + 4)).set q (word t.mem (t.r 13)) = u := by
  have hw : word (spilled q s).mem (s.r 13 - 4) = s.r q := word_storeWord _ _ _
  have e : s.r 13 - 4 + 4 = s.r 13 := by bv_omega
  rw [hsp, hm, hw, e, ht]
  refine Regs.ext ?_ rfl rfl rfl rfl rfl
  funext k
  by_cases hkq : k = q
  · rw [hkq, Regs.set_same]
    exact hr.2.symm
  · rw [Regs.set_of_ne hkq]
    by_cases hk13 : k = 13
    · rw [hk13, Regs.set_same]
      exact hr.1.symm
    · rw [Regs.set_of_ne hk13]
      exact hk k hkq hk13

theorem returned_borrowed {q : Reg} (hq : q ≠ 13) (v : BitVec 32) :
    ((borrowed q v s).set 13 ((borrowed q v s).r 13 + 4)).set q
      (word (borrowed q v s).mem ((borrowed q v s).r 13)) = spilled q s :=
  returned (s := s) (borrowed_sp hq v) rfl ⟨rfl, rfl⟩ (fun _ h h' => borrowed_of_ne h h' v) rfl

theorem returned_added {q n : Reg} (hq : q ≠ 13) (hn : n ≠ 13) (hqn : q ≠ n) (flags : Bool) (x y : BitVec 32) :
    ((added (borrowed q x s) flags n x y).set 13 ((added (borrowed q x s) flags n x y).r 13 + 4)).set q
      (word (added (borrowed q x s) flags n x y).mem ((added (borrowed q x s) flags n x y).r 13)) =
    added (spilled q s) flags n x y := by
  refine returned (s := s) ?_ ?_ ⟨added_of_ne hn.symm _ _ _, added_of_ne hqn _ _ _⟩ ?_ ?_
  · rw [added_of_ne hn.symm, borrowed_sp hq]
  · cases flags <;> rfl
  · intro k hkq hk13
    by_cases hk : k = n
    · rw [hk, added_same, added_same]
    · rw [added_of_ne hk, added_of_ne hk]
      exact borrowed_of_ne hkq hk13 x
  · cases flags <;> rfl

/-- The block of `w`, an addition to R15; `w'` has the borrowed register in its place. -/
theorem add_does {text0 : Memory} {w w' : Insn} {q n m : Reg} {flags : Bool} {kind : BitVec 2}
    {amount : BitVec 5} (hq : q ≠ 15 ∧ q ≠ 13) (hn : n ≠ 15 ∧ n ≠ 13) (hm : m ≠ 15 ∧ m ≠ 13)
    (hqn : q ≠ n) (hqm : q ≠ m) (hc : cond w' = cond w) (hd : decode w = .add flags n 15 (.reg m kind amount))
    (hd' : decode w' = .add flags n q (.reg m kind amount))
    (h : At text a [withRd 0xE52D0004 q, withRd 0xE59F0008 q, w', withRd 0xE49D0004 q, 0xE28FF000, pc + 8]) :
    Does (Step plain text) a (fun s => effect plain text0 ret w pc (spilled q s)) (a + 24) := by
  intro s
  have hv : word text (a + 20) = pc + 8 := by
    rw [show a + 20 = a + 4 + 4 + 4 + 4 + 4 by bv_omega]
    exact h.2.2.2.2.2.1
  have hb := @borrow_steps plain text a s _ _ _ hq.1 h hv
  have hat : At text (a + 8) [w', withRd 0xE49D0004 q, 0xE28FF000, pc + 8] := by
    rw [show a + 8 = a + 4 + 4 by bv_omega]
    exact h.2.2
  have hw := @Steps.at plain text (a + 8) (borrowed q (pc + 8) s) _ _ hat
  have e24 : a + 8 + 4 + 12 = a + 24 := by bv_omega
  have hholds : holds (cond w) (borrowed q (pc + 8) s) = holds (cond w) (spilled q s) := rfl
  simp only [effect, hc, hd, hd', hholds, exec_add hn.1] at hw ⊢
  have hx : (borrowed q (pc + 8) s).get (a + 8) q = pc + 8 := by
    rw [Regs.get, if_neg hq.1]
    exact Regs.set_same _ _ _
  have hx' : (spilled q s).get pc 15 = pc + 8 := rfl
  have hy : (Operand.reg m kind amount).value (borrowed q (pc + 8) s) (a + 8) =
      (Operand.reg m kind amount).value (spilled q s) pc :=
    value_reg hm.1 (borrowed_of_ne hqm.symm hm.2 _) rfl
  rw [hx, hy] at hw
  rw [hx']
  -- the register is saved and given back even if the addition is not executed
  cases hh : holds (cond w) (spilled q s) with
  | false =>
    rw [hh] at hw
    have hr := @return_steps plain text (a + 8 + 4) (borrowed q (pc + 8) s) _ _ hq.1 hat.2
    rw [returned_borrowed hq.2, e24] at hr
    exact (hb.trans hw).trans hr
  | true =>
    rw [hh] at hw
    have hr := @return_steps plain text (a + 8 + 4)
      (added (borrowed q (pc + 8) s) flags n (pc + 8) ((Operand.reg m kind amount).value (spilled q s) pc).1)
      _ _ hq.1 hat.2
    rw [returned_added hq.2 hn.2 hqn, e24] at hr
    exact (hb.trans hw).trans hr

end Addition

/-! ## The blocks -/

/-- The register the block of an addition borrows. -/
def borrow (n m : Reg) : Reg := BitVec.ofNat 4 (freeRegister [n.toNat, m.toNat] 12)

theorem borrow_free : ∀ n m : Reg,
    (borrow n m ≠ 15 ∧ borrow n m ≠ 13) ∧ borrow n m ≠ n ∧ borrow n m ≠ m ∧
      BitVec.ofNat 32 (freeRegister [n.toNat, m.toNat] 12) = (borrow n m).setWidth 32 := by decide

/-- `w` with a register in bits 19 to 16. -/
def withRn (w : Insn) (q : Reg) : Insn := (w &&& (0xFFF0FFFF : Insn)) ||| (q.setWidth 32 <<< 16 : Insn)

section Borrowed
variable {w : Insn} {q : Reg}

theorem rn_masked : ∀ q : Reg, q.setWidth 32 <<< 16 = (q.setWidth 32 <<< 16 : Insn) &&& 0xF0000 := by decide

theorem withRn_field {lo len : Nat} (hm : (0xFFF0FFFF : Insn).extractLsb' lo len = BitVec.allOnes len)
    (hk : (0xF0000 : Insn).extractLsb' lo len = BitVec.ofNat len 0) :
    (withRn w q).extractLsb' lo len = w.extractLsb' lo len := by
  rw [withRn, rn_masked]
  exact Bits.field_left hm hk

theorem rn_withRn : rn (withRn w q) = q := by
  have h : ∀ q : Reg, (q.setWidth 32 <<< 16 : Insn).extractLsb' 16 4 = q := by decide
  rw [rn, withRn, rn_masked, Bits.field_right (by decide) (by decide)]
  exact h q

theorem withRn_test (h : w &&& 0x0FE00010 = 0x00800000) : withRn w q &&& 0x0FE00010 = 0x00800000 := by
  have hq : ∀ q : Reg, (0x0FE00010 : Insn) &&& (q.setWidth 32 <<< 16 : Insn) = 0 := by decide
  have hw : 0x0FE00010 &&& (w &&& 0xFFF0FFFF) = 0x0FE00010 &&& w := by
    rw [BitVec.and_comm w, ← BitVec.and_assoc]
    rfl
  rw [BitVec.and_comm, withRn, BitVec.and_or_distrib_left, hq, hw, BitVec.and_comm, h]
  rfl

theorem bit_withRn : (withRn w q).getLsbD 20 = w.getLsbD 20 := by
  have h : ∀ q : Reg, (q.setWidth 32 <<< 16 : Insn).getLsbD 20 = false := by decide
  have hm : (0xFFF0FFFF : Insn).getLsbD 20 = true := by decide
  rw [withRn, BitVec.getLsbD_or, BitVec.getLsbD_and, h, hm, Bool.and_true, Bool.or_false]

theorem ofReg_withRn : Operand.ofReg (withRn w q) = Operand.ofReg w := by
  rw [Operand.ofReg, rm, withRn_field (by decide) (by decide), withRn_field (by decide) (by decide),
    withRn_field (by decide) (by decide)]
  rfl

/-- The addition with the borrowed register. -/
theorem decode_withRn (hc : cond w ≠ 15) (h : w &&& 0x0FE00010 = 0x00800000) (hrd : rd w ≠ 15) :
    cond (withRn w q) = cond w ∧ decode (withRn w q) = .add (w.getLsbD 20) (rd w) q (.ofReg w) := by
  have hc' : cond (withRn w q) = cond w := withRn_field (by decide) (by decide)
  have hrd' : rd (withRn w q) = rd w := withRn_field (by decide) (by decide)
  refine ⟨hc', ?_⟩
  rw [decode_addReg (hc' ▸ hc) (withRn_test h) (hrd' ▸ hrd), bit_withRn, hrd', rn_withRn, ofReg_withRn]

end Borrowed

section Blocks
variable {mem : Addr → BitVec 32} {pc : Addr} {w : Insn}

theorem block_blx (h : getTypeInArm w = .blxArm) : relocateOneInArm mem pc w =
    [0xE28FE004, 0xE51FF004, pc + (imm24 w + if w.getLsbD 24 then 2 else 0) + 1] := by
  have e : signed (((w &&& 0xFFFFFF) <<< 2) ||| ((w &&& 0x1000000) >>> 23)) =
      imm24 w + if w.getLsbD 24 then 2 else 0 := by
    rw [bit24_field]
    split
    · rw [signed_or_two, signed_imm24]
    · rw [← signed_imm24]
      exact (congrArg signed BitVec.or_zero).trans (BitVec.add_zero _).symm
  simp only [relocateOneInArm, h]
  rw [← e]
  rfl

theorem block_bl (h : getTypeInArm w = .blArm) :
    relocateOneInArm mem pc w = [0xE28FE004, 0xE51FF004, pc + imm24 w] := by
  simp only [relocateOneInArm, h]
  rw [← signed_imm24]
  rfl

theorem block_b (h : getTypeInArm w = .bArm) : relocateOneInArm mem pc w = [0xE51FF004, pc + imm24 w] := by
  simp only [relocateOneInArm, h]
  rw [← signed_imm24]
  rfl

theorem block_bx (h : getTypeInArm w = .bxArm) : relocateOneInArm mem pc w = [0xE51FF004, pc] := by
  simp only [relocateOneInArm, h]
  exact congrArg (fun x => [0xE51FF004, x]) (BitVec.add_zero pc)

theorem block_add (h : getTypeInArm w = .addArm) : relocateOneInArm mem pc w =
    [withRd 0xE52D0004 (borrow (rd w) (rm w)), withRd 0xE59F0008 (borrow (rd w) (rm w)),
      withRn w (borrow (rd w) (rm w)), withRd 0xE49D0004 (borrow (rd w) (rm w)), 0xE28FF000, pc] := by
  have hn : ((w &&& 0xF000) >>> 12).toNat = (rd w).toNat := by
    rw [rd_field]
    exact BitVec.toNat_setWidth_of_le (by decide)
  have hm : (w &&& 0xF).toNat = (rm w).toNat := by
    have e := @low_field w 4 (by decide)
    rw [show (0xF : BitVec 32) = BitVec.ofNat 32 (2 ^ 4 - 1) by decide, e]
    exact BitVec.toNat_setWidth_of_le (by decide)
  simp only [relocateOneInArm, h, hn, hm, (borrow_free (rd w) (rm w)).2.2.2]
  rfl

/-- What the other blocks load. -/
def loaded (mem : Addr → BitVec 32) (pc : Addr) (w : Insn) : BitVec 32 :=
  match getTypeInArm w with
  | .adr1Arm => pc + (imm12 w).setWidth 32
  | .adr2Arm => pc - (imm12 w).setWidth 32
  | .ldrArm => mem (if w.getLsbD 23 then pc + (imm12 w).setWidth 32 else pc - (imm12 w).setWidth 32)
  | _ => pc

theorem block_load (h : getTypeInArm w = .adr1Arm ∨ getTypeInArm w = .adr2Arm ∨ getTypeInArm w = .ldrArm ∨
    getTypeInArm w = .movArm) :
    relocateOneInArm mem pc w = [withRd 0xE51F0000 (rd w), 0xE28FF000, loaded mem pc w] := by
  have hi : w &&& 0xFFF = (imm12 w).setWidth 32 := @low_field w 12 (by decide)
  have hu : (w &&& 0x800000) >>> 23 ≠ 0 ↔ w.getLsbD 23 := by
    rw [show (0x800000 : BitVec 32) = BitVec.twoPow 32 23 by decide, BitVec.and_twoPow]
    cases w.getLsbD 23 <;> decide
  rcases h with h | h | h | h
  · simp only [relocateOneInArm, loaded, h, rd_field, hi]
    rfl
  · simp only [relocateOneInArm, loaded, h, rd_field, hi]
    rfl
  · simp only [relocateOneInArm, loaded, h, rd_field, hi, hu]
    split <;> rfl
  · simp only [relocateOneInArm, loaded, h, rd_field]
    rfl

end Blocks

end DumpDex.L3.ArmBlocks
