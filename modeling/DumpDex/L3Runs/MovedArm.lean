import DumpDex.L3Runs.ArmBlocks

/-!
# Moved ARM instructions (`relocate.c`)

The first instructions of a hooked function are moved into the trampoline.
`Movable` are those whose block does what they did, wherever they stood.

* `moves`: each block does what its instruction did, `row_does` all of them.
* `branch_kept_iff`, `adr_kept_iff`: when a branch and an address relative to
  R15 are what their blocks make of them.
-/
namespace DumpDex.L3.MovedArm
open DumpDex.Core DumpDex.Core.A32 DumpDex.Core.Straight
open DumpDex.L2.Relocate hiding Addr
open DumpDex.L3.ArmBlocks

/-! ## Instruction by instruction -/

/-- An operand other than R15. -/
def OtherThanPc : Operand → Prop
  | .imm _ => True
  | .reg m _ _ => m ≠ 15

/-- Nothing of it is R15. -/
def PlaceFree (plain : Insn → Addr → Regs → Regs × Option Addr) : Op → Prop
  | .b _ _ | .blx _ => False
  | .bx m => m ≠ 15
  | .add _ _ n y | .sub _ _ n y => n ≠ 15 ∧ OtherThanPc y
  | .mov _ _ m => m ≠ 15
  | .ldr _ n _ _ _ _ => n ≠ 15
  | .str t n _ _ _ _ => t ≠ 15 ∧ n ≠ 15
  | .other w => ∀ a b s, plain w a s = plain w b s

/-- These `relocate.c` moves rightly. It overlooks the condition of what it
rewrites, except where it keeps the instruction, the rotation of an immediate,
and the stack pointer and R15 in an addition. -/
def Movable (plain : Insn → Addr → Regs → Regs × Option Addr) (w : Insn) : Prop :=
  match getTypeInArm w with
  | .blxArm => True
  | .blArm | .bArm => cond w = 14
  | .bxArm => cond w = 14 ∧ w &&& 0x0FFFFFF0 = 0x012FFF10
  | .addArm => cond w ≠ 15 ∧ (rd w ≠ 15 ∧ rd w ≠ 13) ∧ rm w ≠ 15 ∧ rm w ≠ 13
  | .adr1Arm | .adr2Arm => cond w = 14 ∧ expandImm (imm12 w) = (imm12 w).setWidth 32
  | .ldrArm => cond w = 14 ∧ w &&& 0x0F700000 = 0x05100000
  | .movArm => cond w = 14 ∧ w &&& 0x0FFF0FF0 = 0x01A00000
  | _ => PlaceFree plain (decode w)

/-- The masks and the bits of `getTypeInArm`. -/
def pattern : InstructionType → BitVec 32 × BitVec 32
  | .blxArm => (0xFE000000, 0xFA000000)
  | .blArm => (0xF000000, 0xB000000)
  | .bArm => (0xF000000, 0xA000000)
  | .bxArm => (0xFF000FF, 0x120001F)
  | .addArm => (0xFEF0010, 0x8F0000)
  | .adr1Arm => (0xFFF0000, 0x28F0000)
  | .adr2Arm => (0xFFF0000, 0x24F0000)
  | .ldrArm => (0xE5F0000, 0x41F0000)
  | .movArm => (0xFE00FFF, 0x1A0000F)
  | _ => (0, 0)

theorem type_pattern (w : Insn) : w &&& (pattern (getTypeInArm w)).1 = (pattern (getTypeInArm w)).2 := by
  unfold getTypeInArm
  split_ifs <;> first | assumption | exact BitVec.and_zero

theorem pattern_of {w : Insn} {t : InstructionType} (h : getTypeInArm w = t) :
    w &&& (pattern t).1 = (pattern t).2 := h ▸ type_pattern w

/-- What the moved instruction does, if a call from it returns to `b`. -/
def movedEffect (plain : Insn → Addr → Regs → Regs × Option Addr) (text0 : Memory) (b : Addr) (w : Insn)
    (pc : Addr) : Effect Regs Addr := fun s =>
  effect plain text0 (fun _ => b) w pc
    (if getTypeInArm w = .addArm then spilled (borrow (rd w) (rm w)) s else s)

section Moved
variable {plain : Insn → Addr → Regs → Regs × Option Addr} {text text0 : Memory} {a pc : Addr} {w : Insn}

theorem value_free {y : Operand} (h : OtherThanPc y) (s : Regs) (b : Addr) : y.value s a = y.value s b := by
  cases y with
  | imm v => rfl
  | reg m kind amount => exact value_reg h rfl rfl

theorem copy_effect {ret : Addr → Addr} (h : PlaceFree plain (decode w)) (s : Regs) :
    effect plain text id w a s = effect plain text0 ret w pc s := by
  have e : exec plain text id s a (decode w) = exec plain text0 ret s pc (decode w) := by
    cases hd : decode w with
    | b link off => rw [hd] at h; exact h.elim
    | blx off => rw [hd] at h; exact h.elim
    | bx m =>
      rw [hd] at h
      simp only [exec, Regs.get, if_neg (show m ≠ 15 from h)]
    | add flags n m y =>
      rw [hd] at h
      simp only [exec, Regs.get, if_neg h.1, value_free h.2 s pc]
    | sub flags n m y =>
      rw [hd] at h
      simp only [exec, Regs.get, if_neg h.1, value_free h.2 s pc]
    | mov flags n m =>
      rw [hd] at h
      simp only [exec, Regs.get, if_neg (show m ≠ 15 from h)]
    | ldr t n pre up wback imm =>
      rw [hd] at h
      simp only [exec, address, Regs.get, if_neg (show n ≠ 15 from h)]
    | str t n pre up wback imm =>
      rw [hd] at h
      simp only [exec, address, Regs.get, if_neg h.1, if_neg h.2]
    | other v =>
      rw [hd] at h
      exact h a pc s
  rw [effect, effect, e]

/-- An instruction that is executed whatever the flags are, and is no addition. -/
theorem movedEffect_always {b : Addr} {e : Effect Regs Addr} (hc : ∀ s, holds (cond w) s = true)
    (hty : getTypeInArm w ≠ .addArm) (he : ∀ s, exec plain text0 (fun _ => b) s pc (decode w) = e s) :
    movedEffect plain text0 b w pc = e := by
  funext s
  rw [movedEffect, if_neg hty, effect, if_pos (hc s), he]

theorem jump_of {b t : Addr} (hc : ∀ s, holds (cond w) s = true) (hty : getTypeInArm w ≠ .addArm)
    (he : ∀ s, exec plain text0 (fun _ => b) s pc (decode w) = (s, some t))
    (hat : At text a [0xE51FF004, t]) : Does (Step plain text) a (movedEffect plain text0 b w pc) b := by
  rw [movedEffect_always hc hty he]
  exact jump_does hat

theorem call_of {t : Addr} (hc : ∀ s, holds (cond w) s = true) (hty : getTypeInArm w ≠ .addArm)
    (he : ∀ s, exec plain text0 (fun _ => a + 12) s pc (decode w) = (s.set 14 (a + 12), some t))
    (hat : At text a [0xE28FE004, 0xE51FF004, t]) :
    Does (Step plain text) a (movedEffect plain text0 (a + 12) w pc) (a + 12) := by
  rw [movedEffect_always hc hty he]
  exact call_does hat

theorem load_of {q : Reg} {v : BitVec 32} {b : Addr} (hc : ∀ s, holds (cond w) s = true)
    (hty : getTypeInArm w ≠ .addArm) (he : ∀ s, exec plain text0 (fun _ => b) s pc (decode w) = s.write q v)
    (hat : At text a [withRd 0xE51F0000 q, 0xE28FF000, v]) :
    Does (Step plain text) a (movedEffect plain text0 b w pc) (a + 12) := by
  rw [movedEffect_always hc hty he]
  exact load_does hat

theorem holds_of (h : cond w = 14 ∨ cond w = 15) (s : Regs) : holds (cond w) s = true := by
  rcases h with h | h <;> rw [h] <;> rfl

theorem ne_unconditional (h : cond w = 14) : cond w ≠ 15 := by
  rw [h]
  decide

theorem blx_moves (hty : getTypeInArm w = .blxArm) (hat : At text a (relocateOneInArm (word text0) (pc + 8) w)) :
    Does (Step plain text) a (movedEffect plain text0 (a + 12) w pc) (a + 12) := by
  obtain ⟨hc, hd⟩ := decode_blx (pattern_of hty)
  rw [block_blx hty] at hat
  refine call_of (holds_of (.inr hc)) (by rw [hty]; decide) (fun s => ?_) hat
  rw [hd]
  rfl

theorem bl_moves (hty : getTypeInArm w = .blArm) (hc : cond w = 14)
    (hat : At text a (relocateOneInArm (word text0) (pc + 8) w)) :
    Does (Step plain text) a (movedEffect plain text0 (a + 12) w pc) (a + 12) := by
  have hp : w &&& 0xF000000 = 0xB000000 := pattern_of hty
  have hl : w.getLsbD 24 = true := Bits.getLsbD_of_and hp (by decide)
  rw [block_bl hty] at hat
  refine call_of (holds_of (.inl hc)) (by rw [hty]; decide) (fun s => ?_) hat
  rw [decode_branch (ne_unconditional hc) (Bits.and_of_and hp (by decide)), hl]
  rfl

theorem b_moves {b : Addr} (hty : getTypeInArm w = .bArm) (hc : cond w = 14)
    (hat : At text a (relocateOneInArm (word text0) (pc + 8) w)) :
    Does (Step plain text) a (movedEffect plain text0 b w pc) b := by
  have hp : w &&& 0xF000000 = 0xA000000 := pattern_of hty
  have hl : w.getLsbD 24 = false := Bits.getLsbD_of_and hp (by decide)
  rw [block_b hty] at hat
  refine jump_of (holds_of (.inl hc)) (by rw [hty]; decide) (fun s => ?_) hat
  rw [decode_branch (ne_unconditional hc) (Bits.and_of_and hp (by decide)), hl]
  rfl

theorem bx_moves {b : Addr} (hty : getTypeInArm w = .bxArm) (hc : cond w = 14)
    (hw : w &&& 0x0FFFFFF0 = 0x012FFF10) (hat : At text a (relocateOneInArm (word text0) (pc + 8) w)) :
    Does (Step plain text) a (movedEffect plain text0 b w pc) b := by
  have hm : rm w = 15 := Bits.field_of_and (pattern_of hty) (by decide)
  rw [block_bx hty] at hat
  refine jump_of (holds_of (.inl hc)) (by rw [hty]; decide) (fun s => ?_) hat
  rw [decode_bx (ne_unconditional hc) hw, hm]
  rfl

/-- What loads a value has that of the instruction. -/
theorem load_exec {ret : Addr → Addr} (hc : cond w = 14) (s : Regs)
    (h : (getTypeInArm w = .adr1Arm ∨ getTypeInArm w = .adr2Arm) ∧ expandImm (imm12 w) = (imm12 w).setWidth 32 ∨
      getTypeInArm w = .ldrArm ∧ w &&& 0x0F700000 = 0x05100000 ∨
      getTypeInArm w = .movArm ∧ w &&& 0x0FFF0FF0 = 0x01A00000) :
    exec plain text0 ret s pc (decode w) = s.write (rd w) (loaded (word text0) (pc + 8) w) := by
  rcases h with ⟨hty | hty, hi⟩ | ⟨hty, hw⟩ | ⟨hty, hw⟩
  · have hp : w &&& 0xFFF0000 = 0x28F0000 := pattern_of hty
    have hn : rn w = 15 := Bits.field_of_and hp (by decide)
    rw [decode_addImm (ne_unconditional hc) (Bits.and_of_and hp (by decide)), hn, exec_addPc, hi]
    simp only [loaded, hty]
  · have hp : w &&& 0xFFF0000 = 0x24F0000 := pattern_of hty
    have hn : rn w = 15 := Bits.field_of_and hp (by decide)
    rw [decode_subImm (ne_unconditional hc) (Bits.and_of_and hp (by decide)), hn, exec_subPc, hi]
    simp only [loaded, hty]
  · have hn : rn w = 15 := Bits.field_of_and (pattern_of hty) (by decide)
    rw [decode_ldr (ne_unconditional hc) hw, hn, exec_literal]
    simp only [loaded, hty]
  · have hm : rm w = 15 := Bits.field_of_and (pattern_of hty) (by decide)
    rw [decode_mov (ne_unconditional hc) hw, hm]
    simp only [loaded, hty]
    rfl

theorem add_moves {b : Addr} (hty : getTypeInArm w = .addArm) (hc : cond w ≠ 15)
    (hn : rd w ≠ 15 ∧ rd w ≠ 13) (hm : rm w ≠ 15 ∧ rm w ≠ 13)
    (hat : At text a (relocateOneInArm (word text0) (pc + 8) w)) :
    Does (Step plain text) a (movedEffect plain text0 b w pc) (a + 24) := by
  have hp : w &&& 0xFEF0010 = 0x8F0000 := pattern_of hty
  obtain ⟨hq, hqn, hqm, -⟩ := borrow_free (rd w) (rm w)
  have hr : rn w = 15 := Bits.field_of_and hp (by decide)
  have h : w &&& 0x0FE00010 = 0x00800000 := Bits.and_of_and hp (by decide)
  have hd := decode_addReg hc h hn.1
  obtain ⟨hc', hd'⟩ := @decode_withRn w (borrow (rd w) (rm w)) hc h hn.1
  have e : movedEffect plain text0 b w pc =
      fun s => effect plain text0 (fun _ => b) w pc (spilled (borrow (rd w) (rm w)) s) := by
    funext s
    rw [movedEffect, if_pos hty]
  rw [hr] at hd
  rw [block_add hty] at hat
  rw [e]
  exact add_does hq hn hm hqn hqm hc' hd hd' hat

/-- Each block does what its instruction did. -/
theorem moves {b : Addr} (hm : Movable plain w) (hat : At text a (relocateOneInArm (word text0) (pc + 8) w))
    (hb : b = a + BitVec.ofNat 32 (4 * (relocateOneInArm (word text0) (pc + 8) w).length)) :
    Does (Step plain text) a (movedEffect plain text0 b w pc) b := by
  have load (h : getTypeInArm w = .adr1Arm ∨ getTypeInArm w = .adr2Arm ∨ getTypeInArm w = .ldrArm ∨
      getTypeInArm w = .movArm) (hty : getTypeInArm w ≠ .addArm) (hc : cond w = 14)
      (he : ∀ s, exec plain text0 (fun _ => b) s pc (decode w) =
        s.write (rd w) (loaded (word text0) (pc + 8) w)) :
      Does (Step plain text) a (movedEffect plain text0 b w pc) b := by
    rw [block_load h] at hat hb
    have e : b = a + 12 := hb
    have := load_of (holds_of (.inl hc)) hty he hat
    rw [e] at this ⊢
    exact this
  unfold Movable at hm
  cases hty : getTypeInArm w <;> rw [hty] at hm
  case blxArm =>
    rw [block_blx hty] at hb
    subst hb
    exact blx_moves hty hat
  case blArm =>
    rw [block_bl hty] at hb
    subst hb
    exact bl_moves hty hm hat
  case bArm => exact b_moves hty hm hat
  case bxArm => exact bx_moves hty hm.1 hm.2 hat
  case addArm =>
    rw [block_add hty] at hb
    subst hb
    exact add_moves hty hm.1 hm.2.1 hm.2.2 hat
  case adr1Arm =>
    exact load (.inl hty) (by rw [hty]; decide) hm.1 (fun s => load_exec hm.1 s (.inl ⟨.inl hty, hm.2⟩))
  case adr2Arm =>
    exact load (.inr (.inl hty)) (by rw [hty]; decide) hm.1
      (fun s => load_exec hm.1 s (.inl ⟨.inr hty, hm.2⟩))
  case ldrArm =>
    exact load (.inr (.inr (.inl hty))) (by rw [hty]; decide) hm.1
      (fun s => load_exec hm.1 s (.inr (.inl ⟨hty, hm.2⟩)))
  case movArm =>
    exact load (.inr (.inr (.inr hty))) (by rw [hty]; decide) hm.1
      (fun s => load_exec hm.1 s (.inr (.inr ⟨hty, hm.2⟩)))
  all_goals
    -- copied as it is: `undefine`, and the Thumb kinds, of which no ARM word is
    have hc : relocateOneInArm (word text0) (pc + 8) w = [w] := by simp only [relocateOneInArm, hty]
    rw [hc] at hat hb
    subst hb
    intro s
    have h0 := @Steps.at plain text a s _ _ hat
    rw [@copy_effect plain text text0 a pc w (fun _ => a + 4) hm s] at h0
    have e : movedEffect plain text0 (a + 4) w pc s = effect plain text0 (fun _ => a + 4) w pc s := by
      rw [movedEffect, hty, if_neg (by decide)]
    rw [← e] at h0
    exact h0

end Moved

/-! ## The row -/

/-- The blocks of the instructions at `pc`. -/
def blocks (mem : Addr → BitVec 32) : Addr → List Insn → List Insn
  | _, [] => []
  | pc, w :: ws => relocateOneInArm mem (pc + 8) w ++ blocks mem (pc + 4) ws

theorem loop_out (mem : Addr → BitVec 32) (ws : List Insn) (origPos : Nat) (pc : Addr) (s : Relocated Insn) :
    (relocateLoopInArm mem ws origPos (pc + 8) s).out = s.out ++ blocks mem pc ws := by
  induction ws generalizing origPos pc s with
  | nil => exact (List.append_nil _).symm
  | cons w ws ih =>
    rw [relocateLoopInArm, BitVec.add_assoc, BitVec.add_comm 8 4, ← BitVec.add_assoc, ih, List.append_assoc]
    rfl

theorem relocated_out (mem : Addr → BitVec 32) (target : Addr) (ws : List Insn) :
    (relocateInstructionInArm mem target ws).out =
      blocks mem target ws ++ [0xE51FF004, target + BitVec.ofNat 32 (4 * ws.length)] :=
  congrArg (· ++ [0xE51FF004, target + BitVec.ofNat 32 (4 * ws.length)]) (loop_out mem ws 0 target ⟨[], []⟩)

section Row
variable (plain : Insn → Addr → Regs → Regs × Option Addr) (text0 : Memory)

/-- What the instructions at `pc` do. -/
def effects : Addr → List Insn → List (Effect Regs Addr)
  | _, [] => []
  | pc, w :: ws => effect plain text0 id w pc :: effects (pc + 4) ws

/-- What they do moved to `a`. -/
def movedEffects : Addr → Addr → List Insn → List (Effect Regs Addr)
  | _, _, [] => []
  | a, pc, w :: ws =>
    let b := a + BitVec.ofNat 32 (4 * (relocateOneInArm (word text0) (pc + 8) w).length)
    movedEffect plain text0 b w pc :: movedEffects b (pc + 4) ws

variable {plain text0} {text : Memory}

theorem add_ofNat_add (a : Addr) (m n : Nat) :
    a + BitVec.ofNat 32 (4 * (m + n)) = a + BitVec.ofNat 32 (4 * m) + BitVec.ofNat 32 (4 * n) := by
  rw [Nat.mul_add, BitVec.ofNat_add, BitVec.add_assoc]

theorem effects_laid {ws : List Insn} {pc : Addr} (hat : At text0 pc ws) :
    Laid (Step plain text0) pc (effects plain text0 pc ws) (pc + BitVec.ofNat 32 (4 * ws.length)) := by
  induction ws generalizing pc with
  | nil =>
    rw [show pc + BitVec.ofNat 32 (4 * ([] : List Insn).length) = pc from BitVec.add_zero pc]
    exact .nil pc
  | cons w ws ih =>
    rw [List.length_cons, Nat.add_comm, add_ofNat_add]
    exact .cons (fun s => Steps.at hat) (ih hat.2)

theorem movedEffects_laid {ws : List Insn} {a pc : Addr} (hm : ∀ w ∈ ws, Movable plain w)
    (hat : At text a (blocks (word text0) pc ws)) :
    Laid (Step plain text) a (movedEffects plain text0 a pc ws)
      (a + BitVec.ofNat 32 (4 * (blocks (word text0) pc ws).length)) := by
  induction ws generalizing a pc with
  | nil =>
    rw [blocks, show a + BitVec.ofNat 32 (4 * ([] : List Insn).length) = a from BitVec.add_zero a]
    exact .nil a
  | cons w ws ih =>
    obtain ⟨hw, hws⟩ := At.append hat
    rw [blocks, List.length_append, add_ofNat_add]
    exact .cons (moves (hm w List.mem_cons_self) hw rfl) (ih (fun v hv => hm v (List.mem_cons_of_mem w hv)) hws)

theorem row_does {ws : List Insn} {place target : Addr} (hm : ∀ w ∈ ws, Movable plain w)
    (hat : At text place (relocateInstructionInArm (word text0) target ws).out) :
    Does (Step plain text) place (through (movedEffects plain text0 place target ws))
      (target + BitVec.ofNat 32 (4 * ws.length)) := by
  rw [relocated_out] at hat
  obtain ⟨hb, hj⟩ := At.append hat
  -- who has come through all the blocks stands at the jump behind them
  refine (movedEffects_laid hm hb).goto (fun s => ?_)
  exact jump_does (b := target) hj s

/-- Neither a call nor an addition of R15. -/
def Keeps (w : Insn) : Prop := getTypeInArm w ≠ .addArm ∧ ∀ off, decode w ≠ .b true off ∧ decode w ≠ .blx off

theorem exec_ret {op : Op} (h : ∀ off, op ≠ .b true off ∧ op ≠ .blx off) (ret : Addr → Addr) (s : Regs)
    (pc : Addr) : exec plain text0 ret s pc op = exec plain text0 id s pc op := by
  cases op with
  | b link off =>
    cases link with
    | false => rfl
    | true => exact absurd rfl (h off).1
  | blx off => exact absurd rfl (h off).2
  | _ => rfl

theorem movedEffects_eq {ws : List Insn} {a pc : Addr} (hk : ∀ w ∈ ws, Keeps w) :
    movedEffects plain text0 a pc ws = effects plain text0 pc ws := by
  induction ws generalizing a pc with
  | nil => rfl
  | cons w ws ih =>
    obtain ⟨hty, hop⟩ := hk w List.mem_cons_self
    rw [movedEffects, effects, ih fun v hv => hk v (List.mem_cons_of_mem w hv)]
    refine congrArg (· :: effects plain text0 (pc + 4) ws) (funext fun s => ?_)
    rw [movedEffect, if_neg hty, effect, exec_ret hop, effect]

end Row

/-! ## What is lost -/

theorem bArm_cond {w : Insn} (hty : getTypeInArm w = .bArm) : cond w ≠ 15 := by
  intro hc
  have hp : w &&& 0xF000000 = 0xA000000 := pattern_of hty
  have hw : w &&& 0xFE000000 = 0xFA000000 := by
    refine (Bits.and_eq_iff 28 (by decide)).mpr ⟨?_, ?_⟩
    · rw [show w.extractLsb' 28 (32 - 28) = 15 from hc]
      decide
    · have h : w &&& 0xE000000 = 0xA000000 := Bits.and_of_and hp (by decide)
      exact ((Bits.and_eq_iff 28 (by decide)).mp h).2
  rw [getTypeInArm, if_pos hw] at hty
  cases hty

/-- **The condition of a branch.** The block of a branch always goes where the
branch goes, which is what the branch does iff it is unconditional. -/
theorem branch_kept_iff {plain : Insn → Addr → Regs → Regs × Option Addr} {text text0 : Memory} {a pc : Addr}
    {w : Insn} (hty : getTypeInArm w = .bArm) (hat : At text a (relocateOneInArm (word text0) (pc + 8) w)) :
    (∀ b, Does (Step plain text) a (fun s => (s, some (pc + 8 + imm24 w))) b) ∧
      ((∀ s, effect plain text0 id w pc s = (s, some (pc + 8 + imm24 w))) ↔ cond w = 14) := by
  have hp : w &&& 0xF000000 = 0xA000000 := pattern_of hty
  have hl : w.getLsbD 24 = false := Bits.getLsbD_of_and hp (by decide)
  have hd := decode_branch (bArm_cond hty) (Bits.and_of_and hp (by decide))
  rw [hl] at hd
  have he (s : Regs) : effect plain text0 id w pc s =
      if holds (cond w) s then (s, some (pc + 8 + imm24 w)) else (s, none) := by
    rw [effect, hd]
    rfl
  rw [block_b hty] at hat
  refine ⟨fun b => jump_does hat, ?_⟩
  rw [← holds_always_iff _ (bArm_cond hty)]
  refine forall_congr' fun s => ?_
  rw [he]
  cases holds (cond w) s <;> simp

/-- `BEQ` -/
theorem branch_kept_beq : ¬ ∀ s, effect (fun _ _ r => (r, none)) (fun _ => 0) id 0x0A000000 0x8000 s =
    (s, some 0x8008) := by
  intro h
  let text : Memory := storeWord (storeWord (fun _ => 0) 0x20000 0xE51FF004) 0x20004 0x8008
  have hw : relocateOneInArm (word fun _ => 0) (0x8000 + 8) 0x0A000000 = [0xE51FF004, 0x8008] := by decide
  have hat : At text 0x20000 (relocateOneInArm (word fun _ => 0) (0x8000 + 8) 0x0A000000) := by
    rw [hw]
    exact ⟨by decide, by decide, trivial⟩
  have hb := @branch_kept_iff (fun _ _ r => (r, none)) text (fun _ => 0) 0x20000 0x8000 0x0A000000 (by decide) hat
  exact absurd (hb.2.mp h) (by decide)

/-- An address relative to R15: what the instruction adds, if it is executed. -/
theorem adr_effect {plain : Insn → Addr → Regs → Regs × Option Addr} {text0 : Memory} {pc : Addr} {w : Insn}
    (hty : getTypeInArm w = .adr1Arm ∨ getTypeInArm w = .adr2Arm) (hc : cond w ≠ 15) :
    ∃ v : Addr, (v = loaded (word text0) (pc + 8) w ↔ expandImm (imm12 w) = (imm12 w).setWidth 32) ∧
      ∀ s, effect plain text0 id w pc s = if holds (cond w) s then s.write (rd w) v else (s, none) := by
  rcases hty with hty | hty
  · have hp : w &&& 0xFFF0000 = 0x28F0000 := pattern_of hty
    have hn : rn w = 15 := Bits.field_of_and hp (by decide)
    have hd := decode_addImm hc (Bits.and_of_and hp (by decide))
    refine ⟨pc + 8 + expandImm (imm12 w), ?_, fun s => ?_⟩
    · simp only [loaded, hty, BitVec.add_right_inj]
    · rw [effect, hd, hn, exec_addPc]
  · have hp : w &&& 0xFFF0000 = 0x24F0000 := pattern_of hty
    have hn : rn w = 15 := Bits.field_of_and hp (by decide)
    have hd := decode_subImm hc (Bits.and_of_and hp (by decide))
    refine ⟨pc + 8 - expandImm (imm12 w), ?_, fun s => ?_⟩
    · simp only [loaded, hty, BitVec.sub_eq_add_neg, BitVec.add_right_inj, BitVec.neg_inj]
    · rw [effect, hd, hn, exec_subPc]

/-- **An address relative to R15.** The block always loads the distance itself,
which is what the instruction adds iff it is unconditional and the distance is
one that is not rotated. -/
theorem adr_kept_iff {plain : Insn → Addr → Regs → Regs × Option Addr} {text text0 : Memory} {a pc : Addr}
    {w : Insn} (hty : getTypeInArm w = .adr1Arm ∨ getTypeInArm w = .adr2Arm) (hc : cond w ≠ 15)
    (hat : At text a (relocateOneInArm (word text0) (pc + 8) w)) :
    Does (Step plain text) a (fun s => s.write (rd w) (loaded (word text0) (pc + 8) w)) (a + 12) ∧
      ((∀ s, effect plain text0 id w pc s = s.write (rd w) (loaded (word text0) (pc + 8) w)) ↔
        cond w = 14 ∧ expandImm (imm12 w) = (imm12 w).setWidth 32) := by
  obtain ⟨v, hv, he⟩ := @adr_effect plain text0 pc w hty hc
  rw [block_load (hty.imp_right .inl)] at hat
  refine ⟨load_does hat, ?_⟩
  rw [← hv]
  constructor
  · intro h
    have h14 : cond w = 14 := by
      by_contra h14
      obtain ⟨n, z, c, o, hf⟩ := exists_not_holds (cond w) h14 hc
      -- a state in which the register is not what the block loads
      let s : Regs := ⟨fun _ => loaded (word text0) (pc + 8) w + 1, n, z, c, o, fun _ => 0⟩
      have hs : (s, none) = s.write (rd w) (loaded (word text0) (pc + 8) w) := by
        rw [← h s, he, hf, if_neg Bool.false_ne_true]
      refine write_ne (s := s) (n := rd w) ?_ hs.symm
      exact fun e => absurd e (by simp [s])
    refine ⟨h14, ?_⟩
    have hs := h ⟨fun _ => 0, false, false, false, false, fun _ => 0⟩
    rw [he, if_pos (holds_of (.inl h14) _)] at hs
    exact write_inj hs
  · rintro ⟨h14, e⟩ s
    rw [he, if_pos (holds_of (.inl h14) s), e]

/-- `ADD R0, PC, #0x100`, whose distance is written as 1, rotated -/
theorem adr_kept_rotated : ¬ ∀ s, effect (fun _ _ r => (r, none)) (fun _ => 0) id 0xE28F0C01 0x8000 s =
    s.write 0 0x8C09 := by
  intro h
  let text : Memory := storeWord (storeWord (storeWord (fun _ => 0) 0x20000 0xE51F0000) 0x20004 0xE28FF000)
    0x20008 0x8C09
  have hw : relocateOneInArm (word fun _ => 0) (0x8000 + 8) 0xE28F0C01 = [0xE51F0000, 0xE28FF000, 0x8C09] := by
    decide
  have hat : At text 0x20000 (relocateOneInArm (word fun _ => 0) (0x8000 + 8) 0xE28F0C01) := by
    rw [hw]
    exact ⟨by decide, by decide, by decide, trivial⟩
  have hb := @adr_kept_iff (fun _ _ r => (r, none)) text (fun _ => 0) 0x20000 0x8000 0xE28F0C01 (by decide)
    (by decide) hat
  exact absurd (hb.2.mp h).2 (by decide)

end DumpDex.L3.MovedArm
