import DumpDex.L3Runs.HookedCall

/-!
# Where the relocator goes wrong

The code does not check what `MovedCode` asks of an instruction. Here is, for
each kind of instruction, exactly when its block is right. `run n` is what `n`
instructions do, so that it is the block's own branch that is spoken of.

* `patch_lands_iff`: the branch to the replacement misses, by 2^28 bytes,
  where the distance needs more than half the field and not more than all of
  it.
* `cond_lands_iff`: a conditional branch that stays near is right if it is in
  reach, one that is sent far only if it went forward.
* `adrp_loads_iff`: `ADRP` is right only forward.
-/
namespace DumpDex.L3.MovedExact
open DumpDex.Core DumpDex.Core.A64 DumpDex.L2.FixInstructions
open DumpDex.L3.MovedLayout DumpDex.L3.MovedCode DumpDex.L3.MovedRun DumpDex.L3.HookedCall

variable {plain : Insn → Regs → Regs} {text : Text} {a t : Int} {r : Regs}

/-- `n` instructions. -/
def run (plain : Insn → Regs → Regs) (text : Text) (n : Nat) : State → State :=
  (step plain text id id)^[n]

theorem run_add (m n : Nat) (s : State) :
    run plain text (m + n) s = run plain text n (run plain text m s) := by
  rw [run, Nat.add_comm, Function.iterate_add_apply]
  rfl

theorem run_one {w : Insn} {ws : List Insn} {op : Op} (h : At text a (w :: ws)) (hd : decode w = op) :
    run plain text 1 (r, a) = exec plain text id id r a op :=
  step_eq (h.head ▸ hd)

theorem run_nops {n : Nat} (h : At text a (List.replicate n nop)) :
    run plain text n (r, a) = (r, a + 4 * n) := by
  induction n generalizing a with
  | zero => simp [run]
  | succ n ih =>
    have d : decode nop = .nop := by decide
    have h1 : run plain text 1 (r, a) = (r, a + 4) := run_one h d
    rw [Nat.add_comm, run_add, h1, ih h.tail]
    refine Prod.ext rfl ?_
    push_cast
    omega

theorem run_farJump (h : -2 ^ 63 ≤ t) (h' : t < 2 ^ 63) (hat : At text a (farJump t)) :
    run plain text 2 (r, a) = (r.set 17 (BitVec.ofInt 64 t), t) := by
  have hd : text (a + 8 + 4) ++ text (a + 8) = BitVec.ofInt 64 t := at_dword hat.right
  have d0 : decode 0x58000051 = .ldr .x 17 8 := by decide
  have d1 : decode 0xd61f0220 = .br 17 := by decide
  have h0 : run plain text 1 (r, a) = (r.set 17 (BitVec.ofInt 64 t), a + 4) := by
    rw [run_one hat d0]
    simp only [exec, Lit.load, hd]
  rw [show 2 = 1 + 1 from rfl, run_add, h0, run_one hat.tail d1]
  simp only [exec, Regs.get_set (show (17 : Reg) ≠ 31 by decide), toInt_address h h']

/-- The field holds a distance if it needs no more than half of it. -/
theorem bmod_reach {d : Int} (h4 : d % 4 = 0) {w : Nat} (hw : w = 26 ∨ w = 19 ∨ w = 14) :
    4 * (d / 4).bmod (2 ^ w) = d ↔ -2 ^ (w + 1) ≤ d ∧ d < 2 ^ (w + 1) := by
  have h0 := @Int.le_bmod (d / 4) (2 ^ w) (Nat.two_pow_pos w)
  have h1 := @Int.bmod_lt (d / 4) (2 ^ w) (Nat.two_pow_pos w)
  refine ⟨?_, ?_⟩
  · intro h
    rcases hw with rfl | rfl | rfl <;> omega
  · intro ⟨h0, h1⟩
    rcases hw with rfl | rfl | rfl <;> rw [Int.bmod_eq_of_le (by omega) (by omega)] <;> omega

/-! ## The branch to the replacement -/

/-- How many instructions it is. -/
def patchSteps (symbol replace : Int) : Nat :=
  (exitBlock replace symbol).pad + if far symbol replace then 2 else 1

/-- A distance between half the 26-bit field and the whole wraps around. -/
theorem bmod_wrap {d : Int} (h4 : d % 4 = 0) :
    (2 ^ 27 ≤ d → d < 2 ^ 28 → 4 * (d / 4).bmod (2 ^ 26) = d - 2 ^ 28) ∧
      (-2 ^ 28 < d → d < -2 ^ 27 → 4 * (d / 4).bmod (2 ^ 26) = d + 2 ^ 28) := by
  refine ⟨fun hlo hhi => ?_, fun hlo hhi => ?_⟩
  · have hb : (d / 4 - 2 ^ 26).bmod (2 ^ 26) = d / 4 - 2 ^ 26 :=
      Int.bmod_eq_of_le (by omega) (by omega)
    have hm := @Int.add_bmod_right (d / 4 - 2 ^ 26) (2 ^ 26)
    rw [show d / 4 - 2 ^ 26 + ((2 ^ 26 : Nat) : Int) = d / 4 by omega, hb] at hm
    omega
  · have hb : (d / 4 + 2 ^ 26).bmod (2 ^ 26) = d / 4 + 2 ^ 26 :=
      Int.bmod_eq_of_le (by omega) (by omega)
    have hm := @Int.add_bmod_right (d / 4) (2 ^ 26)
    rw [show d / 4 + ((2 ^ 26 : Nat) : Int) = d / 4 + 2 ^ 26 by omega, hb] at hm
    omega

theorem far_iff (symbol replace : Int) :
    far symbol replace = true ↔ ((replace - symbol) / 4).natAbs > 0x03ffffff := by
  simp [far]

/-- Where the branch written over a function goes. -/
theorem patch_goes {symbol replace : Int} (hlo : -2 ^ 63 ≤ replace) (hhi : replace < 2 ^ 63)
    (hat : At text symbol (patch symbol replace)) (r : Regs) :
    (run plain text (patchSteps symbol replace) (r, symbol)).2 =
      if far symbol replace then replace
      else symbol + 4 * ((replace - symbol) / 4).bmod (2 ^ 26) := by
  have hfar := far_iff symbol replace
  rw [patch_eq (fun _ => 0) 0] at hat
  have hn := @run_nops plain text symbol r (exitBlock replace symbol).pad (At.left hat)
  have hw := At.right hat
  rw [List.length_replicate] at hw
  rw [patchSteps, run_add, hn]
  by_cases hf : ((replace - symbol) / 4).natAbs > 0x03ffffff
  · rw [exitBlock, if_pos hf] at hw ⊢
    rw [if_pos (hfar.mpr hf), if_pos (hfar.mpr hf), run_farJump hlo hhi hw]
  · rw [exitBlock, if_neg hf] at hw ⊢
    have e : symbol + 4 * ((0 : Nat) : Int) = symbol := by omega
    simp only [Block.pad, Block.words, e] at hw ⊢
    rw [if_neg fun h => hf (hfar.mp h), if_neg fun h => hf (hfar.mp h),
      run_one hw (decode_branch_link false _)]
    simp only [Bool.false_eq_true, if_false, exec]

/-- The branch written over a function goes to the replacement exactly if its
distance does not lie between half the field and the whole; if it does, it
goes 2^28 bytes astray, to the other side of the function. -/
theorem patch_lands_iff {symbol replace : Int} (h4 : (replace - symbol) % 4 = 0)
    (hlo : -2 ^ 63 ≤ replace) (hhi : replace < 2 ^ 63)
    (hat : At text symbol (patch symbol replace)) (r : Regs) :
    ((run plain text (patchSteps symbol replace) (r, symbol)).2 = replace ↔
      Reach (2 ^ 27) (replace - symbol)) ∧
    (¬ Reach (2 ^ 27) (replace - symbol) →
      (run plain text (patchSteps symbol replace) (r, symbol)).2 =
        if symbol < replace then replace - 2 ^ 28 else replace + 2 ^ 28) := by
  have hfar := far_iff symbol replace
  have hb := @bmod_reach (replace - symbol) h4 26 (.inl rfl)
  obtain ⟨hup, hdown⟩ := bmod_wrap h4
  rw [patch_goes hlo hhi hat]
  unfold Reach
  by_cases hf : far symbol replace = true
  · have hlarge := hfar.mp hf
    rw [if_pos hf]
    refine ⟨iff_of_true rfl (by omega), fun hn => absurd ?_ hn⟩
    omega
  · have hsmall : ¬ ((replace - symbol) / 4).natAbs > 0x03ffffff := fun h => hf (hfar.mpr h)
    rw [if_neg hf]
    refine ⟨by omega, fun hn => ?_⟩
    by_cases hlt : symbol < replace
    · rw [if_pos hlt]
      have := hup (by omega) (by omega)
      omega
    · rw [if_neg hlt]
      have := hdown (by omega) (by omega)
      omega

/-- 2^27 bytes before the replacement. -/
theorem patch_lands_band :
    let lands := (run (fun _ r => r) (store 0 (patch 0 0x8000000) fun _ => nop)
      (patchSteps 0 0x8000000) (zeros, 0)).2
    (lands = 0x8000000 ↔ Reach (2 ^ 27) (0x8000000 - 0)) ∧
      (¬ Reach (2 ^ 27) (0x8000000 - 0) →
        lands = if (0 : Int) < 0x8000000 then 0x8000000 - 2 ^ 28 else 0x8000000 + 2 ^ 28) :=
  patch_lands_iff (by decide) (by decide) (by decide) (store_at _ _ _) zeros

/-! ## Conditional branches -/

/-- How many instructions a conditional branch that is taken becomes. -/
def takenSteps (n : Nat) (t a : Int) : Nat := if ((t - a) / 4).natAbs > 2 ^ n - 1 then 3 else 1

theorem condWord_of {ins : Insn} {test : Test} {off : Int} (h : decode ins = .bcond test off) :
    ∃ lmask, condLmask ins = some lmask ∧ CondWord ins lmask test (condWidth test) ∧
      off = 4 * (ins.extractLsb' 5 (condWidth test)).toInt := by
  have hm : ∃ lmask, condLmask ins = some lmask := by
    rw [condLmask_eq]
    rcases classify_bcond h with hc | ⟨a, b, hc⟩ | ⟨a, hc⟩ <;> rw [hc] <;> exact ⟨_, rfl⟩
  obtain ⟨lmask, hm⟩ := hm
  obtain ⟨test', n, hw⟩ := condWord hm
  have hd := hw.dec
  rw [h] at hd
  obtain ⟨rfl, rfl⟩ := Op.bcond.inj hd
  have hn := hw.kind
  subst hn
  exact ⟨lmask, hm, hw, rfl⟩

/-- A conditional branch at `pc` with the distance `off`, read without its
sign, leads to `t`; let `t` not be moved. Taken, the block at `a` goes
where the branch went exactly if either it is near, and in reach, or it is
sent far and went forward. -/
theorem cond_lands_iff {j : Job} {pc a : Int} {test : Test} {off : Int}
    (hd : decode (j.text pc) = .bcond test off) {t : Int}
    (ht : t = pc + off % 2 ^ (condWidth test + 2)) (hout : isInFixingRange j t = false)
    (h4 : (pc - a) % 4 = 0) (hlo : 0 ≤ pc) (hhi : pc < 2 ^ 56) (hr : test.holds r = true)
    (e : Nat → Int)
    (hat : At text (a + 4 * (block j pc a).pad) ((block j pc a).words e (a + 4 * (block j pc a).pad))) :
    (run plain text (takenSteps (condWidth test) t a) (r, a + 4 * (block j pc a).pad)).2 = pc + off ↔
      if ((t - a) / 4).natAbs > 2 ^ condWidth test - 1 then 0 ≤ off
      else -2 ^ (condWidth test + 1) ≤ pc + off - a ∧ pc + off - a < 2 ^ (condWidth test + 1) := by
  obtain ⟨lmask, hc, hw, hoff⟩ := condWord_of hd
  generalize condWidth test = n at *
  have hb := block_cond a hc hw
  rw [← hoff, ← ht, condBlock, hout, if_neg (by decide), hw.reach] at hb
  have hlt : -2 ^ (n + 1) ≤ off ∧ off < 2 ^ (n + 1) ∧ off % 4 = 0 := by
    have h0 := BitVec.le_toInt ((j.text pc).extractLsb' 5 n)
    have h1 := @BitVec.toInt_lt n ((j.text pc).extractLsb' 5 n)
    rcases hw.width with rfl | rfl <;> omega
  rw [takenSteps]
  by_cases hf : ((t - a) / 4).natAbs > 2 ^ n - 1
  · rw [if_pos hf] at hb ⊢
    rw [if_pos hf]
    rw [hb] at hat ⊢
    generalize a + 4 * _ = b at hat
    have d0 : decode (link (j.text pc &&& lmask) 5 (~~~lmask) 8) = .bcond test 8 := by
      refine decode_cond_near hw (by decide) ?_ ?_ <;> rw [reachOf, ← hw.kind] <;>
        rcases hw.width with rfl | rfl <;> decide
    have hj : At text (b + 8) (farJump t) := hat.right
    have hb56 : 0 ≤ t ∧ t < 2 ^ 57 := by rcases hw.width with rfl | rfl <;> omega
    have h1 : run plain text 1 (r, b) = (r, b + 8) := by
      rw [run_one hat d0]
      simp only [exec, hr, if_true]
    rw [show 3 = 1 + 2 from rfl, run_add, h1, run_farJump (by omega) (by omega) hj]
    rcases hw.width with rfl | rfl <;> simp only [ht] <;> omega
  · rw [if_neg hf] at hb ⊢
    rw [if_neg hf]
    rw [hb] at hat ⊢
    simp only [Block.pad, Block.words] at hat ⊢
    have ea : a + 4 * ((0 : Nat) : Int) = a := by omega
    rw [ea] at hat ⊢
    rw [run_one hat (hw.link _)]
    simp only [exec, hr, if_true]
    have hm : ((t - a) / 4).bmod (2 ^ n) = ((pc + off - a) / 4).bmod (2 ^ n) := by
      by_cases h0 : 0 ≤ off
      · have e : t = pc + off := by rcases hw.width with rfl | rfl <;> omega
        rw [e]
      · have e : (t - a) / 4 = (pc + off - a) / 4 + ((2 ^ n : Nat) : Int) := by
          rcases hw.width with rfl | rfl <;> omega
        rw [e, Int.add_bmod_right]
    have hb := @bmod_reach (pc + off - a) (by omega) n (by rcases hw.width with rfl | rfl <;> decide)
    rw [hm, ← hb]
    omega

/-- `CBZ X0, #-4`, moved to a slot below. -/
def back : Job := ⟨fun _ => 0xb4ffffe0, 0x10000000, 1, 0x8000⟩

theorem cond_lands_back :
    let b := block back 0x10000000 0x8000
    let text := store (0x8000 + 4 * b.pad) (b.words (entry back) (0x8000 + 4 * b.pad)) fun _ => nop
    (run (fun _ r => r) text (takenSteps 19 0x101ffffc 0x8000) (zeros, 0x8000 + 4 * b.pad)).2 =
        0x10000000 + -4 ↔
      if ((0x101ffffc - 0x8000) / 4 : Int).natAbs > 2 ^ 19 - 1 then (0 : Int) ≤ -4
      else (-2 ^ 20 : Int) ≤ 0x10000000 + -4 - 0x8000 ∧ (0x10000000 + -4 - 0x8000 : Int) < 2 ^ 20 :=
  @cond_lands_iff (fun _ r => r) _ zeros back 0x10000000 0x8000 (.cbz true false 0) (-4) (by decide)
    0x101ffffc (by decide) (by decide) (by decide) (by decide) (by decide) (by decide) (entry back)
    (store_at _ _ _)

/-! ## Addresses -/

/-- `ADRP` whose page, its distance read without the sign, is not among the
instructions moved, gives its register the right page exactly if the distance
is not negative. -/
theorem adrp_loads_iff {j : Job} {pc a : Int} {rd : Reg} {off : Int}
    (hd : decode (j.text pc) = .adrp rd off) (h31 : rd ≠ 31)
    (hout : isInFixingRange j (pc - pc % 4096 + off % 2 ^ 32) = false) (e : Nat → Int)
    (hat : At text (a + 4 * (block j pc a).pad) ((block j pc a).words e (a + 4 * (block j pc a).pad))) :
    ((run plain text 2 (r, a + 4 * (block j pc a).pad)).1.get rd =
        BitVec.ofInt 64 (pc - pc % 4096 + off)) ↔ 0 ≤ off := by
  have hc := classify_adrp hd
  have hd' := decode_adrp hc
  rw [hd] at hd'
  obtain ⟨rfl, rfl⟩ := Op.adrp.inj hd'
  have hb := block_adrp a hc
  rw [adrpBlock, hout, if_neg (by decide)] at hb
  rw [hb] at hat ⊢
  generalize a + 4 * _ = b at hat ⊢
  have hdw : text (b + 8 + 4) ++ text (b + 8) = BitVec.ofInt 64 _ := at_dword hat.right
  have d1 : decode 0x14000003 = .b 12 := by decide
  have h1 : run plain text 1 (r, b) = (r.set (low (j.text pc)) (BitVec.ofInt 64
      (pc - pc % 4096 + 4096 * imm21 (j.text pc) % 2 ^ 32)), b + 4) := by
    rw [run_one hat (decode_loadAddress (j.text pc))]
    simp only [exec, Lit.load, hdw]
  rw [show 2 = 1 + 1 from rfl, run_add, h1, run_one hat.tail d1]
  simp only [exec, Regs.get_set h31]
  have hlo : -2 ^ 20 ≤ imm21 (j.text pc) := BitVec.le_toInt _
  have hhi : imm21 (j.text pc) < 2 ^ 20 := BitVec.toInt_lt
  refine ⟨?_, ?_⟩
  · intro h
    have h' := congrArg BitVec.toNat h
    rw [BitVec.toNat_ofInt, BitVec.toNat_ofInt] at h'
    omega
  · intro h
    congr 1
    omega

/-- `ADRP X0, #-0x1000`, moved to a slot below. -/
def pageBack : Job := ⟨fun _ => 0xf0ffffe0, 0x10000000, 1, 0x8000⟩

theorem adrp_loads_back :
    let b := block pageBack 0x10000000 0x8000
    let text := store (0x8000 + 4 * b.pad) (b.words (entry pageBack) (0x8000 + 4 * b.pad)) fun _ => nop
    ((run (fun _ r => r) text 2 (zeros, 0x8000 + 4 * b.pad)).1.get 0 =
      BitVec.ofInt 64 (0x10000000 - 0x10000000 % 4096 + -4096)) ↔ (0 : Int) ≤ -4096 :=
  @adrp_loads_iff (fun _ r => r) _ zeros pageBack 0x10000000 0x8000 0 (-4096) (by decide) (by decide)
    (by decide) (entry pageBack) (store_at _ _ _)

end DumpDex.L3.MovedExact
