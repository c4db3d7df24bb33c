import DumpDex.L2Machine.FixedWords

/-!
# What one instruction becomes

The four functions of the relocator advance two cursors through branches on
masks. Here the same is said by the class of the instruction: `block` is what
is written for the instruction at `pc` when `a` is the next place in the slot,
some NOPs and then some words. One of these may refer to another instruction
that is moved, and is complete only once it is known where that one went.

* `fixOne_eq`: one round of the pass writes the block.
* `block_size`: a block has at most nine words.

The distances the code reads are those of `A64` up to their sign: for all but
`B` and `BL` it adds them as unsigned numbers.
-/
namespace DumpDex.L2.FixInstructions
open DumpDex.Core DumpDex.Core.A64

inductive Block where
  | fixed (pad : Nat) (ws : List Insn)
  | near (tmpl : Insn) (ls : Nat) (ad : Insn) (ref : Nat)
  deriving DecidableEq

namespace Block

def pad : Block → Nat
  | fixed pad _ => pad
  | near .. => 0

/-- Without the NOPs. -/
def size : Block → Nat
  | fixed _ ws => ws.length
  | near .. => 1

/-- The words, from `a` on, when the instructions moved stand at `entry`. -/
def words (entry : Nat → Int) (a : Int) : Block → List Insn
  | fixed _ ws => ws
  | near tmpl ls ad ref => [link tmpl ls ad (entry ref - a)]

end Block

def farJump (t : Int) : List Insn := [0x58000051, 0xd61f0220] ++ dword t

def farCall (t : Int) : List Insn := [0x58000071, 0x1000009e, 0xd61f0220] ++ dword t

section Blocks
variable (j : Job)

def branchBlock (l : Bool) (t a : Int) : Block :=
  if isInFixingRange j t then .near (branchOp l) 0 0x03ffffff (getRefInsIndex j t)
  else if ((t - a) / 4).natAbs > 0x03ffffff then
    if l then .fixed (if (a + 8) % 8 = 0 then 0 else 1) (farCall t)
    else .fixed (if (a + 8) % 8 = 0 then 1 else 0) (farJump t)
  else .fixed 0 [link (branchOp l) 0 0x03ffffff (t - a)]

def condBlock (ins lmask : Insn) (t a : Int) : Block :=
  if isInFixingRange j t then .near (ins &&& lmask) 5 (~~~lmask) (getRefInsIndex j t)
  else if ((t - a) / 4).natAbs > (~~~lmask >>> 5).toNat then
    .fixed (if (a + 16) % 8 = 0 then 0 else 1)
      ([link (ins &&& lmask) 5 (~~~lmask) 8, 0x14000005] ++ farJump t)
  else .fixed 0 [link (ins &&& lmask) 5 (~~~lmask) (t - a)]

/-- The place of the words loaded, or the distance to it, is aligned. -/
def litBlock (ins mask : Insn) (al : Nat) (t a : Int) : Block :=
  if isInFixingRange j t ∨ ((t - a) / 4).natAbs + (al + 1 - 4) > 0x7ffff then
    .fixed (-(a + 8) % (al + 1) / 4).toNat
      ([link (ins &&& 0xff00001f) 5 (~~~mask) 8, 0x14000001 + BitVec.ofNat 32 ((al + 1) / 4)] ++
        dataWords j.text t ((al + 1) / 4))
  else
    let pad := ((t - a) / 4 % (al / 4 + 1)).toNat
    .fixed pad [link (ins &&& 0xff00001f) 5 (~~~mask) (t - (a + 4 * pad))]

def adrBlock (ins : Insn) (t a : Int) : Block :=
  if isInFixingRange j t then .near (ins &&& 0xff00001f) 5 0x00ffffff (getRefInsIndex j t)
  else if (t - a).natAbs > 0x001fffff then
    .fixed (if (a + 8) % 8 = 0 then 0 else 1) (loadAddress ins t)
  else .fixed 0 [(BitVec.ofInt 32 (t - a) <<< 3 &&& 0x00ffffff) ||| (ins &&& 0xff00001f)]

def adrpBlock (ins : Insn) (t a : Int) : Block :=
  if isInFixingRange j t then .fixed 0 [ins]
  else .fixed (if (a + 8) % 8 = 0 then 0 else 1) (loadAddress ins t)

/-- What is written at `a` for the instruction at `pc`. -/
def block (pc a : Int) : Block :=
  let ins := j.text pc
  match classify ins with
  | .branch l => branchBlock j l (pc + 4 * imm26 ins) a
  | .bcond | .cbz _ _ => condBlock j ins 0xff00001f (pc + 4 * imm19 ins % 2 ^ 21) a
  | .tbz _ => condBlock j ins 0xfff8001f (pc + 4 * imm14 ins % 2 ^ 16) a
  | .prfm => .fixed 0 []
  | .lit l =>
    match litClass (.lit l) with
    | some (mask, al) => litBlock j ins mask al (pc + 4 * imm19 ins % 2 ^ 32) a
    | none => .fixed 0 [ins]
  | .adr => adrBlock j ins (pc + imm21 ins % 2 ^ 32) a
  | .adrp => adrpBlock j ins (pc - pc % 4096 + 4096 * imm21 ins % 2 ^ 32) a
  | .other =>
    if top ins = 0xdc then litBlock j ins 0x3f000000 7 (pc + 4 * imm19 ins % 2 ^ 32) a
    else .fixed 0 [ins]

section Cases
variable {j} {pc : Int} (a : Int)

theorem block_branch {l : Bool} (h : classify (j.text pc) = .branch l) :
    block j pc a = branchBlock j l (pc + 4 * imm26 (j.text pc)) a := by simp only [block, h]

theorem block_prfm (h : classify (j.text pc) = .prfm) : block j pc a = .fixed 0 [] := by
  simp only [block, h]

theorem block_adr (h : classify (j.text pc) = .adr) :
    block j pc a = adrBlock j (j.text pc) (pc + imm21 (j.text pc) % 2 ^ 32) a := by
  simp only [block, h]

theorem block_adrp (h : classify (j.text pc) = .adrp) :
    block j pc a =
      adrpBlock j (j.text pc) (pc - pc % 4096 + 4096 * imm21 (j.text pc) % 2 ^ 32) a := by
  simp only [block, h]

theorem block_other (h : classify (j.text pc) = .other) (hd : top (j.text pc) ≠ 0xdc) :
    block j pc a = .fixed 0 [j.text pc] := by simp only [block, h, if_neg hd]

theorem block_lit {l : Lit} {mask : Insn} {al : Nat} (h : classify (j.text pc) = .lit l)
    (hl : litClass (.lit l) = some (mask, al)) :
    block j pc a = litBlock j (j.text pc) mask al (pc + 4 * imm19 (j.text pc) % 2 ^ 32) a := by
  simp only [block, h, hl]

/-- `4 * imm` is the distance, read off `n` bits. -/
theorem block_cond {lmask : Insn} {test : Test} {n : Nat} (h : condLmask (j.text pc) = some lmask)
    (hw : CondWord (j.text pc) lmask test n) :
    block j pc a =
      condBlock j (j.text pc) lmask (pc + 4 * ((j.text pc).extractLsb' 5 n).toInt % 2 ^ (n + 2)) a := by
  rw [condLmask_eq] at h
  have hr := hw.reach
  cases hc : classify (j.text pc) with
  | bcond | cbz _ _ =>
    rw [hc] at h
    obtain rfl : (0xff00001f : Insn) = lmask := Option.some.inj h
    rcases hw.width with rfl | rfl
    · simp only [block, hc]; rfl
    · exact absurd hr (by decide)
  | tbz _ =>
    rw [hc] at h
    obtain rfl : (0xfff8001f : Insn) = lmask := Option.some.inj h
    rcases hw.width with rfl | rfl
    · exact absurd hr (by decide)
    · simp only [block, hc]; rfl
  | _ => rw [hc] at h; cases h

end Cases

/-! ## Writing a block -/

/-- Words written behind some NOPs, the instruction's place being behind them. -/
def padded (pad : Nat) (ws : List Insn) (idx : Nat) (s : Context) : Context :=
  { s with
    out := s.out ++ (List.replicate pad nop ++ ws)
    ins := Function.update s.ins idx (outp j s + 4 * pad) }

def Block.write (b : Block) (s : Context) : Context :=
  let idx := getRefInsIndex j s.inp
  finish j idx <|
    match b with
    | .fixed pad ws => padded j pad ws idx s
    | .near tmpl ls ad ref =>
      let s := resetCurrentIns j idx s
      if ref ≤ idx then emit [link tmpl ls ad (s.ins ref - outp j s)] s
      else emit [link tmpl ls ad 0] (insertFixMap ref ⟨s.out.length, ls, ad⟩ s)

variable {j} {s : Context}

theorem emit_reset (ws : List Insn) (idx : Nat) :
    emit ws (resetCurrentIns j idx s) = padded j 0 ws idx s := by
  simp [emit, resetCurrentIns, padded, outp]

theorem emit_nopIf (c : Bool) (ws : List Insn) (idx : Nat) :
    emit ws (nopIf j c idx (resetCurrentIns j idx s)) = padded j (if c then 1 else 0) ws idx s := by
  cases c with
  | false => exact emit_reset ws idx
  | true =>
    simp only [nopIf, emit, resetCurrentIns, padded, outp, if_true, Function.update_idem,
      List.length_append, List.length_singleton, List.replicate_one, List.append_assoc]
    congr 2
    push_cast
    omega

theorem reset_emit_nops (n : Nat) (ws : List Insn) (idx : Nat) :
    emit ws (resetCurrentIns j idx (emit (List.replicate n nop) (resetCurrentIns j idx s))) =
      padded j n ws idx s := by
  simp only [emit, resetCurrentIns, padded, outp, Function.update_idem, List.length_append,
    List.length_replicate, List.append_assoc]
  congr 2
  push_cast
  omega

/-- The NOPs of a loop that ends with the first number of them for which the
condition fails. -/
theorem nopWhile_eq {c : Context → Bool} {n m : Nat} (hm : n < m)
    (hc : ∀ k < n, c (emit (List.replicate k nop) s) = true)
    (hn : c (emit (List.replicate n nop) s) = false) :
    nopWhile c m s = emit (List.replicate n nop) s := by
  induction n generalizing s m with
  | zero =>
    obtain ⟨m, rfl⟩ := Nat.exists_eq_succ_of_ne_zero (Nat.ne_of_gt hm)
    have e : emit (List.replicate 0 nop) s = s := by simp [emit]
    rw [e] at hn ⊢
    simp [nopWhile, hn]
  | succ n ih =>
    obtain ⟨m, rfl⟩ := Nat.exists_eq_succ_of_ne_zero (Nat.ne_of_gt (Nat.zero_lt_of_lt hm))
    have e (k : Nat) : emit (List.replicate k nop) (emit [nop] s) =
        emit (List.replicate (k + 1) nop) s := by
      simp [emit, List.replicate_succ]
    have h0 : c s = true := by simpa [emit] using hc 0 (Nat.succ_pos n)
    have hi := @ih (emit [nop] s) m (Nat.lt_of_succ_lt_succ hm)
      (fun k hk => e k ▸ hc (k + 1) (Nat.succ_lt_succ hk)) (e n ▸ hn)
    simp only [nopWhile, h0, if_true, hi, e]

theorem outp_nops (n : Nat) : outp j (emit (List.replicate n nop) s) = outp j s + 4 * n := by
  simp only [outp, emit, List.length_append, List.length_replicate]
  push_cast
  omega

@[simp] theorem outp_reset (idx : Nat) : outp j (resetCurrentIns j idx s) = outp j s := rfl

@[simp] theorem reset_inp (idx : Nat) : (resetCurrentIns j idx s).inp = s.inp := rfl

section Reference
variable {t : Int} (cur ref ls : Nat) (ad : Insn) (word : Int → Insn)

/-- The word of a reference to an instruction that is moved. -/
theorem emit_refOffset (h : isInFixingRange j t = true) :
    emit [word (refOffset j cur ref t ls ad s).1] (refOffset j cur ref t ls ad s).2 =
      if ref ≤ cur then emit [word (s.ins ref - outp j s)] s
      else emit [word 0] (insertFixMap ref ⟨s.out.length, ls, ad⟩ s) := by
  rw [refOffset, if_pos h]
  by_cases hr : ref ≤ cur
  · rw [if_pos hr, if_pos hr]
  · rw [if_neg hr, if_neg hr]

/-- The word of a reference to anything else. -/
theorem emit_refOffset_far (h : isInFixingRange j t = false) :
    emit [word (refOffset j cur ref t ls ad s).1] (refOffset j cur ref t ls ad s).2 =
      emit [word (t - outp j s)] s := by
  rw [refOffset, h]
  rfl

end Reference

theorem fixBranchImm_eq {l : Bool} (hc : classify (j.text s.inp) = .branch l) :
    fixBranchImm j s =
      some ((branchBlock j l (s.inp + 4 * imm26 (j.text s.inp)) (outp j s)).write j s) := by
  have hop : j.text s.inp &&& 0xfc000000 = branchOp l := by
    cases l
    · exact (branch_iff _).1.mpr hc
    · exact (branch_iff _).2.mpr hc
  have hor : branchOp l = 0x14000000 ∨ branchOp l = 0x94000000 := by cases l <;> decide
  have hw (off : Int) : branchOp l ||| (BitVec.ofInt 32 (off / 4) &&& ~~~0xfc000000) =
      link (branchOp l) 0 0x03ffffff off := by
    rw [link, BitVec.or_comm, BitVec.shiftLeft_zero, show ~~~(0xfc000000 : Insn) = 0x03ffffff by decide]
  simp only [fixBranchImm, hop, if_pos hor, branchDisp, getAndSetCurrentIndex, outp_reset, reset_inp, hw]
  generalize s.inp + 4 * imm26 (j.text s.inp) = t
  congr 1
  cases hr : isInFixingRange j t with
  | true =>
    simp only [Bool.not_true, Bool.false_and, Bool.false_eq_true, if_false, branchBlock, hr, if_true,
      Block.write]
    rw [emit_refOffset _ _ _ _ _ hr]
  | false =>
    by_cases hf : ((t - outp j s) / 4).natAbs > 0x03ffffff
    · have hf' : ((t - outp j s) / 4).natAbs > (0x03ffffff : Insn).toNat := hf
      simp only [branchBlock, hr, Bool.not_false, hf', hf, decide_true, Bool.and_true, if_true,
        Bool.false_eq_true, if_false]
      cases l with
      | false =>
        simp only [branchOp, Bool.false_eq_true, if_false, if_true, emit_nopIf, Block.write, beq_iff_eq]
        rfl
      | true =>
        have hne : branchOp true ≠ 0x14000000 := by decide
        simp only [if_neg hne, emit_nopIf, if_true, Block.write, Bool.not_eq_true', beq_eq_false_iff_ne,
          ite_not]
        rfl
    · have hf' : ¬ ((t - outp j s) / 4).natAbs > (0x03ffffff : Insn).toNat := hf
      simp only [branchBlock, hr, Bool.not_false, hf', hf, decide_false, Bool.and_false, if_false,
        Bool.false_eq_true]
      rw [emit_refOffset_far _ _ _ _ _ hr, emit_reset]
      rfl

theorem fixBranchImm_none (hc : ∀ l, classify (j.text s.inp) ≠ .branch l) :
    fixBranchImm j s = none := by
  have hn : ¬ (j.text s.inp &&& 0xfc000000 = 0x14000000 ∨ j.text s.inp &&& 0xfc000000 = 0x94000000) := by
    rintro (h | h)
    · exact hc _ ((branch_iff _).1.mp h)
    · exact hc _ ((branch_iff _).2.mp h)
  exact if_neg hn

theorem fixCond_eq {lmask : Insn} (hm : condLmask (j.text s.inp) = some lmask) :
    fixCondCompTestBranch j s =
      some ((condBlock j (j.text s.inp) lmask (s.inp + ((j.text s.inp &&& ~~~lmask) >>> 3).toNat)
        (outp j s)).write j s) := by
  generalize hi : j.text s.inp = ins at hm
  have hw (off : Int) : (BitVec.ofInt 32 (off / 4) <<< 5 &&& ~~~lmask) ||| (ins &&& lmask) =
      link (ins &&& lmask) 5 (~~~lmask) off := rfl
  have h8 : ((8 >>> 2) <<< 5 &&& ~~~lmask) ||| (ins &&& lmask) = link (ins &&& lmask) 5 (~~~lmask) 8 := rfl
  simp only [fixCondCompTestBranch, hi, hm, Option.map_some, Nat.reduceSub, getAndSetCurrentIndex,
    outp_reset, reset_inp, hw, h8]
  generalize s.inp + ((ins &&& ~~~lmask) >>> 3).toNat = t
  congr 1
  cases hr : isInFixingRange j t with
  | true =>
    simp only [Bool.not_true, Bool.false_and, Bool.false_eq_true, if_false, condBlock, hr, if_true,
      Block.write]
    rw [emit_refOffset _ _ _ _ _ hr]
  | false =>
    by_cases hf : ((t - outp j s) / 4).natAbs > (~~~lmask >>> 5).toNat
    · simp only [condBlock, hr, Bool.not_false, hf, decide_true, Bool.and_true, if_true,
        Bool.false_eq_true, if_false, emit_nopIf, Block.write, bne_iff_ne, ite_not]
      rfl
    · simp only [condBlock, hr, Bool.not_false, hf, decide_false, Bool.and_false, if_false,
        Bool.false_eq_true]
      rw [emit_refOffset_far _ _ _ _ _ hr, emit_reset]
      rfl

theorem fixCond_none (hm : condLmask (j.text s.inp) = none) : fixCondCompTestBranch j s = none := by
  rw [fixCondCompTestBranch, hm]
  rfl

theorem fixLoadlit_prfm (hc : classify (j.text s.inp) = .prfm) :
    fixLoadlit j s = some ((Block.fixed 0 []).write j s) := by
  have h := (prfm_iff _).mpr hc
  have e : resetCurrentIns j (getRefInsIndex j s.inp) s = padded j 0 [] (getRefInsIndex j s.inp) s := by
    rw [← emit_reset, emit, List.append_nil]
  simp only [fixLoadlit, h, if_true, getAndSetCurrentIndex, e]
  rfl

theorem toNat_litDisp (w : Insn) :
    (((w <<< 8).sshiftRight 11 &&& ~~~3#32).toNat : Int) = 4 * imm19 w % 2 ^ 32 := by
  rw [Bits.toNat_eq_emod, litDisp]

theorem fixLoadlit_eq {mask : Insn} {al : Nat} (hp : classify (j.text s.inp) ≠ .prfm)
    (hm : loadlitMask (j.text s.inp) = some (mask, al)) (hal : al = 3 ∨ al = 7 ∨ al = 15)
    (ha : outp j s % 4 = 0) :
    fixLoadlit j s =
      some ((litBlock j (j.text s.inp) mask al (s.inp + 4 * imm19 (j.text s.inp) % 2 ^ 32)
        (outp j s)).write j s) := by
  have hp' : ¬ j.text s.inp &&& 0xff000000 = 0xd8000000 := fun h => hp ((prfm_iff _).mp h)
  have hmax : (~~~(0xff00001f : Insn) >>> 5).toNat = 0x7ffff := by decide
  have hw (ins : Insn) (off : Int) :
      (BitVec.ofInt 32 (off / 4) <<< 5 &&& ~~~mask) ||| (ins &&& 0xff00001f) =
        link (ins &&& 0xff00001f) 5 (~~~mask) off := rfl
  have h8 (ins : Insn) : ((8 >>> 2) <<< 5 &&& ~~~mask) ||| (ins &&& 0xff00001f) =
      link (ins &&& 0xff00001f) 5 (~~~mask) 8 := rfl
  simp only [fixLoadlit, if_neg hp', hm, Option.map_some, getAndSetCurrentIndex, outp_reset, reset_inp,
    toNat_litDisp, hmax, hw, h8]
  generalize s.inp + 4 * imm19 (j.text s.inp) % 2 ^ 32 = t
  generalize j.text s.inp = ins
  congr 1
  by_cases hf : isInFixingRange j t = true ∨ ((t - outp j s) / 4).natAbs + (al + 1 - 4) > 0x7ffff
  · have hn : nopWhile (fun s => (outp j s + 8) % (al + 1) != 0) 4
        (resetCurrentIns j (getRefInsIndex j s.inp) s) =
        emit (List.replicate (-(outp j s + 8) % (al + 1) / 4).toNat nop)
          (resetCurrentIns j (getRefInsIndex j s.inp) s) := by
      refine nopWhile_eq ?_ ?_ ?_
      · rcases hal with rfl | rfl | rfl <;> omega
      · intro k hk
        simp only [outp_nops, outp_reset, bne_iff_ne]
        rcases hal with rfl | rfl | rfl <;> omega
      · simp only [outp_nops, outp_reset, bne_eq_false_iff_eq]
        rcases hal with rfl | rfl | rfl <;> omega
    rw [litBlock, if_pos hf, if_pos (by simpa using hf), hn, reset_emit_nops]
    rfl
  · have hn : nopWhile (fun s => (t - outp j s) / 4 % (al / 4 + 1) != 0) 4
        (resetCurrentIns j (getRefInsIndex j s.inp) s) =
        emit (List.replicate ((t - outp j s) / 4 % (al / 4 + 1)).toNat nop)
          (resetCurrentIns j (getRefInsIndex j s.inp) s) := by
      refine nopWhile_eq ?_ ?_ ?_
      · rcases hal with rfl | rfl | rfl <;> omega
      · intro k hk
        simp only [outp_nops, outp_reset, bne_iff_ne]
        rcases hal with rfl | rfl | rfl <;> omega
      · simp only [outp_nops, outp_reset, bne_eq_false_iff_eq]
        rcases hal with rfl | rfl | rfl <;> omega
    rw [litBlock, if_neg hf, if_neg (by simpa using hf), hn, reset_emit_nops]
    simp only [outp_reset, outp_nops]
    rfl

theorem fixLoadlit_none (hp : classify (j.text s.inp) ≠ .prfm)
    (hm : loadlitMask (j.text s.inp) = none) : fixLoadlit j s = none := by
  have hp' : ¬ j.text s.inp &&& 0xff000000 = 0xd8000000 := fun h => hp ((prfm_iff _).mp h)
  rw [fixLoadlit]
  simp only [if_neg hp', hm]
  rfl

theorem toNat_adrOffset (w : Insn) : ((adrOffset w).toNat : Int) = imm21 w % 2 ^ 32 := by
  rw [Bits.toNat_eq_emod, adrDisp]

theorem toNat_adrpOffset (w : Insn) :
    ((adrOffset w <<< 12).toNat : Int) = 4096 * imm21 w % 2 ^ 32 := by
  have h := toNat_adrOffset w
  have e : (adrOffset w <<< 12).toNat = (adrOffset w).toNat * 4096 % 2 ^ 32 := by
    rw [BitVec.toNat_shiftLeft, Nat.shiftLeft_eq]
  rw [e]
  omega

theorem fixPcreladdr_adr (hc : classify (j.text s.inp) = .adr) (hb : j.base % 4 = 0)
    (ha : outp j s % 4 = 0) (hins : ∀ k, s.ins k % 4 = 0) :
    fixPcreladdr j s =
      some ((adrBlock j (j.text s.inp) (s.inp + imm21 (j.text s.inp) % 2 ^ 32)
        (outp j s)).write j s) := by
  have hr4 (t : Int) : getRefInsIndex j (t - t % 4) = getRefInsIndex j t := by
    unfold getRefInsIndex
    congr 1
    omega
  have hw (ins : Insn) {off : Int} (h : off % 4 = 0) :
      (BitVec.ofInt 32 off <<< 3 &&& 0x00ffffff) ||| (ins &&& 0xff00001f) =
        link (ins &&& 0xff00001f) 5 0x00ffffff off := by
    rw [shift_three, h, link, show BitVec.ofInt 32 (8 * 0) = 0#32 by decide, BitVec.or_zero]
  have hc' := (adr_iff _).mpr hc
  simp only [fixPcreladdr, hc', if_true, getAndSetCurrentIndex, outp_reset, reset_inp, toNat_adrOffset,
    Nat.reduceSub, hr4]
  generalize s.inp + imm21 (j.text s.inp) % 2 ^ 32 = t
  congr 1
  cases hr : isInFixingRange j t with
  | true =>
    have hi (k : Nat) : ((resetCurrentIns j (getRefInsIndex j s.inp) s).ins k - outp j s) % 4 = 0 := by
      have := hins k
      simp only [resetCurrentIns, Function.update_apply]
      split <;> omega
    simp only [Bool.not_true, Bool.false_and, Bool.false_eq_true, if_false, adrBlock, hr, if_true,
      Block.write]
    rw [emit_refOffset _ _ _ _ (fun off => (BitVec.ofInt 32 off <<< 3 &&& 0x00ffffff) |||
      (j.text s.inp &&& 0xff00001f)) hr, outp_reset, hw _ (hi _), hw _ (by decide)]
  | false =>
    by_cases hf : (t - outp j s).natAbs > 0x001fffff
    · simp only [adrBlock, hr, Bool.not_false, hf, decide_true, Bool.and_true, if_true,
        Bool.false_eq_true, if_false, emit_nopIf, Block.write, bne_iff_ne, ite_not]
    · simp only [adrBlock, hr, Bool.not_false, hf, decide_false, Bool.and_false, if_false,
        Bool.false_eq_true]
      rw [emit_refOffset_far _ _ _ _ (fun off => (BitVec.ofInt 32 off <<< 3 &&& 0x00ffffff) |||
        (j.text s.inp &&& 0xff00001f)) hr, emit_reset]
      rfl

theorem fixPcreladdr_adrp (hc : classify (j.text s.inp) = .adrp) :
    fixPcreladdr j s =
      some ((adrpBlock j (j.text s.inp)
        (s.inp - s.inp % 4096 + 4096 * imm21 (j.text s.inp) % 2 ^ 32) (outp j s)).write j s) := by
  have hc' := (adrp_iff _).mpr hc
  have hn : ¬ (0x90000000 : Insn) = 0x10000000 := by decide
  simp only [fixPcreladdr, hc', if_neg hn, if_true, getAndSetCurrentIndex, outp_reset, reset_inp,
    toNat_adrpOffset]
  generalize s.inp - s.inp % 4096 + 4096 * imm21 (j.text s.inp) % 2 ^ 32 = t
  congr 1
  cases hr : isInFixingRange j t with
  | true =>
    simp only [adrpBlock, hr, if_true, emit_reset, Block.write]
  | false =>
    simp only [adrpBlock, hr, Bool.false_eq_true, if_false, emit_nopIf, Block.write, bne_iff_ne,
      ite_not]

theorem fixPcreladdr_none (h : classify (j.text s.inp) ≠ .adr) (h' : classify (j.text s.inp) ≠ .adrp) :
    fixPcreladdr j s = none := by
  have h1 : ¬ j.text s.inp &&& 0x9f000000 = 0x10000000 := fun e => h ((adr_iff _).mp e)
  have h2 : ¬ j.text s.inp &&& 0x9f000000 = 0x90000000 := fun e => h' ((adrp_iff _).mp e)
  simp only [fixPcreladdr, if_neg h1, if_neg h2]

theorem copyInstruction_eq : copyInstruction j s = (Block.fixed 0 [j.text s.inp]).write j s := by
  simp only [copyInstruction, getAndSetCurrentIndex, emit_reset]
  rfl

/-- One round of the pass writes the block of the instruction. -/
theorem fixOne_eq (hb : j.base % 4 = 0) (ha : outp j s % 4 = 0) (hins : ∀ k, s.ins k % 4 = 0) :
    fixOne j s = (block j s.inp (outp j s)).write j s := by
  have hd19 (w : Insn) : (((w &&& ~~~0xff00001f) >>> 3).toNat : Int) = 4 * imm19 w % 2 ^ 21 := by
    have h : ((w &&& ~~~0xff00001f) >>> 3).toNat = 4 * (w.extractLsb' 5 19).toNat :=
      condDisp w (by decide) (by decide)
    have := Bits.toNat_eq_emod (w.extractLsb' 5 19)
    rw [h, imm19]
    omega
  have hd14 (w : Insn) : (((w &&& ~~~0xfff8001f) >>> 3).toNat : Int) = 4 * imm14 w % 2 ^ 16 := by
    have h : ((w &&& ~~~0xfff8001f) >>> 3).toNat = 4 * (w.extractLsb' 5 14).toNat :=
      condDisp w (by decide) (by decide)
    have := Bits.toNat_eq_emod (w.extractLsb' 5 14)
    rw [h, imm14]
    omega
  have hc := condLmask_eq (j.text s.inp)
  have hdc : classify (j.text s.inp) ≠ .other → top (j.text s.inp) ≠ 0xdc :=
    fun h e => h (classify_dc e)
  rw [fixOne, block]
  cases hk : classify (j.text s.inp) with
  | branch l => rw [fixBranchImm_eq hk]; rfl
  | bcond =>
    rw [hk] at hc
    rw [fixBranchImm_none (by simp [hk]), fixCond_eq hc, hd19]
    rfl
  | cbz wide nonzero =>
    rw [hk] at hc
    rw [fixBranchImm_none (by simp [hk]), fixCond_eq hc, hd19]
    rfl
  | tbz nonzero =>
    rw [hk] at hc
    rw [fixBranchImm_none (by simp [hk]), fixCond_eq hc, hd14]
    rfl
  | prfm =>
    rw [hk] at hc
    rw [fixBranchImm_none (by simp [hk]), fixCond_none hc, fixLoadlit_prfm hk]
    rfl
  | lit l =>
    rw [hk] at hc
    have hl := loadlitMask_eq _ (hdc (by simp [hk]))
    rw [hk] at hl
    rw [fixBranchImm_none (by simp [hk]), fixCond_none hc]
    cases l <;> rw [fixLoadlit_eq (by simp [hk]) hl (by decide) ha] <;> rfl
  | adr =>
    rw [hk] at hc
    have hl := loadlitMask_eq _ (hdc (by simp [hk]))
    rw [hk] at hl
    rw [fixBranchImm_none (by simp [hk]), fixCond_none hc, fixLoadlit_none (by simp [hk]) hl,
      fixPcreladdr_adr hk hb ha hins]
    rfl
  | adrp =>
    rw [hk] at hc
    have hl := loadlitMask_eq _ (hdc (by simp [hk]))
    rw [hk] at hl
    rw [fixBranchImm_none (by simp [hk]), fixCond_none hc, fixLoadlit_none (by simp [hk]) hl,
      fixPcreladdr_adrp hk]
    rfl
  | other =>
    rw [hk] at hc
    rw [fixBranchImm_none (by simp [hk]), fixCond_none hc]
    by_cases h : top (j.text s.inp) = 0xdc
    · rw [fixLoadlit_eq (by simp [hk]) (loadlitMask_dc h) (by decide) ha]
      simp only [h, if_true]
      rfl
    · have hl := loadlitMask_eq _ h
      rw [hk] at hl
      rw [fixLoadlit_none (by simp [hk]) hl, fixPcreladdr_none (by simp [hk]) (by simp [hk]),
        copyInstruction_eq]
      simp only [h, if_false]
      rfl

/-! ## What a block refers to -/

theorem inRange_iff {t : Int} : isInFixingRange j t = true ↔ j.base ≤ t ∧ t < j.endp := by
  simp [isInFixingRange]

theorem getRefInsIndex_lt {t : Int} (h : isInFixingRange j t = true) :
    getRefInsIndex j t < j.count := by
  obtain ⟨h0, h1⟩ := inRange_iff.mp h
  simp only [Job.endp] at h1
  unfold getRefInsIndex
  omega

/-- The block refers to nothing but instructions that are moved. -/
def Block.Inside (j : Job) : Block → Prop
  | .fixed .. => True
  | .near _ _ _ ref => ref < j.count

theorem block_inside (pc a : Int) : (block j pc a).Inside j := by
  have hbr (l : Bool) (t : Int) : (branchBlock j l t a).Inside j := by
    unfold branchBlock
    split
    · exact getRefInsIndex_lt ‹_›
    · split <;> [cases l; skip] <;> trivial
  have hco (lmask : Insn) (t : Int) : (condBlock j (j.text pc) lmask t a).Inside j := by
    unfold condBlock
    split
    · exact getRefInsIndex_lt ‹_›
    · split <;> trivial
  have hli (mask : Insn) (al : Nat) (t : Int) : (litBlock j (j.text pc) mask al t a).Inside j := by
    unfold litBlock
    split <;> trivial
  have had (t : Int) : (adrBlock j (j.text pc) t a).Inside j := by
    unfold adrBlock
    split
    · exact getRefInsIndex_lt ‹_›
    · split <;> trivial
  have hap (t : Int) : (adrpBlock j (j.text pc) t a).Inside j := by
    unfold adrpBlock
    split <;> trivial
  unfold block
  dsimp only
  split
  · exact hbr ..
  · exact hco ..
  · exact hco ..
  · exact hco ..
  · trivial
  · split
    · exact hli ..
    · trivial
  · exact had _
  · exact hap _
  · split
    · exact hli ..
    · trivial

/-! ## How long a block is -/

@[simp] theorem length_dword (t : Int) : (dword t).length = 2 := rfl

@[simp] theorem length_farJump (t : Int) : (farJump t).length = 4 := rfl

@[simp] theorem length_farCall (t : Int) : (farCall t).length = 5 := rfl

@[simp] theorem length_loadAddress (ins : Insn) (t : Int) : (loadAddress ins t).length = 4 := rfl

@[simp] theorem length_dataWords (text : Text) (t : Int) (n : Nat) : (dataWords text t n).length = n := by
  simp [dataWords]

theorem branchBlock_size (l : Bool) (t a : Int) :
    (branchBlock j l t a).pad + (branchBlock j l t a).size ≤ 6 := by
  unfold branchBlock
  split
  · simp [Block.pad, Block.size]
  · split
    · cases l <;> simp [Block.pad, Block.size] <;> split <;> omega
    · simp [Block.pad, Block.size]

theorem condBlock_size (ins lmask : Insn) (t a : Int) :
    (condBlock j ins lmask t a).pad + (condBlock j ins lmask t a).size ≤ 7 := by
  unfold condBlock
  split
  · simp [Block.pad, Block.size]
  · split
    · simp [Block.pad, Block.size]; split <;> omega
    · simp [Block.pad, Block.size]

theorem litBlock_size (ins mask : Insn) {al : Nat} (hal : al = 3 ∨ al = 7 ∨ al = 15) (t a : Int) :
    (litBlock j ins mask al t a).pad + (litBlock j ins mask al t a).size ≤ 9 := by
  unfold litBlock
  split
  · simp only [Block.pad, Block.size, List.length_append, List.length_cons, List.length_nil,
      length_dataWords]
    rcases hal with rfl | rfl | rfl <;> omega
  · simp only [Block.pad, Block.size, List.length_cons, List.length_nil]
    rcases hal with rfl | rfl | rfl <;> omega

theorem adrBlock_size (ins : Insn) (t a : Int) :
    (adrBlock j ins t a).pad + (adrBlock j ins t a).size ≤ 5 := by
  unfold adrBlock
  split
  · simp [Block.pad, Block.size]
  · split
    · simp [Block.pad, Block.size]; split <;> omega
    · simp [Block.pad, Block.size]

theorem adrpBlock_size (ins : Insn) (t a : Int) :
    (adrpBlock j ins t a).pad + (adrpBlock j ins t a).size ≤ 5 := by
  unfold adrpBlock
  split
  · simp [Block.pad, Block.size]
  · simp [Block.pad, Block.size]; split <;> omega

theorem block_size (pc a : Int) : (block j pc a).pad + (block j pc a).size ≤ 9 := by
  have hcond {lmask : Insn} (h : condLmask (j.text pc) = some lmask) :
      (block j pc a).pad + (block j pc a).size ≤ 9 := by
    obtain ⟨test, n, hw⟩ := condWord h
    rw [block_cond a h hw]
    exact Nat.le_trans (condBlock_size ..) (by decide)
  have hc := condLmask_eq (j.text pc)
  cases h : classify (j.text pc) with
  | branch l => rw [block_branch a h]; exact Nat.le_trans (branchBlock_size ..) (by decide)
  | bcond | cbz _ _ | tbz _ => exact hcond (hc.trans (by rw [h]; rfl))
  | prfm => rw [block_prfm a h]; decide
  | lit l => cases l <;> rw [block_lit a h rfl] <;> exact litBlock_size _ _ (by decide) _ a
  | adr => rw [block_adr a h]; exact Nat.le_trans (adrBlock_size ..) (by decide)
  | adrp => rw [block_adrp a h]; exact Nat.le_trans (adrpBlock_size ..) (by decide)
  | other =>
    by_cases hd : top (j.text pc) = 0xdc
    · simp only [block, h, if_pos hd]
      exact litBlock_size _ _ (by decide) _ a
    · rw [block_other a h hd]
      exact (by decide : 0 + 1 ≤ 9)

end Blocks

end DumpDex.L2.FixInstructions
