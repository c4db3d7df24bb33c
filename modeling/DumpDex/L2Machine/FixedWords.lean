import DumpDex.L2Machine.FixInstructions

/-!
# The words of the arm64 relocator

`FixInstructions` takes instructions apart and puts others together with
masks and shifts. Here is what that means in terms of `A64`.

* `branch_iff`, `condLmask_eq`, `loadlitMask_eq`, `prfm_iff`, `adr_iff`,
  `adrp_iff`: which instructions the four functions claim.
* `branchDisp`, `condDisp`, `litDisp`, `adrDisp`: the distance they read off
  one. That of a conditional branch is read without its sign; the others are
  right as 32-bit integers.
* `link`: an instruction whose target is to be so far away, and what it
  decodes to (`decode_branch_link`, `CondWord.link`, `LitWord.link`,
  `decode_adr_link`).
-/
namespace DumpDex.L2.FixInstructions
open DumpDex.Core DumpDex.Core.A64

/-! ## Which function claims what -/

theorem top_and_iff (w : Insn) (m c : BitVec 8) :
    w &&& (m ++ 0#24) = c ++ 0#24 ↔ top w &&& m = c := by
  rw [Bits.and_eq_iff 24 (by decide)]
  simp only [Nat.reduceSub, BitVec.extractLsb'_append_eq_left, BitVec.extractLsb'_append_eq_right,
    BitVec.and_zero, and_true]
  rfl

theorem bcond_and_iff (w : Insn) :
    w &&& 0xff000010 = 0x54000000 ↔ top w = 0x54 ∧ (low w).getLsbD 4 = false := by
  have hm : (0xff000010 : Insn) = 0xff#8 ++ BitVec.twoPow 24 4 := by decide
  have hc : (0x54000000 : Insn) = 0x54#8 ++ 0#24 := by decide
  rw [Bits.and_eq_iff 24 (by decide), hm, hc]
  simp only [Nat.reduceSub, BitVec.extractLsb'_append_eq_left, BitVec.extractLsb'_append_eq_right]
  refine and_congr ?_ ?_
  · rw [show 0xff#8 = BitVec.allOnes 8 by decide, BitVec.and_allOnes]
    rfl
  · rw [BitVec.and_twoPow, BitVec.getLsbD_extractLsb', low, BitVec.getLsbD_extractLsb']
    cases w.getLsbD (0 + 4) <;> decide

theorem branch_table (t : BitVec 8) (b : Bool) :
    (t &&& 0xfc = 0x14 ↔ classOf t b = .branch false) ∧
      (t &&& 0xfc = 0x94 ↔ classOf t b = .branch true) := by
  revert t b; decide +kernel

theorem branch_iff (w : Insn) :
    (w &&& 0xfc000000 = 0x14000000 ↔ classify w = .branch false) ∧
      (w &&& 0xfc000000 = 0x94000000 ↔ classify w = .branch true) := by
  obtain ⟨h0, h1⟩ := branch_table (top w) ((low w).getLsbD 4)
  exact ⟨(top_and_iff w 0xfc 0x14).trans h0, (top_and_iff w 0xfc 0x94).trans h1⟩

/-- The bits of a conditional branch that are not its distance. -/
def condClass : InsnClass → Option Insn
  | .bcond | .cbz _ _ => some 0xff00001f
  | .tbz _ => some 0xfff8001f
  | _ => none

theorem cond_table (t : BitVec 8) (b : Bool) :
    (if t = 0x54 ∧ b = false then some 0xff00001f
      else if t &&& 0x7f = 0x34 ∨ t &&& 0x7f = 0x35 then some 0xff00001f
      else if t &&& 0x7f = 0x36 ∨ t &&& 0x7f = 0x37 then some (0xfff8001f : Insn)
      else none) = condClass (classOf t b) := by
  revert t b; decide +kernel

theorem condLmask_eq (w : Insn) : condLmask w = condClass (classify w) := by
  rw [classify, ← cond_table]
  have h34 : w &&& 0x7f000000 = 0x34000000 ↔ _ := top_and_iff w 0x7f 0x34
  have h35 : w &&& 0x7f000000 = 0x35000000 ↔ _ := top_and_iff w 0x7f 0x35
  have h36 : w &&& 0x7f000000 = 0x36000000 ↔ _ := top_and_iff w 0x7f 0x36
  have h37 : w &&& 0x7f000000 = 0x37000000 ↔ _ := top_and_iff w 0x7f 0x37
  simp only [condLmask, bcond_and_iff, h34, h35, h36, h37]

/-- The mask of a load and one less than the bytes it is to be aligned to. -/
def litClass : InsnClass → Option (Insn × Nat)
  | .lit .w => some (0xbf000000, 3)
  | .lit .x => some (0xbf000000, 7)
  | .lit .sw => some (0xff000000, 7)
  | .lit .s => some (0x3f000000, 3)
  | .lit .d => some (0x3f000000, 7)
  | .lit .q => some (0x3f000000, 15)
  | _ => none

theorem lit_table (t : BitVec 8) (b : Bool) (h : t ≠ 0xdc) :
    (if t &&& 0xbf = 0x18 then some (0xbf000000, if decide (t &&& 0x40 ≠ 0) = true then 7 else 3)
      else if t &&& 0x3f = 0x1c then some (0x3f000000,
        if decide (t &&& 0x40 ≠ 0) = true then 7 else if decide (t &&& 0x80 ≠ 0) = true then 15 else 3)
      else if t &&& 0xff = 0x98 then some ((0xff000000 : Insn), 7)
      else none) = litClass (classOf t b) := by
  revert t b; decide +kernel

/-- With bits 31 to 24 equal to 0xdc it would be the load of a fourth vector
size, which does not exist; the code takes it for a load of eight bytes. -/
theorem loadlitMask_eq (w : Insn) (h : top w ≠ 0xdc) : loadlitMask w = litClass (classify w) := by
  rw [classify, ← lit_table _ _ h]
  have h18 : w &&& 0xbf000000 = 0x18000000 ↔ _ := top_and_iff w 0xbf 0x18
  have h1c : w &&& 0x3f000000 = 0x1c000000 ↔ _ := top_and_iff w 0x3f 0x1c
  have h98 : w &&& 0xff000000 = 0x98000000 ↔ _ := top_and_iff w 0xff 0x98
  have h40 : w &&& 0x40000000 = 0 ↔ _ := top_and_iff w 0x40 0
  have h80 : w &&& 0x80000000 = 0 ↔ _ := top_and_iff w 0x80 0
  simp only [loadlitMask, h18, h1c, h98, ne_eq, h40, h80, decide_eq_true_eq]

theorem loadlitMask_dc {w : Insn} (h : top w = 0xdc) : loadlitMask w = some (0x3f000000, 7) := by
  have h18 : ¬ w &&& 0xbf000000 = 0x18000000 := by
    rw [show w &&& 0xbf000000 = 0x18000000 ↔ _ from top_and_iff w 0xbf 0x18, h]; decide
  have h1c : w &&& 0x3f000000 = 0x1c000000 := by
    rw [show w &&& 0x3f000000 = 0x1c000000 ↔ _ from top_and_iff w 0x3f 0x1c, h]; decide
  have h40 : w &&& 0x40000000 ≠ 0 := by
    rw [ne_eq, show w &&& 0x40000000 = 0 ↔ _ from top_and_iff w 0x40 0, h]; decide
  simp only [loadlitMask, if_neg h18, if_pos h1c, ne_eq, h40, not_false_eq_true, if_true]

theorem classify_dc {w : Insn} (h : top w = 0xdc) : classify w = .other := by
  rw [classify, h]
  cases (low w).getLsbD 4 <;> decide

theorem rest_table (t : BitVec 8) (b : Bool) :
    (t &&& 0xff = 0xd8 ↔ classOf t b = .prfm) ∧ (t &&& 0x9f = 0x10 ↔ classOf t b = .adr) ∧
      (t &&& 0x9f = 0x90 ↔ classOf t b = .adrp) := by
  revert t b; decide +kernel

theorem prfm_iff (w : Insn) : w &&& 0xff000000 = 0xd8000000 ↔ classify w = .prfm :=
  (top_and_iff w 0xff 0xd8).trans (rest_table (top w) ((low w).getLsbD 4)).1

theorem adr_iff (w : Insn) : w &&& 0x9f000000 = 0x10000000 ↔ classify w = .adr :=
  (top_and_iff w 0x9f 0x10).trans (rest_table (top w) ((low w).getLsbD 4)).2.1

theorem adrp_iff (w : Insn) : w &&& 0x9f000000 = 0x90000000 ↔ classify w = .adrp :=
  (top_and_iff w 0x9f 0x90).trans (rest_table (top w) ((low w).getLsbD 4)).2.2

/-! ## Distances -/

theorem branchDisp (w : Insn) : ((w <<< 6).sshiftRight 4).toInt = 4 * imm26 w := by
  have h : (w <<< 6).toInt = 2 ^ 6 * (w.extractLsb' 0 26).toInt :=
    Bits.toInt_shiftLeft_field w (by decide)
  rw [BitVec.toInt_sshiftRight, Int.shiftRight_eq_div_pow, h, imm26]
  omega

theorem litDisp (w : Insn) : ((w <<< 8).sshiftRight 11 &&& ~~~3#32).toInt = 4 * imm19 w := by
  have h : (w <<< 8).toInt = 2 ^ 8 * (w.extractLsb' 0 24).toInt :=
    Bits.toInt_shiftLeft_field w (by decide)
  have e : w.extractLsb' 5 19 = (w.extractLsb' 0 24).extractLsb' 5 19 := by
    apply BitVec.eq_of_getLsbD_eq
    intro i hi
    simp
  have hu : (w.extractLsb' 5 19).toInt = (w.extractLsb' 0 24).toInt / 2 ^ 5 := by
    rw [e, Bits.toInt_upper (w.extractLsb' 0 24) (by decide) (by decide)]
  rw [Bits.toInt_and_not_three, BitVec.toInt_sshiftRight, Int.shiftRight_eq_div_pow, h, imm19, hu]
  omega

theorem adrDisp (w : Insn) : (adrOffset w).toInt = imm21 w := by
  have hl : (w <<< 1) >>> 30 = 0#30 ++ w.extractLsb' 29 2 := by
    apply BitVec.eq_of_getLsbD_eq
    intro i hi
    simp only [BitVec.getLsbD_ushiftRight, BitVec.getLsbD_shiftLeft, BitVec.getLsbD_append,
      BitVec.getLsbD_extractLsb', BitVec.getLsbD_zero]
    by_cases h2 : i < 2
    · have h1 : 30 + i < 32 := by omega
      have e : 30 + i - 1 = 29 + i := by omega
      simp [h1, h2, e]
    · have h1 : ¬ 30 + i < 32 := by omega
      simp [h1, h2]
  have ho : adrOffset w = ((w <<< 8).sshiftRight 11).extractLsb' 2 30 ++ w.extractLsb' 29 2 := by
    rw [adrOffset, Bits.and_not_three, hl, BitVec.or_append, BitVec.or_zero, BitVec.zero_or]
  have hd := litDisp w
  rw [Bits.and_not_three, BitVec.toInt_append_zero, imm19] at hd
  rw [ho, imm21, BitVec.toInt_append, BitVec.toInt_append, if_neg (by decide), if_neg (by decide)]
  omega

/-- A conditional branch's distance is taken out with a mask. -/
theorem condDisp (w : Insn) {n : Nat} (h : 5 + n ≤ 32) {f : Insn}
    (hf : f = (BitVec.allOnes n).setWidth 32 <<< 5) :
    ((w &&& f) >>> 3).toNat = 4 * (w.extractLsb' 5 n).toNat := by
  have e : (w &&& f) >>> 3 = (w.extractLsb' 5 n).setWidth 32 <<< 2 := by
    apply BitVec.eq_of_getLsbD_eq
    intro i hi
    simp only [hf, BitVec.getLsbD_ushiftRight, BitVec.getLsbD_and, BitVec.getLsbD_shiftLeft,
      BitVec.getLsbD_setWidth, BitVec.getLsbD_allOnes, BitVec.getLsbD_extractLsb', hi]
    by_cases h2 : i < 2
    · have h5 : 3 + i < 5 := by omega
      simp [h2, h5]
    · by_cases hn : i - 2 < n
      · have h3 : 3 + i < 32 := by omega
        have h5 : ¬ 3 + i < 5 := by omega
        have e1 : 3 + i - 5 = i - 2 := by omega
        have e2 : 5 + (i - 2) = 3 + i := by omega
        have h6 : i - 2 < 32 := by omega
        simp [h2, h3, h5, e1, e2, hn, h6]
      · have e1 : ¬ 3 + i - 5 < n := by omega
        simp [hn, e1]
  have hlt := (w.extractLsb' 5 n).isLt
  have hp : 2 ^ n ≤ 2 ^ 27 := Nat.pow_le_pow_right (by decide) (by omega)
  rw [e, BitVec.toNat_shiftLeft, BitVec.toNat_setWidth, Nat.shiftLeft_eq]
  omega

/-! ## Instructions with another target -/

/-- `tmpl` with the distance `off`, in bytes, put where `ls` and `ad` say. -/
def link (tmpl : Insn) (ls : Nat) (ad : Insn) (off : Int) : Insn :=
  ((BitVec.ofInt 32 (off / 4) <<< ls) &&& ad) ||| tmpl

/-- A branch without its distance. -/
def branchOp (l : Bool) : Insn := if l then 0x94000000 else 0x14000000

theorem decode_branch_link (l : Bool) (off : Int) :
    decode (link (branchOp l) 0 0x03ffffff off) =
      if l then .bl (4 * (off / 4).bmod (2 ^ 26)) else .b (4 * (off / 4).bmod (2 ^ 26)) := by
  have hc : link (branchOp l) 0 0x03ffffff off &&& 0xfc000000 = branchOp l := by
    have h0 : (0x03ffffff : Insn) &&& 0xfc000000 = 0#32 := by decide
    have h1 : branchOp l &&& 0xfc000000 = branchOp l := by cases l <;> decide
    rw [link, BitVec.and_or_distrib_right, BitVec.and_assoc, h0, h1, BitVec.and_zero,
      BitVec.zero_or]
  have hi : imm26 (link (branchOp l) 0 0x03ffffff off) = (off / 4).bmod (2 ^ 26) := by
    have hk : (branchOp l).extractLsb' 0 26 = 0#26 := by cases l <;> decide
    have hf : (0x03ffffff : Insn).extractLsb' 0 26 = BitVec.allOnes 26 := by decide
    rw [imm26, link, BitVec.extractLsb'_or, hk, BitVec.extractLsb'_and, hf, BitVec.and_allOnes,
      Bits.field_shiftLeft _ (by decide), Bits.setWidth_ofInt (by decide), BitVec.or_zero,
      BitVec.toInt_ofInt]
  have hb : classify (link (branchOp l) 0 0x03ffffff off) = .branch l := by
    cases l
    · exact (branch_iff _).1.mp hc
    · exact (branch_iff _).2.mp hc
  rw [decode_branch hb, hi]

section Near
variable {ins x f k : Insn}

/-- The form of the other words: `f` covers the distance, `k` the rest. -/
theorem low_near (hk : k.extractLsb' 0 5 = BitVec.allOnes 5) :
    low (x <<< 5 &&& f ||| ins &&& k) = low ins := by
  have h0 : (x <<< 5).extractLsb' 0 5 = 0#5 := by
    apply BitVec.eq_of_getLsbD_eq
    intro i hi
    simp [hi]
  rw [low, BitVec.extractLsb'_or, BitVec.extractLsb'_and, BitVec.extractLsb'_and, hk, h0,
    BitVec.and_allOnes, BitVec.zero_and, BitVec.zero_or, low]

theorem top_near (hk : k.extractLsb' 24 8 = BitVec.allOnes 8)
    (hf : (x <<< 5).extractLsb' 24 8 &&& f.extractLsb' 24 8 = 0#8) :
    top (x <<< 5 &&& f ||| ins &&& k) = top ins := by
  rw [top, BitVec.extractLsb'_or, BitVec.extractLsb'_and, BitVec.extractLsb'_and, hf, hk,
    BitVec.and_allOnes, BitVec.zero_or, top]

theorem imm_near {n : Nat} {off : Int} (h : 5 + n ≤ 32) (hf : f.extractLsb' 5 n = BitVec.allOnes n)
    (hk : k.extractLsb' 5 n = 0#n) :
    ((BitVec.ofInt 32 off <<< 5 &&& f ||| ins &&& k).extractLsb' 5 n).toInt = off.bmod (2 ^ n) := by
  rw [Bits.field_left hf hk, Bits.field_shiftLeft _ h, Bits.setWidth_ofInt (by omega),
    BitVec.toInt_ofInt]

end Near

theorem link19 (ins : Insn) (off : Int) :
    top (link (ins &&& 0xff00001f) 5 (~~~0xff00001f) off) = top ins ∧
      low (link (ins &&& 0xff00001f) 5 (~~~0xff00001f) off) = low ins ∧
      imm19 (link (ins &&& 0xff00001f) 5 (~~~0xff00001f) off) = (off / 4).bmod (2 ^ 19) := by
  have hz : (~~~(0xff00001f : Insn)).extractLsb' 24 8 = 0#8 := by decide
  exact ⟨Bits.field_right hz (by decide), low_near (by decide),
    imm_near (by decide) (by decide) (by decide)⟩

/-- How many bits a conditional branch has for its distance. -/
def condWidth : Test → Nat
  | .tbz .. => 14
  | _ => 19

/-- What the code does with a conditional branch: the test stays, the
distance, of `n` bits, is read and written. -/
structure CondWord (ins lmask : Insn) (test : Test) (n : Nat) : Prop where
  kind : n = condWidth test
  width : n = 19 ∨ n = 14
  dec : decode ins = .bcond test (4 * (ins.extractLsb' 5 n).toInt)
  disp : ((ins &&& ~~~lmask) >>> 3).toNat = 4 * (ins.extractLsb' 5 n).toNat
  reach : (~~~lmask >>> 5).toNat = 2 ^ n - 1
  link : ∀ off : Int, decode (link (ins &&& lmask) 5 (~~~lmask) off) =
    .bcond test (4 * (off / 4).bmod (2 ^ n))

theorem condWord {ins lmask : Insn} (h : condLmask ins = some lmask) :
    ∃ test n, CondWord ins lmask test n := by
  rw [condLmask_eq] at h
  cases hc : classify ins with
  | bcond =>
    rw [hc] at h
    obtain rfl : (0xff00001f : Insn) = lmask := Option.some.inj h
    refine ⟨.cond ((low ins).setWidth 4), 19, rfl, .inl rfl, decode_bcond hc,
      condDisp ins (by decide) (by decide), by decide, ?_⟩
    intro off
    obtain ⟨ht, hl, hi⟩ := link19 ins off
    rw [decode_bcond ((classify_congr ht hl).trans hc), hl, hi]
  | cbz wide nonzero =>
    rw [hc] at h
    obtain rfl : (0xff00001f : Insn) = lmask := Option.some.inj h
    refine ⟨.cbz wide nonzero (low ins), 19, rfl, .inl rfl, decode_cbz hc,
      condDisp ins (by decide) (by decide), by decide, ?_⟩
    intro off
    obtain ⟨ht, hl, hi⟩ := link19 ins off
    rw [decode_cbz ((classify_congr ht hl).trans hc), hl, hi]
  | tbz nonzero =>
    rw [hc] at h
    obtain rfl : (0xfff8001f : Insn) = lmask := Option.some.inj h
    refine ⟨.tbz nonzero (ins.extractLsb' 31 1 ++ ins.extractLsb' 19 5) (low ins), 14, rfl, .inr rfl,
      decode_tbz hc, condDisp ins (by decide) (by decide), by decide, ?_⟩
    intro off
    have hz : (~~~(0xfff8001f : Insn)).extractLsb' 24 8 = 0#8 := by decide
    have ht : top (link (ins &&& 0xfff8001f) 5 (~~~0xfff8001f) off) = top ins :=
      Bits.field_right hz (by decide)
    have hl : low (link (ins &&& 0xfff8001f) 5 (~~~0xfff8001f) off) = low ins := low_near (by decide)
    have hi : imm14 (link (ins &&& 0xfff8001f) 5 (~~~0xfff8001f) off) = (off / 4).bmod (2 ^ 14) :=
      imm_near (by decide) (by decide) (by decide)
    have h31 : (link (ins &&& 0xfff8001f) 5 (~~~0xfff8001f) off).extractLsb' 31 1 =
        ins.extractLsb' 31 1 := Bits.field_right (by decide) (by decide)
    have h19 : (link (ins &&& 0xfff8001f) 5 (~~~0xfff8001f) off).extractLsb' 19 5 =
        ins.extractLsb' 19 5 := Bits.field_right (by decide) (by decide)
    rw [decode_tbz ((classify_congr ht hl).trans hc), hl, hi, h31, h19]
  | _ => rw [hc] at h; cases h

theorem top_shift_zero {m : Int} (h0 : 0 ≤ m) (h1 : m < 2 ^ 19) :
    (BitVec.ofInt 32 m <<< 5).extractLsb' 24 8 = 0#8 := by
  apply BitVec.eq_of_toNat_eq
  rw [BitVec.extractLsb'_toNat, BitVec.toNat_shiftLeft, BitVec.toNat_ofInt, Nat.shiftLeft_eq,
    Nat.shiftRight_eq_div_pow]
  simp only [BitVec.toNat_ofNat]
  omega

/-- What the code does with a load of a literal: `al + 1` is the number of
bytes it copies. Only a distance that is not negative leaves alone bits 30 and
31, which `mask` does not cover. -/
structure LitWord (ins mask : Insn) (al : Nat) (l : Lit) : Prop where
  dec : decode ins = .ldr l (low ins) (4 * imm19 ins)
  room : l.words ≤ (al + 1) / 4
  size : al = 3 ∨ al = 7 ∨ al = 15
  link : ∀ off : Int, 0 ≤ off → off < 2 ^ 20 →
    decode (link (ins &&& 0xff00001f) 5 (~~~mask) off) = .ldr l (low ins) (4 * (off / 4))

theorem litWord {ins mask : Insn} {al : Nat} (h : litClass (classify ins) = some (mask, al)) :
    ∃ l, LitWord ins mask al l := by
  have hlink {l : Lit} (hc : classify ins = .lit l)
      (hf : (~~~mask).extractLsb' 5 19 = BitVec.allOnes 19) (off : Int) (h0 : 0 ≤ off)
      (h1 : off < 2 ^ 20) :
      decode (link (ins &&& 0xff00001f) 5 (~~~mask) off) = .ldr l (low ins) (4 * (off / 4)) := by
    have ht : top (link (ins &&& 0xff00001f) 5 (~~~mask) off) = top ins := by
      refine top_near (by decide) ?_
      rw [top_shift_zero (by omega) (by omega), BitVec.zero_and]
    have hl : low (link (ins &&& 0xff00001f) 5 (~~~mask) off) = low ins := low_near (by decide)
    have hi : imm19 (link (ins &&& 0xff00001f) 5 (~~~mask) off) = (off / 4).bmod (2 ^ 19) :=
      imm_near (by decide) hf (by decide)
    rw [decode_lit ((classify_congr ht hl).trans hc), hl, hi, Int.bmod_eq_of_le (by omega) (by omega)]
  cases hc : classify ins with
  | lit l =>
    rw [hc] at h
    refine ⟨l, decode_lit hc, ?_, ?_, hlink hc ?_⟩
    all_goals
      cases l <;> simp only [litClass, Option.some.injEq, Prod.mk.injEq] at h <;>
        obtain ⟨rfl, rfl⟩ := h <;> decide
  | _ => rw [hc] at h; cases h

/-- The fields of `ADR` with another distance, which may get the low two bits
into the register's number. -/
theorem adr_fields {ins w c : Insn} {off : Int}
    (hw : w = link (ins &&& 0xff00001f) 5 0x00ffffff off ||| c) (h5 : c.extractLsb' 5 27 = 0#27) :
    top w = top ins ∧ low w = low ins ||| c.extractLsb' 0 5 ∧
      imm21 w = 4 * (off / 4).bmod (2 ^ 19) + imm21 ins % 4 := by
  have hf : (0x00ffffff : Insn).extractLsb' 24 8 = 0#8 := by decide
  have sub {lo len : Nat} (h : 5 ≤ lo) (h' : lo + len ≤ 32) : c.extractLsb' lo len = BitVec.ofNat len 0 := by
    have e : c.extractLsb' lo len = (c.extractLsb' 5 27).extractLsb' (lo - 5) len := by
      apply BitVec.eq_of_getLsbD_eq
      intro i hi
      have h1 : 5 + (lo - 5 + i) = lo + i := by omega
      have h2 : lo - 5 + i < 27 := by omega
      simp [h1, h2]
    rw [e, h5]
    simp
  refine ⟨?_, ?_, ?_⟩
  · rw [hw, top, BitVec.extractLsb'_or, sub (by decide) (by decide), BitVec.or_zero, top]
    exact Bits.field_right hf (by decide)
  · rw [hw, low, BitVec.extractLsb'_or]
    exact congrArg (· ||| _) (low_near (by decide))
  · have hi : ((link (ins &&& 0xff00001f) 5 0x00ffffff off).extractLsb' 5 19).toInt =
        (off / 4).bmod (2 ^ 19) := imm_near (by decide) (by decide) (by decide)
    have hl : (link (ins &&& 0xff00001f) 5 0x00ffffff off).extractLsb' 29 2 =
        ins.extractLsb' 29 2 := Bits.field_right (by decide) (by decide)
    have hlt := (ins.extractLsb' 29 2).isLt
    rw [imm21, imm21, hw, BitVec.extractLsb'_or, BitVec.extractLsb'_or, sub (by decide) (by decide),
      sub (by decide) (by decide), BitVec.or_zero, BitVec.or_zero, hl, BitVec.toInt_append,
      BitVec.toInt_append, if_neg (by decide), if_neg (by decide), hi]
    omega

/-- What the code does with `ADR`, the distance being a multiple of four. -/
theorem decode_adr_link {ins : Insn} (hc : classify ins = .adr) {off : Int} (h : -2 ^ 20 ≤ off)
    (h' : off < 2 ^ 20) :
    decode (link (ins &&& 0xff00001f) 5 0x00ffffff off) =
      .adr (low ins) (4 * (off / 4) + imm21 ins % 4) := by
  have hw : link (ins &&& 0xff00001f) 5 0x00ffffff off =
      link (ins &&& 0xff00001f) 5 0x00ffffff off ||| 0#32 := BitVec.or_zero.symm
  obtain ⟨ht, hl, hi⟩ := adr_fields hw (by decide)
  have hl' := hl.trans BitVec.or_zero
  rw [decode_adr ((classify_congr ht hl').trans hc), hl', hi,
    Int.bmod_eq_of_le (by omega) (by omega)]

/-- A distance shifted by three, instead of a quarter of it by five. -/
theorem shift_three (off : Int) :
    BitVec.ofInt 32 off <<< 3 =
      BitVec.ofInt 32 (off / 4) <<< 5 ||| BitVec.ofInt 32 (8 * (off % 4)) := by
  have h0 : BitVec.ofInt 32 (off / 4) <<< 5 &&& BitVec.ofInt 32 (8 * (off % 4)) = 0#32 := by
    have hr : off % 4 = 0 ∨ off % 4 = 1 ∨ off % 4 = 2 ∨ off % 4 = 3 := by omega
    refine (Bits.and_eq_iff 5 (by decide)).mpr ⟨?_, ?_⟩
    · have : (BitVec.ofInt 32 (8 * (off % 4))).extractLsb' 5 27 = 0#27 := by
        rcases hr with h | h | h | h <;> rw [h] <;> decide
      rw [this, BitVec.and_zero]
      decide
    · have : (BitVec.ofInt 32 (off / 4) <<< 5).extractLsb' 0 5 = 0#5 := by
        apply BitVec.eq_of_getLsbD_eq
        intro i hi
        simp [hi]
      rw [this, BitVec.zero_and]
      decide
  rw [← BitVec.add_eq_or_of_and_eq_zero _ _ h0]
  apply BitVec.eq_of_toNat_eq
  simp only [BitVec.toNat_shiftLeft, BitVec.toNat_add, BitVec.toNat_ofInt, Nat.shiftLeft_eq]
  omega

/-- What the code makes of an `ADR` with any distance in reach. -/
theorem decode_adr_near {ins : Insn} (hc : classify ins = .adr) {off : Int} (h : -2 ^ 20 ≤ off)
    (h' : off < 2 ^ 20) (hm : off % 4 = imm21 ins % 4)
    (hk : low ins ||| BitVec.ofInt 5 (8 * (off % 4)) = low ins) :
    decode ((BitVec.ofInt 32 off <<< 3 &&& 0x00ffffff) ||| (ins &&& 0xff00001f)) =
      .adr (low ins) off := by
  have hr : off % 4 = 0 ∨ off % 4 = 1 ∨ off % 4 = 2 ∨ off % 4 = 3 := by omega
  have hw : (BitVec.ofInt 32 off <<< 3 &&& 0x00ffffff) ||| (ins &&& 0xff00001f) =
      link (ins &&& 0xff00001f) 5 0x00ffffff off ||| BitVec.ofInt 32 (8 * (off % 4)) := by
    have hm : BitVec.ofInt 32 (8 * (off % 4)) &&& 0x00ffffff = BitVec.ofInt 32 (8 * (off % 4)) := by
      rcases hr with h | h | h | h <;> rw [h] <;> decide
    rw [shift_three, BitVec.and_or_distrib_right, hm, link, BitVec.or_assoc, BitVec.or_assoc,
      BitVec.or_comm (ins &&& _)]
  have h5 : (BitVec.ofInt 32 (8 * (off % 4))).extractLsb' 5 27 = 0#27 := by
    rcases hr with h | h | h | h <;> rw [h] <;> decide
  have hlo : (BitVec.ofInt 32 (8 * (off % 4))).extractLsb' 0 5 = BitVec.ofInt 5 (8 * (off % 4)) := by
    rcases hr with h | h | h | h <;> rw [h] <;> decide
  obtain ⟨ht, hl, hi⟩ := adr_fields hw h5
  rw [hlo, hk] at hl
  rw [decode_adr ((classify_congr ht hl).trans hc), hl, hi, Int.bmod_eq_of_le (by omega) (by omega)]
  congr 1
  omega

/-- `LDR Xd, #8` with the register of an `ADR` or `ADRP`. -/
theorem decode_loadAddress (ins : Insn) :
    decode (0x58000000 ||| (((8 >>> 2) <<< 5) &&& ~~~0x9f000000) ||| (ins &&& 0x0000001f)) =
      .ldr .x (low ins) 8 := by
  have e : (0x58000000 ||| (((8 >>> 2) <<< 5) &&& ~~~0x9f000000) : Insn) = 0x58000040 := by decide
  have hk : (0x1f : Insn).extractLsb' 24 8 = 0#8 := by decide
  have hl : (0x1f : Insn).extractLsb' 0 5 = BitVec.allOnes 5 := by decide
  have h5 : (0x1f : Insn).extractLsb' 5 19 = 0#19 := by decide
  have hc : top ((0x58000040 : Insn) ||| (ins &&& 0x1f)) = 0x58 := by
    rw [top, BitVec.extractLsb'_or, BitVec.extractLsb'_and, hk, BitVec.and_zero]
    decide
  have hlow : low ((0x58000040 : Insn) ||| (ins &&& 0x1f)) = low ins := by
    have h0 : (0x58000040 : Insn).extractLsb' 0 5 = 0#5 := by decide
    rw [low, BitVec.extractLsb'_or, BitVec.extractLsb'_and, hl, h0, BitVec.zero_or,
      BitVec.and_allOnes, low]
  have hi : imm19 ((0x58000040 : Insn) ||| (ins &&& 0x1f)) = 2 := by
    rw [imm19, BitVec.extractLsb'_or, BitVec.extractLsb'_and, h5, BitVec.and_zero]
    decide
  have hcl : classify ((0x58000040 : Insn) ||| (ins &&& 0x1f)) = .lit .x := by
    rw [classify, hc]
    cases (low _).getLsbD 4 <;> decide
  rw [e, decode_lit hcl, hlow, hi]
  rfl

end DumpDex.L2.FixInstructions
