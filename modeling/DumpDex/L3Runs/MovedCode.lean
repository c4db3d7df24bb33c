import DumpDex.L3Runs.MovedLayout

/-!
# Moved instructions do what they did

An instruction is executed where it was, by `step` with the addresses code
puts into registers taken where the moved code is (`retAddr`, `codeAddr`); its
block is executed in the slot.

* `Movable`: what the code asks of an instruction without checking it.
* `farJump_steps`, `farCall_steps`, `nops_steps`: the sequences blocks are
  made of.
* `branch_moves`, `cond_moves`, `lit_moves`, `adr_moves`, `adrp_moves`,
  `copy_moves`, `prfm_moves`: kind by kind, the block does the same.
* `block_moves`: all of them.
-/
namespace DumpDex.L3.MovedCode
open DumpDex.Core DumpDex.Core.A64 DumpDex.L2.FixInstructions DumpDex.L3.MovedLayout

/-! ## Some code sequences -/

/-- `ws` stand at `a`. -/
def At (text : Text) (a : Int) (ws : List Insn) : Prop :=
  ∀ (k : Nat) (w : Insn), ws[k]? = some w → text (a + 4 * k) = w

theorem At.head {text : Text} {a : Int} {w : Insn} {ws : List Insn} (h : At text a (w :: ws)) :
    text a = w := by
  have h0 : text (a + 0) = w := h 0 w rfl
  rwa [Int.add_zero] at h0

theorem At.right {text : Text} {a : Int} {vs ws : List Insn} (h : At text a (vs ++ ws)) :
    At text (a + 4 * vs.length) ws := by
  intro k w hk
  have := h (vs.length + k) w (by rw [List.getElem?_append_right (by omega)]; simpa using hk)
  rw [← this]
  congr 1
  push_cast
  omega

theorem At.left {text : Text} {a : Int} {vs ws : List Insn} (h : At text a (vs ++ ws)) :
    At text a vs := by
  intro k w hk
  exact h k w (by rw [List.getElem?_append_left (List.getElem?_eq_some_iff.mp hk).1, hk])

theorem At.tail {text : Text} {a : Int} {w : Insn} {ws : List Insn} (h : At text a (w :: ws)) :
    At text (a + 4) ws := @At.right text a [w] ws h

section Machine
variable {plain : Insn → Regs → Regs} {text : Text} {a : Int} {r : Regs}

theorem step_eq {op : Op} (h : decode (text a) = op) :
    step plain text id id (r, a) = exec plain text id id r a op := by
  rw [step, h]

theorem Steps.at {w : Insn} {ws : List Insn} {op : Op} (h : At text a (w :: ws)) (hd : decode w = op) :
    Steps plain text (r, a) (exec plain text id id r a op) :=
  Steps.one (step_eq (h.head ▸ hd))

/-- The address a sequence loads from behind itself. -/
theorem at_dword {t : Int} (h : At text a (dword t)) :
    text (a + 4) ++ text a = BitVec.ofInt 64 t := by
  rw [h.head, h.tail.head, BitVec.extractLsb'_append_extractLsb'_eq_extractLsb' (by rfl)]
  simp

theorem toInt_address {t : Int} (h : -2 ^ 63 ≤ t) (h' : t < 2 ^ 63) :
    (BitVec.ofInt 64 t).toInt = t := by
  rw [BitVec.toInt_ofInt, Int.bmod_eq_of_le (by omega) (by omega)]

/-- `LDR X17, #8; BR X17` and the address. -/
theorem farJump_steps {t : Int} (h : -2 ^ 63 ≤ t) (h' : t < 2 ^ 63) (hat : At text a (farJump t)) :
    Steps plain text (r, a) (r.set 17 (BitVec.ofInt 64 t), t) := by
  have hd : text (a + 8 + 4) ++ text (a + 8) = BitVec.ofInt 64 t := at_dword hat.right
  have d0 : decode 0x58000051 = .ldr .x 17 8 := by decide
  have d1 : decode 0xd61f0220 = .br 17 := by decide
  have h0 : Steps plain text (r, a) _ := Steps.at hat d0
  have h1 : Steps plain text (r.set 17 (BitVec.ofInt 64 t), a + 4) _ := Steps.at hat.tail d1
  simp only [exec, Lit.load, hd] at h0
  simp only [exec, Regs.get_set (show (17 : Reg) ≠ 31 by decide), toInt_address h h'] at h1
  exact h0.trans h1

/-- `LDR X17, #12; ADR X30, #16; BR X17` and the address. -/
theorem farCall_steps {t : Int} (h : -2 ^ 63 ≤ t) (h' : t < 2 ^ 63) (hat : At text a (farCall t)) :
    Steps plain text (r, a)
      ((r.set 30 (BitVec.ofInt 64 (a + 20))).set 17 (BitVec.ofInt 64 t), t) := by
  have hd : text (a + 12 + 4) ++ text (a + 12) = BitVec.ofInt 64 t := at_dword hat.right
  have d0 : decode 0x58000071 = .ldr .x 17 12 := by decide
  have d1 : decode 0x1000009e = .adr 30 16 := by decide
  have d2 : decode 0xd61f0220 = .br 17 := by decide
  have h0 : Steps plain text (r, a) _ := Steps.at hat d0
  have h1 : Steps plain text (r.set 17 (BitVec.ofInt 64 t), a + 4) _ := Steps.at hat.tail d1
  have h2 : Steps plain text
      ((r.set 30 (BitVec.ofInt 64 (a + 20))).set 17 (BitVec.ofInt 64 t), a + 4 + 4) _ :=
    Steps.at hat.tail.tail d2
  have e : a + 4 + 16 = a + 20 := by omega
  simp only [exec, Lit.load, hd] at h0
  simp only [exec, id, e, Regs.set_comm (show (17 : Reg) ≠ 30 by decide)] at h1
  simp only [exec, Regs.get_set (show (17 : Reg) ≠ 31 by decide), toInt_address h h'] at h2
  exact (h0.trans h1).trans h2

/-- NOPs. -/
theorem nops_steps {n : Nat} (h : At text a (List.replicate n nop)) :
    Steps plain text (r, a) (r, a + 4 * n) := by
  induction n generalizing a with
  | zero =>
    have e : a + 4 * ((0 : Nat) : Int) = a := by omega
    rw [e]
    exact .refl
  | succ n ih =>
    have d : decode nop = .nop := by decide
    have h0 : Steps plain text (r, a) _ := Steps.at h d
    have e : a + 4 + 4 * (n : Int) = a + 4 * ((n + 1 : Nat) : Int) := by push_cast; omega
    rw [← e]
    exact h0.trans (ih h.tail)

end Machine

/-! ## What can be moved -/

section Conditions
variable (j : Job)

def InSlot (a : Int) : Prop := j.slot ≤ a ∧ a < j.slot + 200

/-- The instructions and the slot are apart, aligned and in user space. -/
structure Fits : Prop where
  base_al : j.base % 4 = 0
  slot_al : j.slot % 4 = 0
  base_lo : 0 ≤ j.base
  base_hi : j.base < 2 ^ 56
  slot_lo : 0 ≤ j.slot
  slot_hi : j.slot < 2 ^ 56
  few : j.count ≤ 5
  apart : j.endp ≤ j.slot ∨ j.slot + 200 ≤ j.base

/-- Where code at `t` is to be found after the move. -/
def place (t : Int) : Int := if isInFixingRange j t then entry j (getRefInsIndex j t) else t

/-- The same for a return address. -/
def retAddr (t : Int) : Int := start j (getRefInsIndex j t)

/-- The same for any address. -/
def codeAddr (t : Int) : Int :=
  if isInFixingRange j t then entry j (getRefInsIndex j t) + t % 4 else t

/-- How far a conditional branch reaches. -/
def reachOf (test : Test) : Int := 2 ^ (condWidth test + 1)

/-- A distance that is within reach, or so far beyond that the code notices:
it compares with the width of the field, not with half of it. -/
def Reach (half d : Int) : Prop := -half ≤ d ∧ d < half ∨ 2 * half ≤ d ∨ d ≤ -(2 * half)

/-- The target `t` is one of the instructions moved, or its distance from
anywhere in the slot is good. -/
def Clear (t : Int) (good : Int → Prop) : Prop :=
  isInFixingRange j t = true ∨ ∀ a, InSlot j a → a % 4 = 0 → good (t - a)

/-- What the code asks, without checking it, of the instruction at `pc`: its
distance is not negative (`B` and `BL` apart), it is clear of the distances the
code encodes wrongly, and a literal left in its place stays there. -/
def Movable (pc : Int) : Op → Prop
  | .b off => Clear j (pc + off) (Reach (2 ^ 27))
  | .bl off => Clear j (pc + off) (Reach (2 ^ 27))
  | .bcond test off => 0 ≤ off ∧ Clear j (pc + off) (Reach (reachOf test))
  | .ldr _ _ off =>
    0 ≤ off ∧ (pc + off + 16 ≤ j.slot ∨ j.slot + 200 ≤ pc + off) ∧
      Clear j (pc + off) fun d => 0 ≤ d ∧ d < 2 ^ 20 ∨ 2 ^ 21 ≤ d ∨ d ≤ -2 ^ 21
  | .adr rd off =>
    0 ≤ off ∧ Clear j (pc + off) fun d =>
      (-2 ^ 20 ≤ d ∧ d < 2 ^ 20 ∧ rd ||| BitVec.ofInt 5 (8 * (d % 4)) = rd) ∨ 2 ^ 21 ≤ d ∨ d ≤ -2 ^ 21
  | .adrp _ off => 0 ≤ off ∧ isInFixingRange j (pc - pc % 4096 + off) = false
  | .plain w => top w ≠ 0xdc
  | .prfm | .br _ | .blr _ | .nop => True

/-- An indirect branch does not go to an instruction that has been moved. -/
def Leaves (r : Regs) : Op → Prop
  | .br rn => isInFixingRange j (r.get rn).toInt = false
  | .blr rn => isInFixingRange j (r.get rn).toInt = false
  | _ => True

/-- Outside of the slot and the instructions moved, nothing has changed. -/
def Elsewhere (text : Text) : Prop :=
  ∀ a, ¬ InSlot j a → isInFixingRange j a = false → text a = j.text a

/-- After the `k`th instruction: what it did, and where the moved one got. It
falls through to the NOPs before the next, or it jumps; leaving the
instructions moved it may use X17. -/
def Arrives (k : Nat) (s s' : State) : Prop :=
  (s.2 = j.base + 4 * (k + 1) ∧ s' = (s.1, start j (k + 1))) ∨
    (s'.2 = place j s.2 ∧
      (s'.1 = s.1 ∨ isInFixingRange j s.2 = false ∧ Regs.Off17 s.1 s'.1))

end Conditions

/-! ## Block by block -/

section Moves
variable {plain : Insn → Regs → Regs} {j : Job} {text : Text} {k : Nat} {r : Regs}

/-- The `k`th instruction, executed where it was, and its block. -/
def Moves (plain : Insn → Regs → Regs) (j : Job) (text : Text) (k : Nat) (r : Regs) : Prop :=
  ∃ s', Steps plain text (r, entry j k) s' ∧
    Arrives j k (step plain j.text (retAddr j) (codeAddr j) (r, j.base + 4 * k)) s'

theorem moves_of {op : Op} {s' : State} (hd : decode (j.text (j.base + 4 * k)) = op)
    (hs : Steps plain text (r, entry j k) s')
    (ha : Arrives j k (exec plain j.text (retAddr j) (codeAddr j) r (j.base + 4 * k) op) s') :
    Moves plain j text k r := by
  refine ⟨s', hs, ?_⟩
  rw [step, hd]
  exact ha

theorem retAddr_next : retAddr j (j.base + 4 * k + 4) = start j (k + 1) := by
  have e : j.base + 4 * k + 4 = j.base + 4 * ((k + 1 : Nat) : Int) := by push_cast; omega
  rw [retAddr, e, idx_eq]

theorem place_in {t : Int} (h : isInFixingRange j t = true) :
    place j t = entry j (getRefInsIndex j t) := if_pos h

theorem place_out {t : Int} (h : isInFixingRange j t = false) : place j t = t := by
  simp [place, h]

/-- All blocks are in the slot. -/
theorem places (hf : Fits j) (hk : k < j.count) :
    (InSlot j (start j k) ∧ start j k % 4 = 0) ∧ InSlot j (entry j k) ∧ entry j k % 4 = 0 := by
  have h0 := @start_le j k
  have h1 := @entry_bounds j k
  have h2 := start_aligned hf.slot_al k
  have h3 := hf.few
  unfold InSlot
  simp only [entry] at h1 ⊢
  refine ⟨⟨⟨h0.1, by omega⟩, h2⟩, ⟨h1.1, by omega⟩, by omega⟩

/-- Between two of them any branch reaches. -/
theorem place_near (hf : Fits j) (hk : k < j.count) {t : Int} (ht : isInFixingRange j t = true) :
    (place j t - entry j k) % 4 = 0 ∧ -200 < place j t - entry j k ∧ place j t - entry j k < 200 := by
  obtain ⟨-, ⟨h0, h1⟩, h2⟩ := places hf hk
  obtain ⟨-, ⟨h3, h4⟩, h5⟩ := places hf (getRefInsIndex_lt ht)
  rw [place_in ht]
  refine ⟨?_, ?_, ?_⟩ <;> omega

section Branch
variable {l : Bool} {t : Int}

/-- What a branch does to the registers. -/
def called (l : Bool) (ret : Int) (r : Regs) : Regs := if l then r.set 30 (BitVec.ofInt 64 ret) else r

theorem decode_branch_near {d : Int} (h4 : d % 4 = 0) (h : -2 ^ 27 ≤ d) (h' : d < 2 ^ 27) :
    decode (link (branchOp l) 0 0x03ffffff d) = if l then .bl d else .b d := by
  have e : 4 * (d / 4).bmod (2 ^ 26) = d := by
    rw [Int.bmod_eq_of_le (by omega) (by omega)]
    omega
  rw [decode_branch_link, e]

theorem branch_near (hd : isInFixingRange j t = true ∨ -2 ^ 27 ≤ t - entry j k ∧ t - entry j k < 2 ^ 27)
    (hf : Fits j) (hk : k < j.count) (h4 : t % 4 = 0)
    (hat : At text (entry j k) [link (branchOp l) 0 0x03ffffff (place j t - entry j k)]) :
    Steps plain text (r, entry j k) (called l (entry j k + 4) r, place j t) := by
  obtain ⟨-, -, ha⟩ := places hf hk
  have hp : (place j t - entry j k) % 4 = 0 ∧ -2 ^ 27 ≤ place j t - entry j k ∧
      place j t - entry j k < 2 ^ 27 := by
    cases ht : isInFixingRange j t with
    | true =>
      obtain ⟨h1, h2, h3⟩ := place_near hf hk ht
      exact ⟨h1, by omega, by omega⟩
    | false =>
      rw [place_out ht]
      rcases hd with hd | hd
      · rw [ht] at hd; cases hd
      · exact ⟨by omega, hd⟩
  have hs : Steps plain text (r, entry j k) _ :=
    Steps.at hat (decode_branch_near hp.1 hp.2.1 hp.2.2)
  have e : entry j k + (place j t - entry j k) = place j t := by omega
  cases l
  · simpa only [Bool.false_eq_true, if_false, exec, e, called] using hs
  · simpa only [if_true, exec, e, called, id] using hs

end Branch

/-- A branch. -/
theorem branch_moves (hf : Fits j) (hk : k < j.count) {l : Bool}
    (hc : classify (j.text (j.base + 4 * k)) = .branch l)
    (hm : Movable j (j.base + 4 * k) (decode (j.text (j.base + 4 * k))))
    (hat : At text (entry j k) ((blk j k).words (entry j) (entry j k))) :
    Moves plain j text k r := by
  have hd := decode_branch hc
  have hb : blk j k = branchBlock j l _ (start j k) := block_branch (start j k) hc
  have hn := @start_succ j k
  rw [hd] at hm
  generalize hi : j.base + 4 * (k : Int) + 4 * imm26 (j.text (j.base + 4 * k)) = t at hb
  have hcl : Clear j t (Reach (2 ^ 27)) := by
    cases l <;> simpa only [Movable, Bool.false_eq_true, if_false, if_true, hi] using hm
  -- all blocks lead to the target
  have done {s' : State} (hs : Steps plain text (r, entry j k) s') (h2 : s'.2 = place j t)
      (h1 : s'.1 = called l (start j (k + 1)) r ∨
        isInFixingRange j t = false ∧ Regs.Off17 (called l (start j (k + 1)) r) s'.1) :
      Moves plain j text k r := by
    refine moves_of hd hs (.inr ?_)
    cases l
    · simpa only [Bool.false_eq_true, if_false, exec, hi] using ⟨h2, h1⟩
    · simpa only [if_true, exec, hi, retAddr_next] using ⟨h2, h1⟩
  have h26 : -2 ^ 25 ≤ imm26 (j.text (j.base + 4 * k)) ∧ imm26 (j.text (j.base + 4 * k)) < 2 ^ 25 :=
    ⟨BitVec.le_toInt _, BitVec.toInt_lt⟩
  have hlo := hf.base_lo
  have hhi := hf.base_hi
  have hal := hf.base_al
  have hfew := hf.few
  have he : entry j k = start j k + 4 * (blk j k).pad := rfl
  obtain ⟨⟨hin, ha⟩, -⟩ := places hf hk
  rw [branchBlock] at hb
  split at hb
  · rename_i ht
    rw [hb] at hat hn
    have hw : At text (entry j k) [link (branchOp l) 0 0x03ffffff (place j t - entry j k)] := by
      rw [place_in ht]
      exact hat
    have hn' : start j (k + 1) = entry j k + 4 := hn
    exact done (branch_near (.inl ht) hf hk (by omega) hw) rfl (.inl (by rw [hn']))
  · rename_i ht
    rw [Bool.not_eq_true] at ht
    have hgood : Reach (2 ^ 27) (t - start j k) := by
      rcases hcl with h | h
      · rw [ht] at h; cases h
      · exact h _ hin ha
    unfold Reach at hgood
    split at hb
    · cases l with
      | true =>
        simp only [if_true] at hb
        rw [hb] at hat hn
        have hn' : start j (k + 1) = entry j k + 20 := hn
        refine done (farCall_steps (by omega) (by omega) hat) (place_out ht).symm (.inr ⟨ht, ?_⟩)
        exact ⟨_, by rw [hn']; rfl⟩
      | false =>
        simp only [Bool.false_eq_true, if_false] at hb
        rw [hb] at hat
        exact done (farJump_steps (by omega) (by omega) hat) (place_out ht).symm (.inr ⟨ht, _, rfl⟩)
    · rw [hb] at hat hn he
      have he' : entry j k = start j k := by simpa [Block.pad] using he
      have hw : At text (entry j k) [link (branchOp l) 0 0x03ffffff (place j t - entry j k)] := by
        rw [place_out ht, he']
        exact he' ▸ hat
      have hn' : start j (k + 1) = entry j k + 4 := hn
      exact done (branch_near (.inr (by omega)) hf hk (by omega) hw) rfl (.inl (by rw [hn']))

theorem branch_clear {t half : Int} (h : Clear j t (Reach half)) (hf : Fits j) (hk : k < j.count)
    (ht : isInFixingRange j t = false) : Reach half (t - start j k) := by
  obtain ⟨⟨hin, ha⟩, -⟩ := places hf hk
  rcases h with h | h
  · rw [ht] at h; cases h
  · exact h _ hin ha

section Cond
variable {ins lmask : Insn} {test : Test} {n : Nat}

theorem decode_cond_near (hw : CondWord ins lmask test n) {d : Int} (h4 : d % 4 = 0)
    (h : -reachOf test ≤ d) (h' : d < reachOf test) :
    decode (link (ins &&& lmask) 5 (~~~lmask) d) = .bcond test d := by
  have e : 4 * (d / 4).bmod (2 ^ n) = d := by
    rw [reachOf, ← hw.kind] at h h'
    rcases hw.width with rfl | rfl
    · rw [Int.bmod_eq_of_le (by omega) (by omega)]
      omega
    · rw [Int.bmod_eq_of_le (by omega) (by omega)]
      omega
  rw [hw.link, e]

theorem cond_near (hw : CondWord ins lmask test n) {t : Int} (hf : Fits j) (hk : k < j.count)
    (hd : isInFixingRange j t = true ∨ -reachOf test ≤ t - entry j k ∧ t - entry j k < reachOf test)
    (h4 : t % 4 = 0)
    (hat : At text (entry j k) [link (ins &&& lmask) 5 (~~~lmask) (place j t - entry j k)]) :
    Steps plain text (r, entry j k)
      (r, if test.holds r then place j t else entry j k + 4) := by
  obtain ⟨-, -, ha⟩ := places hf hk
  have hp : (place j t - entry j k) % 4 = 0 ∧ -reachOf test ≤ place j t - entry j k ∧
      place j t - entry j k < reachOf test := by
    cases ht : isInFixingRange j t with
    | true =>
      obtain ⟨h1, h2, h3⟩ := place_near hf hk ht
      refine ⟨h1, ?_, ?_⟩ <;> rw [reachOf, ← hw.kind] <;> rcases hw.width with rfl | rfl <;> omega
    | false =>
      rw [place_out ht]
      rcases hd with hd | hd
      · rw [ht] at hd; cases hd
      · exact ⟨by omega, hd⟩
  have hs : Steps plain text (r, entry j k) _ :=
    Steps.at hat (decode_cond_near hw hp.1 hp.2.1 hp.2.2)
  have e : entry j k + (place j t - entry j k) = place j t := by omega
  simpa only [exec, e] using hs

/-- `B.cond #8; B #20` before a far jump. -/
theorem cond_far (hw : CondWord ins lmask test n) {t a : Int} (h : -2 ^ 63 ≤ t) (h' : t < 2 ^ 63)
    (hat : At text a ([link (ins &&& lmask) 5 (~~~lmask) 8, 0x14000005] ++ farJump t)) :
    Steps plain text (r, a)
      (if test.holds r then (r.set 17 (BitVec.ofInt 64 t), t) else (r, a + 24)) := by
  have d0 : decode (link (ins &&& lmask) 5 (~~~lmask) 8) = .bcond test 8 := by
    refine decode_cond_near hw (by decide) ?_ ?_ <;> rw [reachOf, ← hw.kind] <;>
      rcases hw.width with rfl | rfl <;> decide
  have d1 : decode 0x14000005 = .b 20 := by decide
  have h0 : Steps plain text (r, a) _ := Steps.at hat d0
  have h1 : Steps plain text (r, a + 4) _ := Steps.at hat.tail d1
  have h2 : Steps plain text (r, a + 8) _ := farJump_steps h h' hat.right
  have e : a + 4 + 20 = a + 24 := by omega
  simp only [exec, e] at h0 h1
  cases hh : test.holds r with
  | true => simp only [hh, if_true] at h0 ⊢; exact h0.trans h2
  | false => simp only [hh, Bool.false_eq_true, if_false] at h0 ⊢; exact h0.trans h1

end Cond

/-- A conditional branch. -/
theorem cond_moves (hf : Fits j) (hk : k < j.count) {lmask : Insn}
    (hc : condLmask (j.text (j.base + 4 * k)) = some lmask)
    (hm : Movable j (j.base + 4 * k) (decode (j.text (j.base + 4 * k))))
    (hat : At text (entry j k) ((blk j k).words (entry j) (entry j k))) :
    Moves plain j text k r := by
  obtain ⟨test, n, hw⟩ := condWord hc
  have hb : blk j k = condBlock j _ lmask _ (start j k) := block_cond (start j k) hc hw
  have hn := @start_succ j k
  rw [hw.dec] at hm
  obtain ⟨h0, hcl⟩ := hm
  have hd := hw.dec
  have hmod : 4 * ((j.text (j.base + 4 * k)).extractLsb' 5 n).toInt % 2 ^ (n + 2) =
      4 * ((j.text (j.base + 4 * k)).extractLsb' 5 n).toInt := by
    have := @BitVec.toInt_lt n ((j.text (j.base + 4 * k)).extractLsb' 5 n)
    rcases hw.width with rfl | rfl <;> omega
  rw [hmod] at hb
  have hlt : ((j.text (j.base + 4 * k)).extractLsb' 5 n).toInt < 2 ^ 18 := by
    have := @BitVec.toInt_lt n ((j.text (j.base + 4 * k)).extractLsb' 5 n)
    rcases hw.width with rfl | rfl <;> omega
  generalize ((j.text (j.base + 4 * k)).extractLsb' 5 n).toInt = imm at *
  generalize hi : j.base + 4 * (k : Int) + 4 * imm = t at *
  have hlo := hf.base_lo
  have hhi := hf.base_hi
  have hal := hf.base_al
  have hfew := hf.few
  have hnext : j.base + 4 * (k : Int) + 4 = j.base + 4 * (k + 1) := by omega
  have he : entry j k = start j k + 4 * (blk j k).pad := rfl
  have taken (hh : test.holds r = true) {s' : State} (hs : Steps plain text (r, entry j k) s')
      (h2 : s'.2 = place j t)
      (h1 : s'.1 = r ∨ isInFixingRange j t = false ∧ Regs.Off17 r s'.1) : Moves plain j text k r := by
    refine moves_of hd hs (.inr ?_)
    simp only [exec, hh, if_true, hi]
    exact ⟨h2, h1⟩
  have falls (hh : test.holds r = false)
      (hs : Steps plain text (r, entry j k) (r, start j (k + 1))) : Moves plain j text k r := by
    refine moves_of hd hs (.inl ?_)
    simp only [exec, hh, Bool.false_eq_true, if_false, and_true]
    exact hnext
  -- a single word
  have single (hin : isInFixingRange j t = true ∨
        -reachOf test ≤ t - entry j k ∧ t - entry j k < reachOf test)
      (hat : At text (entry j k)
        [link (j.text (j.base + 4 * k) &&& lmask) 5 (~~~lmask) (place j t - entry j k)])
      (hn' : start j (k + 1) = entry j k + 4) : Moves plain j text k r := by
    have hs : Steps plain text (r, entry j k) _ := cond_near hw hf hk hin (by omega) hat
    cases hh : test.holds r with
    | true => exact taken hh (by simpa only [hh, if_true] using hs) rfl (.inl rfl)
    | false => exact falls hh (by simpa only [hh, Bool.false_eq_true, if_false, ← hn'] using hs)
  rw [condBlock] at hb
  split at hb
  · rename_i ht
    rw [hb] at hat hn
    refine single (.inl ht) ?_ hn
    rw [place_in ht]
    exact hat
  · rename_i ht
    rw [Bool.not_eq_true] at ht
    have hgood := branch_clear hcl hf hk ht
    have hr := hw.reach
    unfold Reach at hgood
    split at hb
    · rw [hb] at hat hn
      have hn' : start j (k + 1) = entry j k + 24 := hn
      have hs : Steps plain text (r, entry j k) _ := cond_far hw (by omega) (by omega) hat
      cases hh : test.holds r with
      | true =>
        rw [hh, if_pos rfl] at hs
        exact taken hh hs (place_out ht).symm (.inr ⟨ht, _, rfl⟩)
      | false =>
        rw [hh, if_neg (by decide), ← hn'] at hs
        exact falls hh hs
    · rw [hb] at hat hn he
      have he' : entry j k = start j k := by simpa [Block.pad] using he
      refine single (.inr ?_) ?_ hn
      · rename_i hnear
        rw [he']
        rw [reachOf, ← hw.kind] at hgood ⊢
        rcases hw.width with rfl | rfl <;> omega
      · rw [place_out ht, he']
        exact he' ▸ hat

theorem at_dataWords {t a : Int} {n : Nat} (hat : At text a (dataWords j.text t n)) {i : Nat}
    (hi : i < n) : text (a + 4 * i) = j.text (t + 4 * i) := by
  refine hat i _ ?_
  simp [dataWords, hi]

/-- A load of a literal. -/
theorem lit_moves (hf : Fits j) (hk : k < j.count) {l : Lit}
    (hc : classify (j.text (j.base + 4 * k)) = .lit l) (hel : Elsewhere j text)
    (hm : Movable j (j.base + 4 * k) (decode (j.text (j.base + 4 * k))))
    (hat : At text (entry j k) ((blk j k).words (entry j) (entry j k))) :
    Moves plain j text k r := by
  obtain ⟨mask, al, hl⟩ : ∃ mask al, litClass (.lit l) = some (mask, al) := by
    cases l <;> exact ⟨_, _, rfl⟩
  obtain ⟨l', hw⟩ := litWord (hc ▸ hl : litClass (classify (j.text (j.base + 4 * k))) = some (mask, al))
  have hb : blk j k = litBlock j _ mask al _ (start j k) := block_lit (start j k) hc hl
  have hn := @start_succ j k
  have hd := hw.dec
  rw [hd] at hm
  obtain ⟨h0, hap, hcl⟩ := hm
  have h19 : imm19 (j.text (j.base + 4 * k)) < 2 ^ 18 := BitVec.toInt_lt
  have hmod : 4 * imm19 (j.text (j.base + 4 * k)) % 2 ^ 32 = 4 * imm19 (j.text (j.base + 4 * k)) := by
    omega
  rw [hmod] at hb
  generalize imm19 (j.text (j.base + 4 * k)) = imm at *
  generalize hi : j.base + 4 * (k : Int) + 4 * imm = t at *
  have hal := hf.base_al
  have he : entry j k = start j k + 4 * (blk j k).pad := rfl
  have hroom := hw.room
  have done (hs : Steps plain text (r, entry j k)
      (l'.load j.text t (low (j.text (j.base + 4 * k))) r, start j (k + 1))) :
      Moves plain j text k r := by
    refine moves_of hd hs (.inl ?_)
    simp only [exec, hi, and_true]
    omega
  obtain ⟨⟨hin, ha⟩, -⟩ := places hf hk
  rw [litBlock] at hb
  split at hb
  · rw [hb] at hat hn
    have d0 : decode (link (j.text (j.base + 4 * k) &&& 0xff00001f) 5 (~~~mask) 8) =
        .ldr l' (low (j.text (j.base + 4 * k))) 8 := hw.link 8 (by decide) (by decide)
    have d1 : decode (0x14000001 + BitVec.ofNat 32 ((al + 1) / 4)) = .b (4 * (1 + (al + 1) / 4)) := by
      rcases hw.size with rfl | rfl | rfl <;> decide
    have hs0 : Steps plain text (r, entry j k) _ := Steps.at hat d0
    have hdata : At text (entry j k + 8) (dataWords j.text t ((al + 1) / 4)) := hat.right
    have hload : l'.load text (entry j k + 8) (low (j.text (j.base + 4 * k))) r =
        l'.load j.text t (low (j.text (j.base + 4 * k))) r :=
      l'.load_congr (fun i hi => at_dataWords hdata (Nat.lt_of_lt_of_le hi hroom)) _ _
    simp only [exec, hload] at hs0
    have hs1 (r' : Regs) : Steps plain text (r', entry j k + 4) _ := Steps.at hat.tail d1
    have e : entry j k + 4 + 4 * (1 + ((al : Int) + 1) / 4) = start j (k + 1) := by
      rw [hn]
      simp only [Block.size, List.length_append, List.length_cons, List.length_nil, length_dataWords]
      rcases hw.size with rfl | rfl | rfl <;> omega
    simp only [exec, e] at hs1
    exact done (hs0.trans (hs1 _))
  · rename_i hnear
    have ht : isInFixingRange j t = false := by
      rw [← Bool.not_eq_true]
      exact fun h => hnear (.inl h)
    have hgood : 0 ≤ t - start j k ∧ t - start j k < 2 ^ 20 := by
      rcases hcl with h | h
      · rw [ht] at h; cases h
      · have := h _ hin ha
        omega
    rw [hb] at hat hn he
    simp only [Block.pad] at he
    have hd4 : 0 ≤ t - entry j k ∧ t - entry j k < 2 ^ 20 ∧ (t - entry j k) % 4 = 0 := by
      rw [he]
      rcases hw.size with rfl | rfl | rfl <;> omega
    have hat' : At text (entry j k) [link (j.text (j.base + 4 * k) &&& 0xff00001f) 5 (~~~mask)
        (t - (start j k + 4 * (((t - start j k) / 4 % (al / 4 + 1)).toNat : Int)))] := hat
    rw [← he] at hat'
    have hs : Steps plain text (r, entry j k) _ := Steps.at hat' (hw.link _ hd4.1 hd4.2.1)
    have e : entry j k + 4 * ((t - entry j k) / 4) = t := by omega
    have hload : l'.load text t (low (j.text (j.base + 4 * k))) r =
        l'.load j.text t (low (j.text (j.base + 4 * k))) r := by
      refine l'.load_congr (fun i hi => ?_) _ _
      have hi4 : i < 4 := Nat.lt_of_lt_of_le hi (by cases l' <;> decide)
      have ht' : ¬ (j.base ≤ t ∧ t < j.endp) := fun h => by
        rw [← inRange_iff, ht] at h; cases h
      refine hel _ ?_ ?_
      · unfold InSlot
        omega
      · rw [← Bool.not_eq_true, inRange_iff]
        omega
    have hn' : start j (k + 1) = entry j k + 4 := hn
    simp only [exec, e, hload, ← hn'] at hs
    exact done hs

/-- `LDR Xd, #8; B #12` and an address. -/
theorem loadAddress_steps {ins : Insn} {t a : Int} (hat : At text a (loadAddress ins t)) :
    Steps plain text (r, a) (r.set (low ins) (BitVec.ofInt 64 t), a + 16) := by
  have hd : text (a + 8 + 4) ++ text (a + 8) = BitVec.ofInt 64 t := at_dword hat.right
  have d1 : decode 0x14000003 = .b 12 := by decide
  have h0 : Steps plain text (r, a) _ := Steps.at hat (decode_loadAddress ins)
  have h1 (r' : Regs) : Steps plain text (r', a + 4) _ := Steps.at hat.tail d1
  have e : a + 4 + 12 = a + 16 := by omega
  simp only [exec, Lit.load, hd] at h0
  simp only [exec, e] at h1
  exact h0.trans (h1 _)

/-- `ADR`. -/
theorem adr_moves (hf : Fits j) (hk : k < j.count)
    (hc : classify (j.text (j.base + 4 * k)) = .adr)
    (hm : Movable j (j.base + 4 * k) (decode (j.text (j.base + 4 * k))))
    (hat : At text (entry j k) ((blk j k).words (entry j) (entry j k))) :
    Moves plain j text k r := by
  have hb : blk j k = adrBlock j _ _ (start j k) := block_adr (start j k) hc
  have hn := @start_succ j k
  have hd := decode_adr hc
  rw [hd] at hm
  obtain ⟨h0, hcl⟩ := hm
  have h21 : imm21 (j.text (j.base + 4 * k)) < 2 ^ 20 := BitVec.toInt_lt
  have hmod : imm21 (j.text (j.base + 4 * k)) % 2 ^ 32 = imm21 (j.text (j.base + 4 * k)) := by omega
  have hal := hf.base_al
  have he : entry j k = start j k + 4 * (blk j k).pad := rfl
  obtain ⟨⟨hin, ha⟩, -, ha'⟩ := places hf hk
  generalize hi : j.base + 4 * (k : Int) + imm21 (j.text (j.base + 4 * k)) = t at *
  rw [hmod, hi] at hb
  have done {v : BitVec 64} (hv : v = BitVec.ofInt 64 (codeAddr j t))
      (hs : Steps plain text (r, entry j k)
        (r.set (low (j.text (j.base + 4 * k))) v, start j (k + 1))) : Moves plain j text k r := by
    refine moves_of hd hs (.inl ?_)
    simp only [exec, hi, hv, and_true]
    omega
  rw [adrBlock] at hb
  split at hb
  · rename_i ht
    rw [hb] at hat hn
    have hn' : start j (k + 1) = entry j k + 4 := hn
    obtain ⟨hd4, hlo, hhi⟩ := place_near hf hk ht
    rw [place_in ht] at hd4 hlo hhi
    have hs : Steps plain text (r, entry j k) _ :=
      Steps.at hat (decode_adr_link hc (by omega) (by omega))
    simp only [exec, id, ← hn'] at hs
    refine done ?_ hs
    rw [codeAddr, if_pos ht]
    congr 1
    omega
  · rename_i ht
    rw [Bool.not_eq_true] at ht
    have hca : codeAddr j t = t := by simp [codeAddr, ht]
    split at hb
    · rw [hb] at hat hn
      have hn' : start j (k + 1) = entry j k + 16 := hn
      have hs : Steps plain text (r, entry j k) _ := loadAddress_steps hat
      rw [← hn'] at hs
      exact done (by rw [hca]) hs
    · rename_i hnear
      rw [hb] at hat hn he
      have hn' : start j (k + 1) = entry j k + 4 := hn
      have he' : entry j k = start j k := by simpa [Block.pad] using he
      have hgood := hcl.resolve_left (by simp [ht]) _ hin ha
      obtain ⟨hlo, hhi, hlow⟩ := hgood.resolve_right (by omega)
      have hs : Steps plain text (r, entry j k) _ :=
        Steps.at hat (decode_adr_near hc hlo hhi (by omega) hlow)
      have e : entry j k + (t - start j k) = t := by omega
      simp only [exec, id, e, ← hn'] at hs
      exact done (by rw [hca]) hs

/-- `ADRP`. -/
theorem adrp_moves (hc : classify (j.text (j.base + 4 * k)) = .adrp)
    (hm : Movable j (j.base + 4 * k) (decode (j.text (j.base + 4 * k))))
    (hat : At text (entry j k) ((blk j k).words (entry j) (entry j k))) :
    Moves plain j text k r := by
  have hb : blk j k = adrpBlock j _ _ (start j k) := block_adrp (start j k) hc
  have hn := @start_succ j k
  have hd := decode_adrp hc
  rw [hd] at hm
  obtain ⟨h0, ht⟩ := hm
  have h21 : imm21 (j.text (j.base + 4 * k)) < 2 ^ 20 := BitVec.toInt_lt
  have hmod : 4096 * imm21 (j.text (j.base + 4 * k)) % 2 ^ 32 =
      4096 * imm21 (j.text (j.base + 4 * k)) := by omega
  rw [hmod, adrpBlock, ht, if_neg (by decide)] at hb
  rw [hb] at hat hn
  have hn' : start j (k + 1) = entry j k + 16 := hn
  have hs : Steps plain text (r, entry j k) _ := loadAddress_steps hat
  rw [← hn'] at hs
  refine moves_of hd hs (.inl ?_)
  simp only [exec, codeAddr, ht, Bool.false_eq_true, if_false, and_true]
  omega

/-- What the code takes for a load is no instruction. -/
theorem decode_dc {w : Insn} (h : top w = 0xdc) : decode w = .plain w := by
  have hne (c : Insn) (hc : top c ≠ 0xdc) : w &&& 0xfffffc1f ≠ c := by
    intro e
    refine hc ?_
    rw [← e, top, BitVec.extractLsb'_and, show w.extractLsb' 24 8 = 0xdc from h]
    decide
  have hn : w ≠ 0xd503201f := by
    rintro rfl
    exact absurd h (by decide)
  simp only [decode, classify_dc h, if_neg hn, if_neg (hne _ (by decide : top 0xd63f0000 ≠ 0xdc)),
    hne _ (by decide : top 0xd61f0000 ≠ 0xdc), hne _ (by decide : top 0xd65f0000 ≠ 0xdc), or_self,
    if_false]

/-- An instruction that is copied. -/
theorem copy_moves (hc : classify (j.text (j.base + 4 * k)) = .other)
    (hm : Movable j (j.base + 4 * k) (decode (j.text (j.base + 4 * k))))
    (hl : Leaves j r (decode (j.text (j.base + 4 * k))))
    (hat : At text (entry j k) ((blk j k).words (entry j) (entry j k))) :
    Moves plain j text k r := by
  have hdc : top (j.text (j.base + 4 * k)) ≠ 0xdc := by
    intro h
    rw [decode_dc h] at hm
    exact hm h
  have hb : blk j k = .fixed 0 [j.text (j.base + 4 * k)] := block_other (start j k) hc hdc
  have hn := @start_succ j k
  rw [hb] at hat hn
  have hn' : start j (k + 1) = entry j k + 4 := hn
  have hnext : j.base + 4 * (k : Int) + 4 = j.base + 4 * (k + 1) := by omega
  have hret := @retAddr_next j k
  rcases decode_other hc with hd | ⟨rn, hd⟩ | ⟨rn, hd⟩ | hd
  · have hs : Steps plain text (r, entry j k) _ := Steps.at hat hd
    exact moves_of hd hs (.inl ⟨hnext, by simp only [exec, hn']⟩)
  · have hs : Steps plain text (r, entry j k) _ := Steps.at hat hd
    rw [hd] at hl
    exact moves_of hd hs (.inr ⟨(place_out hl).symm, .inl rfl⟩)
  · have hs : Steps plain text (r, entry j k) _ := Steps.at hat hd
    rw [hd] at hl
    refine moves_of hd hs (.inr ⟨(place_out hl).symm, .inl ?_⟩)
    simp only [exec, id, hret, hn']
  · have hs : Steps plain text (r, entry j k) _ := Steps.at hat hd
    exact moves_of hd hs (.inl ⟨hnext, by simp only [exec, hn']⟩)

theorem prfm_moves (hc : classify (j.text (j.base + 4 * k)) = .prfm) : Moves plain j text k r := by
  have hb : blk j k = .fixed 0 [] := block_prfm (start j k) hc
  have hn := @start_succ j k
  rw [hb] at hn
  have hn' : start j (k + 1) = entry j k := by simpa [Block.size] using hn
  refine moves_of (decode_prfm hc) .refl (.inl ⟨?_, by simp only [exec, hn']⟩)
  simp only [exec]
  omega

/-- The block of an instruction does what the instruction did. -/
theorem block_moves (hf : Fits j) (hk : k < j.count) (hel : Elsewhere j text)
    (hm : Movable j (j.base + 4 * k) (decode (j.text (j.base + 4 * k))))
    (hl : Leaves j r (decode (j.text (j.base + 4 * k))))
    (hat : At text (entry j k) ((blk j k).words (entry j) (entry j k))) :
    Moves plain j text k r := by
  have hcond := condLmask_eq (j.text (j.base + 4 * k))
  cases hc : classify (j.text (j.base + 4 * k)) with
  | branch l => exact branch_moves hf hk hc hm hat
  | bcond | cbz _ _ | tbz _ =>
    rw [hc] at hcond
    exact cond_moves hf hk hcond hm hat
  | lit l => exact lit_moves hf hk hc hel hm hat
  | prfm => exact prfm_moves hc
  | adr => exact adr_moves hf hk hc hm hat
  | adrp => exact adrp_moves hc hm hat
  | other => exact copy_moves hc hm hl hat

end Moves

end DumpDex.L3.MovedCode
