import Mathlib.Algebra.Group.Nat.Defs
import Mathlib.Algebra.Order.Group.Unbundled.Int

/-!
# Fields of machine words

Code that builds instruction words masks and shifts; an instruction set
describes its words by fields, `x.extractLsb' lo len`. These lemmas lead from
one to the other.

* `field_left`, `field_right`: a field of two masked words joined by `|||` is
  that of the word whose mask covers it.
* `field_shiftLeft`, `setWidth_ofInt`: an integer shifted into a field.
* `and_eq_iff`: what a test `w &&& m = c` says of the fields above and below a
  position.
* `toInt_shiftLeft_field`, `toInt_upper`, `toInt_and_not_three`: the idiom
  `((int32_t) (w << n) >> k) & ~3` reads a signed field; `toNat_eq_emod`: what
  it is without its sign.
-/
namespace DumpDex.Core.Bits

variable {w : Nat}

theorem field_left {x y m k : BitVec w} {lo len : Nat} (hm : m.extractLsb' lo len = BitVec.allOnes len)
    (hk : k.extractLsb' lo len = BitVec.ofNat len 0) :
    ((x &&& m) ||| (y &&& k)).extractLsb' lo len = x.extractLsb' lo len := by
  rw [BitVec.extractLsb'_or, BitVec.extractLsb'_and, BitVec.extractLsb'_and, hm, hk]
  simp

theorem field_right {x y m k : BitVec w} {lo len : Nat} (hm : m.extractLsb' lo len = BitVec.ofNat len 0)
    (hk : k.extractLsb' lo len = BitVec.allOnes len) :
    ((x &&& m) ||| (y &&& k)).extractLsb' lo len = y.extractLsb' lo len := by
  rw [BitVec.or_comm, field_left hk hm]

theorem field_shiftLeft (x : BitVec w) {lo len : Nat} (h : lo + len ≤ w) :
    (x <<< lo).extractLsb' lo len = x.setWidth len := by
  apply BitVec.eq_of_getLsbD_eq
  intro i hi
  have h1 : lo + i < w := by omega
  simp only [BitVec.getLsbD_extractLsb', BitVec.getLsbD_shiftLeft, BitVec.getLsbD_setWidth, hi, h1,
    decide_true, Bool.true_and]
  simp

theorem setWidth_ofInt {k : Nat} (h : k ≤ w) (i : Int) :
    (BitVec.ofInt w i).setWidth k = BitVec.ofInt k i := by
  rw [← BitVec.signExtend_eq_setWidth_of_le _ h]
  apply BitVec.eq_of_toInt_eq
  rw [BitVec.toInt_signExtend, BitVec.toInt_ofInt, BitVec.toInt_ofInt, Nat.min_eq_left h]
  exact Int.bmod_bmod_of_dvd (Nat.pow_dvd_pow 2 h)

/-- Two words are equal if they are so above and below a position. -/
theorem eq_of_split {x y : BitVec w} {lo : Nat} (h : lo ≤ w)
    (hi : x.extractLsb' lo (w - lo) = y.extractLsb' lo (w - lo))
    (hl : x.extractLsb' 0 lo = y.extractLsb' 0 lo) : x = y := by
  apply BitVec.eq_of_getLsbD_eq
  intro i hiw
  by_cases hlt : i < lo
  · have := congrArg (fun b => b.getLsbD i) hl
    simpa [hlt] using this
  · have := congrArg (fun b => b.getLsbD (i - lo)) hi
    have h1 : i - lo < w - lo := by omega
    have h2 : lo + (i - lo) = i := by omega
    simpa [h1, h2] using this

theorem and_eq_iff {x m c : BitVec w} (lo : Nat) (h : lo ≤ w) :
    x &&& m = c ↔
      x.extractLsb' lo (w - lo) &&& m.extractLsb' lo (w - lo) = c.extractLsb' lo (w - lo) ∧
        x.extractLsb' 0 lo &&& m.extractLsb' 0 lo = c.extractLsb' 0 lo := by
  refine ⟨?_, ?_⟩
  · rintro rfl
    exact ⟨BitVec.extractLsb'_and.symm, BitVec.extractLsb'_and.symm⟩
  · intro ⟨hi, hl⟩
    refine eq_of_split h ?_ ?_
    · rw [BitVec.extractLsb'_and]; exact hi
    · rw [BitVec.extractLsb'_and]; exact hl

theorem toInt_cast {v : Nat} (x : BitVec w) (h : w = v) : (x.cast h).toInt = x.toInt := by
  subst h; rfl

/-- `(int) (x << n)` is the low part of `x`, read as signed, times 2^n. -/
theorem toInt_shiftLeft_field (x : BitVec w) {n : Nat} (h : n ≤ w) :
    (x <<< n).toInt = 2 ^ n * (x.extractLsb' 0 (w - n)).toInt := by
  have e : x <<< n = (x.extractLsb' 0 (w - n) ++ 0#n).cast (by omega) := by
    apply BitVec.eq_of_getLsbD_eq
    intro i hi
    simp only [BitVec.getLsbD_shiftLeft, BitVec.getLsbD_cast, BitVec.getLsbD_append,
      BitVec.getLsbD_extractLsb', hi, decide_true, Bool.true_and]
    by_cases hn : i < n
    · simp [hn]
    · have h1 : i - n < w - n := by omega
      simp [hn, h1]
  rw [e, toInt_cast, BitVec.toInt_append_zero]

/-- The upper part of a word, read as signed, is a floor division. -/
theorem toInt_upper (x : BitVec w) {lo len : Nat} (h : lo + len = w) (hl : 0 < len):
    (x.extractLsb' lo len).toInt = x.toInt / 2 ^ lo := by
  have e : x.extractLsb' lo len = (x.sshiftRight lo).setWidth len := by
    apply BitVec.eq_of_getLsbD_eq
    intro i hi
    have h1 : ¬ w ≤ i := by omega
    have h2 : lo + i < w := by omega
    simp [hi, BitVec.getLsbD_sshiftRight, h1, h2]
  have hlo := BitVec.le_toInt x
  have hhi := BitVec.toInt_lt (x := x)
  have hpos : (0 : Int) < 2 ^ lo := Int.pow_pos (by decide)
  have hsplit : (2 : Int) ^ (w - 1) = 2 ^ (len - 1) * 2 ^ lo := by
    rw [← Int.pow_add]; congr 1; omega
  rw [hsplit] at hlo hhi
  rw [e, ← BitVec.signExtend_eq_setWidth_of_le _ (by omega), BitVec.toInt_signExtend,
    BitVec.toInt_sshiftRight, Int.shiftRight_eq_div_pow, Nat.min_eq_left (by omega)]
  have h2 : (2 : Int) ^ len = 2 * 2 ^ (len - 1) := by
    rw [← Int.pow_succ']; congr 1; omega
  have hge : -(2 : Int) ^ (len - 1) ≤ x.toInt / 2 ^ lo := by
    rw [Int.le_ediv_iff_mul_le hpos, Int.neg_mul]; exact hlo
  have hlt : x.toInt / 2 ^ lo < 2 ^ (len - 1) := Int.ediv_lt_of_lt_mul hpos hhi
  apply Int.bmod_eq_of_le <;> push_cast <;> omega

/-- `x & ~3` -/
theorem and_not_three (x : BitVec 32) : x &&& ~~~3#32 = x.extractLsb' 2 30 ++ 0#2 := by
  have hhi : (~~~3#32).extractLsb' 2 30 = BitVec.allOnes 30 := by decide
  have hlo : (~~~3#32).extractLsb' 0 2 = 0#2 := by decide
  refine (and_eq_iff 2 (by decide)).mpr ⟨?_, ?_⟩
  · rw [BitVec.extractLsb'_append_eq_left, hhi, BitVec.and_allOnes]
  · rw [BitVec.extractLsb'_append_eq_right, hlo, BitVec.and_zero]

theorem toInt_and_not_three (x : BitVec 32) : (x &&& ~~~3#32).toInt = 4 * (x.toInt / 4) := by
  rw [and_not_three, BitVec.toInt_append_zero, toInt_upper x (by decide) (by decide)]
  omega

/-- A word read without its sign. -/
theorem toNat_eq_emod (x : BitVec w) : (x.toNat : Int) = x.toInt % 2 ^ w := by
  rw [BitVec.toInt_eq_toNat_bmod]
  have h := x.isLt
  have e : ((2 ^ w : Nat) : Int) = 2 ^ w := by push_cast; rfl
  rw [← e, Int.bmod_emod, Int.emod_eq_of_lt (by omega) (by omega)]

/-- How far into what begins at `a`. -/
theorem add_sub_toNat {a : BitVec w} {k : Nat} (h : k < 2 ^ w) : (a + BitVec.ofNat w k - a).toNat = k := by
  rw [BitVec.add_comm, BitVec.add_sub_cancel, BitVec.toNat_ofNat, Nat.mod_eq_of_lt h]

/-- The idiom `(x >> lo) & (2^len - 1)`. -/
theorem shift_and_field (x : BitVec w) (lo : Nat) {len : Nat} (h : len ≤ w) :
    (x >>> lo) &&& BitVec.ofNat w (2 ^ len - 1) = (x.extractLsb' lo len).setWidth w := by
  apply BitVec.eq_of_toNat_eq
  have hp : 2 ^ len - 1 < 2 ^ w := by
    have h1 := Nat.pow_le_pow_right (show 0 < 2 by decide) h
    have h2 := Nat.two_pow_pos len
    omega
  have hl : (x.toNat >>> lo) % 2 ^ len < 2 ^ w :=
    (Nat.mod_lt _ (Nat.two_pow_pos len)).trans_le (Nat.pow_le_pow_right (by decide) h)
  rw [BitVec.toNat_and, BitVec.toNat_ofNat, Nat.mod_eq_of_lt hp, BitVec.toNat_ushiftRight,
    Nat.and_two_pow_sub_one_eq_mod, BitVec.toNat_setWidth, BitVec.extractLsb'_toNat, Nat.mod_eq_of_lt hl]

/-! ## Tests of some bits -/

section Masks
variable {x m c : BitVec w}

theorem and_of_and (h : x &&& m = c) {m' k : BitVec w} (hm : m &&& m' = m' ∧ c &&& m' = k) :
    x &&& m' = k := by
  rw [← hm.2, ← h, BitVec.and_assoc, hm.1]

/-- The two tests differ in a bit that both look at. -/
theorem and_ne (h : x &&& m = c) {m' k : BitVec w} (hd : c &&& m' ≠ k &&& m) : x &&& m' ≠ k := by
  rintro rfl
  refine hd ?_
  rw [← h, BitVec.and_assoc, BitVec.and_assoc, BitVec.and_comm m m']

theorem field_of_and (h : x &&& m = c) {lo len : Nat} (hm : m.extractLsb' lo len = BitVec.allOnes len) :
    x.extractLsb' lo len = c.extractLsb' lo len := by
  rw [← h, BitVec.extractLsb'_and, hm, BitVec.and_allOnes]

theorem getLsbD_of_and (h : x &&& m = c) {i : Nat} (hm : m.getLsbD i = true) :
    x.getLsbD i = c.getLsbD i := by
  rw [← h, BitVec.getLsbD_and, hm, Bool.and_true]

end Masks

end DumpDex.Core.Bits
