import DumpDex.L3Runs.HookedWindows
import DumpDex.L3Runs.RelocatedLayout
import Mathlib.Data.List.GetD

/-!
# From an instruction to its block and back (`inlineHook.c`)

By the boundaries that `relocateInstruction` records the engine moves the
threads when it hooks and unhooks.

* `fresh_columns`: `orig_boundaries` has room for four instructions, and a
  Thumb function's twelve bytes may be six. What is too much for it is written
  over the boundaries of the first blocks.
* `run_follows`, `hookAll_follows`: so threads are moved rightly exactly where
  there are no more than four.
-/
namespace DumpDex.L3.Boundaries
open DumpDex.Core.Runs
open DumpDex.L2.InlineHook (maxItems testBit0)
open DumpDex.L2 DumpDex.L2.Relocate DumpDex.L2.InlineHookEngine
open DumpDex.L3.EngineSteps DumpDex.L3.HookedWindows DumpDex.L3.RelocatedLayout

/-! ## What is recorded of them -/

/-- The ints of a slot after `bs` have been recorded behind `count` others. -/
def recorded (count : Nat) (bs : List (Nat × Nat)) (ints : Nat → Nat) : Nat → Nat := fun x =>
  if x = countAt then count + bs.length
  else if count ≤ x ∧ x < count + bs.length then (bs.getD (x - count) (0, 0)).1
  else if count + 4 ≤ x ∧ x < count + 4 + bs.length then (bs.getD (x - 4 - count) (0, 0)).2
  else ints x

theorem record_recorded {count : Nat} {bs : List (Nat × Nat)} (b : Nat × Nat) (ints : Nat → Nat)
    (h : count + bs.length < 20) :
    record b (recorded count bs ints) = some (recorded count (bs ++ [b]) ints) := by
  have hc : recorded count bs ints countAt = count + bs.length := if_pos rfl
  have hlast : (bs ++ [b]).getD bs.length (0, 0) = b := by simp
  have hleft {i : Nat} (hi : i < bs.length) : (bs ++ [b]).getD i (0, 0) = bs.getD i (0, 0) :=
    List.getD_append _ _ _ _ hi
  have hat : countAt = 24 := rfl
  unfold record
  rw [hc, if_pos h]
  simp only
  rw [Function.update_of_ne (by omega), hc, Function.update_of_ne (by omega),
    Function.update_of_ne (by omega), hc]
  refine congrArg some (funext fun x => ?_)
  unfold recorded
  rw [List.length_append, List.length_singleton]
  by_cases h1 : x = countAt
  · rw [h1, Function.update_self, if_pos rfl, Nat.add_assoc]
  rw [Function.update_of_ne h1, if_neg h1]
  by_cases h2 : x = 4 + (count + bs.length)
  · rw [h2, Function.update_self, if_neg (by omega), if_pos (by omega)]
    rw [show 4 + (count + bs.length) - 4 - count = bs.length by omega, hlast]
  rw [Function.update_of_ne h2]
  by_cases h3 : x = count + bs.length
  · rw [h3, Function.update_self, if_pos (by omega), Nat.add_sub_cancel_left, hlast]
  rw [Function.update_of_ne h3, if_neg h1]
  -- written before this one, or never
  by_cases h4 : count ≤ x ∧ x < count + bs.length
  · rw [if_pos h4, if_pos (by omega), hleft (by omega)]
  have h4' : ¬ (count ≤ x ∧ x < count + (bs.length + 1)) := by omega
  rw [if_neg h4, if_neg h4']
  by_cases h5 : count + 4 ≤ x ∧ x < count + 4 + bs.length
  · rw [if_pos h5, if_pos (by omega), hleft (by omega)]
  · rw [if_neg h5, if_neg (by omega)]

theorem record_all (bs : List (Nat × Nat)) (ints : Nat → Nat) (h : ints countAt + bs.length ≤ 20) :
    bs.foldlM (fun ints b => record b ints) ints = some (recorded (ints countAt) bs ints) := by
  induction bs using List.reverseRecOn with
  | nil =>
    refine congrArg some (funext fun x => ?_)
    unfold recorded
    split
    · rename_i hx
      rw [hx]
      rfl
    · rw [if_neg (by simp), if_neg (by simp)]
  | append_singleton bs b ih =>
    rw [List.length_append, List.length_singleton] at h
    rw [List.foldlM_append, ih (by omega)]
    simp [record_recorded b ints (show ints countAt + bs.length < 20 by omega)]

/-! ## Threads -/

/-- A column without repetitions, searched from the front. -/
theorem find_range_iff {α β : Type} [DecidableEq α] {n : Nat} {f : Nat → α} {g : Nat → β}
    (hinj : ∀ i < n, ∀ j < n, f i = f j → i = j) (k : α) (v : β) :
    ((List.range n).find? fun i => k = f i).map g = some v ↔ ∃ i < n, k = f i ∧ v = g i := by
  rw [Option.map_eq_some_iff]
  constructor
  · rintro ⟨i, hi, rfl⟩
    obtain ⟨hlt, hk⟩ := find_lt hi
    exact ⟨i, hlt, of_decide_eq_true hk, rfl⟩
  · rintro ⟨i, hi, hk, rfl⟩
    refine ⟨i, List.find?_range_eq_some.mpr ⟨decide_eq_true hk, List.mem_range.mpr hi, fun j hj => ?_⟩, rfl⟩
    refine (Bool.not_eq_true' _).mpr (decide_eq_false fun e => ?_)
    have := hinj i hi j (by omega) (hk.symm.trans e)
    omega

/-- Hooked, a thread at an instruction goes to its block, and unhooked back;
the others stay where they are. -/
def Follows (item : InlineHookItem) (bs : List (Nat × Nat)) : Prop :=
  ∀ pc pc' : Addr,
    (doProcessThreadPC item .enable pc = some pc' ↔ ∃ b ∈ bs,
      pc = clearBit0 item.targetAddr + BitVec.ofNat 32 b.1 ∧
      pc' = item.trampolineInstructions + BitVec.ofNat 32 b.2) ∧
    (doProcessThreadPC item .disable pc' = some pc ↔ ∃ b ∈ bs,
      pc = clearBit0 item.targetAddr + BitVec.ofNat 32 b.1 ∧
      pc' = item.trampolineInstructions + BitVec.ofNat 32 b.2)

theorem ofNat_inj {m n : Nat} (hm : m < 2 ^ 32) (hn : n < 2 ^ 32)
    (h : BitVec.ofNat 32 m = BitVec.ofNat 32 n) : m = n := by
  have := congrArg BitVec.toNat h
  rwa [BitVec.toNat_ofNat, BitVec.toNat_ofNat, Nat.mod_eq_of_lt hm, Nat.mod_eq_of_lt hn] at this

theorem sub_eq_iff {a b c : Addr} : a - b = c ↔ a = b + c := by
  constructor
  · rintro rfl
    rw [BitVec.add_comm, BitVec.sub_add_cancel]
  · rintro rfl
    rw [BitVec.add_comm, BitVec.add_sub_cancel]

theorem follows_of {item : InlineHookItem} {bs : List (Nat × Nat)} (hsorted : bs.Pairwise Before)
    (hbound : ∀ b ∈ bs, b.1 < 2 ^ 32 ∧ b.2 < 2 ^ 32) (hcount : item.count = bs.length)
    (horig : ∀ i (h : i < bs.length), item.origBoundary i = bs[i].1)
    (htramp : ∀ i (h : i < bs.length), item.trampolineBoundary i = bs[i].2) : Follows item bs := by
  have hlt {i j : Nat} (hi : i < bs.length) (hj : j < bs.length) (h : i < j) : Before bs[i] bs[j] :=
    List.pairwise_iff_getElem.mp hsorted i j hi hj h
  have bound {i : Nat} (hi : i < bs.length) := hbound bs[i] (List.getElem_mem hi)
  have inj {f : Nat → Nat} (hf : ∀ i < bs.length, f i < 2 ^ 32)
      (hmono : ∀ i j, i < j → j < bs.length → f i < f j) :
      ∀ i < bs.length, ∀ j < bs.length, BitVec.ofNat 32 (f i) = BitVec.ofNat 32 (f j) → i = j := by
    intro i hi j hj e
    have e := ofNat_inj (hf i hi) (hf j hj) e
    rcases Nat.lt_trichotomy i j with h | h | h
    · exact absurd e (Nat.ne_of_lt (hmono i j h hj))
    · exact h
    · exact absurd e.symm (Nat.ne_of_lt (hmono j i h hi))
  -- the columns are what `bs` lists
  have rows {p : Nat → Nat → Prop} :
      (∃ i < bs.length, p (item.origBoundary i) (item.trampolineBoundary i)) ↔ ∃ b ∈ bs, p b.1 b.2 := by
    constructor
    · rintro ⟨i, hi, hp⟩
      rw [horig i hi, htramp i hi] at hp
      exact ⟨bs[i], List.getElem_mem hi, hp⟩
    · rintro ⟨b, hb, hp⟩
      obtain ⟨i, hi, rfl⟩ := List.mem_iff_getElem.mp hb
      refine ⟨i, hi, ?_⟩
      rw [horig i hi, htramp i hi]
      exact hp
  have hinj := inj (fun i hi => (horig i hi).symm ▸ (bound hi).1) fun i j hij hj => by
    rw [horig i (by omega), horig j hj]
    exact (hlt (by omega) hj hij).1
  have hinj' := inj (fun i hi => (htramp i hi).symm ▸ (bound hi).2) fun i j hij hj => by
    rw [htramp i (by omega), htramp j hj]
    exact (hlt (by omega) hj hij).2
  intro pc pc'
  constructor
  · simp only [doProcessThreadPC]
    rw [hcount, find_range_iff hinj]
    simp only [sub_eq_iff]
    exact @rows fun o t => pc = clearBit0 item.targetAddr + BitVec.ofNat 32 o ∧
      pc' = item.trampolineInstructions + BitVec.ofNat 32 t
  · simp only [doProcessThreadPC]
    rw [hcount, find_range_iff hinj']
    simp only [sub_eq_iff]
    refine Iff.trans (exists_congr fun i => and_congr_right fun _ => and_comm) ?_
    exact @rows fun o t => pc = clearBit0 item.targetAddr + BitVec.ofNat 32 o ∧
      pc' = item.trampolineInstructions + BitVec.ofNat 32 t

/-- The blocks of an item's instructions. Where they begin does not depend on
the literals that are read. -/
def blocks (item : InlineHookItem) : List (Nat × Nat) :=
  (relocateInstruction (fun _ => 0) item.targetAddr item.origInstructions).boundaries

section Literals
variable {mem mem' : Addr → BitVec 32}

theorem thumb16_length (pc : Addr) (instruction : Half) :
    (relocateInstructionInThumb16 mem pc instruction).length =
      (relocateInstructionInThumb16 mem' pc instruction).length := by
  unfold relocateInstructionInThumb16
  cases getTypeInThumb16 instruction <;> simp [halves]

theorem thumb32_length (pc : Addr) (high low : Half) :
    (relocateInstructionInThumb32 mem pc high low).length =
      (relocateInstructionInThumb32 mem' pc high low).length := by
  unfold relocateInstructionInThumb32
  simp only
  split
  all_goals simp [halves]

theorem arm_length (pc : Addr) (instruction : BitVec 32) :
    (relocateOneInArm mem pc instruction).length = (relocateOneInArm mem' pc instruction).length := by
  unfold relocateOneInArm
  cases getTypeInArm instruction <;> simp

theorem thumb_boundaries (rest : List Half) (origPos : Nat) (pc : Addr) (s s' : Relocated Half)
    (hout : s.out.length = s'.out.length) (hb : s.boundaries = s'.boundaries) :
    (relocateLoopInThumb mem rest origPos pc s).2.boundaries =
      (relocateLoopInThumb mem' rest origPos pc s').2.boundaries := by
  fun_induction relocateLoopInThumb mem rest origPos pc s generalizing s' with
  | case1 origPos pc s => exact hb
  | case2 instruction origPos pc s boundaries h32 => simp [relocateLoopInThumb, h32, boundaries, hb, hout]
  | case3 instruction origPos pc s boundaries h32 => simp [relocateLoopInThumb, h32, boundaries, hb, hout]
  | case4 instruction next rest origPos pc s boundaries h32 ih =>
    rw [relocateLoopInThumb]
    simp only [h32, if_true]
    refine ih _ ?_ ?_
    · rw [List.length_append, List.length_append, hout, @thumb32_length mem mem']
    · simp [boundaries, hb, hout]
  | case5 instruction next rest origPos pc s boundaries h32 ih =>
    rw [relocateLoopInThumb]
    simp only [h32]
    refine ih _ ?_ ?_
    · rw [List.length_append, List.length_append, hout, @thumb16_length mem mem']
    · simp [boundaries, hb, hout]

theorem arm_boundaries (rest : List (BitVec 32)) (origPos : Nat) (pc : Addr) (s s' : Relocated (BitVec 32))
    (hout : s.out.length = s'.out.length) (hb : s.boundaries = s'.boundaries) :
    (relocateLoopInArm mem rest origPos pc s).boundaries =
      (relocateLoopInArm mem' rest origPos pc s').boundaries := by
  induction rest generalizing origPos pc s s' with
  | nil => exact hb
  | cons instruction rest ih =>
    refine ih _ _ _ _ ?_ ?_
    · rw [List.length_append, List.length_append, hout, @arm_length mem mem']
    · simp [hb, hout]

theorem relocate_boundaries (targetAddr : Addr) (bs : List Byte) :
    (relocateInstruction mem targetAddr bs).boundaries =
      (relocateInstruction mem' targetAddr bs).boundaries := by
  unfold relocateInstruction
  split
  · exact thumb_boundaries _ _ _ _ _ rfl rfl
  · exact arm_boundaries _ _ _ _ _ rfl rfl

end Literals

section Filled
variable {io : RegisterIO} {code : Addr → Byte} {targetAddr newAddr protoAddr : Addr}
  {slot item : InlineHookItem} {out : List Byte}

/-- What a registration writes into a slot, in terms of what was in it. -/
theorem fill_blocks (h : fillItem io code targetAddr newAddr protoAddr slot = some (item, out)) :
    ∃ r, Moved targetAddr r ∧ r.out = out ∧ r.boundaries = blocks item ∧
      (slot.count + r.boundaries.length ≤ 20 → item.ints = recorded slot.count r.boundaries slot.ints) := by
  obtain ⟨ht, -, -, ho, -, -, -⟩ := fillItem_spec h
  have hlen : item.origInstructions.length = span targetAddr := by
    rw [ho, length_load]
  refine ⟨relocateInstruction (word code) targetAddr item.origInstructions, relocate_moved hlen, ?_, ?_, ?_⟩
  · rw [ho]
    obtain ⟨ints, -, he⟩ := Option.map_eq_some_iff.mp h
    exact congrArg Prod.snd he
  · unfold blocks
    rw [ht]
    exact relocate_boundaries _ _
  · intro hfew
    obtain ⟨ints, hints, he⟩ := Option.map_eq_some_iff.mp h
    have hr : ints = recorded slot.count _ slot.ints := Option.some.inj (hints.symm.trans (record_all _ _ (ho ▸ hfew)))
    rw [ho, ← congrArg (fun p => p.1.ints) he]
    exact hr

/-- In a slot nobody has used: the fifth instruction's boundary is written
over the first block's, the sixth's over the second's. -/
theorem fresh_columns {bs : List (Nat × Nat)} (hints : item.ints = recorded 0 bs slot.ints)
    (hn : bs.length ≤ 6) :
    item.count = bs.length ∧ (∀ i (h : i < bs.length), item.origBoundary i = bs[i].1) ∧
      (∀ i (h : i < bs.length), bs.length ≤ 4 + i → item.trampolineBoundary i = bs[i].2) ∧
      ∀ i (h : 4 + i < bs.length), item.trampolineBoundary i = (bs[4 + i]).1 := by
  have hat : countAt = 24 := rfl
  refine ⟨?_, fun i hi => ?_, fun i hi hle => ?_, fun i hi => ?_⟩
  · unfold InlineHookItem.count
    rw [hints]
    exact (if_pos rfl).trans (Nat.zero_add _)
  · unfold InlineHookItem.origBoundary
    rw [hints, recorded, if_neg (by omega), if_pos (by omega), Nat.sub_zero, List.getD_eq_getElem _ _ hi]
  · unfold InlineHookItem.trampolineBoundary
    rw [hints, recorded, if_neg (by omega), if_neg (by omega), if_pos (by omega), Nat.sub_zero,
      Nat.add_sub_cancel_left, List.getD_eq_getElem _ _ hi]
  · unfold InlineHookItem.trampolineBoundary
    rw [hints, recorded, if_neg (by omega), if_pos (by omega), Nat.sub_zero, List.getD_eq_getElem _ _ hi]

/-- What the engine knows of an item's threads. -/
structure Led (item : InlineHookItem) : Prop where
  follows : Follows item (blocks item) ↔ (blocks item).length ≤ 4
  inside : ∀ pc pc', doProcessThreadPC item .enable pc = some pc' → pc ∈ window item.targetAddr

theorem enable_some {pc pc' : Addr} (h : doProcessThreadPC item .enable pc = some pc') :
    ∃ i < item.count, pc - clearBit0 item.targetAddr = BitVec.ofNat 32 (item.origBoundary i) ∧
      pc' = item.trampolineInstructions + BitVec.ofNat 32 (item.trampolineBoundary i) := by
  obtain ⟨i, hi, rfl⟩ := Option.map_eq_some_iff.mp h
  obtain ⟨hlt, hk⟩ := find_lt hi
  exact ⟨i, hlt, of_decide_eq_true hk, rfl⟩

theorem fresh_led (h : fillItem io code targetAddr newAddr protoAddr slot = some (item, out))
    (hfresh : slot.count = 0) : Led item := by
  obtain ⟨r, hm, -, hr, hints⟩ := fill_blocks h
  obtain ⟨ht, -, -, -, -, -, -⟩ := fillItem_spec h
  have hfew := hm.few
  have hints := hints (by omega)
  rw [hfresh] at hints
  obtain ⟨hcount, horig, htramp, hover⟩ := fresh_columns hints hfew.2
  have hspan : span targetAddr ≤ 12 := by
    unfold span
    split <;> omega
  have hroom := hm.room
  refine ⟨⟨fun hf => ?_, fun h4 => ?_⟩, fun pc pc' hpc => ?_⟩
  · -- the first block's boundary is the fifth instruction's
    by_contra h5
    rw [← hr] at hf h5
    obtain ⟨bs, hfirst⟩ := hm.first
    have h0 : r.boundaries[0] = (0, 0) := by
      simp only [hfirst, List.getElem_cons_zero]
    have hgo := (hf (clearBit0 item.targetAddr + BitVec.ofNat 32 0) (item.trampolineInstructions + BitVec.ofNat 32 0)).1.mpr
      ⟨(0, 0), by rw [hfirst]; exact List.mem_cons_self, rfl, rfl⟩
    obtain ⟨i, hi, hoff, hto⟩ := enable_some hgo
    have hlt (j : Nat) (hj : j < r.boundaries.length) (h : 0 < j) : 0 < r.boundaries[j].1 := by
      have := (List.pairwise_iff_getElem.mp hm.sorted 0 j (by omega) hj h).1
      rwa [h0] at this
    have hi : i < r.boundaries.length := hcount ▸ hi
    have hnear (j : Nat) (hj : j < r.boundaries.length) := (hm.within _ (List.getElem_mem hj)).1
    have e0 : 0 = r.boundaries[i].1 := by
      refine ofNat_inj (by decide) (by have := hnear i hi; omega) ?_
      rw [← horig i hi, ← hoff, BitVec.add_comm, BitVec.add_sub_cancel]
    have hzero : i = 0 := by
      by_contra hne
      exact absurd e0 (Nat.ne_of_lt (hlt i hi (by omega)))
    subst hzero
    rw [hover 0 (by omega)] at hto
    have e4 : 0 = (r.boundaries[4 + 0]).1 :=
      ofNat_inj (by decide) (by have := hnear (4 + 0) (by omega); omega) ((BitVec.add_right_inj _).mp hto)
    exact absurd e4 (Nat.ne_of_lt (hlt (4 + 0) (by omega) (by decide)))
  · rw [← hr] at h4 ⊢
    refine follows_of hm.sorted (fun b hb => ?_) hcount horig fun i hi => htramp i hi (by omega)
    have := hm.within b hb
    omega
  · obtain ⟨i, hi, hoff, -⟩ := enable_some hpc
    have hi : i < r.boundaries.length := hcount ▸ hi
    have hnear := (hm.within _ (List.getElem_mem hi)).1
    rw [horig i hi] at hoff
    change (pc - clearBit0 item.targetAddr).toNat < span item.targetAddr
    rw [hoff, ht, BitVec.toNat_ofNat, Nat.mod_eq_of_lt (by omega)]
    exact hnear

end Filled

/-! ## Runs -/

variable {s s' : Engine}

/-- A new target is given a slot in which no boundary has been recorded. -/
def Fresh (s : Engine) (_ : Addr) : Prop := (s.info.item s.info.size).count = 0

def AllLed (s : Engine) : Prop := ∀ i < s.info.size, Led (s.info.item i)

theorem led_change {ok : Engine → Addr → Prop} (hok : ∀ s a, ok s a → Fresh s a) (s s' : Engine)
    (h : AllLed s) (hc : Change ok s s') : AllLed s' := by
  intro i hi
  cases hc with
  | threads pc => exact h i hi
  | @enter io targetAddr newAddr protoAddr item out hnew hroom hfresh hitem =>
    by_cases hlt : i < s.info.size
    · rw [entered_item hlt]
      exact h i hlt
    · obtain rfl : i = s.info.size := by
        have : i < s.info.size + 1 := hi
        omega
      rw [entered_last]
      exact fresh_led hitem (hok _ _ hfresh)
  | @hook j hj hs =>
    by_cases e : i = j
    · subst e
      have hl := h i hj
      have : (doInlineHook i s).info.item i = { s.info.item i with status := .hooked } := by
        simp [doInlineHook]
      rw [this]
      exact ⟨hl.follows, hl.inside⟩
    · have : (doInlineHook j s).info.item i = s.info.item i := by
        simp [doInlineHook, Function.update_of_ne e]
      rw [this]
      exact h i hi
  | @unHook pos hp hs =>
    have : (doInlineUnHook pos s).info.item i = s.info.item (movedFrom s.info.size pos i) :=
      deleted_item s.info pos i
    rw [this]
    exact h _ (movedFrom_lt hp hi).1

theorem led_start (h : s.info.size = 0) : AllLed s := fun _ hi => absurd (h ▸ hi) (Nat.not_lt_zero _)

/-- Nothing has been recorded behind the table's end. -/
def Unused (s : Engine) : Prop := ∀ i, s.info.size ≤ i → (s.info.item i).count = 0

def unHooks : Event → Bool
  | .unHook .. | .unHookAll .. => true
  | _ => false

theorem unused_hook {i : Nat} (hi : i < s.info.size) (h : Unused s) : Unused (doInlineHook i s) := by
  intro j hj
  have hj : s.info.size ≤ j := hj
  have e : (doInlineHook i s).info.item j = s.info.item j := by
    simp [doInlineHook, Function.update_of_ne (show j ≠ i by omega)]
  rw [e]
  exact h j hj

theorem unused_hookLoop (n i : Nat) (s : Engine) (hi : i + n ≤ s.info.size) (h : Unused s) :
    Unused (hookLoop n i s) := by
  induction n generalizing i s with
  | zero => exact h
  | succ n ih =>
    rw [hookLoop]
    split
    · exact ih (i + 1) _ (by change i + 1 + n ≤ s.info.size; omega) (unused_hook (by omega) h)
    · exact ih (i + 1) s (by omega) h

theorem unused_step {e : Event} (he : unHooks e = false) (h : Unused s) (hs : step s e = some s') :
    Unused s' := by
  cases e with
  | register io targetAddr newAddr protoAddr =>
    rcases register_cases hs with rfl | ⟨item, out, -, -, -, rfl⟩
    · exact h
    · intro i hi
      have hi : s.info.size + 1 ≤ i := hi
      have e' : (entered s io.page item out).info.item i = s.info.item i :=
        Function.update_of_ne (by omega) ..
      rw [e']
      exact h i (by omega)
  | hook attached targetAddr =>
    obtain rfl := Option.some.inj hs
    unfold inlineHook
    split
    · exact h
    · rename_i i hf
      split
      · exact unused_hook (find_lt hf).1 h
      · exact h
  | unHook => cases he
  | hookAll attached =>
    obtain rfl := Option.some.inj hs
    exact unused_hookLoop _ 0 _ (Nat.le_of_eq (Nat.zero_add _)) h
  | unHookAll => cases he
  | run pc =>
    obtain rfl := Option.some.inj hs
    exact h

theorem unused_fresh {es : List Event} (hkept : ∀ e ∈ es, unHooks e = false) (h : Unused s) :
    MeetsM step (Asks Fresh) s es := by
  induction es generalizing s with
  | nil => trivial
  | cons e es ih =>
    obtain ⟨he, hes⟩ := List.forall_mem_cons.mp hkept
    refine ⟨?_, fun t ht => ih hes (unused_step he h ht)⟩
    cases e with
    | register => exact h _ (Nat.le_refl _)
    | _ => trivial

/-- **Threads.** As long as nothing is unhooked, every item in the table sends
a thread from an instruction to its block and back if and only if it has no
more than four instructions. -/
theorem run_follows {es : List Event} (h : s.info.size = 0) (hz : ∀ i, (s.info.item i).count = 0)
    (hkept : ∀ e ∈ es, unHooks e = false) (hr : es.foldlM step s = some s') {i : Nat}
    (hi : i < s'.info.size) :
    Follows (s'.info.item i) (blocks (s'.info.item i)) ↔ (blocks (s'.info.item i)).length ≤ 4 :=
  (run_keeps (led_change fun _ _ h => h) (led_start h) (unused_fresh hkept fun i _ => hz i) hr i hi).follows

/-- Six instructions: a thread at the first is not sent to its block. -/
theorem run_follows_thumb : ∃ t,
    [Event.register ⟨true, true, 0x20000⟩ 0x8001 0x12345679 0].foldlM step (started (fun _ => 0) fun _ => 0) = some t ∧
      ¬ Follows (t.info.item 0) (blocks (t.info.item 0)) := by
  have hr : [Event.register ⟨true, true, 0x20000⟩ 0x8001 0x12345679 0].foldlM step
      (started (fun _ => 0) fun _ => 0) = some _ := rfl
  have hkept : ∀ e ∈ [Event.register ⟨true, true, 0x20000⟩ 0x8001 0x12345679 0], unHooks e = false := by
    simp [unHooks]
  exact ⟨_, hr, fun h => absurd ((run_follows rfl (fun _ => rfl) hkept hr Nat.zero_lt_one).mp h) (by decide)⟩

theorem hookLoop_pc (n i : Nat) (s : Engine) : (hookLoop n i s).pc = s.pc := by
  induction n generalizing i s with
  | zero => rfl
  | succ n ih =>
    rw [hookLoop, ih]
    split <;> rfl

theorem findSome_unique {β : Type} {f : Nat → Option β} {n i : Nat} {v : β} (hi : i < n) (hf : f i = some v)
    (huniq : ∀ j < n, j ≠ i → f j = none) : (List.range n).findSome? f = some v := by
  cases h : (List.range n).findSome? f with
  | none =>
    have := List.findSome?_eq_none_iff.mp h i (List.mem_range.mpr hi)
    rw [hf] at this
    cases this
  | some w =>
    obtain ⟨j, hj, hw⟩ := List.exists_of_findSome?_eq_some h
    by_cases e : j = i
    · rw [← hw, e, hf]
    · rw [huniq j (List.mem_range.mp hj) e] at hw
      cases hw

/-- **All at once.** Where besides no target's bytes are among those another
item has saved, `inlineHookAll` finds for each thread the one item whose
instruction it is at. -/
theorem hookAll_follows {es : List Event} (h : s.info.size = 0)
    (hm : MeetsM step (Asks fun s a => Apart s a ∧ Fresh s a) s es) (hr : es.foldlM step s = some s')
    {i : Nat} (hi : i < s'.info.size) (h4 : (blocks (s'.info.item i)).length ≤ 4)
    {attached : Tid → Bool} {tid : Tid} (ha : attached tid = true) {b : Nat × Nat}
    (hb : b ∈ blocks (s'.info.item i))
    (hpc : s'.pc tid = clearBit0 (s'.info.item i).targetAddr + BitVec.ofNat 32 b.1) :
    (inlineHookAll attached s').pc tid =
      (s'.info.item i).trampolineInstructions + BitVec.ofNat 32 b.2 := by
  have hled : AllLed s' := run_keeps (led_change fun _ _ h => h.2) (led_start h) hm hr
  have hgood : Good s.code s' := run_good (fun _ _ h => h.1) h hm hr
  have hgo := (((hled i hi).follows.mpr h4) (s'.pc tid)
    ((s'.info.item i).trampolineInstructions + BitVec.ofNat 32 b.2)).1.mpr ⟨b, hb, hpc, rfl⟩
  unfold inlineHookAll
  rw [hookLoop_pc]
  simp only [freeze, ha, if_true, processThreadPC]
  rw [findSome_unique hi hgo]
  · rfl
  · intro j hj hne
    cases hj' : doProcessThreadPC (s'.info.item j) .enable (s'.pc tid) with
    | none => rfl
    | some pc' =>
      have h1 : s'.pc tid ∈ window (s'.info.item j).targetAddr := (hled j hj).inside _ _ hj'
      have h2 : s'.pc tid ∈ window (s'.info.item i).targetAddr := (hled i hi).inside _ _ hgo
      exact absurd h2 (Set.disjoint_left.mp (hgood.2.apart hj hi hne) h1)

theorem hookAll_follows_second : ∃ t,
    [Event.register ⟨true, true, 0x20000⟩ 0x8000 0x12345678 0].foldlM step
      (started (fun _ => 0) fun _ => 0x8004) = some t ∧ (inlineHookAll (fun _ => true) t).pc 7 = 0x20004 := by
  have hr : [Event.register ⟨true, true, 0x20000⟩ 0x8000 0x12345678 0].foldlM step
      (started (fun _ => 0) fun _ => 0x8004) = some _ := rfl
  have hm : MeetsM step (Asks fun s a => Apart s a ∧ Fresh s a) (started (fun _ => 0) fun _ => 0x8004)
      [.register ⟨true, true, 0x20000⟩ 0x8000 0x12345678 0] :=
    ⟨⟨fun i hi => absurd hi (Nat.not_lt_zero i), rfl⟩, fun _ _ => trivial⟩
  exact ⟨_, hr, @hookAll_follows _ _ _ rfl hm hr 0 Nat.zero_lt_one (by decide) (fun _ => true) 7 rfl (4, 4) (by decide) rfl⟩

end DumpDex.L3.Boundaries
