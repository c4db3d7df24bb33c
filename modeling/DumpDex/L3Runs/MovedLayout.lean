import DumpDex.Core.Backpatch
import DumpDex.L2Machine.FixedBlocks

/-!
# The pass over the moved instructions

`start` and `entry` say where the blocks of the instructions come to stand,
`code` what is written when that is known: a first pass over the sizes and a
second over the words. The code makes one pass with a fix map.

* `fixLoop_inv`: what holds after some rounds (`Inv`).
* `pass_out`: the one pass writes what the two do, and leaves no reference open.
* `start_le`: nine words an instruction are enough.
-/
namespace DumpDex.L3.MovedLayout
open DumpDex.Core DumpDex.Core.A64 DumpDex.L2.FixInstructions

variable (j : Job)

/-- Where the NOPs before an instruction begin. -/
def start : Nat → Int
  | 0 => j.slot
  | k + 1 =>
    let b := block j (j.base + 4 * k) (start k)
    start k + 4 * (b.pad + b.size)

def blk (k : Nat) : Block := block j (j.base + 4 * k) (start j k)

/-- Where an instruction's words begin. -/
def entry (k : Nat) : Int := start j k + 4 * (blk j k).pad

/-- The blocks of the first instructions. -/
def code : Nat → List Insn
  | 0 => []
  | k + 1 =>
    code k ++ (List.replicate (blk j k).pad nop ++ (blk j k).words (entry j) (entry j k))

/-- A reference is a word to be completed. -/
def Block.items (p : Nat) : Block → List (Backpatch.Item Insn FixInfo)
  | .fixed pad ws => (List.replicate pad nop ++ ws).map .word
  | .near tmpl ls ad ref => [.hole (link tmpl ls ad 0) ⟨p, ls, ad⟩ ref]

def items : Nat → List (Backpatch.Item Insn FixInfo)
  | 0 => []
  | k + 1 => items k ++ Block.items (items k).length (blk j k)

/-- After `k` instructions. -/
structure Inv (k : Nat) (s : Context) : Prop where
  inp : s.inp = j.base + 4 * k
  here : outp j s = start j k
  ins : ∀ i, s.ins i = if i < k then entry j i else 0
  filled : Backpatch.Filled FixInfo.bp (fun f v => f.fix j v) (entry j) (items j k) s.out s.fmap
  clear : ∀ i, i < k ∨ j.count ≤ i → s.fmap i = []
  few : ∀ i, (s.fmap i).length ≤ k

variable {j}

theorem start_succ (k : Nat) : start j (k + 1) = entry j k + 4 * (blk j k).size := by
  rw [start, entry]
  simp only [blk]
  omega

/-- Nine words an instruction are enough. -/
theorem start_le (k : Nat) : j.slot ≤ start j k ∧ start j k ≤ j.slot + 4 * (9 * k) := by
  induction k with
  | zero => simp [start]
  | succ k ih =>
    have := @block_size j (j.base + 4 * k) (start j k)
    simp only [start]
    omega

theorem start_aligned (h : j.slot % 4 = 0) (k : Nat) : start j k % 4 = 0 := by
  induction k with
  | zero => exact h
  | succ k ih => simp only [start]; omega

theorem idx_eq (k : Nat) : getRefInsIndex j (j.base + 4 * k) = k := by
  unfold getRefInsIndex
  omega

theorem start_inv : Inv j 0 (Context.start j) where
  inp := by simp [Context.start]
  here := by simp [Context.start, outp, start]
  ins := by simp [Context.start]
  filled := Backpatch.Filled.nil
  clear := by simp [Context.start]
  few := by simp [Context.start]

/-- What completing a word does, the two instructions being in one slot. -/
theorem fix_link {tmpl ad : Insn} {p ls : Nat} {v : Int} (h : -2 ^ 31 ≤ v - (j.slot + 4 * p))
    (h' : v - (j.slot + 4 * p) < 2 ^ 31) :
    FixInfo.fix j v ⟨p, ls, ad⟩ (link tmpl ls ad 0) = link tmpl ls ad (v - (j.slot + 4 * p)) := by
  have h0 (x : Insn) : x <<< ls &&& ad ||| 0#32 <<< ls &&& ad = x <<< ls &&& ad := by simp
  have hd : (BitVec.ofInt 32 (v - (j.slot + 4 * p))).sshiftRight 2 =
      BitVec.ofInt 32 ((v - (j.slot + 4 * p)) / 4) := by
    apply BitVec.eq_of_toInt_eq
    rw [BitVec.toInt_sshiftRight, BitVec.toInt_ofInt, BitVec.toInt_ofInt, Int.shiftRight_eq_div_pow,
      Int.bmod_eq_of_le (by omega) (by omega), Int.bmod_eq_of_le (by omega) (by omega)]
    rfl
  rw [FixInfo.fix, hd, link, link, BitVec.or_comm, ← BitVec.or_assoc,
    show BitVec.ofInt 32 (0 / 4) = 0#32 by decide, h0]

/-- Before the references to the instruction just written are completed. -/
structure Mid (j : Job) (k : Nat) (s : Context) : Prop where
  inp : s.inp = j.base + 4 * k
  here : outp j s = start j (k + 1)
  ins : ∀ i, s.ins i = if i < k + 1 then entry j i else 0
  filled : Backpatch.Filled FixInfo.bp (fun f v => f.fix j v) (entry j) (items j (k + 1)) s.out s.fmap
  clear : ∀ i, i < k ∨ j.count ≤ i → s.fmap i = []
  few : ∀ i, (s.fmap i).length ≤ k + 1

theorem Mid.inv {k : Nat} {s : Context} (h : Mid j k s) : Inv j (k + 1) (finish j k s) where
  inp := by
    simp only [finish, processFixMap, h.inp]
    push_cast
    omega
  here := by
    have e : (Backpatch.complete FixInfo.bp (fun f v => f.fix j v) (s.ins k) (s.fmap k) s.out).length =
        s.out.length := Backpatch.length_complete _ _
    rw [outp, ← h.here, outp, ← e]
    rfl
  ins := h.ins
  filled := by
    have hv : s.ins k = entry j k := by rw [h.ins, if_pos (Nat.lt_succ_self k)]
    have := h.filled.define k
    rw [← hv] at this
    exact this
  clear := by
    intro i hi
    by_cases hk : i = k
    · simp [finish, processFixMap, hk]
    · simp only [finish, processFixMap, Function.update_of_ne hk]
      exact h.clear i (hi.imp_left fun h => by omega)
  few := by
    intro i
    by_cases hk : i = k
    · simp [finish, processFixMap, hk]
    · simp only [finish, processFixMap, Function.update_of_ne hk]
      exact h.few i

theorem entry_bounds (k : Nat) : j.slot ≤ entry j k ∧ entry j k ≤ j.slot + 4 * (9 * k + 9) := by
  have h := @start_le j k
  have hb := @block_size j (j.base + 4 * k) (start j k)
  simp only [entry, blk]
  omega

theorem near_here {tmpl : Insn} {ls : Nat} {ad : Insn} {ref : Nat}
    (hb : blk j k = .near tmpl ls ad ref) : start j k = entry j k ∧ start j (k + 1) = start j k + 4 := by
  rw [start_succ, entry, hb]
  simp [Block.pad, Block.size]

section Step
variable {k : Nat} {s : Context} (h : Inv j k s)
include h

theorem ins_update {v : Int} (hv : v = entry j k) (i : Nat) :
    Function.update s.ins k v i = if i < k + 1 then entry j i else 0 := by
  by_cases hi : i = k
  · subst hi; simp [hv]
  · rw [Function.update_of_ne hi, h.ins]
    have : i < k ↔ i < k + 1 := by omega
    simp only [this]

theorem fixed_mid {pad : Nat} {ws : List Insn} (hb : blk j k = .fixed pad ws) :
    Mid j k (padded j pad ws k s) where
  inp := h.inp
  here := by
    have h0 := h.here
    rw [start_succ, entry, hb]
    simp only [outp, padded, Block.pad, Block.size, List.length_append, List.length_replicate] at h0 ⊢
    push_cast
    omega
  ins := ins_update h (by rw [h.here, entry, hb]; rfl)
  filled := by
    have hp := h.filled.puts (Block.items (items j k).length (blk j k))
    rw [hb] at hp
    simp only [Block.items, List.map_map] at hp
    have e : (Backpatch.Item.resolve (fun f v => FixInfo.fix j v f) (entry j) ∘
        Backpatch.Item.word : Insn → Insn) = id := rfl
    rw [e, List.map_id] at hp
    simp only [items, hb, Block.items, padded]
    exact hp
  clear := h.clear
  few := fun i => (h.few i).trans (Nat.le_succ k)

/-- A reference to an instruction that has been moved, or to itself. -/
theorem near_mid (hj : j.count ≤ 10) (hk : k < j.count) {tmpl : Insn} {ls : Nat} {ad : Insn} {ref : Nat}
    (hb : blk j k = .near tmpl ls ad ref) (hr : ref ≤ k) :
    Mid j k (emit [link tmpl ls ad ((resetCurrentIns j k s).ins ref - outp j s)]
      (resetCurrentIns j k s)) where
  inp := h.inp
  here := by
    have h0 := h.here
    rw [(near_here hb).2]
    simp only [outp, emit, resetCurrentIns, List.length_append, List.length_singleton] at h0 ⊢
    push_cast
    omega
  ins := ins_update h (h.here.trans (near_here hb).1)
  filled := by
    have hv : (resetCurrentIns j k s).ins ref = entry j ref := by
      have := ins_update h (h.here.trans (near_here hb).1) ref
      rwa [if_pos (Nat.lt_succ_of_le hr)] at this
    have ho : outp j s = j.slot + 4 * (items j k).length := by rw [outp, h.filled.length]
    have hf : FixInfo.fix j (entry j ref) ⟨(items j k).length, ls, ad⟩ (link tmpl ls ad 0) =
        link tmpl ls ad (entry j ref - outp j s) := by
      have h0 := @entry_bounds j ref
      have h1 := @start_le j k
      rw [← h.here] at h1
      rw [fix_link (by omega) (by omega), ho]
    have hp := h.filled.put (.hole (link tmpl ls ad 0) ⟨(items j k).length, ls, ad⟩ ref)
    simp only [items, hb, Block.items, emit, hv, ← hf]
    exact hp
  clear := h.clear
  few := fun i => (h.few i).trans (Nat.le_succ k)

/-- A reference to an instruction that is yet to be moved. -/
theorem open_mid (hj : j.count ≤ 10) (hk : k < j.count) {tmpl : Insn} {ls : Nat} {ad : Insn} {ref : Nat}
    (hb : blk j k = .near tmpl ls ad ref) (hr : k < ref) (hc : ref < j.count) :
    Mid j k (emit [link tmpl ls ad 0]
      (insertFixMap ref ⟨s.out.length, ls, ad⟩ (resetCurrentIns j k s))) := by
  have hi : insertFixMap ref ⟨s.out.length, ls, ad⟩ (resetCurrentIns j k s) =
      { resetCurrentIns j k s with
        fmap := Function.update s.fmap ref (s.fmap ref ++ [⟨s.out.length, ls, ad⟩]) } := by
    have hlt : (s.fmap ref).length < maxReferences := by
      have := h.few ref
      unfold maxReferences
      omega
    exact if_pos hlt
  rw [hi]
  refine ⟨h.inp, ?_, ins_update h (h.here.trans (near_here hb).1), ?_, ?_, ?_⟩
  · have h0 := h.here
    rw [(near_here hb).2]
    simp only [outp, emit, resetCurrentIns, List.length_append, List.length_singleton] at h0 ⊢
    push_cast
    omega
  · have hp := h.filled.refer (link tmpl ls ad 0) ⟨s.out.length, ls, ad⟩ ref rfl
    simp only [items, hb, Block.items, emit, ← h.filled.length]
    exact hp
  · intro i hi
    have hne : i ≠ ref := by omega
    simp only [emit, Function.update_of_ne hne]
    exact h.clear i hi
  · intro i
    simp only [emit, Function.update_apply]
    split
    · have := h.few ref
      simp only [List.length_append, List.length_singleton]
      omega
    · exact (h.few i).trans (Nat.le_succ k)

end Step

theorem step_inv {k : Nat} {s : Context} (hb : j.base % 4 = 0) (hs : j.slot % 4 = 0)
    (hc : j.count ≤ 10) (hk : k < j.count) (h : Inv j k s) : Inv j (k + 1) (fixOne j s) := by
  have ha : outp j s % 4 = 0 := h.here ▸ start_aligned hs k
  have hins : ∀ i, s.ins i % 4 = 0 := by
    intro i
    rw [h.ins]
    split
    · have := start_aligned hs i
      unfold entry
      omega
    · rfl
  have hidx : getRefInsIndex j s.inp = k := by rw [h.inp, idx_eq]
  have hblk : block j s.inp (outp j s) = blk j k := by rw [h.inp, h.here]; rfl
  have hin := @block_inside j (j.base + 4 * k) (start j k)
  rw [fixOne_eq hb ha hins, hblk]
  cases hbk : blk j k with
  | fixed pad ws =>
    simp only [Block.write, hidx]
    exact (fixed_mid h hbk).inv
  | near tmpl ls ad ref =>
    have href : ref < j.count := by
      rw [show block j (j.base + 4 * k) (start j k) = _ from hbk] at hin
      exact hin
    simp only [Block.write, hidx]
    split
    · exact (near_mid h hc hk hbk ‹_›).inv
    · exact (open_mid h hc hk hbk (by omega) href).inv

/-! ## The whole pass -/

theorem fixLoop_succ (k : Nat) (s : Context) : fixLoop j (k + 1) s = fixOne j (fixLoop j k s) := by
  induction k generalizing s with
  | zero => rfl
  | succ k ih => exact ih (fixOne j s)

theorem fixLoop_inv (hb : j.base % 4 = 0) (hs : j.slot % 4 = 0) (hc : j.count ≤ 10) {k : Nat}
    (hk : k ≤ j.count) : Inv j k (fixLoop j k (Context.start j)) := by
  induction k with
  | zero => exact start_inv
  | succ k ih =>
    rw [fixLoop_succ]
    exact step_inv hb hs hc hk (ih (Nat.le_of_succ_le hk))

@[simp] theorem Block.length_items (b : Block) (p : Nat) : (Block.items p b).length = b.pad + b.size := by
  cases b <;> simp [Block.items, Block.pad, Block.size]

@[simp] theorem Block.length_words (b : Block) (e : Nat → Int) (a : Int) : (b.words e a).length = b.size := by
  cases b <;> rfl

theorem items_start (k : Nat) : start j k = j.slot + 4 * (items j k).length := by
  induction k with
  | zero => simp [start, items]
  | succ k ih =>
    rw [start_succ, entry, items, List.length_append, Block.length_items]
    push_cast
    omega

theorem code_start (k : Nat) : start j k = j.slot + 4 * (code j k).length := by
  induction k with
  | zero => simp [start, code]
  | succ k ih =>
    rw [start_succ, entry, code, List.length_append, List.length_append, List.length_replicate,
      Block.length_words]
    push_cast
    omega

theorem items_code {k : Nat} (hk : k ≤ 10) (hc : j.count ≤ 10) :
    (items j k).map (Backpatch.Item.resolve (fun f v => FixInfo.fix j v f) (entry j)) = code j k := by
  induction k with
  | zero => rfl
  | succ k ih =>
    rw [items, code, List.map_append, ih (by omega)]
    congr 1
    have hin := @block_inside j (j.base + 4 * k) (start j k)
    cases hb : blk j k with
    | fixed pad ws =>
      simp only [Block.items, List.map_map, Block.pad, Block.words]
      exact List.map_id _
    | near tmpl ls ad ref =>
      have href : ref < j.count := by
        rw [show block j (j.base + 4 * k) (start j k) = _ from hb] at hin
        exact hin
      have h0 := @entry_bounds j ref
      have h1 := @start_le j k
      rw [items_start] at h1
      simp only [Block.items, List.map_cons, List.map_nil, Backpatch.Item.resolve, Block.pad,
        Block.words, List.replicate_zero, List.nil_append]
      rw [fix_link (by omega) (by omega), ← (near_here hb).1, items_start]

/-- What the pass with the fix map has written in the end is what a pass that
knows all addresses writes. -/
theorem pass_out (hb : j.base % 4 = 0) (hs : j.slot % 4 = 0) (hc : j.count ≤ 10) :
    let s := fixLoop j j.count (Context.start j)
    s.out = code j j.count ∧ s.inp = j.endp ∧ outp j s = start j j.count := by
  have h := fixLoop_inv hb hs hc (Nat.le_refl j.count)
  have hn : ∀ i, (fixLoop j j.count (Context.start j)).fmap i = [] :=
    fun i => h.clear i (Nat.lt_or_ge i j.count)
  refine ⟨?_, h.inp, h.here⟩
  exact (h.filled.out_eq hn).trans (items_code hc hc)

/-- The jump behind the moved instructions. -/
def exitBlock (t a : Int) : Block :=
  if ((t - a) / 4).natAbs > 0x03ffffff then .fixed (if (a + 8) % 8 = 0 then 0 else 1) (farJump t)
  else .fixed 0 [link (branchOp false) 0 0x03ffffff (t - a)]

theorem exitBlock_size (t a : Int) : (exitBlock t a).pad + (exitBlock t a).size ≤ 5 := by
  unfold exitBlock
  split
  · simp only [Block.pad, Block.size, length_farJump]
    split <;> omega
  · simp [Block.pad, Block.size]

variable (j) in
def exit : Block := exitBlock j.endp (start j j.count)

theorem fixInstructions_out (hb : j.base % 4 = 0) (hs : j.slot % 4 = 0) (hc : j.count ≤ 10) :
    (fixInstructions j).out =
      code j j.count ++ (List.replicate (exit j).pad nop ++ (exit j).words (entry j) 0) := by
  obtain ⟨h1, h2, h3⟩ := pass_out hb hs hc
  rw [fixInstructions, jumpBack]
  generalize fixLoop j j.count (Context.start j) = s at h1 h2 h3
  have hw : 0x14000000 ||| (BitVec.ofInt 32 ((j.endp - start j j.count) / 4) &&& 0x03ffffff) =
      link (branchOp false) 0 0x03ffffff (j.endp - start j j.count) := by
    rw [link, BitVec.or_comm, BitVec.shiftLeft_zero]
    rfl
  simp only [h2, h3, exit, exitBlock]
  split
  · simp only [Block.pad, Block.words]
    split <;> simp_all [emit, farJump]
  · simp only [emit, h1, hw, Block.pad, Block.words]
    rfl

/-- **One pass is enough.** The single pass with its fix map writes what is
written when the blocks are laid out first: afterwards no reference is open,
no entry of the fix map has been lost, and each instruction is recorded where
its block stands. -/
theorem one_pass (j : Job) (hb : j.base % 4 = 0) (hs : j.slot % 4 = 0) (hc : j.count ≤ 10) :
    (fixInstructions j).out =
        code j j.count ++ (List.replicate (exit j).pad nop ++ (exit j).words (entry j) 0) ∧
      (∀ i, (fixInstructions j).fmap i = []) ∧ ∀ i < j.count, (fixInstructions j).ins i = entry j i := by
  have h := fixLoop_inv hb hs hc (Nat.le_refl j.count)
  have hj (s : Context) : (jumpBack j s).fmap = s.fmap ∧ (jumpBack j s).ins = s.ins := by
    rw [jumpBack]
    simp only
    split
    · split <;> exact ⟨rfl, rfl⟩
    · exact ⟨rfl, rfl⟩
  refine ⟨fixInstructions_out hb hs hc, ?_, ?_⟩
  · intro i
    rw [fixInstructions, (hj _).1]
    exact h.clear i (Nat.lt_or_ge i j.count)
  · intro i hi
    rw [fixInstructions, (hj _).2, h.ins, if_pos hi]

/-- A branch over two instructions, one of them a branch back. -/
theorem one_pass_loop :
    let j : Job := ⟨fun a => if a = 0 then 0x14000003 else if a = 8 then 0x17fffffe else nop, 0, 4, 0x100⟩
    (fixInstructions j).out =
        code j j.count ++ (List.replicate (exit j).pad nop ++ (exit j).words (entry j) 0) ∧
      (∀ i, (fixInstructions j).fmap i = []) ∧ ∀ i < j.count, (fixInstructions j).ins i = entry j i :=
  one_pass _ (by decide) (by decide) (by decide)

end DumpDex.L3.MovedLayout
