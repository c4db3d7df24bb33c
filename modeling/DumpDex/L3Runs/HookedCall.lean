import DumpDex.L2Machine.And64InlineHook
import DumpDex.L3Runs.MovedRun

/-!
# A hooked function on arm64 (`And64InlineHook.cpp`, `A64HookFunctionV`)

The whole of `A64HookFunctionV` on instruction memory: the slot is filled, and
the moved instructions are overwritten with a branch to the replacement.

* `patch_length`: exactly the moved instructions are overwritten.
* `hosted`: after the call the slot hosts them.
* `hooked_enters`: a call of the function arrives in the replacement.
* `hooked_runs`: a call of the slot does what the function did.
* `hookFunctionV_refines`: what `And64InlineHook` says of the call, of which it
  knows no words, is so.
-/
namespace DumpDex.L3.HookedCall
open DumpDex.Core DumpDex.Core.A64 DumpDex.L2.FixInstructions
open DumpDex.L3.MovedLayout DumpDex.L3.MovedCode DumpDex.L3.MovedRun

/-- `ws` written from `a` on. -/
def store (a : Int) (ws : List Insn) (text : Text) : Text := fun x =>
  if a ≤ x ∧ x < a + 4 * ws.length then ws.getD ((x - a) / 4).toNat 0 else text x

/-- Too far for a single branch. -/
def far (symbol replace : Int) : Bool := ((replace - symbol) / 4).natAbs > 0x03ffffff

/-- mirrors app/src/main/cpp/And64InlineHook.cpp:532-534 -/
def count (symbol replace : Int) : Nat :=
  if far symbol replace then (if (symbol + 8) % 8 ≠ 0 then 5 else 4) else 1

/-- What is written over the function.
mirrors app/src/main/cpp/And64InlineHook.cpp:543-549, 567-568 -/
def patch (symbol replace : Int) : List Insn :=
  if far symbol replace then
    (if count symbol replace = 5 then [nop] else []) ++ [0x58000051, 0xd61f0220] ++ dword replace
  else [0x14000000 ||| (BitVec.ofInt 32 ((replace - symbol) / 4) &&& 0x03ffffff)]

/-- mirrors app/src/main/cpp/And64InlineHook.cpp:525-580 -/
def hookFunctionV (makeRwx : Bool) (text : Text) (symbol replace : Int) (trampoline : Option Int)
    (rwxSize : Nat) : Option Int × Text :=
  let moved : Option Text :=
    match trampoline with
    | none => some text
    | some slot =>
      if rwxSize < count symbol replace * 10 then none
      else some (store slot (fixInstructions ⟨text, symbol, count symbol replace, slot⟩).out text)
  match moved with
  | none => (none, text)
  | some text => if makeRwx then (trampoline, store symbol (patch symbol replace) text) else (none, text)

/-- The instructions such a call moves. -/
def job (text : Text) (symbol replace slot : Int) : Job :=
  ⟨text, symbol, count symbol replace, slot⟩

theorem count_le (symbol replace : Int) : count symbol replace ≤ 5 := by
  unfold count
  split
  · split <;> decide
  · decide

variable {plain : Insn → Regs → Regs} {text : Text} {symbol replace slot : Int}

theorem patch_length : (patch symbol replace).length = count symbol replace := by
  unfold patch
  split
  · rename_i h
    have h45 : count symbol replace = 5 ∨ count symbol replace = 4 := by
      rw [count, if_pos h]
      split <;> simp
    rcases h45 with h | h <;> simp [h]
  · rename_i h
    rw [count, if_neg h]
    rfl

theorem store_at (a : Int) (ws : List Insn) (text : Text) : At (store a ws text) a ws := by
  intro k w hk
  have hlt := (List.getElem?_eq_some_iff.mp hk).1
  have e : ((a + 4 * (k : Int) - a) / 4).toNat = k := by omega
  rw [store, if_pos (by omega), e, List.getD_eq_getElem?_getD, hk]
  rfl

theorem store_out {a x : Int} {ws : List Insn} (h : x < a ∨ a + 4 * ws.length ≤ x) :
    store a ws text x = text x := if_neg (by omega)

theorem out_length {j : Job} (hb : j.base % 4 = 0) (hs : j.slot % 4 = 0) (hc : j.count ≤ 10) :
    (fixInstructions j).out.length ≤ 9 * j.count + 5 := by
  have h0 := @start_le j j.count
  have h1 := @code_start j j.count
  have h2 := exitBlock_size j.endp (start j j.count)
  rw [fixInstructions_out hb hs hc, List.length_append, List.length_append,
    List.length_replicate, Block.length_words]
  unfold exit
  omega

/-- The slot has room for what a call writes there. -/
theorem slot_holds (text : Text) (symbol replace slot : Int) (hb : symbol % 4 = 0) (hs : slot % 4 = 0) :
    (fixInstructions (job text symbol replace slot)).out.length ≤ L2.And64InlineHook.maxInstructions * 10 := by
  have hc := count_le symbol replace
  have e : (job text symbol replace slot).count = count symbol replace := rfl
  have h := @out_length (job text symbol replace slot) hb hs (by omega)
  unfold L2.And64InlineHook.maxInstructions
  omega

theorem slot_holds_nops :
    (fixInstructions (job (fun _ => nop) 0x10004 0x40000000 0x8000)).out.length ≤ 50 :=
  slot_holds _ _ _ _ (by decide) (by decide)

theorem endp_job (text : Text) (symbol replace slot : Int) :
    (job text symbol replace slot).endp = symbol + 4 * (patch symbol replace).length := by
  rw [patch_length]
  rfl

/-- After the call the slot hosts the instructions. -/
theorem hosted (hf : Fits (job text symbol replace slot)) :
    Hosted (job text symbol replace slot)
      (store symbol (patch symbol replace)
        (store slot (fixInstructions (job text symbol replace slot)).out text)) := by
  have hfew := hf.few
  have hroom := @out_length (job text symbol replace slot) hf.base_al hf.slot_al (by omega)
  have hap := hf.apart
  have hend := endp_job text symbol replace slot
  have hbase : (job text symbol replace slot).base = symbol := rfl
  have hslot : (job text symbol replace slot).slot = slot := rfl
  have hcount : (job text symbol replace slot).count = count symbol replace := rfl
  refine ⟨?_, ?_⟩
  · intro k w hk
    have hlt := (List.getElem?_eq_some_iff.mp hk).1
    rw [store_out (by omega), hslot]
    exact store_at slot _ text k w hk
  · intro a hs hw
    unfold InSlot at hs
    rw [← Bool.not_eq_true, inRange_iff] at hw
    rw [store_out (by omega), store_out (by omega)]
    rfl

/-! ## The branch to the replacement -/

/-- It is the jump behind moved instructions once more. -/
theorem patch_eq (e : Nat → Int) (b : Int) : patch symbol replace =
    List.replicate (exitBlock replace symbol).pad nop ++ (exitBlock replace symbol).words e b := by
  have hfar : far symbol replace = true ↔ ((replace - symbol) / 4).natAbs > 0x03ffffff := by
    simp [far]
  unfold patch exitBlock
  by_cases h : ((replace - symbol) / 4).natAbs > 0x03ffffff
  · have hc : count symbol replace = 5 ↔ ¬ (symbol + 8) % 8 = 0 := by
      rw [count, if_pos (hfar.mpr h)]
      split <;> simp_all
    rw [if_pos (hfar.mpr h), if_pos h]
    simp only [hc, Block.pad, Block.words]
    by_cases h8 : (symbol + 8) % 8 = 0
    · rw [if_neg (not_not.mpr h8), if_pos h8]
      rfl
    · rw [if_pos h8, if_neg h8]
      rfl
  · rw [if_neg (fun hf => h (hfar.mp hf)), if_neg h]
    simp only [Block.pad, Block.words, link, BitVec.shiftLeft_zero, List.replicate_zero,
      List.nil_append]
    rw [BitVec.or_comm]
    rfl

/-- Instruction memory after a call that patches. -/
def hooked (text : Text) (symbol replace slot : Int) : Text :=
  (hookFunctionV true text symbol replace (some slot) (L2.And64InlineHook.maxInstructions * 10)).2

theorem hookFunctionV_eq (makeRwx : Bool) (text : Text) (symbol replace slot : Int) :
    let moved := store slot (fixInstructions (job text symbol replace slot)).out text
    hookFunctionV makeRwx text symbol replace (some slot) (L2.And64InlineHook.maxInstructions * 10) =
      if makeRwx then (some slot, store symbol (patch symbol replace) moved) else (none, moved) := by
  have hcount : ¬ L2.And64InlineHook.maxInstructions * 10 < count symbol replace * 10 := by
    have := count_le symbol replace
    unfold L2.And64InlineHook.maxInstructions
    omega
  simp only [hookFunctionV, if_neg hcount]
  rfl

theorem hooked_eq (text : Text) (symbol replace slot : Int) :
    hooked text symbol replace slot = store symbol (patch symbol replace)
      (store slot (fixInstructions (job text symbol replace slot)).out text) := by
  rw [hooked, hookFunctionV_eq]
  rfl

/-- A call of the function arrives in the replacement, X17 apart with the
registers it was made with. -/
theorem hooked_enters (h4 : (replace - symbol) % 4 = 0) (hlo : -2 ^ 63 ≤ replace)
    (hhi : replace < 2 ^ 63) (hreach : Reach (2 ^ 27) (replace - symbol)) (r : Regs) :
    ∃ r', Steps plain (hooked text symbol replace slot) (r, symbol) (r', replace) ∧
      (r' = r ∨ Regs.Off17 r r') := by
  have hat := store_at symbol (patch symbol replace)
    (store slot (fixInstructions (job text symbol replace slot)).out text)
  rw [← hooked_eq, patch_eq (fun _ => 0) 0] at hat
  exact exitBlock_steps hlo hhi h4 hreach r hat

/-- `CBZ X0, #8; BL #0x1000; ADRP X0, #0x1000; LDR X1, #0x40` -/
def sample : Text := fun a =>
  if a = 0x10000 then 0xb4000040
  else if a = 0x10004 then 0x94000400
  else if a = 0x10008 then 0xb0000000
  else if a = 0x1000c then 0x58000201
  else nop

def zeros : Regs := ⟨fun _ => 0, fun _ => 0, false, false, false, false, fun _ => 0⟩

theorem hooked_enters_sample :
    ∃ r', Steps (fun _ r => r) (hooked sample 0x10000 0x40000000 0x8000) (zeros, 0x10000)
      (r', 0x40000000) ∧ (r' = zeros ∨ Regs.Off17 zeros r') :=
  hooked_enters (by decide) (by decide) (by decide) (by unfold Reach; decide) zeros

/-- A call of the slot does what the function did, but that the addresses its
moved instructions leave in registers are those of their blocks (`original`). -/
theorem hooked_runs (hr : Relocatable (job text symbol replace slot)) (r : Regs) {n : Nat}
    (hn : Stays plain (job text symbol replace slot) (r, symbol) n) :
    ∃ s', Steps plain (hooked text symbol replace slot) (r, slot) s' ∧
      Rel (job text symbol replace slot)
        ((original plain (job text symbol replace slot))^[n] (r, symbol)) s' := by
  have e : (job text symbol replace slot).base + 4 * ((0 : Nat) : Int) = symbol := by simp [job]
  have ht := hosted hr.fits
  have hn' : Stays plain (job text symbol replace slot)
      (r, (job text symbol replace slot).base + 4 * ((0 : Nat) : Int)) n := by rw [e]; exact hn
  rw [← hooked_eq] at ht
  have h := run_from hr ht (Nat.zero_le _) r hn'
  rw [e] at h
  exact h

theorem relocatable_sample : Relocatable (job sample 0x10000 0x40000000 0x8000) where
  fits := by
    constructor <;> decide
  movable := by
    have h0 : decode (sample 0x10000) = .bcond (.cbz true false 0) 8 := by decide
    have h1 : decode (sample 0x10004) = .bl 0x1000 := by decide
    have h2 : decode (sample 0x10008) = .adrp 0 0x1000 := by decide
    have h3 : decode (sample 0x1000c) = .ldr .x 1 0x40 := by decide
    intro k hk
    have hc : k < 4 := hk
    match k with
    | 0 => exact (show Movable _ _ (decode (sample 0x10000)) from h0 ▸ ⟨by decide, .inl (by decide)⟩)
    | 1 =>
      change Movable _ 0x10004 (decode (sample 0x10004))
      rw [h1]
      refine .inr fun a ⟨hlo, hhi⟩ _ => ?_
      simp only [job] at hlo hhi
      unfold Reach
      omega
    | 2 => exact (show Movable _ _ (decode (sample 0x10008)) from h2 ▸ ⟨by decide, by decide⟩)
    | 3 =>
      change Movable _ 0x1000c (decode (sample 0x1000c))
      rw [h3]
      refine ⟨by decide, .inr (by decide), .inr fun a ⟨hlo, hhi⟩ _ => ?_⟩
      simp only [job] at hlo hhi
      omega
  exit := by
    intro a ⟨hlo, hhi⟩ _
    have e : (job sample 0x10000 0x40000000 0x8000).endp = 0x10010 := by decide
    simp only [job] at hlo hhi
    unfold Reach
    omega

theorem hooked_runs_sample :
    ∃ s', Steps (fun _ r => r) (hooked sample 0x10000 0x40000000 0x8000) (zeros, 0x8000) s' ∧
      Rel (job sample 0x10000 0x40000000 0x8000)
        ((original (fun _ r => r) (job sample 0x10000 0x40000000 0x8000))^[2] (zeros, 0x10000)) s' := by
  refine hooked_runs relocatable_sample zeros ?_
  have h0 : decode (sample 0x10000) = .bcond (.cbz true false 0) 8 := by decide
  have h2 : decode (sample 0x10008) = .adrp 0 0x1000 := by decide
  intro m hm
  match m with
  | 0 =>
    refine ⟨⟨0, by decide, rfl⟩, ?_⟩
    change Leaves _ _ (decode (sample 0x10000))
    rw [h0]
    trivial
  | 1 =>
    have e : original (fun _ r => r) (job sample 0x10000 0x40000000 0x8000) (zeros, 0x10000) =
        (zeros, 0x10008) := by
      have h : decode ((job sample 0x10000 0x40000000 0x8000).text 0x10000) = _ := h0
      rw [original, step, h]
      rfl
    rw [Function.iterate_one, e]
    refine ⟨⟨2, by decide, rfl⟩, ?_⟩
    change Leaves _ _ (decode (sample 0x10008))
    rw [h2]
    trivial

/-! ## The call without the words -/

theorem aligned_iff (x : BitVec 64) : (x + 8) &&& 7 = 0 ↔ ((x.toNat : Int) + 8) % 8 = 0 := by
  have h : (x + 8) &&& 7 = (x + 8) % 8 := by
    apply BitVec.eq_of_toNat_eq
    rw [BitVec.toNat_and, BitVec.toNat_umod]
    exact Nat.and_two_pow_sub_one_eq_mod (x + 8).toNat 3
  have hlt := x.isLt
  rw [h, ← BitVec.toNat_inj, BitVec.toNat_umod, BitVec.toNat_add]
  change (x.toNat + 8) % 2 ^ 64 % 8 = 0 ↔ _
  omega

theorem count_refines {env : L2.And64InlineHook.HookEnv} (hfar : env.far = far symbol replace)
    {addr : L2.And64InlineHook.Addr} (ha : symbol = addr.toNat) :
    L2.And64InlineHook.count env addr = count symbol replace := by
  have h8 : (addr + 8) &&& 7 = 0 ↔ (symbol + 8) % 8 = 0 := ha ▸ aligned_iff addr
  rw [L2.And64InlineHook.count, count, hfar]
  simp only [ne_eq, h8]

/-- Whether the call patches, and what it returns, is what the model of
`And64InlineHook` says; if it does not, nothing but the slot has changed. -/
theorem hookFunctionV_refines {env : L2.And64InlineHook.HookEnv} (hfar : env.far = far symbol replace)
    {addr : L2.And64InlineHook.Addr} (ha : symbol = addr.toNat)
    (m : L2.HookEngine.Mem .arm64) (new : L2.DeviceUtils.NewFn)
    (trampoline : L2.HookEngine.Trampoline .arm64) (rwxSize : Nat) :
    let c := hookFunctionV env.makeRwx text symbol replace (some slot) rwxSize
    match L2.And64InlineHook.a64HookFunctionV env m addr new trampoline rwxSize with
    | (some t, m') =>
      t = trampoline ∧ m' = m.patch addr new ∧ c.1 = some slot ∧ At c.2 symbol (patch symbol replace)
    | (none, m') => m' = m ∧ c.1 = none ∧
        ∀ x, x < slot ∨ slot + 4 * (fixInstructions (job text symbol replace slot)).out.length ≤ x →
          c.2 x = text x := by
  simp only [L2.And64InlineHook.a64HookFunctionV, count_refines hfar ha]
  by_cases hsize : rwxSize < count symbol replace * 10
  · simp [hookFunctionV, hsize]
  · cases env.makeRwx with
    | true =>
      simp only [hookFunctionV, if_neg hsize, if_true, true_and]
      exact store_at _ _ _
    | false =>
      simp only [hookFunctionV, if_neg hsize, Bool.false_eq_true, if_false, true_and]
      exact fun x hx => store_out hx

/-- The page of the function cannot be made writable. -/
theorem hookFunctionV_refines_readonly :
    let env : L2.And64InlineHook.HookEnv := ⟨fun _ => L2.HookEngine.demoTrampoline, true, false⟩
    let c := hookFunctionV false sample 0x10000 0x40000000 (some 0x8000) 50
    match L2.And64InlineHook.a64HookFunctionV env .clean 0x10000#64 .arm64OpenMemory
      L2.HookEngine.demoTrampoline 50 with
    | (some t, m') => t = L2.HookEngine.demoTrampoline ∧
        m' = (@L2.HookEngine.Mem.clean .arm64).patch 0x10000#64 .arm64OpenMemory ∧ c.1 = some 0x8000 ∧
        At c.2 0x10000 (patch 0x10000 0x40000000)
    | (none, m') => m' = .clean ∧ c.1 = none ∧
        ∀ x : Int, x < 0x8000 ∨ 0x8000 + 4 * (fixInstructions (job sample 0x10000 0x40000000 0x8000)).out.length ≤ x →
          c.2 x = sample x := by
  refine @hookFunctionV_refines sample 0x10000 0x40000000 0x8000
    ⟨fun _ => L2.HookEngine.demoTrampoline, true, false⟩ ?_ 0x10000#64 ?_ .clean .arm64OpenMemory
    L2.HookEngine.demoTrampoline 50
  · decide
  · decide

end DumpDex.L3.HookedCall
