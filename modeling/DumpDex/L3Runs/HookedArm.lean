import DumpDex.L3Runs.HookedWindows
import DumpDex.L3Runs.MovedArm
import DumpDex.L3Runs.RelocatedLayout

/-!
# A hooked ARM function (`inlineHook.c`)

What a processor meets in a hooked ARM function and in its trampoline, on the
bytes that the engine writes.

* `hooked_entered`: as soon as it is hooked, a call of the function arrives in
  its replacement, whatever else is in the table.
* `run_entered`: in every run in which no bytes are saved twice, it does so
  for as long as it is hooked.
* `hooked_moves`, `hooked_alike`: calling the trampoline does what the first
  two instructions of the function did.
-/
namespace DumpDex.L3.HookedArm
open DumpDex.Core DumpDex.Core.A32 DumpDex.Core.Straight DumpDex.Core.Runs
open DumpDex.L2.InlineHook (testBit0)
open DumpDex.L2.InlineHookEngine (Engine RegisterIO InlineHookItem Tid load store clearBit0 fillItem
  findInlineHookItem)
open DumpDex.L2.Relocate hiding Addr
open DumpDex.L3.ArmBlocks DumpDex.L3.MovedArm
open DumpDex.L3.EngineSteps hiding step
open DumpDex.L3.HookedWindows
open DumpDex.L3.RelocatedLayout (testBit0_iff)

/-! ## Bytes and words -/

section Bytes
variable {text : Memory} {a : Addr}

theorem Holds.append {bs cs : List Byte} (h : Holds text a (bs ++ cs)) :
    Holds text (a + BitVec.ofNat 32 bs.length) cs := by
  intro k b hk
  have hb := h (bs.length + k) b (by rw [List.getElem?_append_right (by omega), Nat.add_sub_cancel_left, hk])
  rwa [BitVec.ofNat_add, ← BitVec.add_assoc] at hb

theorem at_of_holds {ws : List Insn} (h : Holds text a (ws.flatMap bytes32)) : At text a ws := by
  induction ws generalizing a with
  | nil => trivial
  | cons w ws ih =>
    have h0 : text (a + BitVec.ofNat 32 0) = w.extractLsb' 0 8 := h 0 _ rfl
    rw [show a + BitVec.ofNat 32 0 = a from BitVec.add_zero a] at h0
    exact ⟨word_of_bytes h0 (h 1 _ rfl) (h 2 _ rfl) (h 3 _ rfl),
      ih (@Holds.append text a (bytes32 w) (ws.flatMap bytes32) h)⟩

end Bytes

theorem store_holds {a : Addr} {bs : List Byte} (code : Addr → Byte) (h : bs.length ≤ 2 ^ 32) :
    Holds (store a bs code) a bs := by
  intro k b hk
  have hlt : k < bs.length := by
    by_contra hn
    rw [List.getElem?_eq_none (by omega)] at hk
    cases hk
  rw [store, Bits.add_sub_toNat (by omega), hk]
  rfl

theorem word_eq (code : Addr → Byte) : L2.InlineHookEngine.word code = word code := by
  funext a
  have h : load code a 4 = [code (a + BitVec.ofNat 32 0), code (a + 1), code (a + 2), code (a + 3)] := rfl
  rw [L2.InlineHookEngine.word, h, show a + BitVec.ofNat 32 0 = a from BitVec.add_zero a]
  rfl

variable {plain : Insn → Addr → Regs → Regs × Option Addr} {targetAddr : Addr}

theorem clear_arm (h : testBit0 targetAddr = false) : clearBit0 targetAddr = targetAddr := by
  have h0 : targetAddr &&& 1 = 0 := not_not.mp (of_decide_eq_false h)
  have hones : (0xFFFFFFFE ||| 1 : Addr) = BitVec.allOnes 32 := by decide
  calc clearBit0 targetAddr = (targetAddr &&& 0xFFFFFFFE) ||| (targetAddr &&& 1) := by
        rw [h0]
        exact BitVec.or_zero.symm
    _ = targetAddr := by rw [← BitVec.and_or_distrib_left, hones, BitVec.and_allOnes]

/-- The words at the target. -/
theorem saved_words (code : Addr → Byte) (a : Addr) :
    wordsOf (load code a 8) = [word code a, word code (a + 4)] := by
  have h : load code a 8 = [code (a + BitVec.ofNat 32 0), code (a + 1), code (a + 2), code (a + 3), code (a + 4),
      code (a + 5), code (a + 6), code (a + 7)] := rfl
  rw [h, show a + BitVec.ofNat 32 0 = a from BitVec.add_zero a]
  simp only [wordsOf, word, BitVec.add_assoc]
  rfl

theorem fillItem_arm {io : RegisterIO} {code : Addr → Byte} {newAddr protoAddr : Addr}
    {slot item : InlineHookItem} {out : List Byte} (ht : testBit0 targetAddr = false)
    (h : fillItem io code targetAddr newAddr protoAddr slot = some (item, out)) :
    out = (relocateInstructionInArm (word code) targetAddr
      [word code targetAddr, word code (targetAddr + 4)]).out.flatMap bytes32 := by
  have ht' : ¬ targetAddr &&& 1 = 1 := fun e => by
    rw [testBit0_iff.mpr e] at ht
    cases ht
  obtain ⟨ints, -, he⟩ := Option.map_eq_some_iff.mp h
  rw [ht, clear_arm ht, word_eq] at he
  cases he
  unfold relocateInstruction
  rw [if_neg ht', if_neg Bool.false_ne_true, saved_words]

variable {s t s' : Engine} {io : RegisterIO} {newAddr protoAddr place : Addr} {attached : Tid → Bool} {text : Memory}

/-! ## The entry -/

/-- The patch is a jump. -/
theorem patch_jumps (ht : testBit0 targetAddr = false)
    (h : Holds text targetAddr (L2.InlineHookEngine.patch targetAddr newAddr)) (r : Regs) :
    Steps plain text (r, targetAddr) (r, newAddr) := by
  rw [L2.InlineHookEngine.patch, ht, if_neg Bool.false_ne_true] at h
  exact jump_does (b := targetAddr) (at_of_holds h) r

/-- **A hooked ARM function, entered.** Once it is registered and hooked, a
call of it arrives in the replacement with the registers as they were. -/
theorem hooked_entered (hx : io.targetExecutable = true ∧ io.newExecutable = true)
    (hnew : findInlineHookItem s.info targetAddr = none) (ht : testBit0 targetAddr = false)
    (hreg : EngineSteps.step s (.register io targetAddr newAddr protoAddr) = some t)
    (hhook : EngineSteps.step t (.hook attached targetAddr) = some s') (r : Regs) :
    Steps plain s'.code (r, targetAddr) (r, newAddr) := by
  obtain ⟨item, out, hfill, rfl⟩ := register_ok hx hnew hreg
  obtain ⟨h1, h2, -, -, -, hst, -⟩ := fillItem_spec hfill
  have hi := @entered_last s io.page item out
  have hfirst : ∀ j < s.info.size, ((entered s io.page item out).info.item j).targetAddr ≠ targetAddr := by
    intro j hj
    rw [entered_item hj]
    exact find_none hnew hj
  have hcode := (hook_ok (Nat.lt_succ_self s.info.size) (by rw [hi, h1]) hfirst (by rw [hi, hst]) hhook).1
  rw [hi, clear_arm ht, InlineHookItem.patch, h1, h2] at hcode
  refine patch_jumps ht ?_ r
  rw [hcode]
  refine store_holds _ ?_
  rw [L2.InlineHookEngine.patch, ht, if_neg Bool.false_ne_true]
  simp [bytes32]

theorem hooked_entered_sample : ∃ s' : Engine,
    (EngineSteps.step (started (fun _ => 0) fun _ => 0) (.register ⟨true, true, 0x20000⟩ 0x8000 0x12345678 0)).bind
        (EngineSteps.step · (.hook (fun _ => true) 0x8000)) = some s' ∧
      ∀ r, Steps (fun _ _ r => (r, none)) s'.code (r, 0x8000) (r, 0x12345678) := by
  have hreg : EngineSteps.step (started (fun _ => 0) fun _ => 0)
      (.register ⟨true, true, 0x20000⟩ 0x8000 0x12345678 0) = some _ := rfl
  exact ⟨_, rfl, hooked_entered ⟨rfl, rfl⟩ rfl rfl hreg rfl⟩

/-- **In every run.** As long as no target is registered whose bytes another
item has saved, a call of a hooked ARM function arrives in its replacement
with the registers as they were, whatever has been hooked and unhooked. -/
theorem run_entered {es : List Event} (h : s.info.size = 0) (hm : MeetsM EngineSteps.step (Asks Apart) s es)
    (hr : es.foldlM EngineSteps.step s = some s') {i : Nat} (hi : i < s'.info.size)
    (hs : (s'.info.item i).status = .hooked) (ht : testBit0 (s'.info.item i).targetAddr = false) (r : Regs) :
    Steps plain s'.code (r, (s'.info.item i).targetAddr) (r, (s'.info.item i).newAddr) := by
  have hg : Good s.code s' := run_good (fun _ _ h => h) h hm hr
  refine patch_jumps ht (fun k b hb => ?_) r
  have hin := hg.2.inside hi hs hb
  rwa [clear_arm ht] at hin

/-- Hooked, and the threads have run. -/
theorem run_entered_sample : ∃ s' : Engine,
    [Event.register ⟨true, true, 0x20000⟩ 0x8000 0x12345678 0, .hook (fun _ => true) 0x8000,
      .run fun _ => 0x9000].foldlM EngineSteps.step (started (fun _ => 0) fun _ => 0) = some s' ∧
      ∀ r, Steps (fun _ _ r => (r, none)) s'.code (r, 0x8000) (r, 0x12345678) := by
  have hm : MeetsM EngineSteps.step (Asks Apart) (started (fun _ => 0) fun _ => 0)
      [.register ⟨true, true, 0x20000⟩ 0x8000 0x12345678 0, .hook (fun _ => true) 0x8000, .run fun _ => 0x9000] :=
    ⟨fun i hi => absurd hi (Nat.not_lt_zero i), fun _ _ => ⟨trivial, fun _ _ => ⟨trivial, fun _ _ => trivial⟩⟩⟩
  have hr : [Event.register ⟨true, true, 0x20000⟩ 0x8000 0x12345678 0, .hook (fun _ => true) 0x8000,
      .run fun _ => 0x9000].foldlM EngineSteps.step (started (fun _ => 0) fun _ => 0) = some _ := rfl
  exact ⟨_, hr, @run_entered _ _ _ _ rfl hm hr 0 Nat.zero_lt_one rfl rfl⟩

/-! ## The trampoline -/

/-- **A moved ARM function.** Its first two instructions do in the trampoline
what they did, and then it goes on behind them; but a call returns to the
trampoline, and an addition of R15 leaves a word below the stack. -/
theorem hooked_moves (hx : io.targetExecutable = true ∧ io.newExecutable = true)
    (hnew : findInlineHookItem s.info targetAddr = none) (ht : testBit0 targetAddr = false)
    (hreg : EngineSteps.step s (.register io targetAddr newAddr protoAddr) = some t)
    (hpage : ∀ out, t.pages io.page = some out → Holds text io.page out)
    (hm : ∀ w ∈ wordsOf (load s.code targetAddr 8), Movable plain w) :
    Does (Step plain s.code) targetAddr
      (through (effects plain s.code targetAddr (wordsOf (load s.code targetAddr 8)))) (targetAddr + 8) ∧
    Does (Step plain text) io.page
      (through (movedEffects plain s.code io.page targetAddr (wordsOf (load s.code targetAddr 8))))
      (targetAddr + 8) := by
  obtain ⟨item, out, hfill, rfl⟩ := register_ok hx hnew hreg
  have hout : Holds text io.page out := hpage out (Function.update_self ..)
  rw [fillItem_arm ht hfill] at hout
  rw [saved_words] at hm ⊢
  have hat : At s.code targetAddr [word s.code targetAddr, word s.code (targetAddr + 4)] := ⟨rfl, rfl, trivial⟩
  exact ⟨(effects_laid hat).run, row_does hm (at_of_holds hout)⟩

/-- `LDR R0, [PC, #4]; ADD R1, PC, R2` -/
theorem hooked_moves_sample : ∃ code text : Memory,
    wordsOf (load code 0x8000 8) = [0xE59F0004, 0xE08F1002] ∧
    Does (Step (fun _ _ r => (r, none)) text) 0x20000
      (through (movedEffects (fun _ _ r => (r, none)) code 0x20000 0x8000 (wordsOf (load code 0x8000 8)))) 0x8008 := by
  let code : Memory := store 0x8000 ([0xE59F0004, 0xE08F1002].flatMap bytes32) (fun _ => 0)
  have hw : wordsOf (load code 0x8000 8) = [0xE59F0004, 0xE08F1002] := by decide
  have hreg : EngineSteps.step (started code fun _ => 0) (.register ⟨true, true, 0x20000⟩ 0x8000 0x12345678 0) =
      some _ := rfl
  have hm : ∀ w ∈ wordsOf (load code 0x8000 8), Movable (fun _ _ r => (r, none)) w := by
    rw [hw]
    intro w h
    rcases List.mem_cons.mp h with rfl | h
    · exact (by decide : A32.cond 0xE59F0004 = 14 ∧ 0xE59F0004#32 &&& 0x0F700000 = 0x05100000)
    · obtain rfl := List.mem_singleton.mp h
      exact (by decide : A32.cond 0xE08F1002 ≠ 15 ∧ (rd 0xE08F1002 ≠ 15 ∧ rd 0xE08F1002 ≠ 13) ∧
        rm 0xE08F1002 ≠ 15 ∧ rm 0xE08F1002 ≠ 13)
  let out := (relocateInstruction (L2.InlineHookEngine.word code) 0x8000 (load code 0x8000 8)).out
  have hout : out.length ≤ 2 ^ 32 := by decide
  refine ⟨code, store 0x20000 out code, hw, ?_⟩
  refine (hooked_moves ⟨rfl, rfl⟩ rfl rfl hreg ?_ hm).2
  intro out' h
  obtain rfl : out = out' := Option.some.inj h
  exact store_holds code hout

/-- **The same.** Two instructions of which none is a call or adds to R15 do
in the trampoline exactly what they did. -/
theorem hooked_alike (hx : io.targetExecutable = true ∧ io.newExecutable = true)
    (hnew : findInlineHookItem s.info targetAddr = none) (ht : testBit0 targetAddr = false)
    (hreg : EngineSteps.step s (.register io targetAddr newAddr protoAddr) = some t)
    (hpage : ∀ out, t.pages io.page = some out → Holds text io.page out)
    (hm : ∀ w ∈ wordsOf (load s.code targetAddr 8), Movable plain w ∧ Keeps w) :
    Does (Step plain s.code) targetAddr
      (through (effects plain s.code targetAddr (wordsOf (load s.code targetAddr 8)))) (targetAddr + 8) ∧
    Does (Step plain text) io.page
      (through (effects plain s.code targetAddr (wordsOf (load s.code targetAddr 8)))) (targetAddr + 8) := by
  obtain ⟨item, out, hfill, rfl⟩ := register_ok hx hnew hreg
  have hout : Holds text io.page out := hpage out (Function.update_self ..)
  have hat : At s.code targetAddr [word s.code targetAddr, word s.code (targetAddr + 4)] := ⟨rfl, rfl, trivial⟩
  rw [fillItem_arm ht hfill] at hout
  rw [saved_words] at hm ⊢
  have hrow := row_does (fun w hw => (hm w hw).1) (at_of_holds hout)
  rw [movedEffects_eq fun w hw => (hm w hw).2] at hrow
  exact ⟨(effects_laid hat).run, hrow⟩

/-- `LDR R0, [PC, #4]; MOV R1, PC` -/
theorem hooked_alike_sample : ∃ code text : Memory,
    wordsOf (load code 0x8000 8) = [0xE59F0004, 0xE1A0100F] ∧
    Does (Step (fun _ _ r => (r, none)) text) 0x20000
      (through (effects (fun _ _ r => (r, none)) code 0x8000 (wordsOf (load code 0x8000 8)))) 0x8008 := by
  let code : Memory := store 0x8000 ([0xE59F0004, 0xE1A0100F].flatMap bytes32) (fun _ => 0)
  have hw : wordsOf (load code 0x8000 8) = [0xE59F0004, 0xE1A0100F] := by decide
  have hreg : EngineSteps.step (started code fun _ => 0) (.register ⟨true, true, 0x20000⟩ 0x8000 0x12345678 0) =
      some _ := rfl
  have hm : ∀ w ∈ wordsOf (load code 0x8000 8), Movable (fun _ _ r => (r, none)) w ∧ Keeps w := by
    rw [hw]
    intro w h
    rcases List.mem_cons.mp h with rfl | h
    · have hd : decode 0xE59F0004 = .ldr 0 15 true true false 4 := by decide
      refine ⟨(by decide : A32.cond 0xE59F0004 = 14 ∧ 0xE59F0004#32 &&& 0x0F700000 = 0x05100000), by decide, ?_⟩
      rw [hd]
      exact fun off => ⟨nofun, nofun⟩
    · obtain rfl := List.mem_singleton.mp h
      have hd : decode 0xE1A0100F = .mov false 1 15 := by decide
      refine ⟨(by decide : A32.cond 0xE1A0100F = 14 ∧ 0xE1A0100F#32 &&& 0x0FFF0FF0 = 0x01A00000), by decide, ?_⟩
      rw [hd]
      exact fun off => ⟨nofun, nofun⟩
  let out := (relocateInstruction (L2.InlineHookEngine.word code) 0x8000 (load code 0x8000 8)).out
  have hout : out.length ≤ 2 ^ 32 := by decide
  refine ⟨code, store 0x20000 out code, hw, (hooked_alike ⟨rfl, rfl⟩ rfl rfl hreg ?_ hm).2⟩
  intro out' h
  obtain rfl : out = out' := Option.some.inj h
  exact store_holds code hout

end DumpDex.L3.HookedArm
