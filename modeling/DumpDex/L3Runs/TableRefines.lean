import DumpDex.L3Runs.HookedWindows

/-!
# The engine and what `native.cpp` knows of it

`InlineHook` is the 32-bit engine as the rest of the module sees it: the
entry points that are patched, with what, and the pointers saved. Along any
sequence of registrations and hooks `InlineHookEngine` answers as it does, and
its code and its pointers are what that says.

The addresses of the replacements (`newAt`) and of the saved pointers
(`oldAt`) are the linker's; no two pointers have one address.
-/
namespace DumpDex.L3.TableRefines
open DumpDex.Core.Runs
open DumpDex.L2 DumpDex.L2.DeviceUtils DumpDex.L2.HookEngine DumpDex.L2.Relocate
open DumpDex.L2.InlineHook (HookStatus maxItems)
open DumpDex.L2.InlineHookEngine (Engine Tid clearBit0 patch)
open DumpDex.L3.EngineSteps DumpDex.L3.HookedWindows

/-- What `native.cpp` calls. -/
inductive Op where
  | register (io : InlineHook.RegisterIO) (targetAddr : InlineHook.Addr) (new : NewFn) (old : OldFn)
  | hook (attached : Tid → Bool) (targetAddr : InlineHook.Addr)

abbrev Seen := InlineHook.Info × Mem .arm32

def stepSeen (s : Seen) : Op → Option (Ele7enStatus × Seen)
  | .register io targetAddr new old =>
    (InlineHook.registerInlineHook io s.1 targetAddr new old).map fun (status, info) =>
      (status, (info, s.2))
  | .hook _ targetAddr => some (InlineHook.inlineHook s.1 s.2 targetAddr)

section Addresses
variable (newAt : NewFn → Addr) (oldAt : OldFn → Addr)

def event : Op → Event
  | .register io targetAddr new old =>
    .register ⟨io.targetExecutable, io.newExecutable, io.trampoline.1⟩ targetAddr (newAt new) (oldAt old)
  | .hook attached targetAddr => .hook attached targetAddr

def stepCode (s : Engine) : Op → Option (Ele7enStatus × Engine)
  | .register io targetAddr new old =>
    InlineHookEngine.registerInlineHook ⟨io.targetExecutable, io.newExecutable, io.trampoline.1⟩ s
      targetAddr (newAt new) (oldAt old)
  | .hook attached targetAddr => some (InlineHookEngine.inlineHook attached s targetAddr)

structure Models (item : InlineHook.InlineHookItem) (item' : InlineHookEngine.InlineHookItem) : Prop where
  target : item'.targetAddr = item.targetAddr
  new : item'.newAddr = newAt item.newAddr
  proto : item'.protoAddr = oldAt item.protoAddr
  trampoline : item'.trampolineInstructions = item.trampolineInstructions.1
  status : item'.status = item.status

structure Refines (a : Seen) (s : Engine) : Prop where
  size : s.info.size = a.1.length
  items : ∀ i (h : i < a.1.length), Models newAt oldAt a.1[i] (s.info.item i)
  protos : ∀ old, s.protos (oldAt old) = a.2.saved old
  patches : ∀ t new, (t, new) ∈ a.2.patches ↔
    ∃ item ∈ a.1, item.targetAddr = t ∧ item.newAddr = new ∧ item.status = .hooked

end Addresses

variable {newAt : NewFn → Addr} {oldAt : OldFn → Addr} {a : Seen} {s s' : Engine}

/-- The first item of a target is in the same place. -/
theorem find_refines (h : Refines newAt oldAt a s) (targetAddr : InlineHook.Addr) :
    (InlineHookEngine.findInlineHookItem s.info targetAddr = none →
      InlineHook.findInlineHookItem a.1 targetAddr = none) ∧
    ∀ i, InlineHookEngine.findInlineHookItem s.info targetAddr = some i →
      ∃ hi : i < a.1.length, InlineHook.findInlineHookItem a.1 targetAddr = some a.1[i] ∧
        a.1[i].targetAddr = targetAddr ∧ ∀ j (hj : j < i), a.1[j].targetAddr ≠ targetAddr := by
  have key : ∀ i (hi : i < a.1.length), (s.info.item i).targetAddr = a.1[i].targetAddr :=
    fun i hi => (h.items i hi).target
  refine ⟨fun hf => ?_, fun i hf => ?_⟩
  · refine List.find?_eq_none.mpr fun item hitem => ?_
    obtain ⟨i, hi, rfl⟩ := List.mem_iff_getElem.mp hitem
    have hne := find_none hf (h.size ▸ hi)
    simp only [decide_eq_true_eq]
    exact fun hp => hne ((key i hi).trans hp)
  · obtain ⟨hp, hm, hfirst⟩ := List.find?_range_eq_some.mp hf
    simp only [decide_eq_true_eq] at hp
    simp only [Bool.not_eq_eq_eq_not, Bool.not_true, decide_eq_false_iff_not] at hfirst
    have hi : i < a.1.length := h.size ▸ List.mem_range.mp hm
    have ht : a.1[i].targetAddr = targetAddr := (key i hi).symm.trans hp
    have hlow : ∀ j (hj : j < i), a.1[j].targetAddr ≠ targetAddr :=
      fun j hj e => hfirst j hj ((key j (by omega)).trans e)
    refine ⟨hi, ?_, ht, hlow⟩
    refine List.find?_eq_some_iff_getElem.mpr ⟨?_, i, hi, rfl, fun j hj => ?_⟩
    · simp only [decide_eq_true_eq]
      exact ht
    · simp only [Bool.not_eq_eq_eq_not, Bool.not_true, decide_eq_false_iff_not]
      exact hlow j hj

/-- `markHooked` changes the first item of the target. -/
theorem markHooked_eq {info : InlineHook.Info} {targetAddr : InlineHook.Addr} {i : Nat} (hi : i < info.length)
    (ht : info[i].targetAddr = targetAddr) (hfirst : ∀ j (hj : j < i), info[j].targetAddr ≠ targetAddr) :
    InlineHook.markHooked targetAddr info = info.set i { info[i] with status := .hooked } := by
  induction info generalizing i with
  | nil => cases hi
  | cons item info ih =>
    cases i with
    | zero =>
      have ht : item.targetAddr = targetAddr := ht
      simp only [InlineHook.markHooked]
      rw [if_pos ht]
      rfl
    | succ i =>
      have h0 : item.targetAddr ≠ targetAddr := hfirst 0 (Nat.succ_pos i)
      simp only [InlineHook.markHooked]
      rw [if_neg h0, ih (Nat.lt_of_succ_lt_succ hi) ht fun j hj => hfirst (j + 1) (Nat.succ_lt_succ hj)]
      rfl

theorem enter_refines (h : Refines newAt oldAt a s) {item : InlineHook.InlineHookItem}
    {item' : InlineHookEngine.InlineHookItem} (hm : Models newAt oldAt item item')
    (hs : item.status = .registered) (page : Addr) (out : List Byte) :
    Refines newAt oldAt (a.1 ++ [item], a.2) (entered s page item' out) where
  size := by simp [entered, h.size]
  items := by
    intro i hi
    by_cases hlt : i < a.1.length
    · rw [entered_item (h.size ▸ hlt), List.getElem_append_left hlt]
      exact h.items i hlt
    · have e : i = s.info.size := by
        rw [List.length_append, List.length_singleton] at hi
        have := h.size
        omega
      subst e
      rw [entered_last]
      simp only [h.size, List.getElem_concat_length]
      exact hm
  protos := h.protos
  patches := by
    intro t new
    rw [h.patches]
    constructor
    · rintro ⟨i, hi, hrest⟩
      exact ⟨i, List.mem_append_left _ hi, hrest⟩
    · rintro ⟨i, hi, hrest⟩
      rcases List.mem_append.mp hi with hi | hi
      · exact ⟨i, hi, hrest⟩
      · rw [List.mem_singleton.mp hi, hs] at hrest
        cases hrest.2.2

theorem register_refines (h : Refines newAt oldAt a s) {io : InlineHook.RegisterIO}
    {targetAddr : InlineHook.Addr} {new : NewFn} {old : OldFn} {status : Ele7enStatus}
    (hc : stepCode newAt oldAt s (.register io targetAddr new old) = some (status, s')) :
    ∃ a', stepSeen a (.register io targetAddr new old) = some (status, a') ∧ Refines newAt oldAt a' s' := by
  have hf := find_refines h targetAddr
  simp only [stepCode, InlineHookEngine.registerInlineHook] at hc
  simp only [stepSeen, InlineHook.registerInlineHook]
  split at hc
  · rename_i hx
    cases hc
    rw [if_pos hx]
    exact ⟨a, rfl, h⟩
  · rename_i hx
    rw [if_neg hx]
    split at hc
    · rename_i i hi
      obtain ⟨hlt, hfind, -, -⟩ := hf.2 i hi
      have hst := (h.items i hlt).status
      rw [hfind]
      simp only
      split at hc
      · rename_i hreg
        cases hc
        rw [← hst, hreg]
        exact ⟨a, rfl, h⟩
      · rename_i hhooked
        cases hc
        rw [← hst, hhooked]
        exact ⟨a, rfl, h⟩
    · rename_i hnew
      rw [hf.1 hnew]
      simp only
      split at hc
      · cases hc
      · rename_i hroom
        obtain ⟨⟨item, out⟩, hitem, he⟩ := Option.map_eq_some_iff.mp hc
        cases he
        obtain ⟨e1, e2, e3, -, -, e4, e5⟩ := fillItem_spec hitem
        rw [if_neg (h.size ▸ hroom)]
        exact ⟨_, rfl, enter_refines h ⟨e1, e2, e3, e5, e4⟩ rfl _ out⟩

theorem proto_eq {item : InlineHook.InlineHookItem} {item' : InlineHookEngine.InlineHookItem}
    (hm : Models newAt oldAt item item') : item'.proto = item.proto := by
  unfold InlineHookEngine.InlineHookItem.proto InlineHook.InlineHookItem.proto
  rw [hm.target, hm.trampoline]
  rfl

theorem threads_refines (h : Refines newAt oldAt a s) (pc : Tid → Addr) :
    Refines newAt oldAt a { s with pc := pc } := ⟨h.size, h.items, h.protos, h.patches⟩

theorem hooked_refines (hinj : Function.Injective oldAt) (hnz : ∀ old, oldAt old ≠ 0)
    (h : Refines newAt oldAt a s) {i : Nat} (hi : i < a.1.length) (hreg : a.1[i].status = .registered) :
    Refines newAt oldAt
      (a.1.set i { a.1[i] with status := .hooked }, InlineHook.doInlineHook a.1[i] a.2)
      (InlineHookEngine.doInlineHook i s) where
  size := by simpa [InlineHookEngine.doInlineHook] using h.size
  items := by
    intro j hj
    rw [List.length_set] at hj
    have hm := h.items j hj
    by_cases e : i = j
    · subst e
      simp only [InlineHookEngine.doInlineHook, Function.update_self, List.getElem_set_self]
      exact ⟨hm.target, hm.new, hm.proto, hm.trampoline, rfl⟩
    · simp only [InlineHookEngine.doInlineHook, List.getElem_set_ne e,
        Function.update_of_ne (Ne.symm e)]
      exact hm
  protos := by
    intro old
    have hm := h.items i hi
    have hne : (s.info.item i).protoAddr ≠ 0 := hm.proto ▸ hnz a.1[i].protoAddr
    simp only [InlineHookEngine.doInlineHook, if_pos hne, InlineHook.doInlineHook, Mem.patch_saved, Mem.store]
    rw [hm.proto]
    by_cases e : old = a.1[i].protoAddr
    · subst e
      rw [Function.update_self, Function.update_self]
      exact proto_eq hm
    · rw [Function.update_of_ne e, Function.update_of_ne fun he => e (hinj he), h.protos]
  patches := by
    intro t new
    simp only [InlineHook.doInlineHook, Mem.patch_patches, Mem.store_patches, List.mem_append,
      List.mem_singleton, Prod.mk.injEq, h.patches]
    constructor
    · rintro (⟨item, hitem, ht, hn, hs⟩ | ⟨rfl, rfl⟩)
      · obtain ⟨j, hj, rfl⟩ := List.mem_iff_getElem.mp hitem
        have hne : i ≠ j := by
          rintro rfl
          rw [hreg] at hs
          cases hs
        refine ⟨a.1[j], List.mem_iff_getElem.mpr ⟨j, by simpa using hj, ?_⟩, ht, hn, hs⟩
        exact List.getElem_set_ne hne ..
      · refine ⟨{ a.1[i] with status := .hooked }, ?_, rfl, rfl, rfl⟩
        exact List.mem_iff_getElem.mpr ⟨i, by simpa using hi, List.getElem_set_self ..⟩
    · rintro ⟨item, hitem, ht, hn, hs⟩
      rcases List.mem_or_eq_of_mem_set hitem with hitem | rfl
      · exact .inl ⟨item, hitem, ht, hn, hs⟩
      · exact .inr ⟨ht.symm, hn.symm⟩

theorem hook_refines (hinj : Function.Injective oldAt) (hnz : ∀ old, oldAt old ≠ 0)
    (h : Refines newAt oldAt a s) {attached : Tid → Bool} {targetAddr : InlineHook.Addr}
    {status : Ele7enStatus} (hc : stepCode newAt oldAt s (.hook attached targetAddr) = some (status, s')) :
    ∃ a', stepSeen a (.hook attached targetAddr) = some (status, a') ∧ Refines newAt oldAt a' s' := by
  have hf := find_refines h targetAddr
  simp only [stepCode, InlineHookEngine.inlineHook, Option.some.injEq] at hc
  simp only [stepSeen, InlineHook.inlineHook]
  split at hc
  · rename_i hnew
    cases hc
    rw [hf.1 hnew]
    exact ⟨a, rfl, h⟩
  · rename_i i hi
    obtain ⟨hlt, hfind, ht, hfirst⟩ := hf.2 i hi
    have hm := h.items i hlt
    rw [hfind]
    simp only
    split at hc
    · rename_i hreg
      cases hc
      have hreg' : a.1[i].status = .registered := hm.status.symm.trans hreg
      rw [hreg']
      refine ⟨_, rfl, ?_⟩
      rw [markHooked_eq hlt ht hfirst]
      exact hooked_refines hinj hnz (threads_refines h _) hlt hreg'
    · rename_i hhooked
      cases hc
      rw [← hm.status, hhooked]
      exact ⟨a, rfl, h⟩

theorem step_refines (hinj : Function.Injective oldAt) (hnz : ∀ old, oldAt old ≠ 0) (a : Seen) (s : Engine)
    (op : Op) (status : Ele7enStatus) (s' : Engine) (h : Refines newAt oldAt a s)
    (hc : stepCode newAt oldAt s op = some (status, s')) :
    ∃ a', stepSeen a op = some (status, a') ∧ Refines newAt oldAt a' s' := by
  cases op with
  | register io targetAddr new old => exact register_refines h hc
  | hook attached targetAddr => exact hook_refines hinj hnz h hc

theorem start_refines (h : s.info.size = 0) (hp : ∀ old, s.protos (oldAt old) = 0) :
    Refines newAt oldAt ([], Mem.clean) s where
  size := h
  items := fun _ hi => absurd hi (Nat.not_lt_zero _)
  protos := hp
  patches := by simp [Mem.clean]

/-- The same calls, as events. -/
theorem trace_events {ops : List Op} {os : List Ele7enStatus}
    (h : trace (stepCode newAt oldAt) s ops = some (os, s')) :
    (ops.map (event newAt oldAt)).foldlM step s = some s' := by
  induction ops generalizing s os with
  | nil =>
    cases h
    rfl
  | cons op ops ih =>
    obtain ⟨⟨status, t⟩, h1, h⟩ := Option.bind_eq_some_iff.mp h
    obtain ⟨⟨os', u⟩, h2, h⟩ := Option.bind_eq_some_iff.mp h
    cases h
    have he : step s (event newAt oldAt op) = some t := by
      cases op with
      | register io targetAddr new old => exact Option.map_eq_some_iff.mpr ⟨_, h1, rfl⟩
      | hook attached targetAddr => exact congrArg some (congrArg Prod.snd (Option.some.inj h1))
    rw [List.map_cons, List.foldlM_cons, he]
    exact ih h2

/-- **The engine is what it is taken for.** Along any registrations and hooks
in which no target's bytes are among those another has saved, the engine
answers as `InlineHook` does, its pointers are the ones saved there, where
that has an entry point patched there is the patch for its replacement, and
no byte that no patch is written over has changed. -/
theorem run_refines (hinj : Function.Injective oldAt) (hnz : ∀ old, oldAt old ≠ 0) {ops : List Op}
    {os : List Ele7enStatus} (h0 : s.info.size = 0) (hp : ∀ old, s.protos (oldAt old) = 0)
    (hm : MeetsM step (Asks Apart) s (ops.map (event newAt oldAt)))
    (h : trace (stepCode newAt oldAt) s ops = some (os, s')) :
    ∃ info m, trace stepSeen ([], Mem.clean) ops = some (os, (info, m)) ∧
      (∀ old, s'.protos (oldAt old) = m.saved old) ∧
      (∀ p ∈ m.patches, ∀ k b, (patch p.1 (newAt p.2))[k]? = some b →
        s'.code (clearBit0 p.1 + BitVec.ofNat 32 k) = b) ∧
      ∀ x, (∀ p ∈ m.patches, x ∉ overwritten p.1 (newAt p.2)) → s'.code x = s.code x := by
  obtain ⟨⟨info, m⟩, ht, hR⟩ := trace_refines (step_refines hinj hnz) (start_refines h0 hp) h
  have hcode : Patched s.code s' := (run_good (fun _ _ h => h) h0 hm (trace_events h)).2
  refine ⟨info, m, ht, hR.protos, ?_, ?_⟩
  · intro ⟨t, new⟩ hmem k b hb
    obtain ⟨item, hitem, rfl, rfl, hs⟩ := (hR.patches t new).mp hmem
    obtain ⟨i, hi, rfl⟩ := List.mem_iff_getElem.mp hitem
    have hmi := hR.items i hi
    have hpatch : (s'.info.item i).patch = patch info[i].targetAddr (newAt info[i].newAddr) := by
      rw [InlineHookEngine.InlineHookItem.patch, hmi.target, hmi.new]
    have := hcode.inside (hR.size ▸ hi) (hmi.status.trans hs) (hpatch ▸ hb)
    rwa [hmi.target] at this
  · intro x hx
    refine hcode.outside fun i hi hs => ?_
    have hi' : i < info.length := hR.size ▸ hi
    have hmi := hR.items i hi'
    rw [hmi.target, hmi.new]
    refine hx (info[i].targetAddr, info[i].newAddr) ?_
    exact (hR.patches _ _).mpr ⟨info[i], List.getElem_mem hi', rfl, rfl, hmi.status.symm.trans hs⟩

/-- One function, hooked twice. -/
theorem run_refines_open :
    let oldAt := fun old : OldFn => 0x30000 + BitVec.ofNat 32 old.ctorIdx
    let ops : List Op := [.register ⟨true, true, ⟨0x20000, by decide⟩⟩ 0x8000 .opencommon .opencommon,
      .hook (fun _ => true) 0x8000, .hook (fun _ => true) 0x8000]
    ∃ s' info m, trace (stepCode (fun _ => 0x12345678) oldAt) (started (fun _ => 0) fun _ => 0) ops =
        some ([.ok, .ok, .errorAlreadyHooked], s') ∧
      trace stepSeen ([], Mem.clean) ops = some ([.ok, .ok, .errorAlreadyHooked], (info, m)) ∧
      ∀ old, s'.protos (oldAt old) = m.saved old := by
  intro oldAt ops
  have h : trace (stepCode (fun _ => 0x12345678) oldAt) (started (fun _ => 0) fun _ => 0) ops =
      some ([.ok, .ok, .errorAlreadyHooked], _) := rfl
  have hinj : Function.Injective oldAt := by
    intro x y h
    cases x <;> cases y <;> first | rfl | exact absurd h (by decide)
  have hnz : ∀ old, oldAt old ≠ 0 := by
    intro old
    cases old <;> decide
  have hm : MeetsM step (Asks Apart) (started (fun _ => 0) fun _ => 0) (ops.map (event (fun _ => 0x12345678) oldAt)) :=
    ⟨fun i hi => absurd hi (Nat.not_lt_zero i), fun _ _ => ⟨trivial, fun _ _ => ⟨trivial, fun _ _ => trivial⟩⟩⟩
  obtain ⟨info, m, ht, hs, -⟩ := run_refines hinj hnz rfl (fun _ => rfl) hm h
  exact ⟨_, info, m, h, ht, hs⟩

end DumpDex.L3.TableRefines
