import DumpDex.L2Machine.And64InlineHook
import DumpDex.L2Machine.InlineHook
import DumpDex.L4App.NativeDump

/-!
# `Native.dump` on the engines it is built with

`NativeDump` lets the engines answer anything their contract allows. Here the
calls go to the bundled ones, with their own state: the table of
`inlineHook.c`, the slot counter of `And64InlineHook.cpp`.

* `dump32_refines`, `dump64_refines`: each call is one of `NativeDump`'s, with
  the answers the engine gave.
* `run32_sound`: on the 32-bit build a process never overflows the table, a
  registered target is always hooked, and the flag always tells the truth.
* `run64_iff`: on arm64 the pool never runs out for the one attempt that is
  made, so the flag tells the truth exactly when the page can be made
  writable.
-/
namespace DumpDex.L4.BundledDump
open DumpDex.Core.Runs
open DumpDex.L2.DeviceUtils DumpDex.L2.HookEngine
open DumpDex.L2.InlineHook (Info RegisterIO InlineHookItem registerInlineHook inlineHook doInlineHook
  register_ok_iff inlineHook_registered findInlineHookItem HookStatus maxItems)
open DumpDex.L2.And64InlineHook (HookEnv a64HookFunction a64HookFunction_effect a64HookFunction_index answer
  answer_of_slot indexAfter startIndex)
open DumpDex.L4.NativeDump

/-- A call is decided before the engine is reached, or handed to it. -/
theorem dumpWith_eq {abi : Abi} {α : Type} (leave : DumpResult abi → α)
    (attempt : NativeState abi → BitVec abi.bits → List String → α)
    (s : NativeState abi) (packageName : String) (io : Lookup abi) :
    dumpWith leave attempt s packageName io =
      (dumpWith Sum.inl (fun s addr log => Sum.inr (s, addr, log)) s packageName io).elim leave
        fun x => attempt x.1 x.2.1 x.2.2 := by
  unfold dumpWith
  simp only
  split
  · rfl
  · split
    · rfl
    · split <;> rfl

/-! ## 32-bit -/

/-- The part behind `#elif defined(__arm__)`, with the engine's own functions.
mirrors app/src/main/cpp/native.cpp:38-54 -/
def attempt32 (rio : RegisterIO) (info : Info) (s : NativeState .arm32)
    (openCommonAddr : BitVec Abi.arm32.bits) (log : List String) : Option (DumpResult .arm32 × Info) :=
  let new := getNewOpenFunctionAddr .arm32 s.sdkInt
  let old := getOldOpenFunctionAddr .arm32 s.sdkInt
  match registerInlineHook rio info openCommonAddr new old with
  | none => none
  | some (status, info) =>
    if status ≠ .ok then some (⟨s, .register1Failed, log ++ ["register1 hook failed!"]⟩, info)
    else
      let log := log ++ ["register1 hook success!"]
      let (status, info, mem) := inlineHook info s.mem openCommonAddr
      if status ≠ .ok then
        some (⟨{ s with mem := mem }, .register2Failed, log ++ ["register2 hook failed!"]⟩, info)
      else
        some (⟨{ s with mem := mem, isHook := true }, .complete,
          log ++ ["register2 hook success!", "loaded so: libart.so", "hook init complete"]⟩, info)

def dump32 (rio : RegisterIO) (info : Info) (s : NativeState .arm32) (packageName : String)
    (io : Lookup .arm32) : Option (DumpResult .arm32 × Info) :=
  dumpWith (fun r => some (r, info)) (attempt32 rio info) s packageName io

/-- The answers of an attempt whose registration returned `status`. -/
def answers32 (status : Ele7enStatus) (item : InlineHookItem) : HookIO .arm32 :=
  ⟨status, .ok, ⟨item.proto, item.proto_ne_zero⟩, none⟩

/-- An attempt either leaves the table alone and installs nothing, or adds
the target, hooked, and installs the hook. -/
theorem attempt32_cases {rio : RegisterIO} {info info' : Info} {s : NativeState .arm32}
    {addr : BitVec Abi.arm32.bits} {log : List String} {r : DumpResult .arm32}
    (h : attempt32 rio info s addr log = some (r, info')) :
    ∃ hio : HookIO .arm32, r = install s addr hio log ∧
      ((r.exit = .register1Failed ∧ r.state = s ∧ info' = info) ∨
        (r.exit = .complete ∧ r.state.isHook = true ∧
          ∃ item, item.status = .hooked ∧ info' = info ++ [item])) := by
  unfold attempt32 at h
  simp only at h
  cases hreg : registerInlineHook rio info addr (getNewOpenFunctionAddr .arm32 s.sdkInt)
    (getOldOpenFunctionAddr .arm32 s.sdkInt) with
  | none => rw [hreg] at h; cases h
  | some res =>
    obtain ⟨status, table⟩ := res
    rw [hreg] at h
    simp only at h
    rcases register_ok_iff hreg with ⟨rfl, hf, rfl⟩ | ⟨hne, rfl⟩
    · rw [if_neg (not_not.mpr rfl), inlineHook_registered s.mem rfl hf] at h
      simp only [ne_eq, not_true_eq_false, if_false, Option.some.injEq, Prod.mk.injEq] at h
      obtain ⟨rfl, rfl⟩ := h
      exact ⟨answers32 .ok ⟨addr, getNewOpenFunctionAddr .arm32 s.sdkInt,
        getOldOpenFunctionAddr .arm32 s.sdkInt, rio.trampoline, .registered⟩, rfl,
        Or.inr ⟨rfl, rfl, _, rfl, rfl⟩⟩
    · rw [if_pos hne] at h
      cases h
      refine ⟨⟨status, .ok, rio.trampoline, none⟩, ?_, Or.inl ⟨rfl, rfl, rfl⟩⟩
      simp [install, isArm64, hne]

/-- Every 32-bit call on the bundled engine is one of `NativeDump`'s. -/
theorem dump32_refines {rio : RegisterIO} {info info' : Info} {s : NativeState .arm32}
    {packageName : String} {io : Lookup .arm32} {r : DumpResult .arm32}
    (h : dump32 rio info s packageName io = some (r, info')) :
    ∃ hio : HookIO .arm32, r = dump s packageName ⟨io, hio⟩ := by
  rw [dump32, dumpWith_eq] at h
  have hd : ∀ hio, dump s packageName ⟨io, hio⟩ = _ := fun hio => dumpWith_eq _ _ s packageName io
  simp only [hd]
  cases hc : dumpWith Sum.inl (fun s addr log => Sum.inr (s, addr, log)) s packageName io with
  | inl r' =>
    rw [hc] at h
    cases h
    exact ⟨⟨.ok, .ok, rio.trampoline, none⟩, rfl⟩
  | inr x =>
    rw [hc] at h
    obtain ⟨hio, hr, -⟩ := attempt32_cases h
    exact ⟨hio, hr⟩

/-- A table that is not full never stops a call. -/
theorem attempt32_total {rio : RegisterIO} {info : Info} (hroom : info.length < maxItems)
    (s : NativeState .arm32) (addr : BitVec Abi.arm32.bits) (log : List String) :
    (attempt32 rio info s addr log).isSome := by
  have hr : (registerInlineHook rio info addr (getNewOpenFunctionAddr .arm32 s.sdkInt)
      (getOldOpenFunctionAddr .arm32 s.sdkInt)).isSome := by
    unfold registerInlineHook
    split
    · rfl
    · split
      · split <;> rfl
      · rw [if_neg (by omega)]; rfl
  obtain ⟨res, hres⟩ := Option.isSome_iff_exists.mp hr
  unfold attempt32
  simp only [hres]
  split
  · rfl
  · split <;> rfl

/-- A call on a table that is not full returns; the table is as before, or
holds one hooked target more and the flag is set. -/
theorem dump32_cases (rio : RegisterIO) {info : Info} (hroom : info.length < maxItems)
    (s : NativeState .arm32) (packageName : String) (io : Lookup .arm32) :
    ∃ r info', dump32 rio info s packageName io = some (r, info') ∧
      (info' = info ∨
        r.state.isHook = true ∧ ∃ item, item.status = .hooked ∧ info' = info ++ [item]) := by
  rw [dump32, dumpWith_eq]
  cases dumpWith Sum.inl (fun s addr log => Sum.inr (s, addr, log)) s packageName io with
  | inl r => exact ⟨r, info, rfl, Or.inl rfl⟩
  | inr x =>
    obtain ⟨⟨r, info'⟩, h⟩ := Option.isSome_iff_exists.mp (attempt32_total hroom x.1 x.2.1 x.2.2)
    obtain ⟨-, -, ⟨-, -, hi⟩ | ⟨-, hf, hi⟩⟩ := attempt32_cases h
    · exact ⟨r, info', h, Or.inl hi⟩
    · exact ⟨r, info', h, Or.inr ⟨hf, hi⟩⟩

structure Call32 where
  packageName : String
  io : Lookup .arm32
  rio : RegisterIO

/-- One call of `Native.dump` in a 32-bit process; `none` when it crashes. -/
def step32 (st : Watched .arm32 × Info) (c : Call32) : Option (Watched .arm32 × Info) :=
  (dump32 c.rio st.2 st.1.native c.packageName c.io).map fun r => (st.1.next c.io r.1.state, r.2)

/-- The table is empty until the hook is in place, and then holds that one target. -/
structure Inv32 (st : Watched .arm32 × Info) : Prop where
  clean : CleanUntilHooked st.1.native
  truth : HookTruth st.1
  table : st.2 = [] ∨ st.1.native.isHook = true ∧ ∃ item, item.status = .hooked ∧ st.2 = [item]

theorem acts32 (s : NativeState .arm32) (c : DumpCall .arm32) : Acts s c :=
  fun h => Abi.noConfusion h

theorem inv32_step (st : Watched .arm32 × Info) (c : Call32) (h : Inv32 st) :
    ∃ st', step32 st c = some st' ∧ Inv32 st' := by
  obtain ⟨w, info⟩ := st
  have hroom : info.length < maxItems := by
    rcases h.table with e | ⟨-, item, -, e⟩ <;> simp only at e <;> rw [e] <;> simp [maxItems]
  obtain ⟨r, info', hd, htable⟩ := dump32_cases c.rio hroom w.native c.packageName c.io
  obtain ⟨hio, hr⟩ := dump32_refines hd
  have hstep : r.state = step w.native (c.packageName, ⟨c.io, hio⟩) := by rw [hr]; rfl
  refine ⟨(w.next c.io r.state, info'), by simp [step32, hd], ?_, ?_, ?_⟩
  · rw [hstep]; exact clean_step w.native _ h.clean
  · rw [hstep]
    exact (truth_step w (c.packageName, ⟨c.io, hio⟩) h.clean h.truth).mpr (acts32 w.native _)
  · rcases h.table with e | ⟨hf, item, hi, e⟩
    · simp only at e
      subst e
      exact htable.imp id (fun ⟨hf, item, hi, e'⟩ => ⟨hf, item, hi, e'⟩)
    · -- the flag is set: the call is ignored and the table stays
      have hs : dump32 c.rio info w.native c.packageName c.io =
          some (⟨w.native, .hookedIgnore, [c.packageName] ++ ["hooked ignore"]⟩, info) := by
        simp only at hf
        simp [dump32, dumpWith, hf]
      rw [hs] at hd
      cases hd
      exact Or.inr ⟨hf, item, hi, e⟩

/-- **The 32-bit process.** From an empty table no sequence of calls crashes
in the engine; in every state the flag tells the truth, at most one target is
registered, and it is hooked. -/
theorem run32_sound (calls : List Call32) :
    ∃ st, calls.foldlM step32 (Watched.init .arm32, []) = some st ∧ HookTruth st.1 ∧
      st.2.length ≤ 1 ∧ ∀ item ∈ st.2, item.status = .hooked := by
  have h0 : Inv32 (Watched.init .arm32, []) :=
    ⟨fun _ => rfl, (truth_of_clean _ rfl).mpr rfl, Or.inl rfl⟩
  obtain ⟨st, hrun, hinv⟩ := total_rule inv32_step calls _ h0
  refine ⟨st, hrun, hinv.truth, ?_⟩
  rcases hinv.table with e | ⟨-, item, hi, e⟩
  · rw [e]; exact ⟨Nat.zero_le _, fun _ hm => by cases hm⟩
  · rw [e]
    exact ⟨Nat.le_refl _, fun _ hm => by rw [List.mem_singleton.mp hm]; exact hi⟩

/-! ## arm64 -/

/-- The part behind `#if defined(__aarch64__)`, with the engine's own function.
mirrors app/src/main/cpp/native.cpp:35-36 -/
def attempt64 (env : HookEnv) (index : BitVec 32) (s : NativeState .arm64)
    (openCommonAddr : BitVec Abi.arm64.bits) (log : List String) : DumpResult .arm64 × BitVec 32 :=
  let (index, mem) := a64HookFunction env index s.mem openCommonAddr
    (getNewOpenFunctionAddr .arm64 s.sdkInt) (getOldOpenFunctionAddr .arm64 s.sdkInt)
  (⟨{ s with mem := mem, isHook := true }, .complete,
    log ++ ["loaded so: libart.so", "hook init complete"]⟩, index)

def dump64 (env : HookEnv) (index : BitVec 32) (s : NativeState .arm64) (packageName : String)
    (io : Lookup .arm64) : DumpResult .arm64 × BitVec 32 :=
  dumpWith (fun r => (r, index)) (attempt64 env index) s packageName io

/-- Only the arm64 answer matters. -/
def answers64 (env : HookEnv) (index : BitVec 32) : HookIO .arm64 :=
  ⟨.ok, .ok, env.insnsPool index, answer env index⟩

theorem attempt64_refines (env : HookEnv) (index : BitVec 32) (s : NativeState .arm64)
    (addr : BitVec Abi.arm64.bits) (log : List String) :
    (attempt64 env index s addr log).1 = install s addr (answers64 env index) log ∧
      (attempt64 env index s addr log).2 = index + 1 := by
  have hio : (answers64 env index).a64 = answer env index := rfl
  refine ⟨?_, a64HookFunction_index ..⟩
  simp only [attempt64, install, isArm64, if_true, a64HookFunction_effect hio]

/-- Every arm64 call on the bundled engine is one of `NativeDump`'s; the
counter moves only when the flag is set. -/
theorem dump64_refines (env : HookEnv) (index : BitVec 32) (s : NativeState .arm64)
    (packageName : String) (io : Lookup .arm64) :
    (dump64 env index s packageName io).1 = dump s packageName ⟨io, answers64 env index⟩ ∧
      ((dump64 env index s packageName io).2 = index ∨
        (dump64 env index s packageName io).1.state.isHook = true) := by
  rw [dump64, dump, dumpWith_eq, dumpWith_eq id]
  cases dumpWith Sum.inl (fun s addr log => Sum.inr (s, addr, log)) s packageName io with
  | inl r => exact ⟨rfl, Or.inl rfl⟩
  | inr x => exact ⟨(attempt64_refines env index x.1 x.2.1 x.2.2).1, Or.inr rfl⟩

structure Call64 where
  packageName : String
  io : Lookup .arm64
  env : HookEnv

def step64 (st : Watched .arm64 × BitVec 32) (c : Call64) : Watched .arm64 × BitVec 32 :=
  let r := dump64 c.env st.2 st.1.native c.packageName c.io
  (st.1.next c.io r.1.state, r.2)

/-- A call that reaches the engine finds the page writable. -/
def Writable (st : Watched .arm64 × BitVec 32) (c : Call64) : Prop :=
  st.1.native.isHook = false → c.io.ndkDlopen ≠ 0 → c.io.ndkDlsym ≠ 0 → c.env.makeRwx = true

/-- No slot is taken before the flag is set. -/
structure Inv64 (st : Watched .arm64 × BitVec 32) : Prop where
  clean : CleanUntilHooked st.1.native
  unused : st.1.native.isHook = false → st.2 = startIndex

theorem step64_watch (st : Watched .arm64 × BitVec 32) (c : Call64) :
    (step64 st c).1 = watch st.1 (c.packageName, ⟨c.io, answers64 c.env st.2⟩) :=
  congrArg (fun r : DumpResult .arm64 => st.1.next c.io r.state)
    (dump64_refines c.env st.2 st.1.native c.packageName c.io).1

/-- The flag is never cleared. -/
theorem isHook_step {abi : Abi} {s : NativeState abi} (h : s.isHook = true) (c : DumpCall abi) :
    step s c = s := by
  simp [step, dump, dumpWith, h]

theorem inv64_step (st : Watched .arm64 × BitVec 32) (c : Call64) (h : Inv64 st) :
    Inv64 (step64 st c) := by
  have hn : (step64 st c).1.native = step st.1.native _ :=
    congrArg Watched.native (step64_watch st c)
  refine ⟨by rw [hn]; exact clean_step _ _ h.clean, fun hf => ?_⟩
  have hold : st.1.native.isHook = false := by
    by_contra ht
    rw [hn, isHook_step (by simpa using ht)] at hf
    exact ht hf
  rcases (dump64_refines c.env st.2 st.1.native c.packageName c.io).2 with hi | hi
  · exact hi.trans (h.unused hold)
  · exact absurd hf (by rw [show (step64 st c).1.native.isHook = true from hi]; decide)

/-- The first slot is always there. -/
theorem answer_start (env : HookEnv) : answer env startIndex ≠ none ↔ env.makeRwx = true := by
  have h := answer_of_slot env 0 (by decide)
  rw [show startIndex = indexAfter 0 from rfl, h]
  cases env.makeRwx <;> simp

theorem truth64_step (st : Watched .arm64 × BitVec 32) (c : Call64) (h : Inv64 st)
    (ht : HookTruth st.1) : HookTruth (step64 st c).1 ↔ Writable st c := by
  rw [step64_watch, truth_step _ _ h.clean ht]
  refine ⟨?_, ?_⟩
  · intro ha hf ho hs
    have := ha rfl hf ho hs
    rw [answers64, h.unused hf] at this
    exact (answer_start c.env).mp this
  · intro hw _ hf ho hs
    rw [answers64, h.unused hf]
    exact (answer_start c.env).mpr (hw hf ho hs)

/-- **The arm64 process.** From a fresh pool the flag tells the truth along a
run exactly when every call that reaches the engine finds the page writable;
that no slot is left never happens to it. -/
theorem run64_iff (calls : List Call64) :
    Always step64 (fun st => HookTruth st.1) (Watched.init .arm64, startIndex) calls ↔
      Meets step64 Writable (Watched.init .arm64, startIndex) calls :=
  always_iff_meets inv64_step truth64_step _ calls ⟨fun _ => rfl, fun _ => rfl⟩
    ((truth_of_clean _ rfl).mpr rfl)

end DumpDex.L4.BundledDump
