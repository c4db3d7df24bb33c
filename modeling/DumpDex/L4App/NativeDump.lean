import DumpDex.Core.Runs
import DumpDex.L2Machine.HookEngine

/-!
# `Native.dump` (`native.cpp`)

One call of `Native.dump(packageName)`, and runs of them. The call remembers
in `is_hook` that it is done; whoever finds the flag set is ignored. In
between lie the package name, the lookup of `libart.so` and of the symbol,
and the engine of the build.

The 32-bit branch looks at what the engine returns. The arm64 branch does
not: it sets the flag whether or not `A64HookFunction` patched anything.

Which function is hooked is decided call by call: `Watched` is the state with
the address `ndk_dlsym` last returned, and `Hooked` says that this address is
patched to what `get_new_open_function_addr` answers, with its saved pointer.

* `dump_cases`: everything one call can do to the state.
* `truth_step`: a call keeps the flag true to the memory exactly when it is
  not an arm64 attempt in which the engine patches nothing (`Acts`).
* `hook_flag_iff`: so a run keeps it exactly when all its calls do.
* `failed_engine_sets_flag`: one such attempt, and no later call tries again.
-/
namespace DumpDex.L4.NativeDump
open DumpDex.Core.Runs
open DumpDex.L2.DeviceUtils DumpDex.L2.HookEngine

/-- What the library functions answer before the engine is called; 0 is NULL. -/
structure Lookup (abi : Abi) where
  /-- `atoi` of `ro.build.version.sdk` -/
  sdk : Int
  ndkDlopen : BitVec abi.bits
  ndkDlsym : BitVec abi.bits

structure DumpIO (abi : Abi) extends Lookup abi where
  hook : HookIO abi

/-- The statics of the library and the memory the engine changes. -/
structure NativeState (abi : Abi) where
  isHook : Bool
  pname : String
  sdkInt : Int
  mem : Mem abi

def NativeState.init (abi : Abi) : NativeState abi := ⟨false, "", 0, Mem.clean⟩

/-- The return statement a call leaves by. -/
inductive Exit where
  | hookedIgnore
  | noLibrary
  | noSymbol
  | register1Failed
  | register2Failed
  | complete
  deriving DecidableEq, Repr

structure DumpResult (abi : Abi) where
  state : NativeState abi
  exit : Exit
  log : List String

variable {abi : Abi}

/-- mirrors app/src/main/cpp/util/fileutils.cpp:45-47 -/
def initPackageName (packageName : String) (s : NativeState abi) : NativeState abi :=
  { s with pname := packageName }

/-- The part of `dump` behind `#if defined(__aarch64__)`.
mirrors app/src/main/cpp/native.cpp:34-54 -/
def install (s : NativeState abi) (openCommonAddr : BitVec abi.bits) (io : HookIO abi)
    (log : List String) : DumpResult abi :=
  let new := getNewOpenFunctionAddr abi s.sdkInt
  let old := getOldOpenFunctionAddr abi s.sdkInt
  if isArm64 abi then
    let mem := a64HookEffect io s.mem openCommonAddr new old
    ⟨{ s with mem := mem, isHook := true }, .complete,
      log ++ ["loaded so: libart.so", "hook init complete"]⟩
  else if io.register ≠ .ok then
    ⟨s, .register1Failed, log ++ ["register1 hook failed!"]⟩
  else
    let log := log ++ ["register1 hook success!"]
    let mem := inlineHookEffect io s.mem openCommonAddr new old
    if io.inlineHook ≠ .ok then
      ⟨{ s with mem := mem }, .register2Failed, log ++ ["register2 hook failed!"]⟩
    else
      ⟨{ s with mem := mem, isHook := true }, .complete,
        log ++ ["register2 hook success!", "loaded so: libart.so", "hook init complete"]⟩

/-- The call up to the engine. `leave` returns early, `attempt` is the part
behind `#if`; `get_open_function_flag` is the first to read the SDK level.
mirrors app/src/main/cpp/native.cpp:13-33 -/
def dumpWith {α : Type} (leave : DumpResult abi → α)
    (attempt : NativeState abi → BitVec abi.bits → List String → α)
    (s : NativeState abi) (packageName : String) (io : Lookup abi) : α :=
  let log := [packageName]
  if s.isHook then leave ⟨s, .hookedIgnore, log ++ ["hooked ignore"]⟩
  else
    let s := initPackageName packageName s
    if io.ndkDlopen = 0 then
      leave ⟨s, .noLibrary, log ++ ["Error: unable to find the SO : libart.so"]⟩
    else
      let s := { s with sdkInt := initSdkInit io.sdk s.sdkInt }
      if io.ndkDlsym = 0 then
        leave ⟨s, .noSymbol, log ++ ["Error: unable to find the Symbol : "]⟩
      else attempt s io.ndkDlsym log

/-- mirrors app/src/main/cpp/native.cpp:10-55 -/
def dump (s : NativeState abi) (packageName : String) (io : DumpIO abi) : DumpResult abi :=
  dumpWith id (fun s openCommonAddr log => install s openCommonAddr io.hook log) s packageName
    io.toLookup

abbrev DumpCall (abi : Abi) := String × DumpIO abi

def step (s : NativeState abi) (c : DumpCall abi) : NativeState abi := (dump s c.1 c.2).state

/-! ## What one call can do -/

/-- The memory after an attempt in which the engine patches `target`. -/
def hooked (m : Mem abi) (sdkInt : Int) (target : BitVec abi.bits) (t : Trampoline abi) : Mem abi :=
  (m.store (getOldOpenFunctionAddr abi sdkInt) t).patch target (getNewOpenFunctionAddr abi sdkInt)

/-- An arm64 attempt reaches the engine, which patches nothing. -/
def Idle (s : NativeState abi) (io : DumpIO abi) : Prop :=
  abi = .arm64 ∧ s.isHook = false ∧ io.ndkDlopen ≠ 0 ∧ io.ndkDlsym ≠ 0 ∧ io.hook.a64 = none

instance (s : NativeState abi) (io : DumpIO abi) : Decidable (Idle s io) :=
  inferInstanceAs (Decidable (_ ∧ _ ∧ _ ∧ _ ∧ _))

/-- The ART open function, as `ndk_dlsym` returns it to a call that gets there. -/
def openFunction (s : NativeState abi) (io : Lookup abi) : Option (BitVec abi.bits) :=
  if s.isHook ∨ io.ndkDlopen = 0 ∨ io.ndkDlsym = 0 then none else some io.ndkDlsym

/-- One call: ignored; given up before the engine acted; the hook installed;
or, on arm64, the flag set although nothing is patched. -/
inductive Outcome (s : NativeState abi) (packageName : String) (io : DumpIO abi) :
    NativeState abi → Exit → Prop where
  | ignored (h : s.isHook = true) : Outcome s packageName io s .hookedIgnore
  | givenUp (h : s.isHook = false) (hi : ¬ Idle s io) (sdkInt : Int) (exit : Exit)
      (hx : exit ≠ .hookedIgnore) (hc : exit ≠ .complete) :
      Outcome s packageName io { s with pname := packageName, sdkInt := sdkInt } exit
  | installed (h : s.isHook = false) (hi : ¬ Idle s io)
      (ha : openFunction s io.toLookup = some io.ndkDlsym) (sdkInt : Int) (t : Trampoline abi) :
      Outcome s packageName io
        ⟨true, packageName, sdkInt, hooked s.mem sdkInt io.ndkDlsym t⟩ .complete
  | pretended (hi : Idle s io) (sdkInt : Int) :
      Outcome s packageName io
        ⟨true, packageName, sdkInt, s.mem.store (getOldOpenFunctionAddr abi sdkInt) 0⟩ .complete

/-- What `install` does: nothing, or the hook, or the flag alone. -/
theorem install_cases (s : NativeState abi) (addr : BitVec abi.bits) (io : HookIO abi)
    (log : List String) :
    (∃ exit, exit ≠ .hookedIgnore ∧ exit ≠ .complete ∧ abi = .arm32 ∧
      (install s addr io log).state = s ∧ (install s addr io log).exit = exit) ∨
    (∃ t, (abi = .arm64 → io.a64 = some t) ∧
      (install s addr io log).state =
        { s with isHook := true, mem := hooked s.mem s.sdkInt addr t } ∧
      (install s addr io log).exit = .complete) ∨
    (abi = .arm64 ∧ io.a64 = none ∧
      (install s addr io log).state =
        { s with isHook := true, mem := s.mem.store (getOldOpenFunctionAddr abi s.sdkInt) 0 } ∧
      (install s addr io log).exit = .complete) := by
  cases abi with
  | arm64 =>
    simp only [install, isArm64, if_true, a64HookEffect]
    cases io.a64 with
    | none => exact Or.inr (Or.inr ⟨trivial, rfl, rfl, trivial⟩)
    | some t => exact Or.inr (Or.inl ⟨t, fun _ => rfl, rfl, trivial⟩)
  | arm32 =>
    simp only [install, isArm64, Bool.false_eq_true, if_false, inlineHookEffect]
    by_cases hr : io.register = .ok
    · rw [if_neg (not_not.mpr hr)]
      by_cases hi : io.inlineHook = .ok
      · rw [if_neg (not_not.mpr hi), if_pos hi]
        exact Or.inr (Or.inl ⟨io.trampoline, fun h => Abi.noConfusion h, rfl, rfl⟩)
      · rw [if_pos hi, if_neg hi]
        exact Or.inl ⟨.register2Failed, by decide, by decide, trivial, rfl, rfl⟩
    · rw [if_pos hr]
      exact Or.inl ⟨.register1Failed, by decide, by decide, trivial, rfl, rfl⟩

theorem dump_cases (s : NativeState abi) (packageName : String) (io : DumpIO abi) :
    Outcome s packageName io (dump s packageName io).state (dump s packageName io).exit := by
  unfold dump dumpWith
  cases h : s.isHook with
  | true => exact .ignored h
  | false =>
    simp only [Bool.false_eq_true, if_false]
    by_cases ho : io.ndkDlopen = 0
    · rw [if_pos ho]
      exact .givenUp h (fun hi => hi.2.2.1 ho) s.sdkInt .noLibrary (by decide) (by decide)
    rw [if_neg ho]
    by_cases hs : io.ndkDlsym = 0
    · rw [if_pos hs]
      exact .givenUp h (fun hi => hi.2.2.2.1 hs) _ .noSymbol (by decide) (by decide)
    rw [if_neg hs]
    let named : NativeState abi := ⟨s.isHook, packageName, initSdkInit io.sdk s.sdkInt, s.mem⟩
    show Outcome s packageName io (install named io.ndkDlsym io.hook [packageName]).state
      (install named io.ndkDlsym io.hook [packageName]).exit
    rcases install_cases named io.ndkDlsym io.hook [packageName] with
      ⟨exit, hx, hc, habi, hstate, hexit⟩ | ⟨t, ht, hstate, hexit⟩ | ⟨habi, ha, hstate, hexit⟩
    · have hi : ¬ Idle s io := by
        intro hidle
        have h64 := hidle.1
        rw [habi] at h64; cases h64
      rw [hstate, hexit]
      exact .givenUp h hi _ exit hx hc
    · have hi : ¬ Idle s io := by
        intro hidle
        obtain ⟨h64, -, -, -, hnone⟩ := hidle
        rw [ht h64] at hnone; cases hnone
      have ha : openFunction s io.toLookup = some io.ndkDlsym := by
        refine if_neg ?_
        rw [h]
        exact not_or.mpr ⟨by decide, not_or.mpr ⟨ho, hs⟩⟩
      rw [hstate, hexit]
      exact .installed h hi ha _ t
    · rw [hstate, hexit]
      exact .pretended ⟨habi, h, ho, hs, ha⟩ _

theorem step_cases (s : NativeState abi) (c : DumpCall abi) :
    ∃ exit, Outcome s c.1 c.2 (step s c) exit := ⟨_, dump_cases s c.1 c.2⟩

/-! ## The flag and the memory -/

/-- The state of a run, and the ART open function as `ndk_dlsym` last returned it. -/
structure Watched (abi : Abi) where
  native : NativeState abi
  art : Option (BitVec abi.bits)

def Watched.init (abi : Abi) : Watched abi := ⟨NativeState.init abi, none⟩

/-- The watched state after a call that looked up `io` and left `s`. -/
def Watched.next (w : Watched abi) (io : Lookup abi) (s : NativeState abi) : Watched abi :=
  ⟨s, (openFunction w.native io).or w.art⟩

def watch (w : Watched abi) (c : DumpCall abi) : Watched abi :=
  w.next c.2.toLookup (step w.native c)

/-- The ART open function is patched to the replacement of this build and SDK
level, whose saved pointer is not NULL. -/
def Hooked (w : Watched abi) : Prop :=
  ∃ art, w.art = some art ∧
    w.native.mem.Installed art (getNewOpenFunctionAddr abi w.native.sdkInt)

/-- The flag says whether the hook is in place; the function is patched at
most once; and while the hook is not in place, no call is ignored. -/
structure HookTruth (w : Watched abi) : Prop where
  flag : w.native.isHook = true ↔ Hooked w
  once : w.native.mem.patches.length ≤ 1
  retried : ¬ Hooked w → ∀ c : DumpCall abi, (dump w.native c.1 c.2).exit ≠ .hookedIgnore

/-- The engine patches, if an arm64 call gets as far as the engine. -/
def Acts (s : NativeState abi) (c : DumpCall abi) : Prop :=
  abi = .arm64 → s.isHook = false → c.2.ndkDlopen ≠ 0 → c.2.ndkDlsym ≠ 0 → c.2.hook.a64 ≠ none

theorem acts_iff (s : NativeState abi) (c : DumpCall abi) : Acts s c ↔ ¬ Idle s c.2 := by
  simp only [Acts, Idle, not_and, ne_eq]

/-- Nothing is patched before the flag is set. -/
def CleanUntilHooked (s : NativeState abi) : Prop := s.isHook = false → s.mem.patches = []

theorem clean_step (s : NativeState abi) (c : DumpCall abi) (hs : CleanUntilHooked s) :
    CleanUntilHooked (step s c) := by
  obtain ⟨exit, hc⟩ := step_cases s c
  generalize step s c = s' at hc ⊢
  cases hc with
  | ignored h => exact hs
  | givenUp h => exact fun _ => hs h
  | installed => exact fun h => by cases h
  | pretended => exact fun h => by cases h

theorem exit_ne_ignored {s : NativeState abi} (h : s.isHook = false) (c : DumpCall abi) :
    (dump s c.1 c.2).exit ≠ .hookedIgnore := by
  have hc := dump_cases s c.1 c.2
  intro he
  rw [he] at hc
  generalize (dump s c.1 c.2).state = s' at hc
  cases hc with
  | ignored ht => rw [h] at ht; cases ht
  | givenUp _ _ _ _ hx => exact hx rfl

theorem not_hooked {w : Watched abi} (h : w.native.mem.patches = []) : ¬ Hooked w := by
  intro hh
  obtain ⟨art, -, hm, -⟩ := hh
  rw [h] at hm
  cases hm

/-- Nothing patched: the flag is what matters. -/
theorem truth_of_clean (w : Watched abi) (h : w.native.mem.patches = []) :
    HookTruth w ↔ w.native.isHook = false := by
  refine ⟨?_, ?_⟩
  · intro ht
    by_contra hf
    exact not_hooked h (ht.flag.mp (by simpa using hf))
  · intro hf
    refine ⟨?_, by simp [h], fun _ c => exit_ne_ignored hf c⟩
    rw [hf]
    exact iff_of_false (by simp) (not_hooked h)

theorem truth_hooked {s : NativeState abi} (h : s.mem.patches = []) (pname : String) (sdkInt : Int)
    (art : BitVec abi.bits) (t : Trampoline abi) :
    HookTruth (⟨⟨true, pname, sdkInt, hooked s.mem sdkInt art t⟩, some art⟩ : Watched abi) := by
  have hh : Hooked (⟨⟨true, pname, sdkInt, hooked s.mem sdkInt art t⟩, some art⟩ : Watched abi) := by
    refine ⟨art, rfl, by simp [hooked], ?_⟩
    simp only [hooked, Mem.patch_saved, newAddr_old, Mem.store_saved]
    exact t.2
  exact ⟨iff_of_true rfl hh, by simp [hooked, h], fun hn => absurd hh hn⟩

/-- An ignored call looks nothing up. -/
theorem watch_ignored {w : Watched abi} (h : w.native.isHook = true) (io : Lookup abi) :
    w.next io w.native = w := by
  simp [Watched.next, openFunction, h]

/-- One call keeps the truth exactly when it does not fail silently. -/
theorem truth_step (w : Watched abi) (c : DumpCall abi) (hw : CleanUntilHooked w.native)
    (ht : HookTruth w) : HookTruth (watch w c) ↔ Acts w.native c := by
  rw [acts_iff, watch]
  obtain ⟨exit, hc⟩ := step_cases w.native c
  generalize step w.native c = s' at hc ⊢
  cases hc with
  | ignored h =>
    rw [watch_ignored h]
    exact iff_of_true ht (fun hi => by rw [hi.2.1] at h; cases h)
  | givenUp h hi sdkInt =>
    refine iff_of_true ?_ hi
    exact (truth_of_clean (w.next c.2.toLookup ⟨w.native.isHook, c.1, sdkInt, w.native.mem⟩)
      (hw h)).mpr h
  | installed h hi ha sdkInt t =>
    rw [Watched.next, ha]
    exact iff_of_true (truth_hooked (hw h) _ _ _ t) hi
  | pretended hi sdkInt =>
    refine iff_of_false (fun hp => ?_) (not_not.mpr hi)
    have hclean : (w.native.mem.store (getOldOpenFunctionAddr abi sdkInt) 0).patches = [] :=
      hw hi.2.1
    have hflag := (truth_of_clean (w.next c.2.toLookup ⟨true, c.1, sdkInt, _⟩) hclean).mp hp
    cases hflag

/-! ## Headline properties -/

/-- **The hook flag.** Along a run of calls the flag says whether the ART open
function is patched to its replacement, and the function is patched at most
once, exactly when the engine patches in every arm64 call that gets as far as
the engine. On the 32-bit build that is every run. -/
theorem hook_flag_iff (calls : List (DumpCall abi)) :
    Always watch HookTruth (Watched.init abi) calls ↔
      Meets step Acts (NativeState.init abi) calls := by
  have hrun : Always watch HookTruth (Watched.init abi) calls ↔
      Meets watch (fun w => Acts w.native) (Watched.init abi) calls :=
    always_iff_meets (I := fun w => CleanUntilHooked w.native) (fun w c => clean_step w.native c)
      truth_step _ calls (fun _ => rfl) ((truth_of_clean _ rfl).mpr rfl)
  exact hrun.trans (meets_map (fun _ _ => rfl) (Watched.init abi) calls)

/-- A call in which the library and the symbol are found and no trampoline is
left. -/
def noTrampolineLeft : DumpCall .arm64 :=
  (demoPackage.name, ⟨⟨26, 1#64, 1#64⟩, ⟨.errorUnknown, .errorUnknown, demoTrampoline, none⟩⟩)

/-- **Counterexample**: the engine patches nothing and the flag is set. -/
theorem failed_engine_sets_flag :
    ¬ ∀ (abi : Abi) (calls : List (DumpCall abi)),
      Always watch HookTruth (Watched.init abi) calls := by
  intro h
  have hm := (hook_flag_iff [noTrampolineLeft]).mp (h .arm64 [noTrampolineLeft])
  have ha : Acts (NativeState.init .arm64) noTrampolineLeft := hm.1
  exact ha rfl rfl (show 1#64 ≠ 0#64 by decide) (show 1#64 ≠ 0#64 by decide) rfl

end DumpDex.L4.NativeDump
