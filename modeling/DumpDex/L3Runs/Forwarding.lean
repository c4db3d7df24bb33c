import DumpDex.Core.Itanium
import DumpDex.L2Machine.Hooks

/-!
# Do the replacements forward what ART passes?

The parameter list of the function that is patched is the one its mangled
name spells out; on the 32-bit build the address of the result comes first
(on arm64 it travels in a register of its own). The replacement is chosen
without looking at that name.

* `artWidths_eq`: the parameter widths of the six known symbols.
* `transparent_of_paired`: where the replacement was written for the symbol,
  every argument arrives and the original's result is returned.
* `not_transparent_of_unpaired`: elsewhere (29 on both builds, 28 on arm64)
  the original has more parameters than the replacement passes on.
* `hook_transparent_iff`: so `Paired` is exactly when the hook is transparent.
-/
namespace DumpDex.L3.Forwarding
open DumpDex.Core.CCall DumpDex.Core.Itanium
open DumpDex.L2.DeviceUtils

/-- What the callee gets besides the written parameters. -/
def hiddenResult : Abi → List Nat
  | .arm32 => [Abi.bits .arm32]
  | .arm64 => []

/-- The widths of the parameters of the ART function that is patched. -/
def artWidths (abi : Abi) (sdkInt : Int) : Option (List Nat) :=
  (paramBits abi.bits (getOpenFunctionFlag abi sdkInt)).map (hiddenResult abi ++ ·)

/-- Entered with `args`, whatever stands past them, the replacement makes one
call through the saved pointer; the original finds every argument at its
position, whatever stands past the arguments it is passed; and the
replacement returns what the original returns. -/
def Transparent (abi : Abi) (sdkInt : Int) (args : List (Word abi)) : Prop :=
  ∀ (env : Env abi) (junk : Frame abi.bits),
    let run := (getNewOpenFunctionAddr abi sdkInt).enter env (enter args junk)
    ∃ passed, run.acts.filterMap HookAct.call? = [(getOldOpenFunctionAddr abi sdkInt, passed)] ∧
      Delivers args passed env.rest ∧
      run.result = env.old (getOldOpenFunctionAddr abi sdkInt) (enter passed env.rest)

variable {abi : Abi} {sdkInt : Int}

/-- A tuple is forwarded transparently exactly when the replacement's own
parameters deliver it. -/
theorem transparent_iff_delivers (args : List (Word abi)) :
    Transparent abi sdkInt args ↔
      ∀ junk rest, Delivers args
        (forwarded ((getNewOpenFunctionAddr abi sdkInt).widths abi) (enter args junk)) rest := by
  refine ⟨?_, ?_⟩
  · intro h junk rest
    obtain ⟨passed, hc, hd, -⟩ := h ⟨fun _ _ => 0, rest⟩ junk
    rw [enter_calls] at hc
    simp only [List.cons.injEq, Prod.mk.injEq, and_true] at hc
    rw [hc.2]; exact hd
  · intro h env junk
    refine ⟨_, ?_, h junk env.rest, ?_⟩
    · rw [enter_calls, newAddr_old]
    · rw [enter_result, newAddr_old]

/-! ## The six symbols -/

section Symbols
set_option maxRecDepth 10000

theorem bits_arm64Pie : paramBits Abi.arm64.bits arm64PieOpenCommon =
    some [64, 64, 64, 64, 64, 32, 64, 1, 1, 64, 64, 64] :=
  (paramBits_ofList _ _).trans (by decide +kernel)

theorem bits_arm64Oreo : paramBits Abi.arm64.bits arm64OreoOpenCommon =
    some [64, 64, 64, 32, 64, 1, 1, 64, 64] :=
  (paramBits_ofList _ _).trans (by decide +kernel)

theorem bits_arm64Memory : paramBits Abi.arm64.bits arm64OpenMemory = some [64, 64, 64, 32, 64, 64, 64] :=
  (paramBits_ofList _ _).trans (by decide +kernel)

theorem bits_arm32Pie : paramBits Abi.arm32.bits arm32PieOpenCommon =
    some [32, 32, 32, 32, 32, 32, 32, 1, 1, 32, 32, 32] :=
  (paramBits_ofList _ _).trans (by decide +kernel)

theorem bits_arm32Oreo : paramBits Abi.arm32.bits arm32OreoOpenCommon =
    some [32, 32, 32, 32, 32, 1, 1, 32, 32] :=
  (paramBits_ofList _ _).trans (by decide +kernel)

theorem bits_arm32Memory : paramBits Abi.arm32.bits arm32OpenMemory = some [32, 32, 32, 32, 32, 32, 32] :=
  (paramBits_ofList _ _).trans (by decide +kernel)

end Symbols

theorem artWidths_of_flag {symbol : String} {widths : List Nat}
    (hs : getOpenFunctionFlag abi sdkInt = symbol) (hw : paramBits abi.bits symbol = some widths) :
    artWidths abi sdkInt = some (hiddenResult abi ++ widths) := by
  rw [artWidths, hs, hw]; rfl

/-- What the symbol's function takes, against what the replacement declares:
the same where `Paired`, more elsewhere. -/
def WidthsAgree (abi : Abi) (sdkInt : Int) (widths : List Nat) : Prop :=
  (Paired abi sdkInt → widths = (getNewOpenFunctionAddr abi sdkInt).widths abi) ∧
    (¬ Paired abi sdkInt → ((getNewOpenFunctionAddr abi sdkInt).widths abi).length < widths.length)

theorem artWidths_of_paired {symbol : String} {widths : List Nat} (hp : Paired abi sdkInt)
    (hs : getOpenFunctionFlag abi sdkInt = symbol) (hw : paramBits abi.bits symbol = some widths)
    (he : hiddenResult abi ++ widths = (getNewOpenFunctionAddr abi sdkInt).widths abi) :
    ∃ widths, artWidths abi sdkInt = some widths ∧ WidthsAgree abi sdkInt widths :=
  ⟨_, artWidths_of_flag hs hw, fun _ => he, fun h => absurd hp h⟩

theorem artWidths_of_unpaired {symbol : String} {widths : List Nat} (hp : ¬ Paired abi sdkInt)
    (hs : getOpenFunctionFlag abi sdkInt = symbol) (hw : paramBits abi.bits symbol = some widths)
    (hl : ((getNewOpenFunctionAddr abi sdkInt).widths abi).length <
      (hiddenResult abi ++ widths).length) :
    ∃ widths, artWidths abi sdkInt = some widths ∧ WidthsAgree abi sdkInt widths :=
  ⟨_, artWidths_of_flag hs hw, fun h => absurd h hp, fun _ => hl⟩

theorem artWidths_eq (hflag : getOpenFunctionFlag abi sdkInt ≠ "") :
    ∃ widths, artWidths abi sdkInt = some widths ∧ WidthsAgree abi sdkInt widths := by
  obtain ⟨h1, h2⟩ := (flag_ne_iff abi sdkInt).mp hflag
  obtain rfl | rfl | rfl | rfl | rfl | rfl | rfl : sdkInt = 23 ∨ sdkInt = 24 ∨ sdkInt = 25 ∨
    sdkInt = 26 ∨ sdkInt = 27 ∨ sdkInt = 28 ∨ sdkInt = 29 := by omega
  all_goals cases abi
  -- 23, 24, 25: `OpenMemory`
  iterate 3
    · exact artWidths_of_paired (by decide) rfl bits_arm32Memory rfl
    · exact artWidths_of_paired (by decide) rfl bits_arm64Memory rfl
  -- 26, 27: `OpenCommon` of `DexFile`
  iterate 2
    · exact artWidths_of_paired (by decide) rfl bits_arm32Oreo rfl
    · exact artWidths_of_paired (by decide) rfl bits_arm64Oreo rfl
  -- 28: paired on the 32-bit build only
  · exact artWidths_of_paired (by decide) rfl bits_arm32Pie rfl
  · exact artWidths_of_unpaired (by decide) rfl bits_arm64Pie (by decide)
  -- 29: on neither
  · exact artWidths_of_unpaired (by decide) rfl bits_arm32Pie (by decide)
  · exact artWidths_of_unpaired (by decide) rfl bits_arm64Pie (by decide)

theorem bits_pos (abi : Abi) : 0 < abi.bits := Nat.lt_of_lt_of_le (by decide) abi.bits_ge

theorem transparent_of_paired {args : List (Word abi)}
    (h : FitsAll ((getNewOpenFunctionAddr abi sdkInt).widths abi) args) :
    Transparent abi sdkInt args :=
  (transparent_iff_delivers args).mpr fun junk rest => delivers_of_fits (bits_pos abi) h junk rest

theorem not_transparent_of_unpaired {args : List (Word abi)}
    (h : ((getNewOpenFunctionAddr abi sdkInt).widths abi).length < args.length) :
    ¬ Transparent abi sdkInt args := by
  rw [transparent_iff_delivers, delivers_forwarded_iff (bits_pos abi)]
  intro hd
  have hlen := hd.1
  omega

/-! ## Headline properties -/

/-- **Hook transparency.** For every level and build with a known symbol, and
every argument tuple of the function it names: the replacement forwards the
tuple whole and returns the original's result exactly when it was written for
that function. -/
theorem hook_transparent_iff (abi : Abi) (sdkInt : Int)
    (hflag : getOpenFunctionFlag abi sdkInt ≠ "") :
    ∃ widths, artWidths abi sdkInt = some widths ∧
      ∀ args, FitsAll widths args → (Transparent abi sdkInt args ↔ Paired abi sdkInt) := by
  obtain ⟨widths, hw, hp, hu⟩ := artWidths_eq hflag
  refine ⟨widths, hw, fun args hfit => ?_⟩
  by_cases h : Paired abi sdkInt
  · rw [hp h] at hfit
    exact iff_of_true (transparent_of_paired hfit) h
  · have hlen := hu h
    rw [hfit.length_eq] at hlen
    exact iff_of_false (not_transparent_of_unpaired hlen) h

theorem hook_transparent_oreo : getOpenFunctionFlag .arm64 26 ≠ "" ∧
    ∃ widths, artWidths .arm64 26 = some widths ∧
      ∀ args, FitsAll widths args → (Transparent .arm64 26 args ↔ Paired .arm64 26) :=
  ⟨(flag_ne_iff .arm64 26).mpr (by decide),
    hook_transparent_iff .arm64 26 ((flag_ne_iff .arm64 26).mpr (by decide))⟩

/-- **Counterexample**: Android 10 on arm64. `OpenCommon` has twelve
parameters, the replacement seven. -/
theorem android10_drops_arguments :
    ¬ ∀ (abi : Abi) (sdkInt : Int), getOpenFunctionFlag abi sdkInt ≠ "" →
      ∃ widths, artWidths abi sdkInt = some widths ∧
        ∀ args, FitsAll widths args → Transparent abi sdkInt args := by
  intro h
  obtain ⟨widths, hw, ht⟩ := h .arm64 29 ((flag_ne_iff .arm64 29).mpr (by decide))
  have e : artWidths .arm64 29 = some [64, 64, 64, 64, 64, 32, 64, 1, 1, 64, 64, 64] :=
    artWidths_of_flag rfl bits_arm64Pie
  obtain rfl : widths = _ := Option.some.inj (hw.symm.trans e)
  exact not_transparent_of_unpaired (by decide)
    (ht (List.replicate 12 0) (by decide))

end DumpDex.L3.Forwarding
