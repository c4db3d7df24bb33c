import DumpDex.L3Runs.Forwarding

/-!
# Which dexes are captured on which platform

A configuration is a build and an SDK level. Where its ART function has the
base and the size is read off the mangled name: the first `const uint8_t *`
and the first `size_t` of the parameter list (`Config.position`), which on the
32-bit build comes after the address of the result. An `Entry` is a call of
the ART function with a given base and size there, and anything at all
elsewhere. In every known symbol these are the first two written parameters
(`firstTwo_eq`), and the replacement looks for them there (`Entry.finds`).

Which size a replacement captures depends only on `NewFn.startSize`:
`captures_iff`, `silent_iff`. That is 102401 everywhere except on arm64 with
SDK level 26 or 27, whose replacement already captures 102400 bytes. So two
configurations agree on every dex but one of exactly that size, where they
agree when both or neither are of that kind (`same_capture_iff`).
-/
namespace DumpDex.L3.Capture
open DumpDex.Core.CCall DumpDex.Core.Itanium DumpDex.L2.DeviceUtils
open DumpDex.L3.Forwarding (hiddenResult)

structure Config where
  abi : Abi
  sdkInt : Int
  deriving DecidableEq, Repr

/-- The ART open function of the configuration is known by name. -/
def Config.Known (c : Config) : Prop := getOpenFunctionFlag c.abi c.sdkInt ≠ ""

def Config.newFn (c : Config) : NewFn := getNewOpenFunctionAddr c.abi c.sdkInt

/-- The configurations whose replacement tests `size < DEX_MIN_LEN`. -/
def Config.arm64Oreo (c : Config) : Prop := c.abi = .arm64 ∧ isOreo c.sdkInt = true

/-- `const uint8_t *` -/
def basePtr : Ty := .pointer (.const (.builtin 'h'))

/-- `size_t` -/
def sizeT : Abi → Ty
  | .arm32 => .builtin 'j'
  | .arm64 => .builtin 'm'

/-- Where the ART function of the configuration has its first parameter of
type `t`. -/
def Config.position (c : Config) (t : Ty) : Option Nat :=
  (paramTypes (getOpenFunctionFlag c.abi c.sdkInt).toList).bind fun ts =>
    (ts.idxOf? t).map ((hiddenResult c.abi).length + ·)

/-- A call of the ART function with this base and size: what stands at its
argument positions, and what the original does. -/
structure Entry (c : Config) (base size : Word c.abi) where
  frame : Frame c.abi.bits
  env : Env c.abi
  hasBase : ∃ i, c.position basePtr = some i ∧ frame i = base
  hasSize : ∃ i, c.position (sizeT c.abi) = some i ∧ frame i = size

/-- The call enters the replacement of the configuration. -/
def Entry.run {c : Config} {base size : Word c.abi} (e : Entry c base size) : HookRun c.abi :=
  c.newFn.enter e.env e.frame

/-- `save_dex_file(base, size)` once, and that before the call of the original. -/
def Captures {abi : Abi} (base size : Word abi) (r : HookRun abi) : Prop :=
  ∃ before fn args, r.acts = before ++ [.callOld fn args] ∧
    before.filterMap HookAct.call? = [] ∧
    before.filterMap HookAct.save? = [(base, size)]

def Silent {abi : Abi} (r : HookRun abi) : Prop := r.acts.filterMap HookAct.save? = []

/-- Both runs capture the dex they are given or neither does. -/
def Agree {c₁ c₂ : Config} {base₁ size₁ : Word c₁.abi} {base₂ size₂ : Word c₂.abi}
    (e₁ : Entry c₁ base₁ size₁) (e₂ : Entry c₂ base₂ size₂) : Prop :=
  (Captures base₁ size₁ e₁.run ∧ Captures base₂ size₂ e₂.run) ∨ (Silent e₁.run ∧ Silent e₂.run)

/-- `n` is the size at which capturing starts. -/
def StartsAt (c : Config) (n : Nat) : Prop :=
  ∀ (base size : Word c.abi) (e : Entry c base size), Captures base size e.run ↔ n ≤ size.toNat

/-- A base or a size that fits a word of both builds: 64 bits when both
configurations are arm64. -/
abbrev Common (c₁ c₂ : Config) := BitVec (min c₁.abi.bits c₂.abi.bits)

/-! ## Base and size reach the replacement -/

/-- The first two parameter types of the function a mangled name names. -/
def firstTwo (mangled : String) : Option (List Ty) := (paramTypes mangled.toList).map (·.take 2)

theorem firstTwo_ofList (cs : List Char) :
    firstTwo (String.ofList cs) = (paramTypes cs).map (·.take 2) := by
  rw [firstTwo, String.toList_ofList]

set_option maxRecDepth 10000 in
/-- The function of every known symbol takes the base and the size first. -/
theorem firstTwo_eq (abi : Abi) (sdkInt : Int) (h : getOpenFunctionFlag abi sdkInt ≠ "") :
    firstTwo (getOpenFunctionFlag abi sdkInt) = some [basePtr, sizeT abi] := by
  unfold getOpenFunctionFlag at h ⊢
  cases abi <;> simp only [isArm64, Bool.false_eq_true, if_true, if_false] at h ⊢
  all_goals
    split
    · exact (firstTwo_ofList _).trans (by decide +kernel)
    · split
      · exact (firstTwo_ofList _).trans (by decide +kernel)
      · split
        · exact (firstTwo_ofList _).trans (by decide +kernel)
        · rename_i h1 h2 h3
          simp [h1, h2, h3] at h

theorem types_of_firstTwo {mangled : String} {t u : Ty} (h : firstTwo mangled = some [t, u]) :
    ∃ ts, paramTypes mangled.toList = some (t :: u :: ts) := by
  obtain ⟨ts, hts, htake⟩ := Option.map_eq_some_iff.mp h
  rw [hts]
  match ts, htake with
  | _ :: _ :: ts, htake =>
    cases htake
    exact ⟨ts, rfl⟩

variable {c : Config}

theorem position_basePtr (h : c.Known) :
    c.position basePtr = some (hiddenResult c.abi).length := by
  obtain ⟨ts, hts⟩ := types_of_firstTwo (firstTwo_eq c.abi c.sdkInt h)
  simp [Config.position, hts, List.idxOf?_cons]

theorem position_sizeT (h : c.Known) :
    c.position (sizeT c.abi) = some ((hiddenResult c.abi).length + 1) := by
  obtain ⟨ts, hts⟩ := types_of_firstTwo (firstTwo_eq c.abi c.sdkInt h)
  have hne : basePtr ≠ sizeT c.abi := by cases c.abi <;> decide
  simp [Config.position, hts, List.idxOf?_cons, hne]

theorem basePos_eq (c : Config) : c.newFn.basePos = (hiddenResult c.abi).length := by
  obtain ⟨abi, sdkInt⟩ := c
  unfold Config.newFn getNewOpenFunctionAddr
  cases abi <;> cases isOreo sdkInt <;> cases isPie sdkInt <;> rfl

/-- The replacement finds the base and the size where the ART function has them. -/
theorem Entry.finds {base size : Word c.abi} (h : c.Known) (e : Entry c base size) :
    e.frame c.newFn.basePos = base ∧ e.frame (c.newFn.basePos + 1) = size := by
  obtain ⟨i, hi, hbase⟩ := e.hasBase
  obtain ⟨j, hj, hsize⟩ := e.hasSize
  rw [position_basePtr h] at hi
  rw [position_sizeT h] at hj
  cases hi
  cases hj
  rw [basePos_eq]
  exact ⟨hbase, hsize⟩

/-- Every base and size can be passed. -/
def Config.Known.entry (h : c.Known) (base size : Word c.abi) : Entry c base size where
  frame := fun i => if i = (hiddenResult c.abi).length then base else size
  env := ⟨fun _ _ => 0, fun _ => 0⟩
  hasBase := ⟨_, position_basePtr h, if_pos rfl⟩
  hasSize := ⟨_, position_sizeT h, if_neg (by omega)⟩

theorem run_acts {base size : Word c.abi} (h : c.Known) (e : Entry c base size) :
    ∃ args, e.run.acts = c.newFn.prelude base size ++ [.callOld c.newFn.old args] := by
  obtain ⟨hb, hs⟩ := e.finds h
  refine ⟨forwarded (c.newFn.widths c.abi) e.frame, ?_⟩
  rw [Entry.run, enter_eq, hb, hs]
  rfl

theorem run_saves {base size : Word c.abi} (h : c.Known) (e : Entry c base size) :
    e.run.acts.filterMap HookAct.save? =
      if c.newFn.startSize ≤ size.toNat then [(base, size)] else [] := by
  obtain ⟨hb, hs⟩ := e.finds h
  rw [Entry.run, enter_saves, hb, hs]

theorem silent_iff {base size : Word c.abi} (h : c.Known) (e : Entry c base size) :
    Silent e.run ↔ size.toNat < c.newFn.startSize := by
  rw [Silent, run_saves h]
  split <;> simp <;> omega

theorem captures_iff {base size : Word c.abi} (h : c.Known) (e : Entry c base size) :
    Captures base size e.run ↔ c.newFn.startSize ≤ size.toNat := by
  have hsaves := run_saves h e
  refine ⟨?_, ?_⟩
  · intro hc
    obtain ⟨before, fn, args, ha, -, hs⟩ := hc
    by_contra hlt
    rw [if_neg hlt, ha, List.filterMap_append, hs] at hsaves
    simp at hsaves
  · intro hle
    obtain ⟨args, ha⟩ := run_acts h e
    refine ⟨_, _, args, ha, prelude_calls .., ?_⟩
    rw [ha, List.filterMap_append, if_pos hle] at hsaves
    exact (List.append_nil _).symm.trans hsaves

theorem startsAt_iff (h : c.Known) (n : Nat) : StartsAt c n ↔ n = c.newFn.startSize := by
  constructor
  · intro hn
    have key : ∀ m, m < 2 ^ 32 → (c.newFn.startSize ≤ m ↔ n ≤ m) := by
      intro m hm
      have hword : m < 2 ^ c.abi.bits :=
        Nat.lt_of_lt_of_le hm (Nat.pow_le_pow_right (by decide) c.abi.bits_ge)
      have e := hn 0 (BitVec.ofNat _ m) (h.entry 0 _)
      rwa [captures_iff h, BitVec.toNat_ofNat, Nat.mod_eq_of_lt hword] at e
    have hstart : c.newFn.startSize ≤ 102401 := by cases c.newFn <;> decide
    have h1 := (key c.newFn.startSize (by omega)).mp (Nat.le_refl _)
    have h2 := (key n (by omega)).mpr (Nat.le_refl _)
    omega
  · rintro rfl base size e
    exact captures_iff h e

/-! ## Headline properties -/

theorem startSize_eq (c : Config) :
    (c.arm64Oreo ∧ c.newFn.startSize = 102400) ∨ (¬ c.arm64Oreo ∧ c.newFn.startSize = 102401) := by
  obtain ⟨abi, sdkInt⟩ := c
  unfold Config.arm64Oreo Config.newFn getNewOpenFunctionAddr
  cases abi with
  | arm64 =>
    cases isOreo sdkInt with
    | true => exact Or.inl ⟨⟨rfl, rfl⟩, rfl⟩
    | false => exact Or.inr ⟨fun h => Bool.noConfusion h.2, rfl⟩
  | arm32 =>
    refine Or.inr ⟨fun h => Abi.noConfusion h.1, ?_⟩
    cases isOreo sdkInt <;> cases isPie sdkInt <;> rfl

/-- **Capture on two platforms.** For every base and size that fit both
builds, and whatever the other arguments are, two configurations with a known
symbol agree on the dex exactly when it is not of 102400 bytes or both or
neither are arm64 with level 26 or 27; and capturing starts at one size in
both exactly when the latter holds. -/
theorem same_capture_iff (c₁ c₂ : Config) (h₁ : c₁.Known) (h₂ : c₂.Known) :
    (∀ (base size : Common c₁ c₂) (e₁ : Entry c₁ (base.setWidth _) (size.setWidth _))
        (e₂ : Entry c₂ (base.setWidth _) (size.setWidth _)),
      Agree e₁ e₂ ↔ size.toNat ≠ 102400 ∨ (c₁.arm64Oreo ↔ c₂.arm64Oreo)) ∧
    ((∃ n, StartsAt c₁ n ∧ StartsAt c₂ n) ↔ (c₁.arm64Oreo ↔ c₂.arm64Oreo)) := by
  have s₁ := startSize_eq c₁
  have s₂ := startSize_eq c₂
  refine ⟨fun base size e₁ e₂ => ?_, ?_⟩
  · have w₁ : (size.setWidth c₁.abi.bits).toNat = size.toNat :=
      BitVec.toNat_setWidth_of_le (Nat.min_le_left ..)
    have w₂ : (size.setWidth c₂.abi.bits).toNat = size.toNat :=
      BitVec.toNat_setWidth_of_le (Nat.min_le_right ..)
    rw [Agree, captures_iff h₁, captures_iff h₂, silent_iff h₁, silent_iff h₂, w₁, w₂]
    rcases s₁ with ⟨o₁, s₁⟩ | ⟨o₁, s₁⟩ <;> rcases s₂ with ⟨o₂, s₂⟩ | ⟨o₂, s₂⟩ <;>
      simp only [o₁, o₂, s₁, s₂, iff_true, iff_false, not_true_eq_false, or_true,
        or_false] <;> omega
  · simp only [startsAt_iff h₁, startsAt_iff h₂, exists_eq_left]
    rcases s₁ with ⟨o₁, s₁⟩ | ⟨o₁, s₁⟩ <;> rcases s₂ with ⟨o₂, s₂⟩ | ⟨o₂, s₂⟩ <;>
      simp [o₁, o₂, s₁, s₂]

def arm64Level26 : Config := ⟨.arm64, 26⟩

def arm64Level23 : Config := ⟨.arm64, 23⟩

theorem known_26 : arm64Level26.Known := (flag_ne_iff .arm64 26).mpr (by decide)

theorem known_23 : arm64Level23.Known := (flag_ne_iff .arm64 23).mpr (by decide)

/-- Every 64-bit base, and every 64-bit size but 102400, on arm64. -/
theorem same_capture_23_26 : arm64Level23.Known ∧ arm64Level26.Known ∧
    ∀ (base size : Common arm64Level23 arm64Level26)
      (e₁ : Entry arm64Level23 (base.setWidth _) (size.setWidth _))
      (e₂ : Entry arm64Level26 (base.setWidth _) (size.setWidth _)),
      Agree e₁ e₂ ↔ size.toNat ≠ 102400 ∨ (arm64Level23.arm64Oreo ↔ arm64Level26.arm64Oreo) :=
  ⟨known_23, known_26, (same_capture_iff arm64Level23 arm64Level26 known_23 known_26).1⟩

/-- **Counterexample**: a dex of 102400 bytes is captured on arm64 with level
26 and not with level 23. -/
theorem boundary_size_differs :
    ¬ ∀ (c₁ c₂ : Config), c₁.Known → c₂.Known →
      (∀ (base size : Common c₁ c₂) (e₁ : Entry c₁ (base.setWidth _) (size.setWidth _))
        (e₂ : Entry c₂ (base.setWidth _) (size.setWidth _)), Agree e₁ e₂) ∧
      ∃ n, StartsAt c₁ n ∧ StartsAt c₂ n := by
  intro h
  obtain ⟨n, h₁, h₂⟩ := (h arm64Level23 arm64Level26 known_23 known_26).2
  have e₁ := (startsAt_iff known_23 n).mp h₁
  have e₂ := (startsAt_iff known_26 n).mp h₂
  exact absurd (e₁.symm.trans e₂) (by decide)

end DumpDex.L3.Capture
