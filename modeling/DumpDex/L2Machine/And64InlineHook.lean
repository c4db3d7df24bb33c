import DumpDex.L2Machine.HookEngine

/-!
# The arm64 hook engine (`And64InlineHook.cpp`)

`A64HookFunction` takes a slot of a static pool of 256, moves the first
instructions there and overwrites them with a branch. The moving and the
branch's encoding are left to `FixInstructions` and `HookedCall`; what is
modelled here is when it gives up: no slot is left, or the page cannot be made
writable.

The slot counter is an `int32_t` that is only ever incremented, so it is out
of range for 2^32 - 256 of 2^32 calls and then starts again
(`allocate_nth`).

* `trampolineRoom`: the size check of `A64HookFunctionV` never fails.
* `a64HookFunction_effect`: what it does to memory is what `HookEngine` says
  such an engine does, `answer` telling whether it patched.
* `answer_of_slot`: as long as slots are left, it patches exactly when the page
  is writable.
-/
namespace DumpDex.L2.And64InlineHook
open DumpDex.L2.DeviceUtils DumpDex.L2.HookEngine

abbrev Addr := BitVec Abi.arm64.bits

/-- mirrors app/src/main/cpp/And64InlineHook.hpp:30 -/
def maxBackups : Int := 256

/-- mirrors app/src/main/cpp/And64InlineHook.cpp:41 -/
def maxInstructions : Nat := 5

/-- `__index` before the first call. -/
def startIndex : BitVec 32 := -1

/-- What a call finds: where the pool's slots are, whether the replacement is
out of reach of a single branch, and whether `mprotect` succeeds. -/
structure HookEnv where
  insnsPool : BitVec 32 → Trampoline .arm64
  far : Bool
  makeRwx : Bool

/-- mirrors app/src/main/cpp/And64InlineHook.cpp:510-521 -/
def fastAllocateTrampoline (env : HookEnv) (index : BitVec 32) :
    BitVec 32 × Option (Trampoline .arm64) :=
  let i := index + 1
  (i, if 0 ≤ i.toInt ∧ i.toInt < maxBackups then some (env.insnsPool i) else none)

/-- How many instructions are overwritten.
mirrors app/src/main/cpp/And64InlineHook.cpp:531-533 -/
def count (env : HookEnv) (symbol : Addr) : Nat :=
  if env.far then (if (symbol + 8) &&& 7 ≠ 0 then 5 else 4) else 1

/-- Whether it patched.
mirrors app/src/main/cpp/And64InlineHook.cpp:525-580 -/
def a64HookFunctionV (env : HookEnv) (m : Mem .arm64) (symbol : Addr) (replace : NewFn)
    (trampoline : Trampoline .arm64) (rwxSize : Nat) : Option (Trampoline .arm64) × Mem .arm64 :=
  if rwxSize < count env symbol * 10 then (none, m)
  else if env.makeRwx then (some trampoline, m.patch symbol replace)
  else (none, m)

/-- mirrors app/src/main/cpp/And64InlineHook.cpp:584-596 -/
def a64HookFunction (env : HookEnv) (index : BitVec 32) (m : Mem .arm64) (symbol : Addr)
    (replace : NewFn) (result : OldFn) : BitVec 32 × Mem .arm64 :=
  match fastAllocateTrampoline env index with
  | (index, none) => (index, m.store result 0)
  | (index, some trampoline) =>
    let m := m.store result trampoline
    match a64HookFunctionV env m symbol replace trampoline (maxInstructions * 10) with
    | (some _, m) => (index, m)
    | (none, m) => (index, m.store result 0)

/-- A slot has room for the instructions moved. -/
theorem trampolineRoom (env : HookEnv) (symbol : Addr) :
    ¬ maxInstructions * 10 < count env symbol * 10 := by
  unfold count maxInstructions
  split
  · split <;> omega
  · omega

/-- The trampoline of a call that patches. -/
def answer (env : HookEnv) (index : BitVec 32) : Option (Trampoline .arm64) :=
  if env.makeRwx then (fastAllocateTrampoline env index).2 else none

/-- It does what the contract of the engine allows, with that answer. -/
theorem a64HookFunction_effect {env : HookEnv} {index : BitVec 32} {io : HookIO .arm64}
    (hio : io.a64 = answer env index) (m : Mem .arm64) (symbol : Addr) (replace : NewFn)
    (result : OldFn) :
    (a64HookFunction env index m symbol replace result).2 =
      a64HookEffect io m symbol replace result := by
  unfold a64HookEffect
  rw [hio]
  unfold a64HookFunction answer
  obtain ⟨i, t⟩ := fastAllocateTrampoline env index
  cases t with
  | none => cases env.makeRwx <;> rfl
  | some t =>
    simp only [a64HookFunctionV, if_neg (trampolineRoom env symbol)]
    cases env.makeRwx with
    | true => rfl
    | false => simp [Mem.store]

theorem a64HookFunction_index (env : HookEnv) (index : BitVec 32) (m : Mem .arm64) (symbol : Addr)
    (replace : NewFn) (result : OldFn) :
    (a64HookFunction env index m symbol replace result).1 = index + 1 := by
  have h : (fastAllocateTrampoline env index).1 = index + 1 := rfl
  unfold a64HookFunction
  generalize fastAllocateTrampoline env index = a at h ⊢
  obtain ⟨i, t⟩ := a
  cases t with
  | none => exact h
  | some t =>
    simp only
    split <;> exact h

theorem toInt_range (i : BitVec 32) : (0 ≤ i.toInt ∧ i.toInt < maxBackups) ↔ i.toNat < 256 := by
  have h := i.isLt
  rw [BitVec.toInt_eq_toNat_cond, maxBackups]
  split <;> omega

/-- The counter after `n` calls. -/
def indexAfter (n : Nat) : BitVec 32 := BitVec.ofNat 32 n - 1

theorem indexAfter_succ (n : Nat) : indexAfter n + 1 = BitVec.ofNat 32 n := by
  exact BitVec.sub_add_cancel _ _

/-- Call number `n`, counted from 0, gets a slot exactly when `n` is below
256 modulo 2^32. -/
theorem allocate_nth (env : HookEnv) (n : Nat) :
    fastAllocateTrampoline env (indexAfter n) =
      (indexAfter (n + 1),
        if n % 2 ^ 32 < 256 then some (env.insnsPool (BitVec.ofNat 32 n)) else none) := by
  have hnext : indexAfter n + 1 = indexAfter (n + 1) := by
    apply BitVec.eq_of_toNat_eq
    simp [indexAfter, BitVec.toNat_sub]
    omega
  unfold fastAllocateTrampoline
  simp only [toInt_range, indexAfter_succ, BitVec.toNat_ofNat]
  rw [← hnext, indexAfter_succ]

/-- As long as slots are left, only `mprotect` decides. -/
theorem answer_of_slot (env : HookEnv) (n : Nat) (h : n < 256) :
    answer env (indexAfter n) =
      if env.makeRwx then some (env.insnsPool (BitVec.ofNat 32 n)) else none := by
  have hn : n % 2 ^ 32 < 256 := by omega
  unfold answer
  rw [allocate_nth, if_pos hn]

end DumpDex.L2.And64InlineHook
