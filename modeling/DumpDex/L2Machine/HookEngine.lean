import DumpDex.L2Machine.DeviceUtils
import Mathlib.Logic.Function.Basic

/-!
# What a hook engine can do

`native.cpp` uses two inline-hook engines, one per build. What it can see of
them is the memory they change (`Mem`: which entry points are patched, and
the saved pointers, 0 for NULL) and what they report.

* 32-bit: `registerInlineHook` only fills the engine's own table;
  `inlineHook` patches and saves the trampoline when it returns `ELE7EN_OK`,
  and does nothing when it returns anything else.
* arm64: `A64HookFunction` returns nothing. Either it patches and saves a
  trampoline, or it leaves the target alone and saves NULL.
-/
namespace DumpDex.L2.HookEngine
open DumpDex.L2.DeviceUtils

/-- mirrors app/src/main/cpp/inlineHook.h:10-21 -/
inductive Ele7enStatus where
  | errorUnknown
  | ok
  | errorNotInitialized
  | errorNotExecutable
  | errorNotRegistered
  | errorNotHooked
  | errorAlreadyRegistered
  | errorAlreadyHooked
  | errorSoNotFound
  | errorFunctionNotFound
  deriving DecidableEq, Repr

/-- Where the moved instructions of a patched function are: not NULL. -/
abbrev Trampoline (abi : Abi) := {x : BitVec abi.bits // x ≠ 0}

/-- A trampoline for concrete examples. -/
def demoTrampoline : Trampoline .arm64 := ⟨1#64, show 1#64 ≠ 0#64 by decide⟩

structure Mem (abi : Abi) where
  /-- Patched entry points and what they now jump to, in the order of patching. -/
  patches : List (BitVec abi.bits × NewFn)
  saved : OldFn → BitVec abi.bits

variable {abi : Abi}

/-- Nothing patched, every saved pointer NULL. -/
def Mem.clean : Mem abi := ⟨[], fun _ => 0⟩

/-- `*old = x` -/
def Mem.store (m : Mem abi) (old : OldFn) (x : BitVec abi.bits) : Mem abi :=
  { m with saved := Function.update m.saved old x }

def Mem.patch (m : Mem abi) (target : BitVec abi.bits) (new : NewFn) : Mem abi :=
  { m with patches := m.patches ++ [(target, new)] }

@[simp] theorem Mem.store_patches (m : Mem abi) (old : OldFn) (x : BitVec abi.bits) :
    (m.store old x).patches = m.patches := rfl

@[simp] theorem Mem.store_saved (m : Mem abi) (old : OldFn) (x : BitVec abi.bits) :
    (m.store old x).saved old = x := Function.update_self ..

@[simp] theorem Mem.patch_patches (m : Mem abi) (target : BitVec abi.bits) (new : NewFn) :
    (m.patch target new).patches = m.patches ++ [(target, new)] := rfl

@[simp] theorem Mem.patch_saved (m : Mem abi) (target : BitVec abi.bits) (new : NewFn) :
    (m.patch target new).saved = m.saved := rfl

/-- `target` is patched to `new`, and the pointer `new` calls through is not NULL. -/
def Mem.Installed (m : Mem abi) (target : BitVec abi.bits) (new : NewFn) : Prop :=
  (target, new) ∈ m.patches ∧ m.saved new.old ≠ 0

/-- What the engines answer during one attempt. -/
structure HookIO (abi : Abi) where
  register : Ele7enStatus
  inlineHook : Ele7enStatus
  /-- The trampoline of an `inlineHook` that returns `ELE7EN_OK`. -/
  trampoline : Trampoline abi
  /-- The trampoline of an `A64HookFunction` that patches. -/
  a64 : Option (Trampoline abi)
  deriving DecidableEq

/-- What `inlineHook(target)` does to memory, `new` and `old` being what the
target was registered with. -/
def inlineHookEffect (io : HookIO abi) (m : Mem abi) (target : BitVec abi.bits) (new : NewFn)
    (old : OldFn) : Mem abi :=
  if io.inlineHook = .ok then (m.store old io.trampoline).patch target new else m

/-- What `A64HookFunction(target, new, old)` does to memory. -/
def a64HookEffect (io : HookIO abi) (m : Mem abi) (target : BitVec abi.bits) (new : NewFn)
    (old : OldFn) : Mem abi :=
  match io.a64 with
  | some trampoline => (m.store old trampoline).patch target new
  | none => m.store old 0

end DumpDex.L2.HookEngine
