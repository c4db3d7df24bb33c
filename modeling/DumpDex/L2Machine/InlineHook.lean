import DumpDex.L2Machine.HookEngine
import Mathlib.Data.List.Nodup

/-!
# The 32-bit hook engine (`inlineHook.c`)

A table of at most 1024 items: what a target is to be replaced by, where the
original is to be saved, and whether the patch has been made. The moved
instructions, the freezing of other threads, the bytes of the patch and the
functions the module never calls are in `InlineHookEngine`.

* `register_ok_iff`: `ELE7EN_OK` exactly when the target was new to the table
  and has been added; in every other case the table is as before.
* `inlineHook_registered`: a target that has just been registered is patched,
  with the replacement and the pointer it was registered with, and what is
  saved is not NULL.
* `inlineHook_effect`: `ELE7EN_OK` exactly when it patched.
-/
namespace DumpDex.L2.InlineHook
open DumpDex.L2.DeviceUtils DumpDex.L2.HookEngine

abbrev Addr := BitVec Abi.arm32.bits

/-- mirrors app/src/main/cpp/inlineHook.c:38-41 -/
inductive HookStatus where
  | registered
  | hooked
  deriving DecidableEq, Repr

/-- mirrors app/src/main/cpp/inlineHook.c:43-55 -/
structure InlineHookItem where
  targetAddr : Addr
  newAddr : NewFn
  protoAddr : OldFn
  trampolineInstructions : Trampoline .arm32
  status : HookStatus

/-- `info.item[0]` to `info.item[info.size - 1]` -/
abbrev Info := List InlineHookItem

/-- mirrors app/src/main/cpp/inlineHook.c:57-60 -/
def maxItems : Nat := 1024

/-- What `isExecutableAddr` says of both addresses, and what `mmap` returns. -/
structure RegisterIO where
  targetExecutable : Bool
  newExecutable : Bool
  trampoline : Trampoline .arm32

/-- mirrors app/src/main/cpp/inlineHook.c:213-223 -/
def findInlineHookItem (info : Info) (targetAddr : Addr) : Option InlineHookItem :=
  info.find? fun item => item.targetAddr = targetAddr

/-- `none` when the table is full: `addInlineHookItem` then returns NULL, and
the item is written through it.
mirrors app/src/main/cpp/inlineHook.c:225-283 -/
def registerInlineHook (io : RegisterIO) (info : Info) (targetAddr : Addr) (newAddr : NewFn)
    (protoAddr : OldFn) : Option (Ele7enStatus × Info) :=
  if !io.targetExecutable || !io.newExecutable then some (.errorNotExecutable, info)
  else
    match findInlineHookItem info targetAddr with
    | some item =>
      match item.status with
      | .registered => some (.errorAlreadyRegistered, info)
      | .hooked => some (.errorAlreadyHooked, info)
    | none =>
      if info.length ≥ maxItems then none
      else some (.ok, info ++ [⟨targetAddr, newAddr, protoAddr, io.trampoline, .registered⟩])

/-- `TEST_BIT0`: the target is Thumb code. -/
def testBit0 (addr : Addr) : Bool := addr &&& 1 ≠ 0

/-- `SET_BIT0` -/
def setBit0 (addr : Addr) : Addr := addr ||| 1

/-- What is saved in `*proto_addr`. -/
def InlineHookItem.proto (item : InlineHookItem) : Addr :=
  if testBit0 item.targetAddr then setBit0 item.trampolineInstructions
  else item.trampolineInstructions

/-- mirrors app/src/main/cpp/inlineHook.c:336-368 -/
def doInlineHook (item : InlineHookItem) (m : Mem .arm32) : Mem .arm32 :=
  (m.store item.protoAddr item.proto).patch item.targetAddr item.newAddr

/-- `item->status = HOOKED` for the item found. -/
def markHooked (targetAddr : Addr) : Info → Info
  | [] => []
  | item :: info =>
    if item.targetAddr = targetAddr then { item with status := .hooked } :: info
    else item :: markHooked targetAddr info

/-- mirrors app/src/main/cpp/inlineHook.c:370-401 -/
def inlineHook (info : Info) (m : Mem .arm32) (targetAddr : Addr) :
    Ele7enStatus × Info × Mem .arm32 :=
  match findInlineHookItem info targetAddr with
  | none => (.errorNotRegistered, info, m)
  | some item =>
    match item.status with
    | .registered => (.ok, markHooked targetAddr info, doInlineHook item m)
    | .hooked => (.errorAlreadyHooked, info, m)

theorem or_one_ne_zero (x : BitVec 32) : x ||| 1#32 ≠ 0#32 := by
  intro h
  have := congrArg (fun b => b.getLsbD 0) h
  simp at this

/-- The saved pointer is never NULL. -/
theorem InlineHookItem.proto_ne_zero (item : InlineHookItem) : item.proto ≠ 0 := by
  unfold InlineHookItem.proto
  split
  · exact or_one_ne_zero item.trampolineInstructions.1
  · exact item.trampolineInstructions.2

theorem find_append_new {info : Info} {item : InlineHookItem}
    (h : findInlineHookItem info item.targetAddr = none) :
    findInlineHookItem (info ++ [item]) item.targetAddr = some item := by
  unfold findInlineHookItem at h ⊢
  rw [List.find?_append, h]
  simp

theorem markHooked_append_new : ∀ {info : Info} {item : InlineHookItem},
    findInlineHookItem info item.targetAddr = none →
    markHooked item.targetAddr (info ++ [item]) = info ++ [{ item with status := .hooked }]
  | [], item, _ => by simp [markHooked]
  | i :: info, item, h => by
    rw [findInlineHookItem, List.find?_cons] at h
    by_cases hi : i.targetAddr = item.targetAddr
    · simp [hi] at h
    · simp only [hi, decide_false] at h
      rw [List.cons_append, markHooked, if_neg hi, markHooked_append_new h, List.cons_append]

/-- Registration reports success exactly when it added the target. -/
theorem register_ok_iff {io : RegisterIO} {info info' : Info} {targetAddr : Addr} {newAddr : NewFn}
    {protoAddr : OldFn} {status : Ele7enStatus}
    (h : registerInlineHook io info targetAddr newAddr protoAddr = some (status, info')) :
    (status = .ok ∧ findInlineHookItem info targetAddr = none ∧
      info' = info ++ [⟨targetAddr, newAddr, protoAddr, io.trampoline, .registered⟩]) ∨
    (status ≠ .ok ∧ info' = info) := by
  unfold registerInlineHook at h
  split at h
  · cases h; exact Or.inr ⟨by decide, rfl⟩
  · split at h
    · split at h <;> cases h <;> exact Or.inr ⟨by decide, rfl⟩
    · rename_i hf
      split at h
      · cases h
      · cases h; exact Or.inl ⟨rfl, hf, rfl⟩

/-- A target that has just been registered is patched. -/
theorem inlineHook_registered {info : Info} {item : InlineHookItem} (m : Mem .arm32)
    (hs : item.status = .registered) (h : findInlineHookItem info item.targetAddr = none) :
    inlineHook (info ++ [item]) m item.targetAddr =
      (.ok, info ++ [{ item with status := .hooked }], doInlineHook item m) := by
  unfold inlineHook
  rw [find_append_new h]
  simp only [hs]
  rw [markHooked_append_new h]

/-- `inlineHook` reports success exactly when it patched. -/
theorem inlineHook_effect (info : Info) (m : Mem .arm32) (targetAddr : Addr) :
    ((inlineHook info m targetAddr).1 = .ok ∧ ∃ item ∈ info, item.targetAddr = targetAddr ∧
      (inlineHook info m targetAddr).2.2 = doInlineHook item m) ∨
    ((inlineHook info m targetAddr).1 ≠ .ok ∧ (inlineHook info m targetAddr).2 = (info, m)) := by
  unfold inlineHook
  cases hf : findInlineHookItem info targetAddr with
  | none => exact Or.inr ⟨by simp, rfl⟩
  | some item =>
    have hm := List.mem_of_find?_eq_some hf
    have ht : item.targetAddr = targetAddr := by simpa using List.find?_some hf
    cases hs : item.status with
    | registered =>
      simp only [hs]
      exact Or.inl ⟨trivial, item, hm, ht, rfl⟩
    | hooked =>
      simp only [hs]
      exact Or.inr ⟨by simp, trivial⟩

end DumpDex.L2.InlineHook
