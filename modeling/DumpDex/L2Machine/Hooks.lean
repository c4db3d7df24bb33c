import DumpDex.Core.CCall
import DumpDex.L1Encoding.FileName
import DumpDex.L2Machine.DeviceUtils

/-!
# The replacement functions (`util/deviceutils.cpp`)

Five hand-written forwarders: each looks at the size of the dex it is given,
may call `save_dex_file`, and calls the original through its saved pointer
with its own parameters. A run of one is the list of what it does (`acts`)
and what it returns.

Four of them share one shape, `forward`. `newArm64OpenCommon` keeps its own:
its test is `size < DEX_MIN_LEN` with the dump in the `else`, and the other
branch logs.

* `NewFn.enter` calls a replacement as the patched entry point does: by
  position, whatever the caller passed.
* `enter_eq`: the acts of any of the five are what it captures, then one
  call of the original with its parameters, in order. `prelude_of_le` and
  `prelude_of_lt`: from which size on it captures. That is one byte earlier in
  `newArm64OpenCommon` than in the other four.
-/
namespace DumpDex.L2.DeviceUtils
open DumpDex.Core.CCall
open DumpDex.L1.FileName (fmtU)

/-- A register or stack slot. -/
abbrev Word (abi : Abi) := BitVec abi.bits

abbrev Ptr (abi : Abi) := Word abi

abbrev SizeT (abi : Abi) := Word abi

abbrev U32 := BitVec 32

/-- `bool` has two values. -/
abbrev CBool := BitVec 1

/-- The parameter types the replacements are declared with. -/
inductive CType where
  | ptr
  | sizeT
  | uint32
  | bool
  deriving DecidableEq, Repr

def CType.bits (abi : Abi) : CType → Nat
  | .ptr => abi.bits
  | .sizeT => abi.bits
  | .uint32 => 32
  | .bool => 1

inductive HookAct (abi : Abi) where
  | log (text : String)
  | saveDexFile (base : Ptr abi) (size : SizeT abi)
  | callOld (fn : OldFn) (args : List (Word abi))
  deriving DecidableEq, Repr

structure HookRun (abi : Abi) where
  acts : List (HookAct abi)
  result : Word abi

/-- What a replacement runs in: the functions its saved pointers lead to, and
the words that stand past the arguments of the call it makes. -/
structure Env (abi : Abi) where
  old : OldFn → Frame abi.bits → Word abi
  rest : Frame abi.bits

variable {abi : Abi}

/-- The calls a run makes through saved pointers, in order. -/
def HookAct.call? : HookAct abi → Option (OldFn × List (Word abi))
  | .callOld fn args => some (fn, args)
  | _ => none

/-- The dumps a run asks for, in order. -/
def HookAct.save? : HookAct abi → Option (Ptr abi × SizeT abi)
  | .saveDexFile base size => some (base, size)
  | _ => none

/-- A parameter narrower than a word, passed on. -/
def arg {k : Nat} (x : BitVec k) : Word abi := x.setWidth abi.bits

/-- `return (*fn)(args)` -/
def callOld (env : Env abi) (fn : OldFn) (args : List (Word abi)) (before : List (HookAct abi)) :
    HookRun abi :=
  ⟨before ++ [.callOld fn args], env.old fn (enter args env.rest)⟩

/-- mirrors app/src/main/cpp/util/deviceutils.cpp:11 -/
def dexMinLen : Int := 102400

/-- `DEX_MIN_LEN` in a comparison with a `size_t`: the `long` becomes unsigned. -/
def minLen (abi : Abi) : SizeT abi := BitVec.ofInt abi.bits dexMinLen

/-- The shape of four of the five: `if (size > DEX_MIN_LEN) save_dex_file(base, size);`
and the call. -/
def forward (env : Env abi) (base : Ptr abi) (size : SizeT abi) (fn : OldFn)
    (args : List (Word abi)) : HookRun abi :=
  callOld env fn args (if (minLen abi).ult size then [.saveDexFile base size] else [])

section Bodies
variable (env : Env abi)

/-- mirrors app/src/main/cpp/util/deviceutils.cpp:85-100 -/
def newArm64OpenCommon (base : Ptr abi) (size : SizeT abi) (location : Ptr abi)
    (locationChecksum : U32) (oatDexFile : Ptr abi) (verify verifyChecksum : CBool)
    (errorMeessage verifyResult : Ptr abi) : HookRun abi :=
  callOld env .arm64OpenCommon
    [base, size, location, arg locationChecksum, oatDexFile, arg verify, arg verifyChecksum,
      errorMeessage, verifyResult]
    (if size.ult (minLen abi) then [.log ("size =" ++ fmtU (size.setWidth 32))]
      else [.saveDexFile base size])

/-- mirrors app/src/main/cpp/util/deviceutils.cpp:112-121 -/
def newArm64OpenMemory (base : Ptr abi) (size : SizeT abi) (location : Ptr abi)
    (locationChecksum : U32) (memMap oatDexFile errorMsg : Ptr abi) : HookRun abi :=
  forward env base size .arm64OpenMemory
    [base, size, location, arg locationChecksum, memMap, oatDexFile, errorMsg]

/-- mirrors app/src/main/cpp/util/deviceutils.cpp:133-142 -/
def newNougatOpenMemory (dexFileThiz base : Ptr abi) (size : SizeT abi) (location : Ptr abi)
    (locationChecksum : U32) (memMap oatDexFile errorMsg : Ptr abi) : HookRun abi :=
  forward env base size .nougatOpenMemory
    [dexFileThiz, base, size, location, arg locationChecksum, memMap, oatDexFile, errorMsg]

/-- mirrors app/src/main/cpp/util/deviceutils.cpp:152-162 -/
def newOpencommon (dexFileThiz base : Ptr abi) (size : SizeT abi) (location : Ptr abi)
    (locationChecksum : U32) (oatDexFile : Ptr abi) (verify verifyChecksum : CBool)
    (errorMeessage verifyResult : Ptr abi) : HookRun abi :=
  forward env base size .opencommon
    [dexFileThiz, base, size, location, arg locationChecksum, oatDexFile, arg verify,
      arg verifyChecksum, errorMeessage, verifyResult]

/-- mirrors app/src/main/cpp/util/deviceutils.cpp:179-207 -/
def newPieOpenMemory (dexFileThiz base : Ptr abi) (size : SizeT abi) (dataBase : Ptr abi)
    (dataSize : SizeT abi) (location : Ptr abi) (locationChecksum : U32) (oatDexFile : Ptr abi)
    (verify verifyChecksum : CBool) (errorMsg container verifyResult : Ptr abi) : HookRun abi :=
  forward env base size .pieOpenMemory
    [dexFileThiz, base, size, dataBase, dataSize, location, arg locationChecksum, oatDexFile,
      arg verify, arg verifyChecksum, errorMsg, container, verifyResult]

end Bodies

/-! ## Entering a replacement -/

/-- Reading a `uint32_t` parameter from its word. -/
def u32 (x : Word abi) : U32 := x.setWidth 32

/-- Reading a `bool` parameter from its word. -/
def cbool (x : Word abi) : CBool := x.setWidth 1

/-- The patched entry point jumps to the replacement, which finds its
parameters by position. -/
def NewFn.enter (fn : NewFn) (env : Env abi) (f : Frame abi.bits) : HookRun abi :=
  match fn with
  | .arm64OpenCommon =>
    newArm64OpenCommon env (f 0) (f 1) (f 2) (u32 (f 3)) (f 4) (cbool (f 5)) (cbool (f 6)) (f 7) (f 8)
  | .arm64OpenMemory => newArm64OpenMemory env (f 0) (f 1) (f 2) (u32 (f 3)) (f 4) (f 5) (f 6)
  | .nougatOpenMemory =>
    newNougatOpenMemory env (f 0) (f 1) (f 2) (f 3) (u32 (f 4)) (f 5) (f 6) (f 7)
  | .opencommon =>
    newOpencommon env (f 0) (f 1) (f 2) (f 3) (u32 (f 4)) (f 5) (cbool (f 6)) (cbool (f 7)) (f 8) (f 9)
  | .pieOpenMemory =>
    newPieOpenMemory env (f 0) (f 1) (f 2) (f 3) (f 4) (f 5) (u32 (f 6)) (f 7) (cbool (f 8))
      (cbool (f 9)) (f 10) (f 11) (f 12)

/-- The declared parameter types. -/
def NewFn.params : NewFn → List CType
  | .arm64OpenCommon => [.ptr, .sizeT, .ptr, .uint32, .ptr, .bool, .bool, .ptr, .ptr]
  | .arm64OpenMemory => [.ptr, .sizeT, .ptr, .uint32, .ptr, .ptr, .ptr]
  | .nougatOpenMemory => [.ptr, .ptr, .sizeT, .ptr, .uint32, .ptr, .ptr, .ptr]
  | .opencommon => [.ptr, .ptr, .sizeT, .ptr, .uint32, .ptr, .bool, .bool, .ptr, .ptr]
  | .pieOpenMemory =>
    [.ptr, .ptr, .sizeT, .ptr, .sizeT, .ptr, .uint32, .ptr, .bool, .bool, .ptr, .ptr, .ptr]

def NewFn.widths (abi : Abi) (fn : NewFn) : List Nat := fn.params.map (CType.bits abi)

/-- Where `base` stands; `size` comes next. -/
def NewFn.basePos : NewFn → Nat
  | .arm64OpenCommon => 0
  | .arm64OpenMemory => 0
  | _ => 1

/-- What a replacement does before it calls the original. -/
def NewFn.prelude (fn : NewFn) (base : Ptr abi) (size : SizeT abi) : List (HookAct abi) :=
  match fn with
  | .arm64OpenCommon =>
    if size.ult (minLen abi) then [.log ("size =" ++ fmtU (size.setWidth 32))]
    else [.saveDexFile base size]
  | _ => if (minLen abi).ult size then [.saveDexFile base size] else []

/-- **The five forwarders, in one.** Each does its prelude with the base and
size it finds, then makes one call through its own saved pointer, with its
declared parameters in order, and returns what that call returns. -/
theorem enter_eq (fn : NewFn) (env : Env abi) (f : Frame abi.bits) :
    fn.enter env f =
      callOld env fn.old (forwarded (fn.widths abi) f)
        (fn.prelude (f fn.basePos) (f (fn.basePos + 1))) := by
  cases fn <;> simp only [NewFn.widths, NewFn.params, List.map, CType.bits, forwarded,
    List.mapIdx_cons, List.mapIdx_nil, narrow_word] <;> rfl

theorem prelude_calls (fn : NewFn) (base : Ptr abi) (size : SizeT abi) :
    (fn.prelude base size).filterMap HookAct.call? = [] := by
  cases fn <;> simp only [NewFn.prelude] <;> split <;> rfl

/-- The one call a replacement makes. -/
theorem enter_calls (fn : NewFn) (env : Env abi) (f : Frame abi.bits) :
    (fn.enter env f).acts.filterMap HookAct.call? =
      [(fn.old, forwarded (fn.widths abi) f)] := by
  rw [enter_eq, callOld, List.filterMap_append, prelude_calls]
  rfl

theorem enter_result (fn : NewFn) (env : Env abi) (f : Frame abi.bits) :
    (fn.enter env f).result =
      env.old fn.old (enter (forwarded (fn.widths abi) f) env.rest) := by
  rw [enter_eq]; rfl

/-- The size from which a replacement captures. -/
def NewFn.startSize : NewFn → Nat
  | .arm64OpenCommon => 102400
  | _ => 102401

theorem minLen_toNat (abi : Abi) : (minLen abi).toNat = 102400 := by cases abi <;> rfl

theorem prelude_of_le {fn : NewFn} {base : Ptr abi} {size : SizeT abi}
    (h : fn.startSize ≤ size.toNat) : fn.prelude base size = [.saveDexFile base size] := by
  have hm := minLen_toNat abi
  cases fn <;> simp only [NewFn.startSize] at h <;> simp only [NewFn.prelude, BitVec.ult, hm]
  case arm64OpenCommon => rw [if_neg (by simpa using h)]
  all_goals rw [if_pos (by simp only [decide_eq_true_eq]; omega)]

theorem prelude_of_lt {fn : NewFn} {base : Ptr abi} {size : SizeT abi}
    (h : size.toNat < fn.startSize) : (fn.prelude base size).filterMap HookAct.save? = [] := by
  have hm := minLen_toNat abi
  cases fn <;> simp only [NewFn.startSize] at h <;> simp only [NewFn.prelude, BitVec.ult, hm]
  case arm64OpenCommon => rw [if_pos (by simpa using h)]; rfl
  all_goals rw [if_neg (by simp only [decide_eq_true_eq]; omega)]; rfl

/-- What a run hands to `save_dex_file`: the base and size it finds, from its
start size on. -/
theorem enter_saves (fn : NewFn) (env : Env abi) (f : Frame abi.bits) :
    (fn.enter env f).acts.filterMap HookAct.save? =
      if fn.startSize ≤ (f (fn.basePos + 1)).toNat
      then [(f fn.basePos, f (fn.basePos + 1))] else [] := by
  rw [enter_eq, callOld, List.filterMap_append]
  split
  · rename_i h; rw [prelude_of_le h]; rfl
  · rename_i h; rw [prelude_of_lt (Nat.lt_of_not_le h)]; rfl

end DumpDex.L2.DeviceUtils
