import DumpDex.L2Machine.DeviceUtils

/-!
# What the Xposed module decides when a package is loaded

`PackerInfo.find` looks for the loader class of a known packer, and
`util/DeviceUtils.java` repeats the SDK level tests of the native side
(`java_levels`). Which of the two `init`s runs, whether it calls
`Native.dump` and whether it hooks `newApplication` depends on nothing else
(`plan`).

On levels 23 to 29, where the native side knows a symbol, `Native.dump` is
called for every packed package, and on no other level (`plan_native_iff`).
-/
namespace DumpDex.L4.Xposed
open DumpDex.L2.DeviceUtils (getOpenFunctionFlag flag_ne_iff)

/-! ## `PackerInfo.java` -/

/-- mirrors app/src/main/java/com/wrbug/dumpdex/PackerInfo.java:104-110 -/
inductive PackerType where
  | qiHoo
  | aiJiaMi
  | bangBang
  | tencent
  | baiDu
  deriving DecidableEq, Repr

def qiHoo : List String := ["com.stub.StubApp"]
def aiJiaMi : List String := ["s.h.e.l.l.S"]
def bangBang : List String := ["com.secneo.apkwrapper.ApplicationWrapper"]
def tencent : List String := ["com.tencent.StubShell.TxAppEntry"]
def baiDu : List String := ["com.baidu.protect.StubApplication"]

/-- mirrors app/src/main/java/com/wrbug/dumpdex/PackerInfo.java:58-62 -/
def sPackageName : List String := qiHoo ++ aiJiaMi ++ bangBang ++ tencent ++ baiDu

/-- mirrors app/src/main/java/com/wrbug/dumpdex/PackerInfo.java:64-78 -/
def sTypeMap : List (String × PackerType) :=
  qiHoo.map (·, .qiHoo) ++ aiJiaMi.map (·, .aiJiaMi) ++ bangBang.map (·, .bangBang) ++
    tencent.map (·, .tencent) ++ baiDu.map (·, .baiDu)

def getType (packageName : String) : Option PackerType := sTypeMap.lookup packageName

/-- `classExists s`: the package's class loader finds class `s`.
mirrors app/src/main/java/com/wrbug/dumpdex/PackerInfo.java:86-97 -/
def find (classExists : String → Bool) : Option PackerType :=
  (sPackageName.find? classExists).bind getType

/-- Every class that is looked for has a type, so `find` never dereferences
a missing one. -/
theorem getType_of_mem : ∀ s ∈ sPackageName, (getType s).isSome := by
  simp [sPackageName, getType, sTypeMap, qiHoo, aiJiaMi, bangBang, tencent, baiDu, List.lookup_cons]

theorem find_isSome_iff (classExists : String → Bool) :
    (find classExists).isSome ↔ ∃ s ∈ sPackageName, classExists s = true := by
  unfold find
  cases h : sPackageName.find? classExists with
  | none =>
    simp only [Option.bind_none, Option.isSome_none, Bool.false_eq_true, false_iff]
    intro hex
    obtain ⟨s, hs, hc⟩ := hex
    exact List.find?_eq_none.mp h s hs hc
  | some s =>
    have hm := List.mem_of_find?_eq_some h
    exact iff_of_true (getType_of_mem s hm) ⟨s, hm, List.find?_some h⟩

/-! ## `util/DeviceUtils.java` -/

section Levels
variable (sdkInit : Int)

def isNougat : Bool := sdkInit = 24 ∨ sdkInit = 25
def isOreo : Bool := sdkInit = 26 ∨ sdkInit = 27
def isPie : Bool := sdkInit = 28
def isAndroid10 : Bool := sdkInit = 29
def isMarshmallow : Bool := sdkInit = 23

/-- mirrors app/src/main/java/com/wrbug/dumpdex/util/DeviceUtils.java:18-20 -/
def supportNativeHook : Bool := isNougat sdkInit || isMarshmallow sdkInit || isOreo sdkInit

end Levels

/-- Both languages test the same levels. -/
theorem java_levels (sdk : Int) :
    isNougat sdk = L2.DeviceUtils.isNougat sdk ∧ isOreo sdk = L2.DeviceUtils.isOreo sdk ∧
      isPie sdk = L2.DeviceUtils.isPie sdk ∧ isAndroid10 sdk = L2.DeviceUtils.isAndroid10 sdk ∧
      isMarshmallow sdk = L2.DeviceUtils.isMarshmallow sdk := by
  refine ⟨?_, ?_, rfl, rfl, rfl⟩
  · simp [isNougat, L2.DeviceUtils.isNougat, or_comm]
  · simp [isOreo, L2.DeviceUtils.isOreo, or_comm]

/-! ## `handleLoadPackage` -/

/-- What the module does for a packed package, in this order. -/
structure Plan where
  nativeDump : Bool
  hookNewApplication : Bool
  deriving DecidableEq, Repr

/-- mirrors app/src/main/java/com/wrbug/dumpdex/dump/OreoDump.java:31-33 -/
def oreoInit : Plan := ⟨true, false⟩

/-- mirrors app/src/main/java/com/wrbug/dumpdex/dump/LowSdkDump.java:30-46 -/
def lowSdkInit (sdkInit : Int) (type : PackerType) : Plan :=
  ⟨supportNativeHook sdkInit, type ≠ .baiDu⟩

/-- mirrors app/src/main/java/com/wrbug/dumpdex/XposedInit.java:49-53 -/
def plan (sdkInit : Int) (type : PackerType) : Plan :=
  if isOreo sdkInit || isPie sdkInit || isAndroid10 sdkInit then oreoInit
  else lowSdkInit sdkInit type

/-- The module installs the native hook exactly where the native side knows
what to hook. -/
theorem plan_native_iff (abi : Abi) (sdk : Int) (type : PackerType) :
    (plan sdk type).nativeDump = true ↔ getOpenFunctionFlag abi sdk ≠ "" := by
  rw [flag_ne_iff]
  unfold plan lowSdkInit oreoInit supportNativeHook
  split
  · rename_i h
    simp only [isOreo, isPie, isAndroid10, Bool.or_eq_true, decide_eq_true_eq] at h
    exact iff_of_true rfl (by omega)
  · rename_i h
    simp only [isOreo, isPie, isAndroid10, Bool.or_eq_true, decide_eq_true_eq] at h
    simp only [isNougat, isMarshmallow, isOreo, Bool.or_eq_true, decide_eq_true_eq]
    omega

end DumpDex.L4.Xposed
