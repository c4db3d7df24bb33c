import DumpDex.Basic

/-!
# Device and function selection (`util/deviceutils.cpp`)

Three case splits on the build and the SDK level choose what is hooked and
with what: the mangled name looked up in `libart.so`
(`getOpenFunctionFlag`), the replacement (`getNewOpenFunctionAddr`) and the
variable the original's address is stored in (`getOldOpenFunctionAddr`).

* `flag_ne_iff`: a symbol is known exactly for SDK levels 23 to 29, on both
  builds.
* `newAddr_old`: the stored pointer is always the one the chosen replacement
  calls through.
* `Paired`: the SDK levels for which the replacement was written for the
  symbol's function. The symbol has a branch for 28 and 29 on both builds;
  the two pointer selections have one for 28 on the 32-bit build only.
-/
namespace DumpDex.L2.DeviceUtils

/-- The cached level is kept once it is not 0; `prop` is `atoi` of
`ro.build.version.sdk`.
mirrors app/src/main/cpp/util/deviceutils.cpp:14-21 -/
def initSdkInit (prop sdkInt : Int) : Int := if sdkInt ≠ 0 then sdkInt else prop

/-- mirrors app/src/main/cpp/util/deviceutils.cpp:23-29 -/
def isArm64 : Abi → Bool
  | .arm64 => true
  | .arm32 => false

section Levels
variable (sdkInt : Int)

/-- mirrors app/src/main/cpp/util/deviceutils.cpp:31-33 -/
def isPie : Bool := sdkInt = 28

/-- mirrors app/src/main/cpp/util/deviceutils.cpp:35-37 -/
def isAndroid10 : Bool := sdkInt = 29

/-- mirrors app/src/main/cpp/util/deviceutils.cpp:39-41 -/
def isOreo : Bool := sdkInt = 27 ∨ sdkInt = 26

/-- mirrors app/src/main/cpp/util/deviceutils.cpp:43-45 -/
def isNougat : Bool := sdkInt = 25 ∨ sdkInt = 24

/-- mirrors app/src/main/cpp/util/deviceutils.cpp:47-49 -/
def isMarshmallow : Bool := sdkInt = 23

end Levels

/-! ## The symbol -/

def arm64PieOpenCommon : String :=
  "_ZN3art13DexFileLoader10OpenCommonEPKhmS2_mRKNSt3__112basic_stringIcNS3_11char_traitsIcEENS3_9allocatorIcEEEEjPKNS_10OatDexFileEbbPS9_NS3_10unique_ptrINS_16DexFileContainerENS3_14default_deleteISH_EEEEPNS0_12VerifyResultE"

def arm64OreoOpenCommon : String :=
  "_ZN3art7DexFile10OpenCommonEPKhmRKNSt3__112basic_stringIcNS3_11char_traitsIcEENS3_9allocatorIcEEEEjPKNS_10OatDexFileEbbPS9_PNS0_12VerifyResultE"

def arm64OpenMemory : String :=
  "_ZN3art7DexFile10OpenMemoryEPKhmRKNSt3__112basic_stringIcNS3_11char_traitsIcEENS3_9allocatorIcEEEEjPNS_6MemMapEPKNS_10OatDexFileEPS9_"

def arm32PieOpenCommon : String :=
  "_ZN3art13DexFileLoader10OpenCommonEPKhjS2_jRKNSt3__112basic_stringIcNS3_11char_traitsIcEENS3_9allocatorIcEEEEjPKNS_10OatDexFileEbbPS9_NS3_10unique_ptrINS_16DexFileContainerENS3_14default_deleteISH_EEEEPNS0_12VerifyResultE"

def arm32OreoOpenCommon : String :=
  "_ZN3art7DexFile10OpenCommonEPKhjRKNSt3__112basic_stringIcNS3_11char_traitsIcEENS3_9allocatorIcEEEEjPKNS_10OatDexFileEbbPS9_PNS0_12VerifyResultE"

def arm32OpenMemory : String :=
  "_ZN3art7DexFile10OpenMemoryEPKhjRKNSt3__112basic_stringIcNS3_11char_traitsIcEENS3_9allocatorIcEEEEjPNS_6MemMapEPKNS_10OatDexFileEPS9_"

/-- mirrors app/src/main/cpp/util/deviceutils.cpp:51-78 -/
def getOpenFunctionFlag (abi : Abi) (sdkInt : Int) : String :=
  if isArm64 abi then
    if isPie sdkInt || isAndroid10 sdkInt then arm64PieOpenCommon
    else if isOreo sdkInt then arm64OreoOpenCommon
    else if isNougat sdkInt || isMarshmallow sdkInt then arm64OpenMemory
    else ""
  else
    if isPie sdkInt || isAndroid10 sdkInt then arm32PieOpenCommon
    else if isOreo sdkInt then arm32OreoOpenCommon
    else if isNougat sdkInt || isMarshmallow sdkInt then arm32OpenMemory
    else ""

/-! ## The replacement and the saved pointer -/

/-- The variables `old_..` the original's address is stored in. -/
inductive OldFn where
  | arm64OpenCommon
  | arm64OpenMemory
  | nougatOpenMemory
  | opencommon
  | pieOpenMemory
  deriving DecidableEq, Repr

/-- The replacements `new_..`. -/
inductive NewFn where
  | arm64OpenCommon
  | arm64OpenMemory
  | nougatOpenMemory
  | opencommon
  | pieOpenMemory
  deriving DecidableEq, Repr

/-- mirrors app/src/main/cpp/util/deviceutils.cpp:209-227 -/
def getOldOpenFunctionAddr (abi : Abi) (sdkInt : Int) : OldFn :=
  if isArm64 abi then
    if isOreo sdkInt then .arm64OpenCommon
    else .arm64OpenMemory
  else
    if isOreo sdkInt then .opencommon
    else if isPie sdkInt then .pieOpenMemory
    else .nougatOpenMemory

/-- mirrors app/src/main/cpp/util/deviceutils.cpp:229-247 -/
def getNewOpenFunctionAddr (abi : Abi) (sdkInt : Int) : NewFn :=
  if isArm64 abi then
    if isOreo sdkInt then .arm64OpenCommon
    else .arm64OpenMemory
  else
    if isOreo sdkInt then .opencommon
    else if isPie sdkInt then .pieOpenMemory
    else .nougatOpenMemory

/-- The pointer a replacement calls the original through. -/
def NewFn.old : NewFn → OldFn
  | .arm64OpenCommon => .arm64OpenCommon
  | .arm64OpenMemory => .arm64OpenMemory
  | .nougatOpenMemory => .nougatOpenMemory
  | .opencommon => .opencommon
  | .pieOpenMemory => .pieOpenMemory

/-- The two selections agree at every level. -/
theorem newAddr_old (abi : Abi) (sdkInt : Int) :
    (getNewOpenFunctionAddr abi sdkInt).old = getOldOpenFunctionAddr abi sdkInt := by
  unfold getNewOpenFunctionAddr getOldOpenFunctionAddr
  cases isArm64 abi <;> cases isOreo sdkInt <;> cases isPie sdkInt <;> rfl

/-- A symbol is known for SDK levels 23 to 29. -/
theorem flag_ne_iff (abi : Abi) (sdkInt : Int) :
    getOpenFunctionFlag abi sdkInt ≠ "" ↔ 23 ≤ sdkInt ∧ sdkInt ≤ 29 := by
  refine ⟨?_, ?_⟩
  · intro h
    by_contra hr
    have hlevel : ∀ k : Int, 23 ≤ k → k ≤ 29 → sdkInt ≠ k := by omega
    apply h
    simp [getOpenFunctionFlag, isPie, isAndroid10, isOreo, isNougat, isMarshmallow, hlevel]
  · intro h
    obtain ⟨h1, h2⟩ := h
    obtain rfl | rfl | rfl | rfl | rfl | rfl | rfl : sdkInt = 23 ∨ sdkInt = 24 ∨ sdkInt = 25 ∨
      sdkInt = 26 ∨ sdkInt = 27 ∨ sdkInt = 28 ∨ sdkInt = 29 := by omega
    all_goals
      cases abi <;>
        simp [getOpenFunctionFlag, isArm64, isPie, isAndroid10, isOreo, isNougat, isMarshmallow,
          arm64PieOpenCommon, arm64OreoOpenCommon, arm64OpenMemory,
          arm32PieOpenCommon, arm32OreoOpenCommon, arm32OpenMemory]

/-- The replacement has the parameter list of the function the symbol names. -/
def Paired (abi : Abi) (sdkInt : Int) : Prop :=
  sdkInt ≠ 29 ∧ ¬(abi = .arm64 ∧ sdkInt = 28)

instance (abi : Abi) (sdkInt : Int) : Decidable (Paired abi sdkInt) :=
  inferInstanceAs (Decidable (sdkInt ≠ 29 ∧ ¬(abi = .arm64 ∧ sdkInt = 28)))

end DumpDex.L2.DeviceUtils
