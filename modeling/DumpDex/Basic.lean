import Mathlib.Data.List.Basic
import Mathlib.Algebra.Group.Nat.Defs

/-!
# The platform: builds, machine words, package names

`app/build.gradle:22` builds the native library twice, for `armeabi-v7a` and
`arm64-v8a`. They differ in the width of `size_t`, `long` and of pointers
(`Abi.bits`) and in which branch of `#if defined(__aarch64__)` is compiled.

Package names are what `XC_LoadPackage.LoadPackageParam.packageName` holds:
the name of an installed package. Android admits letters, digits, `_` and `.`
in them (`PackageName`) and creates a directory of that name, whose length a
file system bounds by 255 bytes (`InstalledPackage`).
-/
namespace DumpDex

/-- mirrors app/build.gradle:22 (`abiFilters`) -/
inductive Abi where
  | arm32
  | arm64
  deriving DecidableEq, Repr

/-- Width of `size_t`, `long` and of a pointer. -/
def Abi.bits : Abi → Nat
  | .arm32 => 32
  | .arm64 => 64

theorem Abi.bits_ge (abi : Abi) : 32 ≤ abi.bits := by cases abi <;> decide

abbrev Bytes := List UInt8

/-- A `byte[]` or a native buffer whose length the type `size_t`/`int` of its
length can hold. -/
structure Buf (limit : Nat) where
  bytes : Bytes
  fits : bytes.length < limit
  deriving DecidableEq, Repr

/-- What `size_t length` can describe on a build. -/
abbrev NativeBuf (abi : Abi) := Buf (2 ^ abi.bits)

/-- A Java array: its length is a non-negative `int`. -/
abbrev JavaBytes := Buf (2 ^ 31)

/-- `length` as the native code receives it. -/
def NativeBuf.length {abi : Abi} (b : NativeBuf abi) : BitVec abi.bits :=
  BitVec.ofNat abi.bits b.bytes.length

theorem NativeBuf.length_toNat {abi : Abi} (b : NativeBuf abi) :
    b.length.toNat = b.bytes.length := by
  rw [NativeBuf.length, BitVec.toNat_ofNat, Nat.mod_eq_of_lt b.fits]

/-- A character Android admits in a package name. -/
def packageChar (c : Char) : Bool := c.isAlphanum || c == '_' || c == '.'

structure PackageName where
  name : String
  nonempty : name.toList ≠ []
  chars : ∀ c ∈ name.toList, packageChar c = true

/-- A package name is a directory name: at most 255 bytes. -/
structure InstalledPackage extends PackageName where
  fits : name.toList.length ≤ 255

theorem packageChar_ne_slash {c : Char} (h : packageChar c = true) : c ≠ '/' := by
  intro e
  rw [e] at h
  revert h; decide

theorem PackageName.no_slash (p : PackageName) : '/' ∉ p.name.toList :=
  fun h => packageChar_ne_slash (p.chars _ h) rfl

/-- A package to run concrete examples in. -/
def demoPackage : InstalledPackage :=
  ⟨⟨"com.demo", by decide, List.all_eq_true.mp (by decide)⟩, by decide⟩

/-- A dex of one byte to dump in them. -/
def demoDex : NativeBuf .arm64 := ⟨[0x64], by decide⟩

end DumpDex
