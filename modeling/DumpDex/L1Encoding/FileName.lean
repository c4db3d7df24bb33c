import DumpDex.Basic
import Mathlib.Data.List.Chain

/-!
# Dump file names (`util/fileutils.cpp`, `dump/LowSdkDump.java`)

Both writers key a dump by its length. The native one hands the `size_t`
length to `get_file_name(char *, int, int dexlen)`, which prints the `int`
with `%u`; the Java one concatenates the array length and lets
`java.io.File` join it to the directory.

* `getFileName_inj`: for one `pname` the printed path determines the low 32
  bits of the length (decimal printing is injective, the texts around it are
  the same), so `savePath_eq_iff`: two lengths share a path exactly when they
  agree modulo 2^32.
* `file_normalized`: `File`'s constructor leaves both arguments alone, since
  a package name has no `/` and is not empty; `savePath_eq_dumpPath`: below
  2^31 the two writers build the same path.
* `getFileName_fits`: the path of an installed package fits `dname[1024]`.
-/
namespace DumpDex.L1.FileName

abbrev Path := String

/-! ## The native writer -/

/-- `%u` of an `int` argument: its 32 bits read as unsigned. -/
def fmtU (x : BitVec 32) : String := x.toNat.repr

/-- `sprintf` into the zeroed buffer; `pname` is the C string in it.
mirrors app/src/main/cpp/util/fileutils.cpp:13-17 -/
def getFileName (pname : String) (dexlen : BitVec 32) : Path :=
  "/data/data/" ++ pname ++ "/dump/source-" ++ fmtU dexlen ++ ".dex"

/-- The path `save_dex_file` builds: its `size_t length` is converted to the
`int` parameter.
mirrors app/src/main/cpp/util/fileutils.cpp:21-22 -/
def savePath (abi : Abi) (pname : String) (length : BitVec abi.bits) : Path :=
  getFileName pname (length.setWidth 32)

theorem fmtU_inj {x y : BitVec 32} (h : fmtU x = fmtU y) : x = y := by
  unfold fmtU at h
  have hl := congrArg (fun s => Nat.ofDigitChars 10 (String.toList s) 0) h
  simp only [Nat.toList_repr, Nat.ofDigitChars_ten_toDigits] at hl
  exact BitVec.eq_of_toNat_eq hl

theorem getFileName_inj {pname : String} {x y : BitVec 32}
    (h : getFileName pname x = getFileName pname y) : x = y := by
  have hl := congrArg String.toList h
  simp only [getFileName, String.toList_append, List.append_assoc, List.append_cancel_left_eq] at hl
  -- what is left is the decimal text followed by ".dex" on both sides
  have hd := List.append_cancel_right hl
  exact fmtU_inj (String.toList_inj.mp hd)

theorem low32_eq_iff {w : Nat} (a b : BitVec w) :
    a.setWidth 32 = b.setWidth 32 ↔ a.toNat % 2 ^ 32 = b.toNat % 2 ^ 32 := by
  rw [← BitVec.toNat_inj, BitVec.toNat_setWidth, BitVec.toNat_setWidth]

theorem savePath_eq_iff (abi : Abi) (pname : String) (l₁ l₂ : BitVec abi.bits) :
    savePath abi pname l₁ = savePath abi pname l₂ ↔ l₁.toNat % 2 ^ 32 = l₂.toNat % 2 ^ 32 := by
  rw [← low32_eq_iff]
  refine ⟨fun h => getFileName_inj h, fun h => ?_⟩
  unfold savePath; rw [h]

/-- On the 32-bit build the conversion keeps every length. -/
theorem savePath_inj_arm32 {pname : String} {l₁ l₂ : BitVec Abi.arm32.bits}
    (h : savePath .arm32 pname l₁ = savePath .arm32 pname l₂) : l₁ = l₂ := by
  have h := (savePath_eq_iff .arm32 pname l₁ l₂).mp h
  have h₁ : l₁.toNat < 2 ^ 32 := l₁.isLt
  have h₂ : l₂.toNat < 2 ^ 32 := l₂.isLt
  rw [Nat.mod_eq_of_lt h₁, Nat.mod_eq_of_lt h₂] at h
  exact BitVec.eq_of_toNat_eq h

/-! ## The Java writer -/

/-- One pass of `UnixFileSystem.normalize`: a `/` that follows a `/` is dropped. -/
def dropDoubleSlash : Char → List Char → List Char
  | _, [] => []
  | prev, c :: cs =>
    if c = '/' ∧ prev = '/' then dropDoubleSlash c cs else c :: dropDoubleSlash c cs

/-- `UnixFileSystem.normalize`: no double slash, no trailing slash. -/
def normalize (pathname : String) : String :=
  let q := dropDoubleSlash (Char.ofNat 0) pathname.toList
  String.ofList (if q.getLast? = some '/' ∧ 1 < q.length then q.dropLast else q)

/-- `UnixFileSystem.resolve`. -/
def resolve (parent child : String) : String :=
  if child = "" ∨ child = "/" then parent
  else if child.toList.head? = some '/' then
    if parent = "/" then child else parent ++ child
  else if parent = "/" then parent ++ child
  else parent ++ "/" ++ child

/-- `new File(parent, child)`, of which only the path is used; it is absolute
here, so `getAbsolutePath` returns it unchanged. -/
def file (parent child : String) : Path := resolve (normalize parent) (normalize child)

/-- mirrors app/src/main/java/com/wrbug/dumpdex/dump/LowSdkDump.java:53-54 -/
def dumpPath (packageName : String) (length : Nat) : Path :=
  let path := "/data/data/" ++ packageName ++ "/dump"
  file path ("source-" ++ length.repr ++ ".dex")

/-- No two slashes in a row. -/
abbrev Single (cs : List Char) : Prop := cs.IsChain fun a b => ¬(b = '/' ∧ a = '/')

theorem dropDoubleSlash_of_single : ∀ {prev : Char} {cs : List Char}, Single (prev :: cs) →
    dropDoubleSlash prev cs = cs
  | _, [], _ => rfl
  | _, c :: cs, h => by
    obtain ⟨h, hs⟩ := List.isChain_cons_cons.mp h
    rw [dropDoubleSlash, if_neg h, dropDoubleSlash_of_single hs]

/-- Text without a slash. -/
theorem single_of_no_slash : ∀ {cs : List Char}, '/' ∉ cs → Single cs
  | [], _ => .nil
  | [_], _ => .singleton _
  | c :: d :: cs, h => by
    simp only [List.mem_cons, not_or] at h
    refine List.isChain_cons_cons.mpr ⟨fun ⟨e, _⟩ => h.2.1 e.symm, single_of_no_slash ?_⟩
    simp only [List.mem_cons, not_or]; exact h.2

theorem normalize_of_single {s : String} (h : Single s.toList)
    (hl : s.toList.getLast? ≠ some '/') : normalize s = s := by
  have h0 : Single (Char.ofNat 0 :: s.toList) := by
    cases e : s.toList with
    | nil => exact .singleton _
    | cons c cs =>
      rw [e] at h
      exact List.isChain_cons_cons.mpr ⟨fun hc => absurd hc.2 (by decide), h⟩
  unfold normalize
  simp only [dropDoubleSlash_of_single h0]
  rw [if_neg (fun hc => hl hc.1), String.ofList_toList]

/-- The directory of a package, as both Java classes spell it. -/
def dumpDir (packageName : String) : Path := "/data/data/" ++ packageName ++ "/dump"

theorem normalize_dumpDir (p : PackageName) : normalize (dumpDir p.name) = dumpDir p.name := by
  have hns := p.no_slash
  have hdata : Single "/data/data/".toList := by decide
  have hdump : Single "/dump".toList := by decide
  apply normalize_of_single
  · simp only [dumpDir, String.toList_append]
    refine List.isChain_append.mpr ⟨List.isChain_append.mpr ⟨hdata, single_of_no_slash hns, ?_⟩,
      hdump, ?_⟩
    · rintro a - b hb ⟨rfl, -⟩
      exact hns (List.mem_of_mem_head? hb)
    · -- the name is not empty, so its own last character stands before "/dump"
      rintro a ha b - ⟨-, rfl⟩
      rw [List.getLast?_append_of_ne_nil _ p.nonempty] at ha
      exact hns (List.mem_of_getLast? ha)
  · simp only [dumpDir, String.toList_append]
    rw [List.getLast?_append_of_ne_nil _ (by decide)]
    decide

theorem no_slash_source (n : Nat) : '/' ∉ ("source-" ++ n.repr ++ ".dex").toList := by
  simp only [String.toList_append, Nat.toList_repr, List.mem_append, not_or]
  refine ⟨⟨by decide, fun h => ?_⟩, by decide⟩
  have := Nat.isDigit_of_mem_toDigits (by decide) (by decide) h
  revert this; decide

theorem getLast?_ne_of_no_slash {cs : List Char} (h : '/' ∉ cs) : cs.getLast? ≠ some '/' :=
  fun e => h (List.mem_of_getLast? e)

theorem head?_ne_of_no_slash {cs : List Char} (h : '/' ∉ cs) : cs.head? ≠ some '/' :=
  fun e => h (List.mem_of_mem_head? e)

/-- `File` joins the two with one slash and changes neither. -/
theorem file_normalized (p : PackageName) (n : Nat) :
    file (dumpDir p.name) ("source-" ++ n.repr ++ ".dex") =
      dumpDir p.name ++ "/" ++ ("source-" ++ n.repr ++ ".dex") := by
  have hns := no_slash_source n
  have hchild := normalize_of_single (single_of_no_slash hns) (getLast?_ne_of_no_slash hns)
  unfold file
  rw [normalize_dumpDir, hchild]
  unfold resolve
  rw [if_neg, if_neg (head?_ne_of_no_slash hns), if_neg]
  · intro h
    have := congrArg (fun s => s.toList.length) h
    simp [dumpDir, String.toList_append] at this
  · intro h
    rcases h with h | h
    · have := congrArg (fun s => s.toList.length) h
      simp [String.toList_append] at this
    · exact hns (by rw [h]; decide)

theorem dumpPath_eq (p : PackageName) (n : Nat) :
    dumpPath p.name n = dumpDir p.name ++ "/source-" ++ n.repr ++ ".dex" := by
  show file (dumpDir p.name) _ = _
  rw [file_normalized]
  apply String.toList_inj.mp
  simp [String.toList_append]

/-! ## Both writers -/

/-- `path` names a file directly inside the directory `dir`. -/
def InDir (dir path : Path) : Prop := ∃ name : String, '/' ∉ name.toList ∧ path = dir ++ "/" ++ name

theorem getFileName_eq (pname : String) (x : BitVec 32) :
    getFileName pname x = dumpDir pname ++ "/source-" ++ x.toNat.repr ++ ".dex" := by
  apply String.toList_inj.mp
  simp [getFileName, dumpDir, fmtU, String.toList_append]

/-- The path of a native dump, as a decimal of the length modulo 2^32. -/
theorem savePath_eq (abi : Abi) (pname : String) (l : BitVec abi.bits) :
    savePath abi pname l =
      dumpDir pname ++ "/source-" ++ (l.toNat % 2 ^ 32).repr ++ ".dex" := by
  rw [savePath, getFileName_eq, BitVec.toNat_setWidth]

theorem savePath_inDir (abi : Abi) (pname : String) (l : BitVec abi.bits) :
    InDir (dumpDir pname) (savePath abi pname l) := by
  refine ⟨_, no_slash_source (l.toNat % 2 ^ 32), ?_⟩
  rw [savePath_eq]
  apply String.toList_inj.mp
  simp [String.toList_append]

theorem dumpPath_inDir (p : PackageName) (n : Nat) : InDir (dumpDir p.name) (dumpPath p.name n) :=
  ⟨_, no_slash_source n, file_normalized p n⟩

/-- A Java array's length is below 2^31, so neither conversion changes it. -/
theorem savePath_eq_dumpPath (abi : Abi) (p : PackageName) (n : Nat) (hn : n < 2 ^ 31) :
    savePath abi p.name (BitVec.ofNat abi.bits n) = dumpPath p.name n := by
  have hb : n < 2 ^ abi.bits :=
    Nat.lt_of_lt_of_le hn (Nat.pow_le_pow_right (by decide) (by have := abi.bits_ge; omega))
  rw [savePath_eq, dumpPath_eq, BitVec.toNat_ofNat, Nat.mod_eq_of_lt hb,
    Nat.mod_eq_of_lt (show n < 2 ^ 32 by omega)]

/-- `dname[1024]` holds the path of an installed package and its NUL. -/
theorem getFileName_fits (p : InstalledPackage) (x : BitVec 32) :
    (getFileName p.name x).toList.length < 1024 := by
  have hd : (Nat.toDigits 10 x.toNat).length ≤ 10 :=
    (Nat.length_toDigits_le_iff (by decide) (by decide)).mpr (by have := x.isLt; omega)
  have hp := p.fits
  simp only [getFileName, fmtU, String.toList_append, Nat.toList_repr, List.length_append]
  have e : "/data/data/".toList.length + "/dump/source-".toList.length + ".dex".toList.length = 28 := by
    decide
  omega

/-! ## Headline properties -/

/-- **What a file name identifies.** Two lengths share a native path exactly
when they agree modulo 2^32: never for distinct lengths of the 32-bit build,
and on arm64 for the pairs the `int` parameter of `get_file_name` folds
together. For every array length Java can hold, both writers build one path. -/
theorem fileNames_identify_lengths (abi : Abi) (p : PackageName) :
    (∀ l₁ l₂ : BitVec abi.bits,
      (savePath abi p.name l₁ = savePath abi p.name l₂ → l₁ = l₂) ↔
        (abi = .arm32 ∨ l₁ = l₂ ∨ l₁.toNat % 2 ^ 32 ≠ l₂.toNat % 2 ^ 32)) ∧
    ∀ n, n < 2 ^ 31 → savePath abi p.name (BitVec.ofNat abi.bits n) = dumpPath p.name n := by
  refine ⟨fun l₁ l₂ => ?_, fun n hn => savePath_eq_dumpPath abi p n hn⟩
  refine ⟨fun h => ?_, ?_⟩
  · by_cases hm : l₁.toNat % 2 ^ 32 = l₂.toNat % 2 ^ 32
    · exact Or.inr (Or.inl (h ((savePath_eq_iff abi p.name l₁ l₂).mpr hm)))
    · exact Or.inr (Or.inr hm)
  · rintro (rfl | heq | hne) h
    · exact savePath_inj_arm32 h
    · exact heq
    · exact absurd ((savePath_eq_iff abi p.name l₁ l₂).mp h) hne

/-- **Counterexample**: on arm64 a dump of 2^32 bytes gets the path of an empty one. -/
theorem fileNames_collide :
    ¬ ∀ (abi : Abi) (p : PackageName),
      (∀ l₁ l₂ : BitVec abi.bits,
        savePath abi p.name l₁ = savePath abi p.name l₂ → l₁ = l₂) ∧
      ∀ n, n < 2 ^ 31 → savePath abi p.name (BitVec.ofNat abi.bits n) = dumpPath p.name n := by
  intro h
  have hs : savePath .arm64 demoPackage.name 0x100000000#64 = savePath .arm64 demoPackage.name 0#64 :=
    (savePath_eq_iff .arm64 demoPackage.name _ _).mpr (by decide)
  exact absurd ((h .arm64 demoPackage.toPackageName).1 _ _ hs) (show 0x100000000#64 ≠ 0#64 by decide)

end DumpDex.L1.FileName
