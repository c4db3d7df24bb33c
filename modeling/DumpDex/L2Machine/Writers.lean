import DumpDex.L2Machine.Files

/-!
# The two dump writers

`save_dex_file` (`util/fileutils.cpp`) and `LowSdkDump.dump` with
`FileUtils.writeByteToFile`. Each is a function of what its file operations
answer: `NativeIO` and `CallIO` say whether `fopen` failed on a file that is
there, whether the file could not be opened for writing, and what the `write`
stored. `Os` is the directory together with the number of descriptors the
dump code holds open.

`Call` is one call of either writer and `dump` the step it makes on `Os`; one
lemma, `dump_dir`, says what it does to the directory: nothing when the file
of that name exists or cannot be opened, otherwise the file holds what the
write stored. Everything about sequential runs is derived from it.
-/
namespace DumpDex.L2.Writers
open DumpDex.L1.FileName DumpDex.L2.Files

structure Os where
  dir : Dir
  /-- Descriptors opened by the dump code and not closed. -/
  fds : Nat

/-- What the operations of one `save_dex_file` call answer. -/
structure NativeIO where
  /-- `fopen` returns NULL although the file exists. -/
  fopenFails : Bool
  openFails : Bool
  write : WriteResult
  deriving DecidableEq, Repr

structure SaveResult where
  os : Os
  /-- The call got as far as `open`. -/
  tried : Bool
  log : List String

/-- `(int) write(..)`: the low 32 bits of the byte count, read as signed. -/
def writeRet (data : Bytes) (w : WriteResult) : Int := (BitVec.ofInt 32 (w.ret data)).toInt

/-- The stream `fopen` returned is never closed: on the path where the file
exists one more descriptor stays open.
mirrors app/src/main/cpp/util/fileutils.cpp:20-42 -/
def saveDexFile (abi : Abi) (pname : String) (io : NativeIO) (s : Os) (data : NativeBuf abi) :
    SaveResult :=
  let dname := savePath abi pname data.length
  if s.dir.has dname && !io.fopenFails then
    ⟨{ s with fds := s.fds + 1 }, false, [dname ++ " file exist"]⟩
  else
    let log := ["dump dex file name is : " ++ dname, "start dump"]
    if io.openFails then
      ⟨s, true, log ++ ["open or create file error"]⟩
    else
      let opened : Os := ⟨openNative s.dir dname, s.fds + 1⟩
      let written := { opened with dir := writeAt0 opened.dir dname (io.write.stored data.bytes) }
      let ret := writeRet data.bytes io.write
      ⟨{ written with fds := written.fds - 1 }, true,
        log ++ [if ret < 0 then "write file error" else "dump dex file success `" ++ dname ++ "`"]⟩

section Exits
variable {abi : Abi} {pname : String} (io : NativeIO) {s : Os} {data : NativeBuf abi}

/-- First exit: the file is there. One descriptor more stays open. -/
theorem saveDexFile_exists (h : s.dir.has (savePath abi pname data.length) = true)
    (hf : io.fopenFails = false) :
    (saveDexFile abi pname io s data).os = { s with fds := s.fds + 1 } ∧
      (saveDexFile abi pname io s data).tried = false := by
  simp [saveDexFile, h, hf]

/-- Second exit: the file cannot be opened for writing. -/
theorem saveDexFile_openFails
    (h : s.dir.has (savePath abi pname data.length) = false ∨ io.fopenFails = true)
    (ho : io.openFails = true) :
    (saveDexFile abi pname io s data).os = s ∧ (saveDexFile abi pname io s data).tried = true := by
  rcases h with h | h <;> simp [saveDexFile, h, ho]

/-- Third exit: the file is opened, written and closed. -/
theorem saveDexFile_written (h : s.dir (savePath abi pname data.length) = none)
    (ho : io.openFails = false) :
    (saveDexFile abi pname io s data).os = { s with
        dir := s.dir.put (savePath abi pname data.length) (io.write.stored data.bytes) } ∧
      (saveDexFile abi pname io s data).tried = true := by
  have hh := Dir.has_eq_false.mpr h
  simp [saveDexFile, hh, ho, create_native _ h]

/-- `save_dex_file` touches no path but the one it builds. -/
theorem saveDexFile_frame {q : Path} (h : q ≠ savePath abi pname data.length) :
    (saveDexFile abi pname io s data).os.dir q = s.dir q := by
  unfold saveDexFile
  simp only
  split
  · rfl
  · split
    · rfl
    · exact (writeAt0_of_ne _ _ h).trans (openNative_of_ne _ h)

end Exits

/-- What the operations of one call answer when the existence check is right. -/
structure CallIO where
  openFails : Bool
  write : WriteResult
  deriving DecidableEq, Repr

/-- Every operation succeeds completely. -/
def CallIO.ok : CallIO := ⟨false, .all⟩

def CallIO.native (io : CallIO) : NativeIO := ⟨false, io.openFails, io.write⟩

/-- The constructor creates or truncates; an exception of it or of `write` is
caught and logged, and leaves the file as it is.
mirrors app/src/main/java/com/wrbug/dumpdex/util/FileUtils.java:23-31 -/
def writeByteToFile (io : CallIO) (d : Dir) (data : Bytes) (path : Path) : Dir :=
  if io.openFails then d
  else writeAt0 (openJava d path) path (io.write.stored data)

/-- The dump half of `dump`: what it reads from `dexCache` is the argument.
The `Bool` says whether it got as far as opening the file.
mirrors app/src/main/java/com/wrbug/dumpdex/dump/LowSdkDump.java:53-59 -/
def dumpBytes (packageName : String) (io : CallIO) (d : Dir) (bytes : JavaBytes) : Dir × Bool :=
  let path := dumpPath packageName bytes.bytes.length
  if d.has path then (d, false)
  else (writeByteToFile io d bytes.bytes path, true)

/-! ## One call of either writer -/

/-- A native `save_dex_file(data, length)` or a Java `LowSdkDump.dump`. -/
inductive Call (abi : Abi) where
  | native (data : NativeBuf abi)
  | java (bytes : JavaBytes)
  deriving DecidableEq, Repr

def Call.bytes {abi : Abi} : Call abi → Bytes
  | .native data => data.bytes
  | .java bytes => bytes.bytes

/-- The path the call's writer builds. -/
def Call.path {abi : Abi} (p : PackageName) : Call abi → Path
  | .native data => savePath abi p.name data.length
  | .java bytes => dumpPath p.name bytes.bytes.length

/-- One call of either writer in the process of package `p`. -/
def dump {abi : Abi} (p : PackageName) (s : Os) (c : Call abi × CallIO) : Os :=
  match c.1 with
  | .native data => (saveDexFile abi p.name c.2.native s data).os
  | .java bytes => { s with dir := (dumpBytes p.name c.2 s.dir bytes).1 }

/-- Whether the call tries to write, or takes the "file exists" exit. -/
def tries {abi : Abi} (p : PackageName) (s : Os) (c : Call abi × CallIO) : Bool :=
  match c.1 with
  | .native data => (saveDexFile abi p.name c.2.native s data).tried
  | .java bytes => (dumpBytes p.name c.2 s.dir bytes).2

/-- `dname` of either writer is the decimal of the length, modulo 2^32. -/
theorem Call.path_eq {abi : Abi} (p : PackageName) (c : Call abi) :
    c.path p = dumpDir p.name ++ "/source-" ++ (c.bytes.length % 2 ^ 32).repr ++ ".dex" := by
  cases c with
  | native data => rw [Call.path, savePath_eq, data.length_toNat]; rfl
  | java bytes =>
    have := bytes.fits
    rw [Call.path, dumpPath_eq, Call.bytes, Nat.mod_eq_of_lt (by omega)]

theorem Call.path_inDir {abi : Abi} (p : PackageName) (c : Call abi) :
    InDir (dumpDir p.name) (c.path p) := by
  cases c with
  | native data => exact savePath_inDir abi p.name data.length
  | java bytes => exact dumpPath_inDir p bytes.bytes.length

/-- Calls with byte strings of one length, of whichever writer, share a path. -/
theorem Call.path_congr {abi : Abi} (p : PackageName) {c c' : Call abi}
    (h : c.bytes.length = c'.bytes.length) : c.path p = c'.path p := by
  rw [Call.path_eq, Call.path_eq, h]

/-- A path tells the length modulo 2^32, whichever writers built it. -/
theorem Call.length_of_path_eq {abi : Abi} (p : PackageName) {c c' : Call abi}
    (h : c.path p = c'.path p) : c.bytes.length % 2 ^ 32 = c'.bytes.length % 2 ^ 32 := by
  have key : ∀ e : Call abi, e.path p = getFileName p.name (BitVec.ofNat 32 e.bytes.length) := by
    intro e
    rw [getFileName_eq, BitVec.toNat_ofNat, Call.path_eq]
  rw [key, key] at h
  have := congrArg BitVec.toNat (getFileName_inj h)
  simpa [BitVec.toNat_ofNat] using this

/-- On the 32-bit build no length is folded: a path tells the length. -/
theorem Call.length_lt_arm32 (c : Call .arm32) : c.bytes.length < 2 ^ 32 := by
  cases c with
  | native data => exact data.fits
  | java bytes => exact Nat.lt_trans bytes.fits (by decide)

theorem saveDexFile_dir {abi : Abi} (pname : String) (io : CallIO) (s : Os) (data : NativeBuf abi) :
    (saveDexFile abi pname io.native s data).os.dir =
      if s.dir.has (savePath abi pname data.length) ∨ io.openFails then s.dir
      else s.dir.put (savePath abi pname data.length) (io.write.stored data.bytes) := by
  cases h : s.dir.has (savePath abi pname data.length) with
  | true => rw [(saveDexFile_exists io.native h rfl).1, if_pos (Or.inl rfl)]
  | false =>
    cases ho : io.openFails with
    | true => rw [(saveDexFile_openFails io.native (Or.inl h) ho).1, if_pos (Or.inr rfl)]
    | false =>
      rw [(saveDexFile_written io.native (Dir.has_eq_false.mp h) ho).1, if_neg (by simp)]
      rfl

theorem dumpBytes_dir (p : String) (io : CallIO) (d : Dir) (bytes : JavaBytes) :
    (dumpBytes p io d bytes).1 =
      if d.has (dumpPath p bytes.bytes.length) ∨ io.openFails then d
      else d.put (dumpPath p bytes.bytes.length) (io.write.stored bytes.bytes) := by
  unfold dumpBytes writeByteToFile
  simp only
  by_cases h : d.has (dumpPath p bytes.bytes.length) = true
  · rw [if_pos h, if_pos (Or.inl h)]
  · rw [if_neg h]
    by_cases ho : io.openFails = true
    · rw [if_pos (Or.inr ho)]; exact if_pos ho
    · rw [if_neg (not_or.mpr ⟨h, ho⟩), ← create_java]; exact if_neg ho

/-- What one call does to the directory, for either writer. -/
theorem dump_dir {abi : Abi} (p : PackageName) (s : Os) (c : Call abi) (io : CallIO) :
    (dump p s (c, io)).dir =
      if s.dir.has (c.path p) ∨ io.openFails then s.dir
      else s.dir.put (c.path p) (io.write.stored c.bytes) := by
  cases c with
  | native data => exact saveDexFile_dir p.name io s data
  | java bytes => exact dumpBytes_dir p.name io s.dir bytes

theorem tries_iff {abi : Abi} (p : PackageName) (s : Os) (c : Call abi) (io : CallIO) :
    tries p s (c, io) = true ↔ s.dir (c.path p) = none := by
  rw [← Dir.has_eq_false]
  cases c with
  | native data =>
    simp only [tries, Call.path]
    cases h : s.dir.has (savePath abi p.name data.length) with
    | true => simp [(saveDexFile_exists io.native h rfl).2]
    | false =>
      cases ho : io.openFails with
      | true => simp [(saveDexFile_openFails io.native (Or.inl h) ho).2]
      | false => simp [(saveDexFile_written io.native (Dir.has_eq_false.mp h) ho).2]
  | java bytes =>
    simp only [tries, dumpBytes, Call.path]
    cases h : s.dir.has (dumpPath p.name bytes.bytes.length) <;> simp

/-- The success line is printed whenever the count is not negative as an
`int`, a short count included. -/
theorem short_write_logs_success {abi : Abi} (pname : String) (s : Os) (data : NativeBuf abi)
    (k : Nat) (hk : k < 2 ^ 31) (h : s.dir (savePath abi pname data.length) = none) :
    "dump dex file success `" ++ savePath abi pname data.length ++ "`" ∈
      (saveDexFile abi pname ⟨false, false, .short k⟩ s data).log := by
  have hret : ¬ writeRet data.bytes (.short k) < 0 := by
    have hlen : (data.bytes.take k).length < 2 ^ 31 :=
      Nat.lt_of_le_of_lt (List.length_take_le k data.bytes) hk
    simp only [writeRet, WriteResult.ret]
    generalize (data.bytes.take k).length = n at hlen
    rw [BitVec.toInt_ofInt, Int.bmod_eq_of_le (by omega) (by omega)]
    omega
  simp [saveDexFile, Dir.has, h, hret]

end DumpDex.L2.Writers
