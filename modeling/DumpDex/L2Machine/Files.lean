import DumpDex.L1Encoding.FileName
import Mathlib.Logic.Function.Basic

/-!
# The dump directory and the file operations on it

A directory maps paths to file contents; only what the two writers do to it
is modelled: the existence checks, the two ways of opening for writing, and
one `write` at offset 0 of a fresh descriptor.

* `openNative` is `open(.., O_CREAT | O_WRONLY)`: no truncation.
* `openJava` is `new FileOutputStream(path)`: created or truncated.
* `writeAt0` puts bytes over the start of the file and leaves the rest.

A `WriteResult` says how much of its buffer one `write` stored. `openNative`
then `writeAt0` on an absent file is a plain `put` (`create_native`), and so
is `openJava` then `writeAt0` on any file (`create_java`).
-/
namespace DumpDex.L2.Files
open DumpDex.L1.FileName (Path)

abbrev Dir := Path → Option Bytes

def Dir.empty : Dir := fun _ => none

def Dir.put (d : Dir) (p : Path) (b : Bytes) : Dir := Function.update d p (some b)

@[simp] theorem Dir.put_self (d : Dir) (p : Path) (b : Bytes) : d.put p b p = some b :=
  Function.update_self ..

theorem Dir.put_of_ne (d : Dir) {p q : Path} (b : Bytes) (h : q ≠ p) : d.put p b q = d q :=
  Function.update_of_ne h ..

@[simp] theorem Dir.put_put (d : Dir) (p : Path) (a b : Bytes) : (d.put p a).put p b = d.put p b :=
  Function.update_idem ..

theorem Dir.put_eq_self {d : Dir} {p : Path} {b : Bytes} (h : d p = some b) : d.put p b = d := by
  rw [Dir.put, ← h, Function.update_eq_self]

theorem Dir.put_ne_none {d : Dir} {p q : Path} (b : Bytes) (h : d q ≠ none) : d.put p b q ≠ none := by
  by_cases e : q = p
  · subst e; simp
  · rw [Dir.put_of_ne d b e]; exact h

/-- `fopen(path, "r") != NULL`, `File.exists()`. -/
def Dir.has (d : Dir) (p : Path) : Bool := (d p).isSome

theorem Dir.has_eq_false {d : Dir} {p : Path} : d.has p = false ↔ d p = none := by
  simp [Dir.has]

/-- How much of its buffer a `write` stored: nothing and an error (in Java an
exception), the first `k` bytes only, or all of it. -/
inductive WriteResult where
  | error
  | short (k : Nat)
  | all
  deriving DecidableEq, Repr

def WriteResult.stored (data : Bytes) : WriteResult → Bytes
  | .error => []
  | .short k => data.take k
  | .all => data

/-- What `write` returns. -/
def WriteResult.ret (data : Bytes) : WriteResult → Int
  | .error => -1
  | .short k => (data.take k).length
  | .all => data.length

def openNative (d : Dir) (p : Path) : Dir :=
  match d p with
  | some _ => d
  | none => d.put p []

def openJava (d : Dir) (p : Path) : Dir := d.put p []

/-- `data` written over the start of `content`. -/
def overwrite (data content : Bytes) : Bytes := data ++ content.drop data.length

def writeAt0 (d : Dir) (p : Path) (data : Bytes) : Dir := d.put p (overwrite data ((d p).getD []))

@[simp] theorem overwrite_nil (data : Bytes) : overwrite data [] = data := by simp [overwrite]

/-- Over a file that is not longer than the new bytes nothing of it remains. -/
theorem overwrite_of_length_le {data content : Bytes} (h : content.length ≤ data.length) :
    overwrite data content = data := by
  rw [overwrite, List.drop_eq_nil_of_le h, List.append_nil]

theorem openNative_of_some {d : Dir} {p : Path} {b : Bytes} (h : d p = some b) :
    openNative d p = d := by unfold openNative; rw [h]

theorem openNative_of_none {d : Dir} {p : Path} (h : d p = none) : openNative d p = d.put p [] := by
  unfold openNative; rw [h]

theorem openNative_of_ne (d : Dir) {p q : Path} (h : q ≠ p) : openNative d p q = d q := by
  cases hp : d p with
  | some b => rw [openNative_of_some hp]
  | none => rw [openNative_of_none hp, Dir.put_of_ne d _ h]

theorem writeAt0_of_ne (d : Dir) {p q : Path} (data : Bytes) (h : q ≠ p) :
    writeAt0 d p data q = d q := Dir.put_of_ne d _ h

theorem create_native {d : Dir} {p : Path} (data : Bytes) (h : d p = none) :
    writeAt0 (openNative d p) p data = d.put p data := by
  rw [openNative_of_none h, writeAt0, Dir.put_self, Option.getD_some, overwrite_nil, Dir.put_put]

theorem create_java (d : Dir) (p : Path) (data : Bytes) :
    writeAt0 (openJava d p) p data = d.put p data := by
  rw [openJava, writeAt0, Dir.put_self, Option.getD_some, overwrite_nil, Dir.put_put]

end DumpDex.L2.Files
