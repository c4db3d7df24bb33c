import DumpDex.Core.Runs
import DumpDex.L2Machine.Writers

/-!
# Descriptors over a run of `save_dex_file` calls

`fopen(dname, "r")` is the existence test; the stream it returns when the
file is there is never closed. Here the descriptor table is bounded: the
process may hold `limit` descriptors, `held` of which belong to the rest of
it. `fopen` fails when the file is absent or no descriptor is free, `open`
when none is free; what a `write` stores is arbitrary.

A call is `Sound` if it returns with as many descriptors as it entered with
and, if its file was absent, has created and written it.

* `sound_iff`: while a descriptor is free, a call is `Sound` exactly when its
  file is absent on entry.
* `sound_run_iff`: so a run is `Sound` throughout exactly when no file name
  of it is in the directory at the start or occurs twice in it.
* `repeats_starve`: one repeat costs a descriptor, and with one to spare the
  next new dex is dropped.
-/
namespace DumpDex.L3.Descriptors
open DumpDex.L1.FileName DumpDex.L2.Files DumpDex.L2.Writers
open DumpDex.Core.Runs

variable {abi : Abi}

/-- The descriptor table: its size and what the rest of the process holds. -/
structure Table where
  limit : Nat
  held : Nat
  deriving DecidableEq, Repr

def Table.free (t : Table) (fds : Nat) : Bool := t.held + fds < t.limit

/-- `fopen` and `open` fail for lack of a descriptor only. -/
def Table.io (t : Table) (s : Os) (w : WriteResult) : NativeIO :=
  ⟨!t.free s.fds, !t.free s.fds, w⟩

abbrev Save (abi : Abi) := NativeBuf abi × WriteResult

def Save.path (p : PackageName) (c : Save abi) : Path := savePath abi p.name c.1.length

/-- One `save_dex_file` call. -/
def save (t : Table) (p : PackageName) (s : Os) (c : Save abi) : Os :=
  (saveDexFile abi p.name (t.io s c.2) s c.1).os

/-- As many descriptors after as before, and an absent file created and written. -/
def Sound (t : Table) (p : PackageName) (s : Os) (c : Save abi) : Prop :=
  (save t p s c).fds = s.fds ∧
  (s.dir (c.path p) = none → (save t p s c).dir (c.path p) = some (c.2.stored c.1.bytes))

/-- The call's file does not exist when the call is made. -/
def Absent (p : PackageName) (s : Os) (c : Save abi) : Prop := s.dir (c.path p) = none

theorem save_absent (t : Table) (p : PackageName) (s : Os) (c : Save abi)
    (hf : t.free s.fds = true) (h : Absent p s c) :
    save t p s c = { s with dir := s.dir.put (c.path p) (c.2.stored c.1.bytes) } :=
  (saveDexFile_written (t.io s c.2) h (by simp [Table.io, hf])).1

theorem save_present (t : Table) (p : PackageName) (s : Os) (c : Save abi)
    (hf : t.free s.fds = true) (h : ¬ Absent p s c) :
    save t p s c = { s with fds := s.fds + 1 } := by
  have hh : s.dir.has (savePath abi p.name c.1.length) = true := by
    rw [← Bool.not_eq_false, Dir.has_eq_false]; exact h
  exact (saveDexFile_exists (t.io s c.2) hh (by simp [Table.io, hf])).1

theorem sound_iff (t : Table) (p : PackageName) (s : Os) (c : Save abi)
    (hf : t.free s.fds = true) : Sound t p s c ↔ Absent p s c := by
  by_cases h : Absent p s c
  · refine iff_of_true ?_ h
    unfold Sound
    rw [save_absent t p s c hf h]
    exact ⟨rfl, fun _ => Dir.put_self ..⟩
  · refine iff_of_false ?_ h
    intro hs
    obtain ⟨hfds, -⟩ := hs
    rw [save_present t p s c hf h] at hfds
    simp at hfds

theorem free_step (t : Table) (p : PackageName) (s : Os) (c : Save abi) (hf : t.free s.fds = true)
    (h : Absent p s c) : t.free (save t p s c).fds = true := by
  rw [save_absent t p s c hf h]; exact hf

/-- Calls that each find their file absent: their names are new and distinct. -/
theorem absent_run_iff (t : Table) (p : PackageName) (run : List (Save abi)) (s : Os)
    (hf : t.free s.fds = true) :
    Meets (save t p) (Absent p) s run ↔
      (∀ c ∈ run, s.dir (c.path p) = none) ∧ (run.map (Save.path p)).Nodup := by
  induction run generalizing s with
  | nil => simp
  | cons c run ih =>
    rw [meets_cons]
    simp only [List.mem_cons, forall_eq_or_imp, List.map_cons, List.nodup_cons, List.mem_map,
      not_exists, not_and]
    refine ⟨?_, ?_⟩
    · intro hm
      obtain ⟨h, hl⟩ := hm
      obtain ⟨h1, h2⟩ := (ih _ (free_step t p s c hf h)).mp hl
      rw [save_absent t p s c hf h] at h1
      simp only at h1
      refine ⟨⟨h, fun e he => ?_⟩, fun e he hpath => ?_, h2⟩
      · -- the first call only added its own name
        by_cases hpath : e.path p = c.path p
        · rw [hpath]; exact h
        · rw [← Dir.put_of_ne s.dir _ hpath]; exact h1 e he
      · have := h1 e he
        rw [hpath, Dir.put_self] at this; cases this
    · intro hn
      obtain ⟨⟨h, h1⟩, hne, h2⟩ := hn
      refine ⟨h, (ih _ (free_step t p s c hf h)).mpr ⟨fun e he => ?_, h2⟩⟩
      rw [save_absent t p s c hf h]
      exact (Dir.put_of_ne s.dir _ (hne e he)).trans (h1 e he)

/-- **Descriptor balance.** From any directory, with a descriptor free, every
call of a run returns with the descriptors it entered with and creates and
writes its absent file, exactly when no name of the run is in the directory
at the start or occurs twice. -/
theorem sound_run_iff (t : Table) (p : PackageName) (d : Dir) (run : List (Save abi))
    (hf : t.held < t.limit) :
    Meets (save t p) (Sound t p) ⟨d, 0⟩ run ↔
      (∀ c ∈ run, d (c.path p) = none) ∧ (run.map (Save.path p)).Nodup := by
  have h0 : t.free 0 = true := by simpa [Table.free] using hf
  have key := meets_congr (f := save t p) (C := Absent p) (Q := Sound t p)
    (I := fun s => t.free s.fds = true) (fun s c hs hc => free_step t p s c hs hc)
    (fun s c hs => sound_iff t p s c hs) ⟨d, 0⟩ run h0
  rw [key, absent_run_iff t p run ⟨d, 0⟩ h0]

/-- One descriptor to spare. -/
def tightTable : Table := ⟨1, 0⟩

def oneDex : Save .arm64 := (demoDex, .all)

def otherDex : Save .arm64 := (⟨[0x64, 0x65], by decide⟩, .all)

theorem sound_run_two : tightTable.held < tightTable.limit ∧
    Meets (save tightTable demoPackage.toPackageName)
      (Sound tightTable demoPackage.toPackageName) ⟨Dir.empty, 0⟩ [oneDex, otherDex] :=
  ⟨by decide, (sound_run_iff tightTable demoPackage.toPackageName Dir.empty [oneDex, otherDex]
    (by decide)).mpr ⟨fun _ _ => rfl, by decide⟩⟩

/-- **Counterexample**: a dex seen twice takes the last descriptor, and the
next new dex is not written. -/
theorem repeats_starve :
    ¬ ∀ (t : Table) (p : PackageName) (d : Dir) (run : List (Save .arm64)), t.held < t.limit →
      Meets (save t p) (Sound t p) ⟨d, 0⟩ run := by
  intro h
  have hm := h tightTable demoPackage.toPackageName Dir.empty [oneDex, oneDex, otherDex] (by decide)
  obtain ⟨-, -, ⟨-, hw⟩, -⟩ := hm
  have := hw (by decide)
  revert this
  decide

end DumpDex.L3.Descriptors
