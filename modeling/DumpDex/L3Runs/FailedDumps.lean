import DumpDex.Core.Runs
import DumpDex.L2Machine.Writers

/-!
# What a failed dump leaves behind

One call under arbitrary outcomes: the file cannot be created, the write
fails or throws, the write stores only a part. Neither writer removes the
file it created, so a failed or short write leaves a truncated dump, which
the existence test of every later call takes for a complete one.

* `allOrNothing_iff`: a call leaves a complete dump or the directory it found
  exactly when it is `Intact`: its file was there, or could not be opened, or
  the write stored every byte.
* `complete_run`: in a run from an empty directory whose calls are all
  `Intact`, every file is at all times the complete dump of some call made so
  far; `skipped_complete`: a call that is skipped finds one.
* `absent_run`: a file is missing after a run exactly when it was missing
  before and no call of its name could create it.
* `failed_dump_leaves_nothing`: a run is `Healthy` exactly when its calls are
  `Intact` and it is `Unclaimed`: between a call whose file could not be
  created and the next call with the same bytes, no call creates a file of
  that name. Another dex of that length may: the file name is the length.
* `failed_write_leaves_file`: without `Intact` the file stays, empty.
-/
namespace DumpDex.L3.FailedDumps
open DumpDex.L1.FileName DumpDex.L2.Files DumpDex.L2.Writers
open DumpDex.Core.Runs

variable {abi : Abi}

/-- The file of that name holds the whole byte string, or nothing changed. -/
def AllOrNothing (p : PackageName) (s : Os) (c : Call abi × CallIO) : Prop :=
  (dump p s c).dir (c.1.path p) = some c.1.bytes ∨ (dump p s c).dir = s.dir

/-- The file was there before, or cannot be opened, or takes every byte. -/
def Intact (p : PackageName) (s : Os) (c : Call abi × CallIO) : Prop :=
  (s.dir (c.1.path p)).isSome ∨ c.2.openFails = true ∨ c.2.write.stored c.1.bytes = c.1.bytes

/-- Every file is the complete dump of a call of `h` with its name. -/
def CompleteDumps (p : PackageName) (h : List (Call abi × CallIO)) (d : Dir) : Prop :=
  ∀ path b, d path = some b → ∃ c ∈ h, c.1.path p = path ∧ c.1.bytes = b

def start : Os := ⟨Dir.empty, 0⟩

theorem allOrNothing_iff (p : PackageName) (s : Os) (c : Call abi × CallIO) :
    AllOrNothing p s c ↔ Intact p s c := by
  obtain ⟨c, io⟩ := c
  unfold AllOrNothing Intact
  rw [dump_dir]
  by_cases hs : s.dir.has (c.path p) = true ∨ io.openFails = true
  · rw [if_pos hs]
    refine iff_of_true (Or.inr rfl) ?_
    rcases hs with h | h
    · exact Or.inl h
    · exact Or.inr (Or.inl h)
  · rw [if_neg hs]
    obtain ⟨hh, ho⟩ := not_or.mp hs
    have habs : s.dir (c.path p) = none := Dir.has_eq_false.mp (by simpa using hh)
    refine ⟨?_, ?_⟩
    · intro h
      rcases h with h | h
      · exact Or.inr (Or.inr (by simpa using h))
      · -- the file is there afterwards, so the directory did change
        have := congrFun h (c.path p)
        rw [Dir.put_self, habs] at this
        cases this
    · intro h
      rcases h with h | h | h
      · rw [habs] at h; cases h
      · exact absurd h ho
      · left; simp only at h ⊢; rw [h, Dir.put_self]

theorem meets_allOrNothing_iff (p : PackageName) (s : Os) (run : List (Call abi × CallIO)) :
    Meets (dump p) (AllOrNothing p) s run ↔ Meets (dump p) (Intact p) s run :=
  meets_congr (I := fun _ => True) (fun _ _ _ _ => trivial)
    (fun s c _ => allOrNothing_iff p s c) s run trivial

/-- One `Intact` call keeps every file a complete dump. -/
theorem completeDumps_step (p : PackageName) (h : List (Call abi × CallIO)) (s : Os)
    (c : Call abi × CallIO) (hd : CompleteDumps p h s.dir) (hc : Intact p s c) :
    CompleteDumps p (h ++ [c]) (dump p s c).dir := by
  have keep : CompleteDumps p (h ++ [c]) s.dir := by
    intro path b hb
    obtain ⟨e, he, h1, h2⟩ := hd path b hb
    exact ⟨e, List.mem_append_left _ he, h1, h2⟩
  obtain ⟨c, io⟩ := c
  rw [dump_dir]
  split
  · exact keep
  · rename_i hs
    obtain ⟨hh, ho⟩ := not_or.mp hs
    have hst : io.write.stored c.bytes = c.bytes := by
      rcases hc with hc | hc | hc
      · exact absurd hc hh
      · exact absurd hc ho
      · exact hc
    intro path b hb
    by_cases hp : path = c.path p
    · subst hp
      rw [Dir.put_self, hst] at hb
      exact ⟨(c, io), List.mem_append_right _ (List.mem_singleton_self _), rfl, Option.some.inj hb⟩
    · rw [Dir.put_of_ne _ _ hp] at hb
      exact keep path b hb

theorem complete_run (p : PackageName) (run : List (Call abi × CallIO))
    (hm : Meets (dump p) (Intact p) start run) :
    CompleteDumps p run (run.foldl (dump p) start).dir := by
  have := history_rule (f := dump p) (C := Intact p)
    (I := fun h s => CompleteDumps p h s.dir)
    (fun h s c hd hc => completeDumps_step p h s c hd hc) run [] start
    (fun _ _ hb => by cases hb) hm
  simpa using this

/-- A call that is skipped finds a complete dump under its name. -/
theorem skipped_complete (p : PackageName) (h : List (Call abi × CallIO)) (s : Os)
    (hd : CompleteDumps p h s.dir) (c : Call abi) (io : CallIO) (ht : tries p s (c, io) = false) :
    ∃ e ∈ h, e.1.path p = c.path p ∧ s.dir (c.path p) = some e.1.bytes := by
  have hn : s.dir (c.path p) ≠ none := by
    intro e; rw [← tries_iff p s c io, ht] at e; cases e
  obtain ⟨b, hb⟩ := Option.ne_none_iff_exists'.mp hn
  obtain ⟨e, he, h1, h2⟩ := hd _ b hb
  exact ⟨e, he, h1, by rw [hb, h2]⟩

/-! ## The next time a dex is seen -/

/-- The call got as far as opening the file, which does not hold the bytes. -/
def Failed (p : PackageName) (s : Os) (c : Call abi × CallIO) : Prop :=
  tries p s c = true ∧ (dump p s c).dir (c.1.path p) ≠ some c.1.bytes

/-- The file is missing and cannot be created. -/
def Refused (p : PackageName) (s : Os) (c : Call abi × CallIO) : Prop :=
  s.dir (c.1.path p) = none ∧ c.2.openFails = true

/-- After `pre` the run makes the call `c`; `c'` is the next call, of either
writer, that brings the same bytes. -/
structure SeenAgain (run pre mid : List (Call abi × CallIO)) (c c' : Call abi × CallIO) : Prop where
  inRun : pre ++ c :: (mid ++ [c']) <+: run
  same : c'.1.bytes = c.1.bytes
  next : ∀ e ∈ mid, e.1.bytes ≠ c.1.bytes

theorem absent_step (p : PackageName) (s : Os) (e : Call abi × CallIO) (path : Path) :
    (dump p s e).dir path = none ↔
      s.dir path = none ∧ (e.1.path p = path → e.2.openFails = true) := by
  obtain ⟨e, io⟩ := e
  rw [dump_dir]
  split
  · rename_i h
    refine ⟨fun hn => ⟨hn, fun hp => ?_⟩, And.left⟩
    rcases h with h | h
    · -- a file of that name exists, so it is not the missing one
      rw [hp, Dir.has_eq_false.mpr hn] at h
      cases h
    · exact h
  · rename_i h
    obtain ⟨-, ho⟩ := not_or.mp h
    by_cases hp : path = e.path p
    · subst hp
      rw [Dir.put_self]
      exact iff_of_false (by simp) (fun hc => ho (hc.2 rfl))
    · rw [Dir.put_of_ne _ _ hp]
      exact ⟨fun hn => ⟨hn, fun he => absurd he.symm hp⟩, And.left⟩

/-- A file is missing after a run of any length exactly when it was missing
before and none of the calls of its name could create it. -/
theorem absent_run (p : PackageName) (path : Path) (mid : List (Call abi × CallIO)) (s : Os) :
    (mid.foldl (dump p) s).dir path = none ↔
      s.dir path = none ∧ ∀ e ∈ mid, e.1.path p = path → e.2.openFails = true := by
  induction mid generalizing s with
  | nil => simp
  | cons e mid ih => rw [List.foldl_cons, ih, absent_step, List.forall_mem_cons, and_assoc]

theorem refused_failed (p : PackageName) (s : Os) (c : Call abi × CallIO) (h : Refused p s c) :
    Failed p s c := by
  obtain ⟨hn, ho⟩ := h
  have hafter : (dump p s c).dir (c.1.path p) = none :=
    (absent_step p s c _).mpr ⟨hn, fun _ => ho⟩
  refine ⟨(tries_iff p s c.1 c.2).mpr hn, ?_⟩
  rw [hafter]
  simp

/-- Among `Intact` calls only the refused ones fail. -/
theorem failed_iff (p : PackageName) (s : Os) (c : Call abi × CallIO) (hi : Intact p s c) :
    Failed p s c ↔ Refused p s c := by
  refine ⟨fun ⟨ht, hf⟩ => ?_, refused_failed p s c⟩
  have hn : s.dir (c.1.path p) = none := (tries_iff p s c.1 c.2).mp ht
  refine ⟨hn, ?_⟩
  rcases (allOrNothing_iff p s c).mpr hi with h | h
  · exact absurd h hf
  · -- nothing was created, although the file was missing
    have hafter : (dump p s c).dir (c.1.path p) = none := by rw [h, hn]
    exact ((absent_step p s c _).mp hafter).2 rfl

/-- When a dex is seen again after a call that was refused, it is tried again
exactly when no call in between could create a file of its name. -/
theorem tried_again_iff (p : PackageName) {run pre mid : List (Call abi × CallIO)}
    {c c' : Call abi × CallIO} (hs : SeenAgain run pre mid c c')
    (hr : Refused p (pre.foldl (dump p) start) c) :
    tries p ((pre ++ c :: mid).foldl (dump p) start) c' = true ↔
      ∀ e ∈ mid, e.1.path p = c.1.path p → e.2.openFails = true := by
  have hpath : c'.1.path p = c.1.path p := Call.path_congr p (congrArg List.length hs.same)
  have hafter : (dump p (pre.foldl (dump p) start) c).dir (c.1.path p) = none :=
    (absent_step p _ c _).mpr ⟨hr.1, fun _ => hr.2⟩
  rw [tries_iff p _ c'.1 c'.2, hpath, List.foldl_append, List.foldl_cons, absent_run]
  exact and_iff_right hafter

/-- What the run never does: leave a dump that is not complete, skip a dex
without a complete dump under its name, or skip a dex whose last dump
failed. -/
structure Healthy (p : PackageName) (run : List (Call abi × CallIO)) : Prop where
  allOrNothing : Meets (dump p) (AllOrNothing p) start run
  complete : ∀ pre, pre <+: run → CompleteDumps p pre (pre.foldl (dump p) start).dir
  skipped : ∀ pre, pre <+: run → ∀ (c : Call abi) (io : CallIO),
    tries p (pre.foldl (dump p) start) (c, io) = false →
      ∃ e ∈ pre, e.1.path p = c.path p ∧
        (pre.foldl (dump p) start).dir (c.path p) = some e.1.bytes
  retried : ∀ pre mid c c', SeenAgain run pre mid c c' →
    Failed p (pre.foldl (dump p) start) c →
      tries p ((pre ++ c :: mid).foldl (dump p) start) c' = true

/-- Between a call whose file could not be created and the next call with the
same bytes, no call can create a file of that name. -/
def Unclaimed (p : PackageName) (run : List (Call abi × CallIO)) : Prop :=
  ∀ pre mid c c', SeenAgain run pre mid c c' → Refused p (pre.foldl (dump p) start) c →
    ∀ e ∈ mid, e.1.path p = c.1.path p → e.2.openFails = true

theorem healthy_of_intact (p : PackageName) (run : List (Call abi × CallIO))
    (hm : Meets (dump p) (Intact p) start run) (hu : Unclaimed p run) : Healthy p run where
  allOrNothing := (meets_allOrNothing_iff p start run).mpr hm
  complete := fun pre hp => complete_run p pre (hm.of_prefix hp)
  skipped := fun pre hp c io => skipped_complete p pre _ (complete_run p pre (hm.of_prefix hp)) c io
  retried := by
    intro pre mid c c' hs hf
    have hat : pre ++ [c] <+: run :=
      ((List.prefix_append_right_inj pre).mpr ⟨mid ++ [c'], rfl⟩).trans hs.inRun
    have hr : Refused p (pre.foldl (dump p) start) c := (failed_iff p _ c (hm.at hat)).mp hf
    exact (tried_again_iff p hs hr).mpr (hu pre mid c c' hs hr)

theorem unclaimed_of_healthy (p : PackageName) (run : List (Call abi × CallIO))
    (h : Healthy p run) : Unclaimed p run := by
  intro pre mid c c' hs hr
  exact (tried_again_iff p hs hr).mp (h.retried pre mid c c' hs (refused_failed p _ c hr))

/-- **Failed dumps.** A call is all-or-nothing exactly when it is `Intact`,
and a run from an empty directory is `Healthy` exactly when its calls are
`Intact` and no call takes the file name of a dex that is still to be tried
again. -/
theorem failed_dump_leaves_nothing (p : PackageName) :
    (∀ (s : Os) (c : Call abi × CallIO), AllOrNothing p s c ↔ Intact p s c) ∧
    ∀ run : List (Call abi × CallIO),
      Healthy p run ↔ Meets (dump p) (Intact p) start run ∧ Unclaimed p run := by
  refine ⟨fun s c => allOrNothing_iff p s c, fun run => ⟨fun h => ⟨?_, ?_⟩, ?_⟩⟩
  · exact (meets_allOrNothing_iff p start run).mp h.allOrNothing
  · exact unclaimed_of_healthy p run h
  · intro ⟨hm, hu⟩
    exact healthy_of_intact p run hm hu

/-- A dex whose file cannot be created, another of its length, and the first
again: every call is `Intact`, and the first dex is skipped. -/
example :
    let refused : Call .arm64 × CallIO := (.native demoDex, ⟨true, .error⟩)
    let other : Call .arm64 × CallIO := (.native ⟨[0x65], by decide⟩, CallIO.ok)
    Meets (dump demoPackage.toPackageName) (Intact demoPackage.toPackageName) start
        [refused, other, refused] ∧
      tries demoPackage.toPackageName
        ([refused, other].foldl (dump demoPackage.toPackageName) start) refused = false := by
  refine ⟨by simp [Intact, CallIO.ok, WriteResult.stored], by decide⟩

/-- **Counterexample**: the file is created, the write fails, and the empty
file stays. -/
theorem failed_write_leaves_file :
    ¬ ∀ (abi : Abi) (p : PackageName) (s : Os) (c : Call abi × CallIO), AllOrNothing p s c := by
  intro h
  have hi := (allOrNothing_iff demoPackage.toPackageName start (.native demoDex, ⟨false, .error⟩)).mp
    (h _ _ _ _)
  revert hi
  simp [Intact, start, Dir.empty, WriteResult.stored, Call.bytes, demoDex]

end DumpDex.L3.FailedDumps
