import DumpDex.Core.FirstWins
import DumpDex.L2Machine.Writers

/-!
# Which dexes a run of dumps keeps

Calls of the two writers one after the other, every file operation
succeeding, from an empty dump directory. With the existence test in front,
the pair of writers is a store in which the first writer of a name wins
(`dump_refines`), whichever writer that was: their paths agree.

So a byte string is lost exactly when an earlier call brought different bytes
under the same file name, that is of the same length (modulo 2^32):
`kept_iff_first`; what is kept once stays (`kept_stays`). The design keeps one
dex per length; `same_length_lost` is a run that loses the second of two.
-/
namespace DumpDex.L3.KeptDexes
open DumpDex.L1.FileName DumpDex.L2.Files DumpDex.L2.Writers
open DumpDex.Core

variable {abi : Abi}

/-- The run, from an empty directory. -/
def dumps (p : PackageName) (calls : List (Call abi)) : Os :=
  calls.foldl (fun s c => dump p s (c, CallIO.ok)) ⟨Dir.empty, 0⟩

/-- `b` is the whole content of some file in the package's dump directory. -/
def Kept (p : PackageName) (d : Dir) (b : Bytes) : Prop :=
  ∃ path, InDir (dumpDir p.name) path ∧ d path = some b

/-- The first call of the run with the file name of `c`. -/
def firstNamed (p : PackageName) (calls : List (Call abi)) (c : Call abi) : Option (Call abi) :=
  FirstWins.first (Call.path p) calls (c.path p)

/-- One successful call is one `put`. -/
theorem dump_refines (p : PackageName) (s : Os) (c : Call abi) :
    (dump p s (c, CallIO.ok)).dir = FirstWins.put (Call.path p) Call.bytes s.dir c := by
  rw [dump_dir]
  unfold FirstWins.put
  cases h : s.dir (c.path p) <;> simp [Dir.has, h, CallIO.ok, WriteResult.stored, Dir.put]

theorem foldl_refines (p : PackageName) (calls : List (Call abi)) (s : Os) :
    (calls.foldl (fun s c => dump p s (c, CallIO.ok)) s).dir =
      calls.foldl (FirstWins.put (Call.path p) Call.bytes) s.dir := by
  induction calls generalizing s with
  | nil => rfl
  | cons c calls ih => rw [List.foldl_cons, ih, dump_refines, List.foldl_cons]

theorem dumps_dir (p : PackageName) (calls : List (Call abi)) :
    (dumps p calls).dir =
      calls.foldl (FirstWins.put (Call.path p) Call.bytes) (fun _ => none) :=
  foldl_refines p calls _

/-- What is kept once stays. -/
theorem kept_stays (p : PackageName) (calls more : List (Call abi)) (b : Bytes)
    (h : Kept p (dumps p calls).dir b) : Kept p (dumps p (calls ++ more)).dir b := by
  obtain ⟨path, hd, hb⟩ := h
  refine ⟨path, hd, ?_⟩
  rw [dumps, List.foldl_append, foldl_refines]
  exact FirstWins.run_keeps (Call.path p) Call.bytes more _ path b hb

/-- A byte string can only be found under the name its own length gives. -/
theorem kept_iff_at (p : PackageName) (calls : List (Call abi)) (c : Call abi) :
    Kept p (dumps p calls).dir c.bytes ↔ (dumps p calls).dir (c.path p) = some c.bytes := by
  refine ⟨fun h => ?_, fun h => ⟨c.path p, c.path_inDir p, h⟩⟩
  obtain ⟨path, -, hpath⟩ := h
  have hfirst := hpath
  rw [dumps_dir, FirstWins.run_empty, Option.map_eq_some_iff] at hfirst
  obtain ⟨b, hb, hbytes⟩ := hfirst
  obtain ⟨-, hname⟩ := FirstWins.first_mem (Call.path p) hb
  rw [← Call.path_congr p (congrArg List.length hbytes), hname]
  exact hpath

/-- **One dex per length.** After every call the byte string of each call so
far is the whole content of some file exactly when the first call with its
file name was given that same string; and nothing is lost exactly when calls
with one file name carry one byte string. -/
theorem kept_iff_first (p : PackageName) (calls : List (Call abi)) :
    (∀ c ∈ calls, Kept p (dumps p calls).dir c.bytes ↔
      ∃ b, firstNamed p calls c = some b ∧ b.bytes = c.bytes) ∧
    ((∀ c ∈ calls, Kept p (dumps p calls).dir c.bytes) ↔
      ∀ c ∈ calls, ∀ c' ∈ calls, c.path p = c'.path p → c.bytes = c'.bytes) := by
  refine ⟨fun c _ => ?_, ?_⟩
  · rw [kept_iff_at, dumps_dir]
    exact FirstWins.holds_iff (Call.path p) Call.bytes calls c
  · simp only [kept_iff_at]
    rw [dumps_dir]
    exact FirstWins.nothing_lost_iff (Call.path p) Call.bytes calls

/-- Another dex of one byte. -/
def secondDex : Call .arm64 := .native ⟨[0x65], by decide⟩

/-- **Counterexample**: the second dex of a length is dropped. -/
theorem same_length_lost :
    ¬ ∀ (abi : Abi) (p : PackageName) (calls : List (Call abi)),
      ∀ c ∈ calls, Kept p (dumps p calls).dir c.bytes := by
  intro h
  have hk := ((kept_iff_at _ _ _).mp
    (h .arm64 demoPackage.toPackageName [.native demoDex, secondDex] secondDex (by decide)))
  revert hk
  decide

end DumpDex.L3.KeptDexes
