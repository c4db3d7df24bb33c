import DumpDex.Core.LTS
import DumpDex.L2Machine.Writers

/-!
# Concurrent dumps on the 32-bit build

Any number of calls of the two writers at once, for one package and from an
empty directory, each in four atomic steps: the existence check, the open
(native: created if absent, contents kept; Java: created or truncated), one
write of the whole byte string at offset 0 of the call's own descriptor, the
close. No operation fails.

Check and open are not one step, so several writers of a name can be past
the check together and truncate or overwrite each other's file. `Shown` is
why nothing tears: a file holds the whole byte string of a call past its
write, or is empty while some call of its name is about to write; writers of
one name bring one length, so a later write covers an earlier one.

* `outline`: the proof outline (`Core.Threads.Outline`) of these threads.
* `no_torn_files`: while no call is between its open and its close, every
  file has the length in its name and is the byte string of one of the calls,
  and every call that has returned finds a file of its length.
* `alone_refines`: a call that runs its steps undisturbed does what the
  sequential `dump` does.
-/
namespace DumpDex.L5.Tear
open DumpDex.L1.FileName DumpDex.L2.Files DumpDex.L2.Writers
open DumpDex.Core

/-- Where a call stands: before its check, its open, its write, its close, or
returned. -/
inductive Pc where
  | check
  | opens
  | writes
  | closes
  | returned
  deriving DecidableEq, Repr

/-- One atomic step of a call.
mirrors app/src/main/cpp/util/fileutils.cpp:23-41 and
app/src/main/java/com/wrbug/dumpdex/dump/LowSdkDump.java:55-59 with
app/src/main/java/com/wrbug/dumpdex/util/FileUtils.java:25-27 -/
def callStep (p : PackageName) (c : Call .arm32) (d : Dir) : Pc → Option (Dir × Pc)
  | .check => some (d, if d.has (c.path p) then .returned else .opens)
  | .opens =>
    match c with
    | .native _ => some (openNative d (c.path p), .writes)
    | .java _ => some (openJava d (c.path p), .writes)
  | .writes => some (writeAt0 d (c.path p) c.bytes, .closes)
  | .closes => some (d, .returned)
  | .returned => none

/-- The steps by what they find: a call is done, goes on, opens its file, which
keeps its content or is empty then, writes it, or closes it. -/
inductive Stepped (path : Path) (data : Bytes) (d : Dir) : Pc → Dir → Pc → Prop where
  | found (h : d path ≠ none) : Stepped path data d .check d .returned
  | absent (h : d path = none) : Stepped path data d .check d .opens
  | opened (b : Bytes) (h : d path = some b ∨ b = []) :
      Stepped path data d .opens (d.put path b) .writes
  | written : Stepped path data d .writes (writeAt0 d path data) .closes
  | closed : Stepped path data d .closes d .returned

theorem callStep_cases (p : PackageName) {c : Call .arm32} {d d' : Dir} {t x : Pc}
    (h : callStep p c d t = some (d', x)) : Stepped (c.path p) c.bytes d t d' x := by
  cases t with
  | check =>
    simp only [callStep, Option.some.injEq, Prod.mk.injEq] at h
    obtain ⟨rfl, rfl⟩ := h
    split
    · rename_i hd; exact .found (by simpa [Dir.has, Option.isSome_iff_ne_none] using hd)
    · rename_i hd; exact .absent (Dir.has_eq_false.mp (by simpa using hd))
  | opens =>
    cases c with
    | native data =>
      simp only [callStep, Option.some.injEq, Prod.mk.injEq] at h
      obtain ⟨rfl, rfl⟩ := h
      cases hd : d (Call.path p (.native data)) with
      | some b =>
        rw [openNative_of_some hd]
        simpa only [Dir.put_eq_self hd] using Stepped.opened b (Or.inl hd)
      | none => rw [openNative_of_none hd]; exact .opened [] (Or.inr rfl)
    | java bytes =>
      simp only [callStep, Option.some.injEq, Prod.mk.injEq] at h
      obtain ⟨rfl, rfl⟩ := h
      exact .opened [] (Or.inr rfl)
  | writes =>
    simp only [callStep, Option.some.injEq, Prod.mk.injEq] at h
    obtain ⟨rfl, rfl⟩ := h
    exact .written
  | closes =>
    simp only [callStep, Option.some.injEq, Prod.mk.injEq] at h
    obtain ⟨rfl, rfl⟩ := h
    exact .closed
  | returned => cases h

variable {ι : Type} [DecidableEq ι] (p : PackageName) (calls : ι → Call .arm32)

def threads : Threads ι Dir Pc where
  store := Dir.empty
  start := fun _ => .check
  step i d t d' t' := callStep p (calls i) d t = some (d', t')

/-- Past its write. -/
def Pc.wrote (t : Pc) : Prop := t = .closes ∨ t = .returned

/-- Between its open and its close. -/
def Pc.isOpen (t : Pc) : Prop := t = .writes ∨ t = .closes

instance (t : Pc) : Decidable t.wrote := inferInstanceAs (Decidable (_ ∨ _))

instance (t : Pc) : Decidable t.isOpen := inferInstanceAs (Decidable (_ ∨ _))

/-- What a file may hold: all of a call past its write, or nothing yet, while
a call of its name is about to write. -/
def Shown (t : ι → Pc) (path : Path) (b : Bytes) : Prop :=
  (∃ i, (calls i).path p = path ∧ (calls i).bytes = b ∧ (t i).wrote) ∨
  (b = [] ∧ ∃ i, (calls i).path p = path ∧ t i = .writes)

def inv (d : Dir) (t : ι → Pc) : Prop := ∀ path b, d path = some b → Shown p calls t path b

/-- A call past its open, or returned, has its file there. -/
def at_ (i : ι) (d : Dir) (t : Pc) : Prop := t.isOpen ∨ t = .returned → d ((calls i).path p) ≠ none

omit [DecidableEq ι] in
theorem Shown.length {t : ι → Pc} {i : ι} {b : Bytes} (h : Shown p calls t ((calls i).path p) b) :
    b.length ≤ (calls i).bytes.length := by
  rcases h with ⟨j, hp, rfl, -⟩ | ⟨rfl, -⟩
  · have := Call.length_of_path_eq p hp
    rw [Nat.mod_eq_of_lt (calls j).length_lt_arm32, Nat.mod_eq_of_lt (calls i).length_lt_arm32] at this
    omega
  · exact Nat.zero_le _

/-- A step of call `i` that is neither about to write nor past its write
leaves what is shown as it is. -/
theorem Shown.update {t : ι → Pc} {i : ι} {path : Path} {b : Bytes} (x : Pc)
    (hi : t i = .writes → x = .writes) (hw : (t i).wrote → x.wrote)
    (h : Shown p calls t path b) : Shown p calls (Function.update t i x) path b := by
  rcases h with ⟨j, hp, hb, ht⟩ | ⟨hb, j, hp, ht⟩
  · refine Or.inl ⟨j, hp, hb, ?_⟩
    by_cases hj : j = i
    · subst hj; rw [Function.update_self]; exact hw ht
    · rw [Function.update_of_ne hj]; exact ht
  · refine Or.inr ⟨hb, j, hp, ?_⟩
    by_cases hj : j = i
    · subst hj; rw [Function.update_self]; exact hi ht
    · rw [Function.update_of_ne hj]; exact ht

/-- Opening shows, under the call's name, an empty file it is about to write
or what was there. -/
theorem inv_open {d : Dir} {t : ι → Pc} {i : ι} {b : Bytes} (hinv : inv p calls d t)
    (ht : t i = .opens) (hb : d ((calls i).path p) = some b ∨ b = []) :
    inv p calls (d.put ((calls i).path p) b) (Function.update t i .writes) := by
  have keep : ∀ path c, d path = some c → Shown p calls (Function.update t i .writes) path c :=
    fun path c hc => (hinv path c hc).update p calls .writes (fun _ => rfl)
      (fun hw => absurd hw (by rw [ht]; decide))
  intro path c hc
  by_cases hp : path = (calls i).path p
  · subst hp
    rw [Dir.put_self] at hc
    cases hc
    rcases hb with hb | rfl
    · exact keep _ b hb
    · exact Or.inr ⟨rfl, i, rfl, Function.update_self ..⟩
  · rw [Dir.put_of_ne _ _ hp] at hc
    exact keep path c hc

/-- Writing shows the call's whole byte string: what was there is not longer. -/
theorem inv_write {d : Dir} {t : ι → Pc} (i : ι) (hinv : inv p calls d t) :
    inv p calls (writeAt0 d ((calls i).path p) (calls i).bytes) (Function.update t i .closes) := by
  intro path b hb
  by_cases hp : path = (calls i).path p
  · subst hp
    rw [writeAt0, Dir.put_self, overwrite_of_length_le] at hb
    · exact Or.inl ⟨i, rfl, Option.some.inj hb, Or.inl (Function.update_self ..)⟩
    · cases hold : d ((calls i).path p) with
      | none => exact Nat.zero_le _
      | some c => exact (hinv _ c hold).length
  · rw [writeAt0, Dir.put_of_ne _ _ hp] at hb
    -- a call about to write under another name is another call
    rcases hinv path b hb with ⟨j, hj, hbj, hw⟩ | ⟨hbj, j, hj, hw⟩
    · refine Or.inl ⟨j, hj, hbj, ?_⟩
      rw [Function.update_of_ne (fun e => hp (by rw [← e, hj]))]; exact hw
    · refine Or.inr ⟨hbj, j, hj, ?_⟩
      rw [Function.update_of_ne (fun e => hp (by rw [← e, hj]))]; exact hw

omit [DecidableEq ι] in
/-- No step removes a file. -/
theorem callStep_has {i : ι} {d d' : Dir} {t x : Pc} (hs : callStep p (calls i) d t = some (d', x))
    (path : Path) (h : d path ≠ none) : d' path ≠ none := by
  cases callStep_cases p hs with
  | found => exact h
  | absent => exact h
  | opened b => exact Dir.put_ne_none b h
  | written => exact Dir.put_ne_none _ h
  | closed => exact h

/-- A step of call `i` keeps what files may hold. -/
theorem inv_step {d d' : Dir} {t : ι → Pc} {i : ι} {x : Pc} (hinv : inv p calls d t)
    (hs : callStep p (calls i) d (t i) = some (d', x)) :
    inv p calls d' (Function.update t i x) := by
  have hc := callStep_cases p hs
  generalize ht : t i = pc at hc
  cases hc with
  | found | absent =>
    exact fun path b hb => (hinv path b hb).update p calls _
      (fun hw => absurd hw (by rw [ht]; decide)) (fun hw => absurd hw (by rw [ht]; decide))
  | opened b hb => exact inv_open p calls hinv ht hb
  | written => exact inv_write p calls i hinv
  | closed =>
    exact fun path b hb => (hinv path b hb).update p calls _
      (fun hw => absurd hw (by rw [ht]; decide)) (fun _ => Or.inr rfl)

omit [DecidableEq ι] in
/-- The stepping call's own assertion. -/
theorem at_step {d d' : Dir} {t x : Pc} {i : ι} (ha : at_ p calls i d t)
    (hs : callStep p (calls i) d t = some (d', x)) : at_ p calls i d' x := by
  cases callStep_cases p hs with
  | found h => exact fun _ => h
  | absent h => exact fun hx => absurd hx (by decide)
  | opened b => intro _; simp
  | written => intro _; simp [writeAt0]
  | closed => exact fun _ => ha (Or.inl (Or.inr rfl))

theorem outline : (threads p calls).Outline (inv p calls) (at_ p calls) where
  start_inv := fun _ _ h => by cases h
  start_at := fun _ h => absurd h (show ¬ (Pc.check.isOpen ∨ Pc.check = .returned) by decide)
  keeps := fun _ _ _ _ _ hinv _ hs => inv_step p calls hinv hs
  own := fun _ _ _ _ _ _ ha hs => at_step p calls ha hs
  noninterference := fun _ _ _ _ _ _ _ _ ha hs h => callStep_has p calls hs _ (ha h)

/-! ## Headline properties -/

/-- No call is between its open and its close. -/
def Quiet (t : ι → Pc) : Prop := ∀ i, ¬ (t i).isOpen

/-- **No torn file.** Any number of calls, any interleaving: in every
reachable state in which no call is between its open and its close, each file
has the length its name says and holds the byte string of one returned call
of that name, and each returned call finds a file of its length. -/
theorem no_torn_files (s : Dir × (ι → Pc)) (hr : (threads p calls).lts.Reachable s)
    (hq : Quiet s.2) :
    (∀ path b, s.1 path = some b →
      path = dumpDir p.name ++ "/source-" ++ b.length.repr ++ ".dex" ∧
      ∃ i, (calls i).path p = path ∧ (calls i).bytes = b ∧ s.2 i = .returned) ∧
    ∀ i, s.2 i = .returned →
      ∃ b, s.1 ((calls i).path p) = some b ∧ b.length = (calls i).bytes.length := by
  obtain ⟨hinv, hat⟩ := (outline p calls).reachable s hr
  have whole : ∀ path b, s.1 path = some b →
      ∃ i, (calls i).path p = path ∧ (calls i).bytes = b ∧ s.2 i = .returned := by
    intro path b hb
    rcases hinv path b hb with ⟨i, h1, h2, h3 | h3⟩ | ⟨-, i, -, h3⟩
    · exact absurd (Or.inr h3) (hq i)
    · exact ⟨i, h1, h2, h3⟩
    · exact absurd (Or.inl h3) (hq i)
  refine ⟨?_, ?_⟩
  · intro path b hb
    obtain ⟨i, h1, h2, h3⟩ := whole path b hb
    refine ⟨?_, i, h1, h2, h3⟩
    rw [← h1, Call.path_eq, Nat.mod_eq_of_lt (calls i).length_lt_arm32, h2]
  · intro i hi
    obtain ⟨b, hb⟩ := Option.ne_none_iff_exists'.mp (hat i (Or.inr hi))
    obtain ⟨j, h1, rfl, -⟩ := whole _ b hb
    refine ⟨_, hb, ?_⟩
    have := Call.length_of_path_eq p h1
    rwa [Nat.mod_eq_of_lt (calls j).length_lt_arm32, Nat.mod_eq_of_lt (calls i).length_lt_arm32] at this

/-! ## Running a schedule -/

/-- Let the calls step in the order given. -/
def exec : Dir × (ι → Pc) → List ι → Option (Dir × (ι → Pc))
  | s, [] => some s
  | s, i :: is =>
    (callStep p (calls i) s.1 (s.2 i)).bind fun r => exec (r.1, Function.update s.2 i r.2) is

theorem exec_reachable : ∀ {s s' : Dir × (ι → Pc)} (is : List ι),
    (threads p calls).lts.Reachable s → exec p calls s is = some s' →
    (threads p calls).lts.Reachable s'
  | s, s', [], hr, he => by
    simp only [exec, Option.some.injEq] at he; rw [← he]; exact hr
  | s, s', i :: is, hr, he => by
    simp only [exec, Option.bind_eq_some_iff] at he
    obtain ⟨r, h1, h2⟩ := he
    refine exec_reachable is (hr.next (l := i) ⟨?_, ?_⟩) h2
    · simp only [threads, Function.update_self]; exact h1
    · simp

/-- A call whose steps nothing interrupts does what the sequential call does. -/
theorem alone_refines (s : Os) (t : ι → Pc) (i : ι) (ht : t i = .check) :
    ∃ is, (∀ j ∈ is, j = i) ∧ exec p calls (s.dir, t) is =
      some ((dump p s (calls i, CallIO.ok)).dir, Function.update t i .returned) := by
  rw [dump_dir]
  cases hd : s.dir ((calls i).path p) with
  | some b =>
    refine ⟨[i], by simp, ?_⟩
    simp [exec, ht, callStep, Dir.has, hd]
  | none =>
    refine ⟨[i, i, i, i], by simp, ?_⟩
    cases hc : calls i with
    | native data =>
      rw [hc] at hd
      simp [exec, ht, callStep, hc, Dir.has, hd, CallIO.ok, WriteResult.stored, create_native]
    | java bytes =>
      rw [hc] at hd
      simp [exec, ht, callStep, hc, Dir.has, hd, CallIO.ok, WriteResult.stored, create_java]

/-- A native and a Java dump of one length, both past the check before either
opens. -/
def twoWriters : Bool → Call .arm32
  | false => .native ⟨[0x64, 0x65], by decide⟩
  | true => .java ⟨[0x78, 0x79], by decide⟩

theorem alone_refines_first :
    ∃ is, (∀ j ∈ is, j = false) ∧
      exec demoPackage.toPackageName twoWriters (Dir.empty, fun _ => .check) is =
        some ((dump demoPackage.toPackageName ⟨Dir.empty, 0⟩ (twoWriters false, CallIO.ok)).dir,
          Function.update (fun _ => Pc.check) false .returned) :=
  alone_refines demoPackage.toPackageName twoWriters ⟨Dir.empty, 0⟩ (fun _ => .check) false rfl

def racing : List Bool := [false, true, false, false, true, false, true, true]

theorem racing_end : ∃ s, exec demoPackage.toPackageName twoWriters (Dir.empty, fun _ => .check)
    racing = some s ∧ s.2 false = .returned ∧ s.2 true = .returned := ⟨_, rfl, rfl, rfl⟩

theorem no_torn_files_race : ∃ s : Dir × (Bool → Pc),
    (threads demoPackage.toPackageName twoWriters).lts.Reachable s ∧ Quiet s.2 ∧
    (∀ path b, s.1 path = some b →
      path = dumpDir demoPackage.name ++ "/source-" ++ b.length.repr ++ ".dex" ∧
      ∃ i, (twoWriters i).path demoPackage.toPackageName = path ∧ (twoWriters i).bytes = b ∧
        s.2 i = .returned) ∧
    ∀ i, s.2 i = .returned → ∃ b, s.1 ((twoWriters i).path demoPackage.toPackageName) = some b ∧
      b.length = (twoWriters i).bytes.length := by
  obtain ⟨s, hs, h0, h1⟩ := racing_end
  have hr := exec_reachable demoPackage.toPackageName twoWriters racing (LTS.Reachable.start rfl) hs
  have hq : Quiet s.2 := by
    intro i
    cases i
    · rw [h0]; decide
    · rw [h1]; decide
  exact ⟨s, hr, hq, no_torn_files demoPackage.toPackageName twoWriters s hr hq⟩

end DumpDex.L5.Tear
