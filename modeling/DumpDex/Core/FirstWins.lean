import Mathlib.Logic.Function.Basic
import Mathlib.Data.List.Basic

/-!
# A keyed store in which the first writer wins

The purpose of a store that never overwrites: items arrive one after the
other, each with a key and a value; an item whose key is taken is dropped.

* `run_apply`: after a run a key holds the value of the first item with it
  (or what the store held before the run).
* `run_keeps`: what a key holds it holds for ever.
* `holds_iff`: an item's value is the one stored under its key exactly when
  the first item with that key carried the same value.
* `nothing_lost_iff`: a run loses no item exactly when, over the run, the key
  determines the value.
-/
namespace DumpDex.Core.FirstWins

variable {A K V : Type*} [DecidableEq K] (key : A → K) (val : A → V)

def put (m : K → Option V) (a : A) : K → Option V :=
  if (m (key a)).isSome then m else Function.update m (key a) (some (val a))

/-- The first item of the run with key `k`. -/
def first (l : List A) (k : K) : Option A := l.find? fun a => decide (key a = k)

theorem put_apply (m : K → Option V) (a : A) (k : K) :
    put key val m a k = (m k).or (if key a = k then some (val a) else none) := by
  unfold put
  cases hm : m (key a) with
  | some v =>
    by_cases hk : key a = k
    · subst hk; simp [hm]
    · simp [hk]
  | none =>
    by_cases hk : key a = k
    · subst hk; simp [hm]
    · simp [hk, Function.update_of_ne (Ne.symm hk)]

theorem run_apply (l : List A) (m : K → Option V) (k : K) :
    l.foldl (put key val) m k = (m k).or ((first key l k).map val) := by
  induction l generalizing m with
  | nil => simp [first]
  | cons a l ih =>
    rw [List.foldl_cons, ih, put_apply, Option.or_assoc]
    by_cases hk : key a = k <;> simp [first, hk]

theorem run_keeps (l : List A) (m : K → Option V) (k : K) (v : V) (h : m k = some v) :
    l.foldl (put key val) m k = some v := by rw [run_apply, h, Option.some_or]

theorem run_empty (l : List A) (k : K) :
    l.foldl (put key val) (fun _ => none) k = (first key l k).map val := by
  rw [run_apply, Option.none_or]

theorem first_mem {l : List A} {k : K} {a : A} (h : first key l k = some a) : a ∈ l ∧ key a = k :=
  ⟨List.mem_of_find?_eq_some h, by simpa using List.find?_some h⟩

theorem first_isSome {l : List A} {a : A} (h : a ∈ l) : ∃ b, first key l (key a) = some b := by
  apply Option.isSome_iff_exists.mp
  exact List.find?_isSome.mpr ⟨a, h, by simp⟩

theorem holds_iff (l : List A) (a : A) :
    l.foldl (put key val) (fun _ => none) (key a) = some (val a) ↔
      ∃ b, first key l (key a) = some b ∧ val b = val a := by
  rw [run_empty, Option.map_eq_some_iff]

theorem nothing_lost_iff (l : List A) :
    (∀ a ∈ l, l.foldl (put key val) (fun _ => none) (key a) = some (val a)) ↔
      ∀ a ∈ l, ∀ b ∈ l, key a = key b → val a = val b := by
  refine ⟨?_, ?_⟩
  · intro h a ha b hb hk
    have h1 := h a ha
    rw [hk, h b hb] at h1
    exact (Option.some.inj h1).symm
  · intro h a ha
    obtain ⟨b, hb⟩ := first_isSome key ha
    obtain ⟨hm, hk⟩ := first_mem key hb
    exact (holds_iff key val l a).mpr ⟨b, hb, (h a ha b hm hk.symm).symm⟩

end DumpDex.Core.FirstWins
