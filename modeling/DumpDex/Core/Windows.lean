import Mathlib.Data.Set.BooleanAlgebra
import Mathlib.Data.Set.Function
import Mathlib.Data.Set.Pairwise.Basic
import Mathlib.Order.CompletePartialOrder

/-!
# Windows onto a memory

A table of windows, each a region of a memory. What the region holds is saved
when the window enters the table; while it is there something else may be
shown in its place; when it leaves, what was saved is put back. The entries of
the table are the `live` ones of a family, so that a table may be an array
with unused places.

`Shows plain live w m`: the memory `m` is `plain` but for the windows that are
shown.

* `Shows.enter`, `Shows.replace`, `Shows.leave`: what the three operations keep.
* `Shows.rename`: the entries may be moved about.
* `Shows.all_hidden`: with no window shown the memory is as it was, whatever
  came before.
-/
namespace DumpDex.Core.Windows

variable {A B ι κ : Type*}

structure Window (A B : Type*) where
  region : Set A
  saved : A → B
  new : A → B
  shown : Bool

structure Shows (plain : A → B) (live : Set ι) (w : ι → Window A B) (m : A → B) : Prop where
  apart : live.Pairwise fun i j => Disjoint (w i).region (w j).region
  saved : ∀ i ∈ live, ∀ x ∈ (w i).region, (w i).saved x = plain x
  inside : ∀ i ∈ live, (w i).shown → ∀ x ∈ (w i).region, m x = (w i).new x
  outside : ∀ x, (∀ i ∈ live, (w i).shown → x ∉ (w i).region) → m x = plain x

variable {plain : A → B} {live : Set ι} {w : ι → Window A B} {m m' : A → B}

theorem Shows.empty : Shows plain ∅ w plain where
  apart := Set.pairwise_empty _
  saved := fun _ h => h.elim
  inside := fun _ h => h.elim
  outside := fun _ _ => rfl

/-- Where a window lies that is not shown, the memory is as it was. -/
theorem Shows.hidden (h : Shows plain live w m) {i : ι} (hi : i ∈ live) (hs : ¬ (w i).shown) {x : A}
    (hx : x ∈ (w i).region) : m x = plain x := by
  refine h.outside x fun j hj hsj hxj => ?_
  by_cases e : i = j
  · exact hs (e ▸ hsj)
  · exact Set.disjoint_left.mp (h.apart hi hj e) hx hxj

theorem Shows.all_hidden (h : Shows plain live w m) (hs : ∀ i ∈ live, ¬ (w i).shown) : m = plain :=
  funext fun x => h.outside x fun i hi hsi => absurd hsi (hs i hi)

/-- A family that is the same on the table's entries. -/
theorem Shows.congr {w' : ι → Window A B} (h : Shows plain live w m) (he : ∀ i ∈ live, w' i = w i) :
    Shows plain live w' m where
  apart := by
    intro i hi j hj hij
    have := h.apart hi hj hij
    rwa [he i hi, he j hj]
  saved := fun i hi => by rw [he i hi]; exact h.saved i hi
  inside := fun i hi => by rw [he i hi]; exact h.inside i hi
  outside := fun x hx => h.outside x fun i hi => by rw [← he i hi]; exact hx i hi

theorem Shows.enter (h : Shows plain live w m) {i : ι} (hs : ¬ (w i).shown)
    (hsaved : ∀ x ∈ (w i).region, (w i).saved x = m x)
    (hapart : ∀ j ∈ live, Disjoint (w i).region (w j).region) : Shows plain (insert i live) w m where
  apart := by
    refine h.apart.insert fun j hj _ => ⟨hapart j hj, (hapart j hj).symm⟩
  saved := by
    intro j hj x hx
    rcases hj with rfl | hj
    · rw [hsaved x hx]
      exact h.outside x fun k hk _ hxk => Set.disjoint_left.mp (hapart k hk) hx hxk
    · exact h.saved j hj x hx
  inside := by
    intro j hj hsj
    rcases hj with rfl | hj
    · exact absurd hsj hs
    · exact h.inside j hj hsj
  outside := fun x hx => h.outside x fun j hj => hx j (Set.mem_insert_of_mem i hj)

/-- Window `i` is shown from now on. -/
theorem Shows.replace {w' : ι → Window A B} (h : Shows plain live w m) {i : ι} (hi : i ∈ live)
    (hnow : w' i = { w i with shown := true }) (hrest : ∀ j, j ≠ i → w' j = w j)
    (hin : ∀ x ∈ (w i).region, m' x = (w i).new x) (hout : ∀ x ∉ (w i).region, m' x = m x) :
    Shows plain live w' m' := by
  have hregion : ∀ j, (w' j).region = (w j).region ∧ (w' j).saved = (w j).saved ∧ (w' j).new = (w j).new := by
    intro j
    by_cases e : j = i
    · subst e
      rw [hnow]
      exact ⟨rfl, rfl, rfl⟩
    · rw [hrest j e]
      exact ⟨rfl, rfl, rfl⟩
  refine ⟨?_, ?_, ?_, ?_⟩
  · intro j hj k hk hjk
    have := h.apart hj hk hjk
    rwa [(hregion j).1, (hregion k).1]
  · intro j hj x hx
    rw [(hregion j).1] at hx
    rw [(hregion j).2.1]
    exact h.saved j hj x hx
  · intro j hj hsj x hx
    rw [(hregion j).1] at hx
    rw [(hregion j).2.2]
    by_cases e : j = i
    · subst e
      exact hin x hx
    · rw [hout x fun hxi => Set.disjoint_left.mp (h.apart hj hi e) hx hxi]
      exact h.inside j hj (hrest j e ▸ hsj) x hx
  · intro x hx
    have hxi : x ∉ (w i).region := (hregion i).1 ▸ hx i hi (by rw [hnow])
    rw [hout x hxi]
    refine h.outside x fun j hj hsj => ?_
    by_cases e : j = i
    · exact e ▸ hxi
    · exact (hregion j).1 ▸ hx j hj (by rw [hrest j e]; exact hsj)

/-- Window `i` leaves, and what was saved is put back. -/
theorem Shows.leave (h : Shows plain live w m) {i : ι} (hi : i ∈ live)
    (hin : ∀ x ∈ (w i).region, m' x = (w i).saved x) (hout : ∀ x ∉ (w i).region, m' x = m x) :
    Shows plain (live \ {i}) w m' where
  apart := h.apart.mono Set.sdiff_subset
  saved := fun j hj => h.saved j hj.1
  inside := by
    intro j hj hsj x hx
    rw [hout x fun hxi => Set.disjoint_left.mp (h.apart hj.1 hi hj.2) hx hxi]
    exact h.inside j hj.1 hsj x hx
  outside := by
    intro x hx
    by_cases hxi : x ∈ (w i).region
    · rw [hin x hxi]
      exact h.saved i hi x hxi
    · rw [hout x hxi]
      refine h.outside x fun j hj hsj => ?_
      by_cases e : j = i
      · exact e ▸ hxi
      · exact hx j ⟨hj, e⟩ hsj

/-- The entries are moved about. -/
theorem Shows.rename (h : Shows plain live w m) {σ : κ → ι} {live' : Set κ} (hσ : Set.BijOn σ live' live) :
    Shows plain live' (w ∘ σ) m where
  apart := fun i hi j hj hij =>
    h.apart (hσ.mapsTo hi) (hσ.mapsTo hj) fun e => hij (hσ.injOn hi hj e)
  saved := fun i hi => h.saved (σ i) (hσ.mapsTo hi)
  inside := fun i hi => h.inside (σ i) (hσ.mapsTo hi)
  outside := by
    intro x hx
    refine h.outside x fun i hi hsi => ?_
    obtain ⟨j, hj, rfl⟩ := hσ.surjOn hi
    exact hx j hj hsi

end DumpDex.Core.Windows
