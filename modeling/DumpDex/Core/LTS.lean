import Mathlib.Logic.Relation
import Mathlib.Logic.Function.Basic

/-!
# Labelled transition systems and interleaved threads

`LTS` is a transition system with labels; `Reachable` its reachable states
and `Inductive` an invariant with the two obligations that make it hold in
all of them.

`Threads` is a family of threads over one shared store, indexed by any type
(any number of threads). `Threads.lts` interleaves their atomic steps: a step
of the composition is a step of one thread, which sees the shared store and
its own local state and changes only these.

`Threads.Outline` is the proof outline of Owicki and Gries for it: a global
invariant, and for each thread an assertion about the store and its own local
state. A step has to keep the invariant, establish the stepping thread's
assertion (`own`) and leave every other thread's assertion true (`noninterference`).
`Outline.reachable` then gives all of them in every reachable state.
-/
namespace DumpDex.Core

variable {S L : Type*}

structure LTS (S L : Type*) where
  init : S → Prop
  step : S → L → S → Prop

namespace LTS

/-- Some step leads from `s` to `s'`. -/
def Moves (M : LTS S L) (s s' : S) : Prop := ∃ l, M.step s l s'

def Reachable (M : LTS S L) (s : S) : Prop :=
  ∃ s₀, M.init s₀ ∧ Relation.ReflTransGen M.Moves s₀ s

theorem Reachable.start {M : LTS S L} {s : S} (h : M.init s) : M.Reachable s :=
  ⟨s, h, .refl⟩

theorem Reachable.next {M : LTS S L} {s s' : S} {l : L} (h : M.Reachable s)
    (hs : M.step s l s') : M.Reachable s' := by
  obtain ⟨s₀, h0, hr⟩ := h
  exact ⟨s₀, h0, hr.tail ⟨l, hs⟩⟩

/-- An invariant: true at the start, kept by every step. -/
structure Inductive (M : LTS S L) (I : S → Prop) : Prop where
  init : ∀ s, M.init s → I s
  step : ∀ s l s', I s → M.step s l s' → I s'

theorem Inductive.reachable {M : LTS S L} {I : S → Prop} (hI : M.Inductive I) (s : S)
    (h : M.Reachable s) : I s := by
  obtain ⟨s₀, h0, hr⟩ := h
  induction hr with
  | refl => exact hI.init s₀ h0
  | tail _ hm ih =>
    obtain ⟨l, hl⟩ := hm
    exact hI.step _ l _ ih hl

end LTS

/-! ## Threads over a shared store -/

variable {ι T : Type*}

/-- `start i` is thread `i`'s first local state; `step i s t s' t'` one of its
atomic steps. -/
structure Threads (ι S T : Type*) where
  store : S
  start : ι → T
  step : ι → S → T → S → T → Prop

namespace Threads

variable [DecidableEq ι]

/-- The interleaving: one thread steps, the others' local states stay. -/
def lts (M : Threads ι S T) : LTS (S × (ι → T)) ι where
  init s := s = (M.store, M.start)
  step s i s' := M.step i s.1 (s.2 i) s'.1 (s'.2 i) ∧ s'.2 = Function.update s.2 i (s'.2 i)

/-- A proof outline for `M`: `inv` is about the whole state, `at_ i` about the
store and thread `i`'s own local state. -/
structure Outline (M : Threads ι S T) (inv : S → (ι → T) → Prop) (at_ : ι → S → T → Prop) :
    Prop where
  start_inv : inv M.store M.start
  start_at : ∀ i, at_ i M.store (M.start i)
  keeps : ∀ i s t s' x, inv s t → at_ i s (t i) → M.step i s (t i) s' x →
    inv s' (Function.update t i x)
  own : ∀ i s t s' x, inv s t → at_ i s (t i) → M.step i s (t i) s' x → at_ i s' x
  noninterference : ∀ i j s t s' x, j ≠ i → inv s t → at_ j s (t j) →
    M.step i s (t i) s' x → at_ j s' (t j)

theorem Outline.inductive {M : Threads ι S T} {inv : S → (ι → T) → Prop} {at_ : ι → S → T → Prop}
    (o : M.Outline inv at_) : M.lts.Inductive fun s => inv s.1 s.2 ∧ ∀ i, at_ i s.1 (s.2 i) where
  init := by rintro s rfl; exact ⟨o.start_inv, o.start_at⟩
  step := by
    intro ⟨s, t⟩ i ⟨s', t'⟩ ⟨hinv, hat⟩ ⟨hs, ht⟩
    simp only at hs ht hinv hat ⊢
    refine ⟨by rw [ht]; exact o.keeps i s t s' _ hinv (hat i) hs, fun j => ?_⟩
    by_cases hj : j = i
    · subst hj; exact o.own j s t s' _ hinv (hat j) hs
    · have e : t' j = t j := by rw [ht, Function.update_of_ne hj]
      rw [e]
      exact o.noninterference i j s t s' _ hj hinv (hat j) hs

theorem Outline.reachable {M : Threads ι S T} {inv : S → (ι → T) → Prop}
    {at_ : ι → S → T → Prop} (o : M.Outline inv at_) (s : S × (ι → T)) (h : M.lts.Reachable s) :
    inv s.1 s.2 ∧ ∀ i, at_ i s.1 (s.2 i) := o.inductive.reachable s h

end Threads

end DumpDex.Core
