import Mathlib.Logic.Function.Basic
import Mathlib.Data.List.Basic

/-!
# Backpatching

A program is written in one pass. A word may refer to a label, and what it is
then depends on the label's value. If that is not known yet, an unfinished
word is written and an entry made in the label's list of pending references;
once the value is known, the entries of the list are completed.

`Item` is what is to be written. `Filled` says that `out` and `pending` are
what the pass has got to after some items: `Filled.put`, `Filled.refer` and
`Filled.define` are its steps, and `Filled.out_eq` says that with no reference
left pending the pass has written what two passes write, the first of which
finds the values of all labels (`Item.resolve`).

The entry of a reference says where it stands (`pos`) and how the word is
completed (`fill`).
-/
namespace DumpDex.Core.Backpatch

inductive Item (W α : Type) where
  | word (w : W)
  | hole (w : W) (f : α) (label : Nat)

variable {W V α : Type} (pos : α → Nat) (fill : α → V → W → W)

def Item.resolve (val : Nat → V) : Item W α → W
  | .word w => w
  | .hole w f l => fill f (val l) w

/-- The references `fs` are completed. -/
def complete (v : V) (fs : List α) (out : List W) : List W :=
  fs.foldl (fun out f => out.modify (pos f) (fill f v)) out

structure Filled (val : Nat → V) (items : List (Item W α)) (out : List W)
    (pending : Nat → List α) : Prop where
  length : out.length = items.length
  done : ∀ (p : Nat) (it : Item W α), items[p]? = some it →
    out[p]? = some (it.resolve fill val) ∨ ∃ w f l, it = .hole w f l ∧ pos f = p ∧ f ∈ pending l
  pend : ∀ l, ∀ f ∈ pending l, ∃ w, items[pos f]? = some (.hole w f l) ∧ out[pos f]? = some w
  nodup : ∀ l, ((pending l).map pos).Nodup

variable {pos fill} {val : Nat → V} {items : List (Item W α)} {out : List W} {pending : Nat → List α}

@[simp] theorem length_complete (v : V) (fs : List α) :
    (complete pos fill v fs out).length = out.length := by
  induction fs generalizing out with
  | nil => rfl
  | cons f fs ih => simp only [complete, List.foldl_cons] at ih ⊢; simp [ih]

theorem complete_other (v : V) {fs : List α} {p : Nat} (h : ∀ f ∈ fs, pos f ≠ p) :
    (complete pos fill v fs out)[p]? = out[p]? := by
  induction fs generalizing out with
  | nil => rfl
  | cons f fs ih =>
    have hf : pos f ≠ p := h f List.mem_cons_self
    have ht : ∀ g ∈ fs, pos g ≠ p := fun g hg => h g (List.mem_cons_of_mem f hg)
    simp only [complete, List.foldl_cons] at ih ⊢
    rw [ih ht, List.getElem?_modify]
    simp [hf]

theorem complete_mem (v : V) {fs : List α} {f : α} (hf : f ∈ fs)
    (hn : (fs.map pos).Nodup) :
    (complete pos fill v fs out)[pos f]? = out[pos f]?.map (fill f v) := by
  induction fs generalizing out with
  | nil => cases hf
  | cons g fs ih =>
    obtain ⟨hg, hn⟩ := List.nodup_cons.mp (List.map_cons ▸ hn)
    rcases List.mem_cons.mp hf with rfl | hf
    · have ht : ∀ g ∈ fs, pos g ≠ pos f := by
        intro g hm e
        exact hg (e ▸ List.mem_map_of_mem hm)
      have := @complete_other _ _ _ pos fill (out.modify (pos f) (fill f v)) v fs (pos f) ht
      simp only [complete, List.foldl_cons] at this ⊢
      rw [this, List.getElem?_modify]
      simp
    · have hne : pos g ≠ pos f := fun e => hg (e ▸ List.mem_map_of_mem hf)
      simp only [complete, List.foldl_cons] at ih ⊢
      rw [ih hf hn, List.getElem?_modify]
      simp [hne]

namespace Filled

theorem nil : Filled pos fill val [] [] (fun _ => []) where
  length := rfl
  done := by simp
  pend := by simp
  nodup := by simp

/-- A word is written with all it refers to known. -/
theorem put (h : Filled pos fill val items out pending) (it : Item W α) :
    Filled pos fill val (items ++ [it]) (out ++ [it.resolve fill val]) pending where
  length := by simp [h.length]
  done := by
    intro p i hi
    by_cases hp : p < items.length
    · rw [List.getElem?_append_left hp] at hi
      rw [List.getElem?_append_left (h.length ▸ hp)]
      exact h.done p i hi
    · left
      have e : p = items.length := by
        have := (List.getElem?_eq_some_iff.mp hi).1
        simp only [List.length_append, List.length_singleton] at this
        omega
      subst e
      simp only [List.getElem?_concat_length, Option.some.injEq] at hi
      rw [← h.length, List.getElem?_concat_length, hi]
  pend := by
    intro l f hf
    obtain ⟨w, hi, ho⟩ := h.pend l f hf
    have h1 := (List.getElem?_eq_some_iff.mp hi).1
    refine ⟨w, ?_, ?_⟩
    · rw [List.getElem?_append_left h1, hi]
    · rw [List.getElem?_append_left (h.length ▸ h1), ho]
  nodup := h.nodup

theorem puts (h : Filled pos fill val items out pending) (its : List (Item W α)) :
    Filled pos fill val (items ++ its) (out ++ its.map (Item.resolve fill val)) pending := by
  induction its generalizing items out with
  | nil => simpa using h
  | cons i its ih => simpa using ih (h.put i)

/-- A word is written unfinished and entered with its label. -/
theorem refer (h : Filled pos fill val items out pending) (w : W) (f : α) (l : Nat)
    (hp : pos f = out.length) :
    Filled pos fill val (items ++ [.hole w f l]) (out ++ [w])
      (Function.update pending l (pending l ++ [f])) where
  length := by simp [h.length]
  done := by
    intro p i hi
    by_cases hlt : p < items.length
    · rw [List.getElem?_append_left hlt] at hi
      rw [List.getElem?_append_left (h.length ▸ hlt)]
      refine (h.done p i hi).imp_right ?_
      rintro ⟨u, g, k, rfl, hg, hm⟩
      refine ⟨u, g, k, rfl, hg, ?_⟩
      by_cases hk : k = l
      · subst hk; simp [hm]
      · simpa [hk] using hm
    · right
      have e : p = items.length := by
        have := (List.getElem?_eq_some_iff.mp hi).1
        simp only [List.length_append, List.length_singleton] at this
        omega
      subst e
      simp only [List.getElem?_concat_length, Option.some.injEq] at hi
      exact ⟨w, f, l, hi.symm, hp.trans h.length, by simp⟩
  pend := by
    intro k g hg
    have old : g ∈ pending k → ∃ u, (items ++ [Item.hole w f l])[pos g]? = some (.hole u g k) ∧
        (out ++ [w])[pos g]? = some u := by
      intro hg
      obtain ⟨u, hi, ho⟩ := h.pend k g hg
      have h1 := (List.getElem?_eq_some_iff.mp hi).1
      refine ⟨u, ?_, ?_⟩
      · rw [List.getElem?_append_left h1, hi]
      · rw [List.getElem?_append_left (h.length ▸ h1), ho]
    by_cases hk : k = l
    · subst hk
      simp only [Function.update_self, List.mem_append, List.mem_singleton] at hg
      rcases hg with hg | rfl
      · exact old hg
      · exact ⟨w, by rw [hp, h.length]; simp, by rw [hp]; simp⟩
    · exact old (by simpa [hk] using hg)
  nodup := by
    intro k
    by_cases hk : k = l
    · subst hk
      rw [Function.update_self, List.map_append]
      refine List.nodup_append.mpr ⟨h.nodup k, by simp, ?_⟩
      intro p hp' q hq e
      rw [List.map_singleton, List.mem_singleton] at hq
      obtain ⟨g, hg, rfl⟩ := List.mem_map.mp hp'
      obtain ⟨u, -, ho⟩ := h.pend k g hg
      have := (List.getElem?_eq_some_iff.mp ho).1
      omega
    · simpa [hk] using h.nodup k

/-- The references to a label are completed. -/
theorem define (h : Filled pos fill val items out pending) (l : Nat) :
    Filled pos fill val items (complete pos fill (val l) (pending l) out)
      (Function.update pending l []) where
  length := by simp [h.length]
  done := by
    intro p i hi
    rcases h.done p i hi with ho | ⟨w, f, k, rfl, rfl, hf⟩
    · by_cases hm : ∃ f ∈ pending l, pos f = p
      · obtain ⟨f, hf, rfl⟩ := hm
        left
        obtain ⟨w, hi', ho'⟩ := h.pend l f hf
        rw [hi] at hi'
        cases hi'
        rw [complete_mem _ hf (h.nodup l), ho']
        rfl
      · left
        rw [complete_other _ fun f hf e => hm ⟨f, hf, e⟩, ho]
    · by_cases hk : k = l
      · subst hk
        left
        obtain ⟨u, hi', ho⟩ := h.pend k f hf
        rw [hi] at hi'
        cases hi'
        rw [complete_mem _ hf (h.nodup k), ho]
        rfl
      · right
        exact ⟨w, f, k, rfl, rfl, by simpa [hk] using hf⟩
  pend := by
    intro k f hf
    by_cases hk : k = l
    · subst hk; simp at hf
    · rw [Function.update_of_ne hk] at hf
      obtain ⟨w, hi, ho⟩ := h.pend k f hf
      refine ⟨w, hi, ?_⟩
      rw [complete_other _ ?_, ho]
      intro g hg e
      obtain ⟨u, hi', -⟩ := h.pend l g hg
      rw [e, hi] at hi'
      simp only [Option.some.injEq, Item.hole.injEq] at hi'
      exact hk hi'.2.2
  nodup := by
    intro k
    by_cases hk : k = l
    · subst hk; simp
    · simpa [hk] using h.nodup k

theorem out_eq (h : Filled pos fill val items out pending) (hn : ∀ l, pending l = []) :
    out = items.map (Item.resolve fill val) := by
  refine List.ext_getElem? fun p => ?_
  rw [List.getElem?_map]
  cases hi : items[p]? with
  | none =>
    rw [List.getElem?_eq_none_iff] at hi
    exact List.getElem?_eq_none (h.length ▸ hi)
  | some i =>
    rcases h.done p i hi with ho | ⟨w, f, l, -, -, hf⟩
    · exact ho
    · rw [hn l] at hf; cases hf

end Filled

end DumpDex.Core.Backpatch
