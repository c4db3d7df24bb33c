import Mathlib.Data.List.Induction

/-!
# Runs of an input-driven machine

A sequential component is a function `f : S → A → S`: the state before a
call, the call together with what its environment answered, the state after.
A run is a list of inputs, folded from a start state.

* `Always f P s l`: `P` holds in every state of the run, the first one
  included (`always_cons` peels one input off).
* `Meets f C s l`: every step of the run, taken from the state it is really
  taken in, satisfies `C`.
* `always_of_step`, `history_rule`: the invariant rules.
* `total_rule`, `partial_rule`: the invariant rules for steps that may fail.
* `trace_refines`: forward simulation, with what the machine answers.
* `meets_map`: a run of a machine that records more meets what its projection meets.
* `always_iff_meets`: if a step keeps `P` exactly when it satisfies `C`, then
  a run keeps `P` exactly when all its steps satisfy `C`. This turns a defect
  found at one step into the exact condition on whole runs.
-/
namespace DumpDex.Core.Runs

variable {S A : Type*}

/-- `P` holds in every state the run goes through. -/
def Always (f : S → A → S) (P : S → Prop) (s : S) (l : List A) : Prop :=
  ∀ pre, pre <+: l → P (pre.foldl f s)

/-- Every step of the run satisfies `C` in the state it is taken in. -/
def Meets (f : S → A → S) (C : S → A → Prop) : S → List A → Prop
  | _, [] => True
  | s, a :: l => C s a ∧ Meets f C (f s a) l

instance decidableMeets (f : S → A → S) (C : S → A → Prop) [∀ s a, Decidable (C s a)] :
    ∀ s l, Decidable (Meets f C s l)
  | _, [] => isTrue trivial
  | s, a :: l =>
    haveI := decidableMeets f C (f s a) l
    inferInstanceAs (Decidable (C s a ∧ Meets f C (f s a) l))

variable {f : S → A → S} {P I : S → Prop} {C Q : S → A → Prop}

@[simp] theorem meets_nil (s : S) : Meets f C s [] := trivial

@[simp] theorem meets_cons (s : S) (a : A) (l : List A) :
    Meets f C s (a :: l) ↔ C s a ∧ Meets f C (f s a) l := Iff.rfl

@[simp] theorem always_nil (s : S) : Always f P s [] ↔ P s := by
  refine ⟨fun h => h [] List.nil_prefix, fun h pre hp => ?_⟩
  rw [List.prefix_nil.mp hp]; exact h

theorem always_cons (s : S) (a : A) (l : List A) :
    Always f P s (a :: l) ↔ P s ∧ Always f P (f s a) l := by
  constructor
  · intro h
    refine ⟨h [] List.nil_prefix, fun pre hp => ?_⟩
    exact h (a :: pre) ((List.prefix_cons_inj a).mpr hp)
  · intro ⟨h0, h⟩ pre hp
    cases pre with
    | nil => exact h0
    | cons b pre =>
      obtain ⟨rfl, hp'⟩ := List.cons_prefix_cons.mp hp
      exact h pre hp'

theorem Always.start {s : S} {l : List A} (h : Always f P s l) : P s := h [] List.nil_prefix

theorem Always.last {s : S} {l : List A} (h : Always f P s l) : P (l.foldl f s) :=
  h l (List.prefix_refl l)

theorem meets_append (l₁ l₂ : List A) (s : S) :
    Meets f C s (l₁ ++ l₂) ↔ Meets f C s l₁ ∧ Meets f C (l₁.foldl f s) l₂ := by
  induction l₁ generalizing s with
  | nil => simp
  | cons a l ih => simp [ih, and_assoc]

theorem Meets.of_prefix {pre l : List A} {s : S} (h : Meets f C s l) (hp : pre <+: l) :
    Meets f C s pre := by
  obtain ⟨suf, rfl⟩ := hp
  exact ((meets_append pre suf s).mp h).1

/-- The step after a prefix of the run. -/
theorem Meets.at {pre l : List A} {a : A} {s : S} (h : Meets f C s l) (hp : pre ++ [a] <+: l) :
    C (pre.foldl f s) a := by
  obtain ⟨-, hc, -⟩ := (meets_append pre [a] s).mp (h.of_prefix hp)
  exact hc

/-- The invariant rule: what every step keeps holds in every state of every run. -/
theorem always_of_step (hstep : ∀ s a, I s → I (f s a)) (s : S) (l : List A) (hs : I s) :
    Always f I s l := by
  induction l generalizing s with
  | nil => exact (always_nil s).mpr hs
  | cons a l ih => exact (always_cons s a l).mpr ⟨hs, ih (f s a) (hstep s a hs)⟩

/-- The invariant rule with a history: `I` may speak of the inputs already
consumed. -/
theorem history_rule {I : List A → S → Prop}
    (hstep : ∀ h t a, I h t → C t a → I (h ++ [a]) (f t a)) (l h : List A) (s : S)
    (hs : I h s) (hm : Meets f C s l) : I (h ++ l) (l.foldl f s) := by
  induction l generalizing h s with
  | nil => simpa using hs
  | cons a l ih =>
    obtain ⟨hc, hl⟩ := hm
    have := ih (h ++ [a]) (f s a) (hstep h s a hs hc) hl
    simpa using this

/-- The invariant rule for steps that may fail: from states satisfying `I`
they do not, so no run does. -/
theorem total_rule {g : S → A → Option S} (hstep : ∀ s a, I s → ∃ s', g s a = some s' ∧ I s')
    (l : List A) (s : S) (hs : I s) : ∃ s', l.foldlM g s = some s' ∧ I s' := by
  induction l generalizing s with
  | nil => exact ⟨s, rfl, hs⟩
  | cons a l ih =>
    obtain ⟨s', h', hs'⟩ := hstep s a hs
    obtain ⟨s'', h'', hs''⟩ := ih s' hs'
    exact ⟨s'', by rw [List.foldlM_cons, h']; exact h'', hs''⟩

/-- Every step of the run, as far as it gets, satisfies `C`. -/
def MeetsM (g : S → A → Option S) (C : S → A → Prop) : S → List A → Prop
  | _, [] => True
  | s, a :: l => C s a ∧ ∀ s', g s a = some s' → MeetsM g C s' l

/-- The invariant rule for the runs of such a machine that get to their end. -/
theorem partial_rule {g : S → A → Option S}
    (hstep : ∀ s a s', I s → C s a → g s a = some s' → I s') {l : List A} {s s' : S} (hs : I s)
    (hm : MeetsM g C s l) (hr : l.foldlM g s = some s') : I s' := by
  induction l generalizing s with
  | nil => exact Option.some.inj hr ▸ hs
  | cons a l ih =>
    rw [List.foldlM_cons] at hr
    obtain ⟨t, ht, hr⟩ := Option.bind_eq_some_iff.mp hr
    exact ih (hstep s a t hs hm.1 ht) (hm.2 t ht) hr

theorem meetsM_true {g : S → A → Option S} (s : S) (l : List A) : MeetsM g (fun _ _ => True) s l := by
  induction l generalizing s with
  | nil => trivial
  | cons a l ih => exact ⟨trivial, fun s' _ => ih s'⟩

/-- A run of a machine that answers each input, and its answers. -/
def trace {O : Type*} (g : S → A → Option (O × S)) : S → List A → Option (List O × S)
  | s, [] => some ([], s)
  | s, a :: l => do
    let (o, s) ← g s a
    let (os, s) ← trace g s l
    return (o :: os, s)

/-- Forward simulation: whatever one machine answers the other does. -/
theorem trace_refines {O T : Type*} {g : S → A → Option (O × S)} {g' : T → A → Option (O × T)}
    {R : T → S → Prop}
    (hstep : ∀ t s a o s', R t s → g s a = some (o, s') → ∃ t', g' t a = some (o, t') ∧ R t' s')
    {l : List A} {t : T} {s s' : S} {os : List O} (hR : R t s) (h : trace g s l = some (os, s')) :
    ∃ t', trace g' t l = some (os, t') ∧ R t' s' := by
  induction l generalizing t s os with
  | nil =>
    cases h
    exact ⟨t, rfl, hR⟩
  | cons a l ih =>
    obtain ⟨⟨o, s1⟩, h1, h⟩ := Option.bind_eq_some_iff.mp h
    obtain ⟨⟨os', s2⟩, h2, h⟩ := Option.bind_eq_some_iff.mp h
    cases h
    obtain ⟨t1, ht1, hR1⟩ := hstep t s a o s1 hR h1
    obtain ⟨t2, ht2, hR2⟩ := ih hR1 h2
    refine ⟨t2, ?_, hR2⟩
    simp [trace, ht1, ht2]

/-- A condition on a projection of the state, for a machine whose steps are
`f`'s there. -/
theorem meets_map {T : Type*} {g : T → A → T} {φ : T → S} (h : ∀ t a, φ (g t a) = f (φ t) a)
    (t : T) (l : List A) : Meets g (fun t a => C (φ t) a) t l ↔ Meets f C (φ t) l := by
  induction l generalizing t with
  | nil => exact Iff.rfl
  | cons a l ih => rw [meets_cons, meets_cons, ih (g t a), h]

/-- Step by step the same: under an invariant the steps that satisfy `C`
keep, `Q` and `C` are interchangeable along runs. -/
theorem meets_congr (hstep : ∀ s a, I s → C s a → I (f s a)) (hqc : ∀ s a, I s → (Q s a ↔ C s a))
    (s : S) (l : List A) (hs : I s) : Meets f Q s l ↔ Meets f C s l := by
  induction l generalizing s with
  | nil => exact Iff.rfl
  | cons a l ih =>
    rw [meets_cons, meets_cons, hqc s a hs]
    refine and_congr_right fun hc => ?_
    exact ih (f s a) (hstep s a hs hc)

/-- **Exactness along runs.** If, from states satisfying `I`, a step keeps
`P` exactly when it satisfies `C`, a run stays in `P` exactly when all its
steps satisfy `C`. -/
theorem always_iff_meets (hI : ∀ s a, I s → I (f s a))
    (hstep : ∀ s a, I s → P s → (P (f s a) ↔ C s a)) (s : S) (l : List A) (hs : I s) (hp : P s) :
    Always f P s l ↔ Meets f C s l := by
  induction l generalizing s with
  | nil => simpa using hp
  | cons a l ih =>
    rw [always_cons, meets_cons]
    refine ⟨?_, ?_⟩
    · intro h
      have hp' := h.2.start
      exact ⟨(hstep s a hs hp).mp hp', (ih (f s a) (hI s a hs) hp').mp h.2⟩
    · intro h
      have hp' := (hstep s a hs hp).mpr h.1
      exact ⟨hp, (ih (f s a) (hI s a hs) hp').mpr h.2⟩

end DumpDex.Core.Runs
