import Mathlib.Logic.Relation

/-!
# Straight-line code in two places

An instruction's effect is what it does to the registers and where it goes,
`none` to the instruction behind it. Some instructions in a row are gone
`through` until one of them goes elsewhere. In another place each of them may
be a block of other instructions; `Laid` says that the blocks stand one behind
the other and each does what its instruction did.

* `Laid.run`: then all of them together do what the instructions did.
* `Laid.goto`: so too with a jump behind the last.
-/
namespace DumpDex.Core.Straight

variable {R A : Type*}

abbrev Effect (R A : Type*) := R → R × Option A

def through : List (Effect R A) → Effect R A
  | [], r => (r, none)
  | e :: es, r =>
    match (e r).2 with
    | none => through es (e r).1
    | some a => ((e r).1, some a)

variable (step : R × A → R × A → Prop)

/-- From `a` on the code does what `e` does, and then goes on at `b`. -/
def Does (a : A) (e : Effect R A) (b : A) : Prop :=
  ∀ r, Relation.ReflTransGen step (r, a) ((e r).1, (e r).2.getD b)

/-- From `a` on there is a block for each of the effects, up to `b`. -/
inductive Laid : A → List (Effect R A) → A → Prop where
  | nil (a : A) : Laid a [] a
  | cons {a b c : A} {e : Effect R A} {es : List (Effect R A)} (h : Does step a e b) (hl : Laid b es c) :
      Laid a (e :: es) c

variable {step}

theorem Laid.run {a b : A} {es : List (Effect R A)} (h : Laid step a es b) : Does step a (through es) b := by
  induction h with
  | nil a => exact fun r => .refl
  | @cons a b c e es h hl ih =>
    intro r
    have hr := h r
    simp only [through]
    cases he : (e r).2 with
    | none =>
      rw [he] at hr
      exact hr.trans (ih _)
    | some x =>
      rw [he] at hr
      exact hr

/-- What does nothing but go to `c`. -/
theorem Laid.goto {a b c : A} {es : List (Effect R A)} (h : Laid step a es b)
    (hb : ∀ r, Relation.ReflTransGen step (r, b) (r, c)) : Does step a (through es) c := by
  intro r
  have hr := h.run r
  cases he : (through es r).2 with
  | none =>
    rw [he] at hr
    exact hr.trans (hb _)
  | some x =>
    rw [he] at hr
    exact hr

end DumpDex.Core.Straight
