import Mathlib.Algebra.Group.Nat.Defs
import Mathlib.Data.List.Forall2
import Mathlib.Data.List.Basic

/-!
# Arguments at a C call

A callee reads its parameters by position, whatever its caller passed.
`enter args junk` is what stands at the positions of a callee called with
`args`: past them, arbitrary words. A parameter of `k` bits is read by
dropping the other bits of its word (`narrow`).

A forwarder reads the parameters it declares and passes them on in order
(`forwarded`). `delivers_forwarded_iff`: a tuple arrives whole, whatever
stands past either call's arguments, exactly when the declaration is as long
as the tuple and no declared parameter is narrower than its argument.
-/
namespace DumpDex.Core.CCall

variable {w : Nat}

/-- The words at a callee's argument positions. -/
abbrev Frame (w : Nat) := Nat → BitVec w

def enter (args : List (BitVec w)) (junk : Frame w) : Frame w := fun i => args[i]?.getD (junk i)

/-- Reading `k` bits of a word. -/
def narrow (k : Nat) (x : BitVec w) : BitVec w := (x.setWidth k).setWidth w

@[simp] theorem narrow_word (x : BitVec w) : narrow w x = x := by simp [narrow]

/-- What a forwarder with parameters of these widths passes on. -/
def forwarded (widths : List Nat) (f : Frame w) : List (BitVec w) :=
  widths.mapIdx fun i k => narrow k (f i)

/-- A tuple of values of these widths. -/
def FitsAll (widths : List Nat) (args : List (BitVec w)) : Prop :=
  List.Forall₂ (fun k x => x.toNat < 2 ^ k) widths args

/-- A callee that was passed `passed` finds every one of `args` at its position. -/
def Delivers (args passed : List (BitVec w)) (rest : Frame w) : Prop :=
  ∀ i x, args[i]? = some x → enter passed rest i = x

instance (widths : List Nat) (args : List (BitVec w)) : Decidable (FitsAll widths args) :=
  inferInstanceAs (Decidable (List.Forall₂ (fun k (x : BitVec w) => x.toNat < 2 ^ k) widths args))

theorem enter_of_some {args : List (BitVec w)} {junk : Frame w} {i : Nat} {x : BitVec w}
    (h : args[i]? = some x) : enter args junk i = x := by simp [enter, h]

theorem enter_of_none {args : List (BitVec w)} {junk : Frame w} {i : Nat}
    (h : args[i]? = none) : enter args junk i = junk i := by simp [enter, h]

@[simp] theorem forwarded_length (widths : List Nat) (f : Frame w) :
    (forwarded widths f).length = widths.length := by simp [forwarded]

theorem forwarded_of_some {widths : List Nat} {f : Frame w} {i k : Nat} (h : widths[i]? = some k) :
    (forwarded widths f)[i]? = some (narrow k (f i)) := by simp [forwarded, h]

theorem narrow_eq_iff {k : Nat} {x : BitVec w} : narrow k x = x ↔ x.toNat < 2 ^ k := by
  have hx := x.isLt
  rw [← BitVec.toNat_inj, narrow, BitVec.toNat_setWidth, BitVec.toNat_setWidth]
  have hle : x.toNat % 2 ^ k ≤ x.toNat := Nat.mod_le _ _
  rw [Nat.mod_eq_of_lt (a := x.toNat % 2 ^ k) (by omega)]
  refine ⟨fun h => ?_, Nat.mod_eq_of_lt⟩
  rw [← h]
  exact Nat.mod_lt _ (Nat.two_pow_pos k)

theorem FitsAll.length_eq {widths : List Nat} {args : List (BitVec w)} (h : FitsAll widths args) :
    widths.length = args.length := List.Forall₂.length_eq h

theorem FitsAll.at {widths : List Nat} {args : List (BitVec w)} (h : FitsAll widths args)
    {i k : Nat} {x : BitVec w} (hk : widths[i]? = some k) (hx : args[i]? = some x) :
    x.toNat < 2 ^ k := by
  obtain ⟨hi, rfl⟩ := List.getElem?_eq_some_iff.mp hk
  obtain ⟨hj, rfl⟩ := List.getElem?_eq_some_iff.mp hx
  exact (List.forall₂_iff_get.mp h).2 i hi hj

theorem exists_ne (hw : 0 < w) (x : BitVec w) : ∃ y, y ≠ x := by
  refine ⟨~~~ x, fun h => ?_⟩
  have := congrArg (fun b => b.getLsbD 0) h
  simp [hw] at this

/-- A tuple longer than what is passed does not arrive: past `passed` the
callee finds an arbitrary word. -/
theorem not_delivers_of_short (hw : 0 < w) {args passed : List (BitVec w)}
    (h : passed.length < args.length) : ∃ rest : Frame w, ¬ Delivers args passed rest := by
  obtain ⟨y, hy⟩ := exists_ne hw args[passed.length]
  refine ⟨fun _ => y, fun hd => hy ?_⟩
  have := hd passed.length _ (List.getElem?_eq_getElem h)
  rwa [enter_of_none (by simp)] at this

theorem delivers_forwarded_iff (hw : 0 < w) (args : List (BitVec w)) (widths : List Nat) :
    (∀ junk rest, Delivers args (forwarded widths (enter args junk)) rest) ↔
      args.length ≤ widths.length ∧
        ∀ (i k : Nat) (x : BitVec w), widths[i]? = some k → args[i]? = some x →
          x.toNat < 2 ^ k := by
  constructor
  · intro h
    refine ⟨?_, fun i k x hk hx => ?_⟩
    · by_contra hlen
      obtain ⟨rest, hr⟩ : ∃ rest, ¬ Delivers args (forwarded widths (enter args fun _ => 0)) rest :=
        not_delivers_of_short hw (by simpa using hlen)
      exact hr (h _ rest)
    · have := h (fun _ => 0) (fun _ => 0) i x hx
      rw [enter_of_some (forwarded_of_some hk), enter_of_some hx] at this
      exact narrow_eq_iff.mp this
  · intro ⟨hlen, hfit⟩ junk rest i x hx
    obtain ⟨hi, -⟩ := List.getElem?_eq_some_iff.mp hx
    have hk : widths[i]? = some widths[i] := List.getElem?_eq_getElem (by omega)
    rw [enter_of_some (forwarded_of_some hk), enter_of_some hx]
    exact narrow_eq_iff.mpr (hfit i _ x hk hx)

/-- A forwarder that declares the tuple's own widths delivers it. -/
theorem delivers_of_fits (hw : 0 < w) {widths : List Nat} {args : List (BitVec w)}
    (h : FitsAll widths args) (junk rest : Frame w) :
    Delivers args (forwarded widths (enter args junk)) rest :=
  (delivers_forwarded_iff hw args widths).mpr
    ⟨Nat.le_of_eq h.length_eq.symm, fun _ _ _ hk hx => h.at hk hx⟩ junk rest

end DumpDex.Core.CCall
