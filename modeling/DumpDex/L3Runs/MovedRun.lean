import DumpDex.L3Runs.MovedCode

/-!
# Runs through the moved instructions

`Hosted` is a text in which the pass has filled the slot and which otherwise
is as before, the moved instructions themselves apart: these are overwritten.

* `round`: the original takes a step, the slot some, and both are again at the
  same place.
* `run_from`: so it is for as long as the original is at one of the moved
  instructions, from whichever of them it starts.
-/
namespace DumpDex.L3.MovedRun
open DumpDex.Core DumpDex.Core.A64 DumpDex.L2.FixInstructions
open DumpDex.L3.MovedLayout DumpDex.L3.MovedCode

structure Hosted (j : Job) (text : Text) : Prop where
  slot : At text j.slot (fixInstructions j).out
  elsewhere : Elsewhere j text

structure Relocatable (j : Job) : Prop where
  fits : Fits j
  movable : ∀ k < j.count, Movable j (j.base + 4 * k) (decode (j.text (j.base + 4 * k)))
  exit : ∀ a, InSlot j a → a % 4 = 0 → Reach (2 ^ 27) (j.endp - a)

variable {plain : Insn → Regs → Regs} {j : Job} {text : Text}

/-- A step of the instructions where they were, what they put into registers
being where the moved ones are. -/
def original (plain : Insn → Regs → Regs) (j : Job) : State → State :=
  step plain j.text (retAddr j) (codeAddr j)

/-- At one of the moved instructions. -/
def Inside (j : Job) (s : State) : Prop := ∃ k : Nat, k < j.count ∧ s.2 = j.base + 4 * k

/-- For `n` steps the original is at moved instructions, and does not go back
to one of them by an indirect branch. -/
def Stays (plain : Insn → Regs → Regs) (j : Job) (s : State) (n : Nat) : Prop :=
  ∀ m < n, let t := (original plain j)^[m] s
    Inside j t ∧ Leaves j t.1 (decode (j.text t.2))

/-- The original is at `s`, the slot at `s'`. -/
def Rel (j : Job) (s s' : State) : Prop :=
  s'.2 = place j s.2 ∧ (s'.1 = s.1 ∨ isInFixingRange j s.2 = false ∧ Regs.Off17 s.1 s'.1)

theorem code_at {k n : Nat} (hk : k < n) (h : At text j.slot (code j n)) :
    At text (start j k) (List.replicate (blk j k).pad nop ++ (blk j k).words (entry j) (entry j k)) := by
  induction n with
  | zero => cases hk
  | succ n ih =>
    rcases Nat.lt_succ_iff_lt_or_eq.mp hk with hlt | rfl
    · exact ih hlt (At.left h)
    · rw [code_start]
      exact At.right h

theorem inRange_at {k : Nat} (hk : k < j.count) : isInFixingRange j (j.base + 4 * k) = true := by
  rw [inRange_iff, Job.endp]
  omega

theorem endp_out : isInFixingRange j j.endp = false := by
  rw [← Bool.not_eq_true, inRange_iff]
  omega

/-- NOPs and a far jump, or a single branch. -/
theorem exitBlock_steps {t a : Int} (h : -2 ^ 63 ≤ t) (h' : t < 2 ^ 63) (h4 : (t - a) % 4 = 0)
    (hreach : Reach (2 ^ 27) (t - a)) (r : Regs) {e : Nat → Int} {b : Int}
    (hat : At text a (List.replicate (exitBlock t a).pad nop ++ (exitBlock t a).words e b)) :
    ∃ r', Steps plain text (r, a) (r', t) ∧ (r' = r ∨ Regs.Off17 r r') := by
  unfold Reach at hreach
  rw [exitBlock] at hat
  split at hat
  · have hn : Steps plain text (r, a) _ := nops_steps (At.left hat)
    have hj := At.right hat
    rw [List.length_replicate] at hj
    exact ⟨_, hn.trans (farJump_steps h h' hj), .inr ⟨_, rfl⟩⟩
  · have hw : At text a [link (branchOp false) 0 0x03ffffff (t - a)] := hat
    have hs : Steps plain text (r, a) _ :=
      Steps.at hw (decode_branch_near h4 (by omega) (by omega))
    have e : a + (t - a) = t := by omega
    simp only [Bool.false_eq_true, if_false, exec, e] at hs
    exact ⟨r, hs, .inl rfl⟩

section Hosted
variable (hr : Relocatable j) (ht : Hosted j text)
include hr ht

theorem hosted_code :
    At text j.slot (code j j.count) ∧ At text (start j j.count)
      (List.replicate (exit j).pad nop ++ (exit j).words (entry j) 0) := by
  have hfew := hr.fits.few
  have h := ht.slot
  rw [fixInstructions_out hr.fits.base_al hr.fits.slot_al (by omega)] at h
  refine ⟨At.left h, ?_⟩
  rw [code_start]
  exact At.right h

/-- From the NOPs before an instruction to the instruction. -/
theorem to_entry {k : Nat} (hk : k < j.count) (r : Regs) :
    Steps plain text (r, start j k) (r, entry j k) :=
  nops_steps (At.left (code_at hk (hosted_code hr ht).1))

theorem at_entry {k : Nat} (hk : k < j.count) :
    At text (entry j k) ((blk j k).words (entry j) (entry j k)) := by
  have h := At.right (code_at hk (hosted_code hr ht).1)
  rw [List.length_replicate] at h
  exact h

/-- The jump behind the moved instructions. -/
theorem exit_steps (r : Regs) :
    ∃ r', Steps plain text (r, start j j.count) (r', j.endp) ∧ (r' = r ∨ Regs.Off17 r r') := by
  have h0 := @start_le j j.count
  have h4 := start_aligned hr.fits.slot_al j.count
  have hfew := hr.fits.few
  have hlo := hr.fits.base_lo
  have hhi := hr.fits.base_hi
  have hal := hr.fits.base_al
  have hend : j.endp = j.base + 4 * j.count := rfl
  have hreach := hr.exit (start j j.count) ⟨h0.1, by omega⟩ h4
  exact exitBlock_steps (by omega) (by omega) (by omega) hreach r (hosted_code hr ht).2

/-- From the NOPs before an instruction, or from the jump behind the last. -/
theorem enter {k : Nat} (hk : k ≤ j.count) (r : Regs) :
    ∃ s', Steps plain text (r, start j k) s' ∧ Rel j (r, j.base + 4 * k) s' := by
  rcases Nat.lt_or_eq_of_le hk with hlt | rfl
  · refine ⟨_, to_entry hr ht hlt r, ?_, .inl rfl⟩
    rw [place_in (inRange_at hlt), idx_eq]
  · obtain ⟨r', hs, h⟩ := @exit_steps plain j text hr ht r
    have hend : j.base + 4 * (j.count : Int) = j.endp := rfl
    refine ⟨_, hs, ?_, ?_⟩
    · rw [hend, place_out endp_out]
    · rw [hend]
      exact h.imp_right fun h => ⟨endp_out, h⟩

/-- One step of the original. -/
theorem round {s s' : State} (hi : Inside j s) (hl : Leaves j s.1 (decode (j.text s.2)))
    (h : Rel j s s') : ∃ t, Steps plain text s' t ∧ Rel j (original plain j s) t := by
  obtain ⟨k, hk, hpc⟩ := hi
  obtain ⟨r, pc⟩ := s
  obtain ⟨r', pc'⟩ := s'
  obtain rfl : pc = j.base + 4 * k := hpc
  have hin := inRange_at hk
  obtain ⟨h1, h2⟩ := h
  obtain rfl : pc' = entry j k := by
    rw [show pc' = _ from h1, place_in hin, idx_eq]
  obtain rfl : r' = r := by
    rcases h2 with h2 | ⟨h2, -⟩
    · exact h2
    · rw [hin] at h2; cases h2
  obtain ⟨t, hs, ha⟩ :=
    @block_moves plain j text k r' hr.fits hk ht.elsewhere (hr.movable k hk) hl (at_entry hr ht hk)
  rcases ha with ⟨hn, rfl⟩ | ha
  · obtain ⟨t', hs', hrel⟩ := @enter plain j text hr ht _ hk (original plain j (r', j.base + 4 * k)).1
    refine ⟨t', hs.trans hs', ?_⟩
    have e : original plain j (r', j.base + 4 * k) =
        ((original plain j (r', j.base + 4 * k)).1, j.base + 4 * ((k + 1 : Nat) : Int)) :=
      Prod.ext rfl (by push_cast; exact hn)
    rw [e]
    exact hrel
  · exact ⟨t, hs, ha⟩

/-- As long as the original stays at the moved instructions, and one step
longer, the slot keeps up with it. -/
theorem run_from {k : Nat} (hk : k ≤ j.count) (r : Regs) {n : Nat}
    (hn : Stays plain j (r, j.base + 4 * k) n) :
    ∃ s', Steps plain text (r, start j k) s' ∧
      Rel j ((original plain j)^[n] (r, j.base + 4 * k)) s' := by
  induction n with
  | zero => exact enter hr ht hk r
  | succ n ih =>
    obtain ⟨s', hs, hrel⟩ := ih fun m hm => hn m (Nat.lt_succ_of_lt hm)
    obtain ⟨hi, hl⟩ := hn n (Nat.lt_succ_self n)
    obtain ⟨t, hs', hrel'⟩ := round hr ht hi hl hrel
    refine ⟨t, hs.trans hs', ?_⟩
    rw [Function.iterate_succ_apply']
    exact hrel'

end Hosted

end DumpDex.L3.MovedRun
