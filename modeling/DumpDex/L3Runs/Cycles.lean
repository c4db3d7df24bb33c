import DumpDex.L3Runs.Boundaries
import DumpDex.L3Runs.OverlappingHooks

/-!
# The same target over and over (`inlineHook.c`)

A slot of the table keeps its `count` when its item is deleted, and the
relocator adds to it when the next item is entered there. So what a target's
boundaries were is not forgotten with it.

* `fill_some`, `fill_none`: an item can be filled exactly as long as its
  boundaries go behind those of the items before it.
* `cycle_once`: a target that is hooked and unhooked leaves the code and the
  table as they were, and the slot's count larger.
* `cycles_iff`: so how often that goes well is decided by the count.
-/
namespace DumpDex.L3.Cycles
open DumpDex.L2.InlineHook (maxItems)
open DumpDex.L2.Relocate DumpDex.L2.InlineHookEngine
open DumpDex.L3.EngineSteps DumpDex.L3.HookedWindows DumpDex.L3.OverlappingHooks DumpDex.L3.Boundaries

variable {s : Engine}

theorem record_full (bs : List (Nat × Nat)) (ints : Nat → Nat) (hc : ints countAt ≤ 20)
    (h : 20 < ints countAt + bs.length) : bs.foldlM (fun ints b => record b ints) ints = none := by
  have hat : countAt = 24 := rfl
  obtain ⟨b, rest, hrest⟩ : ∃ b rest, bs.drop (20 - ints countAt) = b :: rest := by
    refine List.exists_cons_of_ne_nil fun e => ?_
    have := congrArg List.length e
    rw [List.length_drop, List.length_nil] at this
    omega
  have hlen : (bs.take (20 - ints countAt)).length = 20 - ints countAt := by
    rw [List.length_take]
    omega
  rw [← List.take_append_drop (20 - ints countAt) bs, hrest, List.foldlM_append,
    record_all _ _ (by omega)]
  have hfull : recorded (ints countAt) (bs.take (20 - ints countAt)) ints countAt = 20 := by
    rw [recorded, if_pos rfl, hlen]
    omega
  have hnone : record b (recorded (ints countAt) (bs.take (20 - ints countAt)) ints) = none := by
    rw [record, hfull]
    rfl
  simp [hnone]

/-- How many instructions the saved bytes of a target are. -/
def instructions (code : Addr → Byte) (targetAddr : Addr) : Nat :=
  (relocateInstruction (word code) targetAddr
    (load code (clearBit0 targetAddr) (span targetAddr))).boundaries.length

theorem fill_some {io : RegisterIO} {code : Addr → Byte} {a : Addr} (na pa : Addr) {slot : InlineHookItem}
    (h : slot.count + instructions code a ≤ 20) :
    ∃ item out, fillItem io code a na pa slot = some (item, out) ∧
      item.count = slot.count + instructions code a := by
  have hr := record_all (relocateInstruction (word code) a (load code (clearBit0 a) (span a))).boundaries
    slot.ints h
  refine ⟨_, _, Option.map_eq_some_iff.mpr ⟨_, hr, rfl⟩, ?_⟩
  have hcount (bs : List (Nat × Nat)) : recorded slot.count bs slot.ints countAt = slot.count + bs.length :=
    if_pos rfl
  exact hcount _

theorem fill_none {io : RegisterIO} {code : Addr → Byte} {a : Addr} (na pa : Addr) {slot : InlineHookItem}
    (hc : slot.count ≤ 20) (h : 20 < slot.count + instructions code a) :
    fillItem io code a na pa slot = none :=
  Option.map_eq_none_iff.mpr (record_full _ slot.ints hc h)

section Cycles
variable {io : RegisterIO} {a na pa : Addr} {f g : Tid → Bool}

/-- What has been recorded in the first slot. -/
def slotCount (s : Engine) : Nat := (s.info.item 0).count

/-- The target is hooked and unhooked. -/
def cycle (io : RegisterIO) (a na pa : Addr) (f g : Tid → Bool) : List Event :=
  [.register io a na pa, .hook f a, .unHook g a]

theorem register_step (hx : io.targetExecutable = true ∧ io.newExecutable = true) (h : s.info.size = 0) :
    step s (.register io a na pa) =
      (fillItem io s.code a na pa (s.info.item 0)).map fun p => entered s io.page p.1 p.2 := by
  have hnew : findInlineHookItem s.info a = none := by
    simp [findInlineHookItem, h]
  unfold step registerInlineHook
  simp only [hx.1, hx.2, hnew, h]
  cases fillItem io s.code a na pa (s.info.item 0) <;> simp [entered, h, maxItems]

/-- Once, in an empty table. -/
theorem cycle_once (hx : io.targetExecutable = true ∧ io.newExecutable = true) (h : s.info.size = 0) :
    (slotCount s + instructions s.code a ≤ 20 → ∃ t, (cycle io a na pa f g).foldlM step s = some t ∧
      t.info.size = 0 ∧ t.code = s.code ∧ slotCount t = slotCount s + instructions s.code a) ∧
    (slotCount s ≤ 20 → 20 < slotCount s + instructions s.code a →
      (cycle io a na pa f g).foldlM step s = none) := by
  have hnew : findInlineHookItem s.info a = none := by
    simp [findInlineHookItem, h]
  constructor
  · intro hfew
    obtain ⟨item, out, hitem, hcount⟩ := @fill_some io s.code a na pa (s.info.item 0) hfew
    have h1 : step s (.register io a na pa) = some (entered s io.page item out) := by
      rw [register_step hx h, hitem]
      rfl
    have h2 : [Event.register io a na pa, .hook f a].foldlM step s =
        some (inlineHook f (entered s io.page item out) a).2 := by
      rw [List.foldlM_cons, h1]
      rfl
    obtain ⟨item', out', hitem', hinfo, hout⟩ := register_hook hx hnew h2
    rw [h, hitem] at hitem'
    cases hitem'
    generalize (inlineHook f (entered s io.page item out) a).2 = u at h2 hinfo hout
    have hu : u.info.size = 1 ∧ u.info.item 0 = { item with status := .hooked } := by
      rw [hinfo, h]
      simp
    have hv : Saves (u.info.item 0) a s.code := hu.2 ▸ saves_of_fill hitem
    have h3 (x : Addr) := @unHook_code u _ a g 0 s.code (by omega) hv
      (fun j hj => absurd hj (Nat.not_lt_zero j)) rfl x (Classical.dec _)
    refine ⟨(inlineUnHook g u a).2, ?_, ?_, ?_, ?_⟩
    · rw [show cycle io a na pa f g = [.register io a na pa, .hook f a] ++ [.unHook g a] from rfl,
        List.foldlM_append, h2]
      rfl
    · rw [(h3 0).2]
      simp [deleteInlineHookItem, hu.1]
    · funext x
      rw [(h3 x).1]
      split
      · rfl
      · exact hout x ‹_›
    · unfold slotCount
      rw [(h3 0).2]
      simp only [deleteInlineHookItem, hu.1, hu.2, Nat.sub_self, Function.update_self]
      exact hcount
  · intro hc hmany
    unfold cycle
    rw [List.foldlM_cons, register_step hx h, fill_none na pa hc hmany]
    rfl

/-- **Over and over.** In an empty table whose first slot has a count of `c`, a
target of `n` instructions can be hooked and unhooked `k` times over if and
only if `c + k * n` is no more than 20. The next registration writes beyond
the item's arrays. -/
theorem cycles_iff (hx : io.targetExecutable = true ∧ io.newExecutable = true) (h : s.info.size = 0)
    (hc : slotCount s ≤ 20) (k : Nat) :
    ((List.replicate k (cycle io a na pa f g)).flatten.foldlM step s).isSome ↔
      slotCount s + k * instructions s.code a ≤ 20 := by
  induction k generalizing s with
  | zero => simpa using hc
  | succ k ih =>
    obtain ⟨hgo, hstop⟩ := @cycle_once s io a na pa f g hx h
    rw [List.replicate_succ, List.flatten_cons, List.foldlM_append, Nat.succ_mul]
    by_cases hn : slotCount s + instructions s.code a ≤ 20
    · obtain ⟨u, hu, hsize, hcode, hcount⟩ := hgo hn
      rw [hu]
      simp only [Option.bind_eq_bind, Option.bind_some]
      rw [ih hsize (by omega), hcode, hcount]
      omega
    · -- the registration of this round has no room for its boundaries
      rw [hstop hc (by omega)]
      refine iff_of_false (by simp) ?_
      omega

/-- Two instructions, eleven times, from a table that is all zero. -/
theorem cycles_iff_arm : ¬ ((List.replicate 11 (cycle ⟨true, true, 0x20000⟩ 0x8000 0x12345678 0 (fun _ => true)
    fun _ => true)).flatten.foldlM step (started (fun _ => 0) fun _ => 0)).isSome := by
  have hz : slotCount (started (fun _ => 0) fun _ => 0) ≤ 20 := by decide
  rw [cycles_iff ⟨rfl, rfl⟩ rfl hz]
  decide

end Cycles

end DumpDex.L3.Cycles
