import DumpDex.Core.Bits
import DumpDex.Core.Windows
import DumpDex.L3Runs.EngineSteps

/-!
# What the 32-bit engine leaves in the code (`inlineHook.c`)

Where no bytes are saved twice, the table is a set of windows onto the code,
each showing its patch while its target is hooked.

* `patched_change`: every change keeps that.
* `run_restores`: so each patch can be taken back whatever has become of the
  others.
-/
namespace DumpDex.L3.HookedWindows
open DumpDex.Core.Runs DumpDex.Core.Windows
open DumpDex.L2 DumpDex.L2.Relocate DumpDex.L2.InlineHookEngine
open DumpDex.L3.EngineSteps

variable {s s' : Engine}

/-! ## The code -/

/-- The bytes a target's item saves. -/
def window (targetAddr : Addr) : Set Addr :=
  {x | (x - clearBit0 targetAddr).toNat < span targetAddr}

/-- An item as a window: what it saved, and the patch in front of it. -/
def view (item : InlineHookItem) : Window Addr Byte where
  region := window item.targetAddr
  saved x := item.origInstructions.getD (x - clearBit0 item.targetAddr).toNat 0
  new x := (item.patch ++ item.origInstructions.drop item.patch.length).getD
    (x - clearBit0 item.targetAddr).toNat 0
  shown := item.status = .hooked

def live (s : Engine) : Set Nat := {i | i < s.info.size}

/-- The code is `plain` but for the targets that are hooked. -/
def Patched (plain : Addr → Byte) (s : Engine) : Prop :=
  Shows plain (live s) (fun i => view (s.info.item i)) s.code

/-- A new target's bytes are not among those another item has saved. -/
def Apart (s : Engine) (targetAddr : Addr) : Prop :=
  ∀ i < s.info.size, Disjoint (window targetAddr) (window (s.info.item i).targetAddr)

theorem patch_length (item : InlineHookItem) : item.patch.length ≤ span item.targetAddr := by
  unfold InlineHookItem.patch InlineHookEngine.patch span
  split
  · split <;> simp [halves, bytes16]
  · simp [bytes32]

theorem store_of_lt {a x : Addr} {bs : List Byte} {code : Addr → Byte} (h : (x - a).toNat < bs.length) :
    store a bs code x = bs[(x - a).toNat] := by
  rw [store, List.getElem?_eq_getElem h]
  rfl

theorem store_of_le {a x : Addr} {bs : List Byte} {code : Addr → Byte} (h : bs.length ≤ (x - a).toNat) :
    store a bs code x = code x := by
  rw [store, List.getElem?_eq_none h]
  rfl

theorem load_getD {code : Addr → Byte} {a x : Addr} {n : Nat} (h : (x - a).toNat < n) :
    (load code a n).getD (x - a).toNat 0 = code x := by
  have e : a + BitVec.ofNat 32 (x - a).toNat = x := by
    rw [BitVec.ofNat_toNat, BitVec.setWidth_eq, BitVec.add_comm, BitVec.sub_add_cancel]
  rw [load, List.getD_eq_getElem?_getD, List.getElem?_map, List.getElem?_range h]
  simp only [Option.map_some, Option.getD_some, e]

theorem view_deleted (pos : Nat) :
    (fun i => view ((doInlineUnHook pos s).info.item i)) =
      (fun i => view (s.info.item i)) ∘ movedFrom s.info.size pos := by
  funext i
  exact congrArg view (deleted_item s.info pos i)

theorem movedFrom_bijOn {size pos : Nat} (hp : pos < size) :
    Set.BijOn (movedFrom size pos) {i | i < size - 1} ({i | i < size} \ {pos}) := by
  refine ⟨fun i hi => movedFrom_lt hp hi, fun i hi j hj e => movedFrom_inj hi hj e, ?_⟩
  intro j ⟨hj, hne⟩
  have hj : j < size := hj
  have hne : j ≠ pos := hne
  by_cases e : j = size - 1
  · exact ⟨pos, show pos < size - 1 by omega, by simp [movedFrom, e]⟩
  · exact ⟨j, show j < size - 1 by omega, by simp [movedFrom, hne]⟩

theorem patched_change {plain : Addr → Byte} (hs : Sound s) (h : Patched plain s) (hc : Change Apart s s') :
    Patched plain s' := by
  cases hc with
  | threads pc => exact h
  | @enter io targetAddr newAddr protoAddr item out hnew hroom hok hitem =>
    obtain ⟨ht, -, -, ho, -, hstatus, -⟩ := fillItem_spec hitem
    have hl : live (entered s io.page item out) = insert s.info.size (live s) := by
      ext i
      change i < s.info.size + 1 ↔ i = s.info.size ∨ i < s.info.size
      omega
    have old : Shows plain (live s) (fun i => view ((entered s io.page item out).info.item i)) s.code :=
      Shows.congr h fun i hi => congrArg view (entered_item hi)
    unfold Patched
    rw [hl]
    refine old.enter ?_ ?_ ?_
    · simp [entered_last, view, hstatus]
    · intro x hx
      simp only [entered_last, view, ht, ho] at hx ⊢
      exact load_getD hx
    · intro j hj
      simp only [entered_last, entered_item hj, view, ht]
      exact hok j hj
  | @hook i hi hreg =>
    have hshown : ¬ (view (s.info.item i)).shown := by simp [view, hreg]
    have hle := patch_length (s.info.item i)
    refine Shows.replace h (i := i) hi ?_ ?_ ?_ ?_
    · simp [doInlineHook, view, InlineHookItem.patch]
    · intro j hj
      simp [doInlineHook, Function.update_of_ne hj]
    · intro x hx
      have hlen := hs.saved i hi
      have hx' : (x - clearBit0 (s.info.item i).targetAddr).toNat < span (s.info.item i).targetAddr := hx
      have hp := h.hidden (i := i) hi hshown hx
      have hsv := h.saved i hi x hx
      change store _ _ _ x = _
      by_cases hk : (x - clearBit0 (s.info.item i).targetAddr).toNat < (s.info.item i).patch.length
      · rw [store_of_lt hk]
        simp only [view]
        rw [List.getD_eq_getElem?_getD, List.getElem?_append_left hk, List.getElem?_eq_getElem hk]
        rfl
      · rw [store_of_le (Nat.le_of_not_lt hk), hp, ← hsv]
        simp only [view]
        rw [List.getD_eq_getElem?_getD, List.getD_eq_getElem?_getD, List.getElem?_append_right (by omega),
          List.getElem?_drop]
        congr 2
        omega
    · intro x hx
      have hx' : ¬ (x - clearBit0 (s.info.item i).targetAddr).toNat < span (s.info.item i).targetAddr := hx
      exact store_of_le (by omega)
  | @unHook pos hp hhooked =>
    have hlen := hs.saved pos hp
    have hlen' := hs.length pos hp
    unfold Patched
    rw [view_deleted]
    refine (h.leave (i := pos) hp ?_ ?_).rename (movedFrom_bijOn hp)
    · intro x hx
      have hx' : (x - clearBit0 (s.info.item pos).targetAddr).toNat < span (s.info.item pos).targetAddr := hx
      change store _ _ _ x = _
      rw [List.take_of_length_le (by omega), store_of_lt (by omega)]
      simp only [view]
      rw [List.getD_eq_getElem?_getD, List.getElem?_eq_getElem]
      rfl
    · intro x hx
      have hx' : ¬ (x - clearBit0 (s.info.item pos).targetAddr).toNat < span (s.info.item pos).targetAddr := hx
      refine store_of_le ?_
      rw [List.length_take]
      omega

/-! ## Runs -/

theorem patched_start (h : s.info.size = 0) : Patched s.code s := by
  have e : live s = ∅ := Set.eq_empty_of_forall_notMem fun i hi => absurd (h ▸ hi) (Nat.not_lt_zero i)
  unfold Patched
  rw [e]
  exact Shows.empty

def Good (plain : Addr → Byte) (s : Engine) : Prop := Sound s ∧ Patched plain s

theorem good_change {plain : Addr → Byte} (s s' : Engine) (h : Good plain s) (hc : Change Apart s s') :
    Good plain s' := ⟨sound_change h.1 hc, patched_change h.1 h.2 hc⟩

theorem unHookLoop_none (n i : Nat) (s : Engine) (hlow : ∀ j < i, j < s.info.size →
      (s.info.item j).status ≠ .hooked) (hn : s.info.size ≤ i + n) :
    ∀ j < (unHookLoop n i s).info.size, ((unHookLoop n i s).info.item j).status ≠ .hooked := by
  induction n generalizing i s with
  | zero => exact fun j hj => hlow j (Nat.lt_of_lt_of_le hj hn) hj
  | succ n ih =>
    rw [unHookLoop]
    split
    · rename_i hi
      have hsize : (doInlineUnHook i s).info.size = s.info.size - 1 := rfl
      split
      · refine ih i _ (fun j hji hj => ?_) (by omega)
        have e : (doInlineUnHook i s).info.item j = s.info.item j := by
          simp [doInlineUnHook, deleteInlineHookItem, Function.update_of_ne (Nat.ne_of_lt hji)]
        rw [e]
        exact hlow j hji (by omega)
      · rename_i hs
        refine ih (i + 1) s (fun j hji hj => ?_) (by omega)
        rcases Nat.lt_succ_iff_lt_or_eq.mp hji with hlt | rfl
        · exact hlow j hlt hj
        · exact hs
    · exact fun j hj => hlow j (by omega) hj

/-- Where a target is hooked there is its patch. -/
theorem Patched.inside {plain : Addr → Byte} (hp : Patched plain s) {i : Nat} (hi : i < s.info.size)
    (hs : (s.info.item i).status = .hooked) {k : Nat} {b : Byte} (hb : (s.info.item i).patch[k]? = some b) :
    s.code (clearBit0 (s.info.item i).targetAddr + BitVec.ofNat 32 k) = b := by
  have hlt := (List.getElem?_eq_some_iff.mp hb).1
  have hle := patch_length (s.info.item i)
  have hk : (clearBit0 (s.info.item i).targetAddr + BitVec.ofNat 32 k -
      clearBit0 (s.info.item i).targetAddr).toNat = k := Core.Bits.add_sub_toNat (by
    unfold span at hle
    split at hle <;> omega)
  have hx : clearBit0 (s.info.item i).targetAddr + BitVec.ofNat 32 k ∈ (view (s.info.item i)).region := by
    change BitVec.toNat _ < span (s.info.item i).targetAddr
    omega
  rw [Shows.inside hp i hi (by simp [view, hs]) _ hx]
  simp only [view, hk]
  rw [List.getD_eq_getElem?_getD, List.getElem?_append_left hlt, hb]
  rfl

/-- The bytes the patch of a target is written over: 8, and 10 if a NOP
aligns it. -/
def overwritten (targetAddr newAddr : Addr) : Set Addr :=
  {x | (x - clearBit0 targetAddr).toNat < (patch targetAddr newAddr).length}

/-- Behind the patch a window shows what was saved. -/
theorem view_behind {item : InlineHookItem} {x : Addr}
    (hx : x ∉ overwritten item.targetAddr item.newAddr) : (view item).new x = (view item).saved x := by
  have hle : item.patch.length ≤ (x - clearBit0 item.targetAddr).toNat := Nat.le_of_not_lt hx
  simp only [view]
  rw [List.getD_eq_getElem?_getD, List.getD_eq_getElem?_getD, List.getElem?_append_right hle,
    List.getElem?_drop, Nat.add_sub_cancel' hle]

/-- Where no target's patch is, nothing has changed. -/
theorem Patched.outside {plain : Addr → Byte} (hp : Patched plain s) {x : Addr}
    (hx : ∀ i < s.info.size, (s.info.item i).status = .hooked →
      x ∉ overwritten (s.info.item i).targetAddr (s.info.item i).newAddr) : s.code x = plain x := by
  by_cases hw : ∃ i ∈ live s, (view (s.info.item i)).shown ∧ x ∈ (view (s.info.item i)).region
  · obtain ⟨i, hi, hs, hxi⟩ := hw
    have hhooked : (s.info.item i).status = .hooked := by simpa [view] using hs
    rw [Shows.inside hp i hi hs x hxi, view_behind (hx i hi hhooked)]
    exact Shows.saved hp i hi x hxi
  · refine Shows.outside hp x fun i hi hs hxi => hw ⟨i, hi, hs, hxi⟩

/-- The condition on added targets may ask for more than `Apart`. -/
theorem run_good {ok : Engine → Addr → Prop} (hok : ∀ s a, ok s a → Apart s a) {es : List Event}
    (h : s.info.size = 0) (hm : MeetsM step (Asks ok) s es) (hr : es.foldlM step s = some s') :
    Good s.code s' :=
  run_keeps (fun s s' hg hc => good_change s s' hg (hc.mono (hok s)))
    ⟨sound_start h, patched_start h⟩ hm hr

/-- **What has been patched can be restored.** In every run in which no target
is registered whose bytes another item has saved, whatever was hooked and
unhooked and in whatever order: where a target is hooked there is its patch;
every byte no patch is written over is as at the start; and after
`inlineUnHookAll` all of them are. -/
theorem run_restores {es : List Event} (h : s.info.size = 0) (hm : MeetsM step (Asks Apart) s es)
    (hr : es.foldlM step s = some s') :
    (∀ i < s'.info.size, (s'.info.item i).status = .hooked → ∀ k b, (s'.info.item i).patch[k]? = some b →
      s'.code (clearBit0 (s'.info.item i).targetAddr + BitVec.ofNat 32 k) = b) ∧
    (∀ x, (∀ i < s'.info.size, (s'.info.item i).status = .hooked →
        x ∉ overwritten (s'.info.item i).targetAddr (s'.info.item i).newAddr) → s'.code x = s.code x) ∧
    ∀ attached, (inlineUnHookAll attached s').code = s.code := by
  have hg : Good s.code s' := run_good (fun _ _ h => h) h hm hr
  refine ⟨fun i hi hs k b hb => hg.2.inside hi hs hb, fun x hx => hg.2.outside hx, fun attached => ?_⟩
  have hc : Changes Apart s' (inlineUnHookAll attached s') :=
    .head (.threads _) (unHookLoop_changes _ 0 _)
  have hg' : Good s.code (inlineUnHookAll attached s') := changes_keep good_change hg hc
  refine hg'.2.all_hidden fun i hi => ?_
  have hn := unHookLoop_none s'.info.size 0 (freeze attached none .disable s')
    (fun j hj => absurd hj (Nat.not_lt_zero j)) (Nat.le_of_eq (Nat.zero_add _).symm) i hi
  simp only [view, decide_eq_true_eq]
  exact hn

theorem run_restores_hooked : ∃ t,
    [Event.register ⟨true, true, 0x20000⟩ 0x8000 0x12345678 0, .hook (fun _ => true) 0x8000].foldlM step
      (started (fun _ => 0) fun _ => 0) = some t ∧
    t.code 0x8004 = 0x78 ∧ (inlineUnHookAll (fun _ => true) t).code = fun _ => 0 := by
  have hr : [Event.register ⟨true, true, 0x20000⟩ 0x8000 0x12345678 0, .hook (fun _ => true) 0x8000].foldlM step
      (started (fun _ => 0) fun _ => 0) = some _ := rfl
  have hm : MeetsM step (Asks Apart) (started (fun _ => 0) fun _ => 0)
      [.register ⟨true, true, 0x20000⟩ 0x8000 0x12345678 0, .hook (fun _ => true) 0x8000] :=
    ⟨fun i hi => absurd hi (Nat.not_lt_zero i), fun _ _ => ⟨trivial, fun _ _ => trivial⟩⟩
  exact ⟨_, hr, rfl, (run_restores rfl hm hr).2.2 _⟩

end DumpDex.L3.HookedWindows
