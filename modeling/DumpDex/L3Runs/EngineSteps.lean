import DumpDex.Core.Runs
import DumpDex.L2Machine.InlineHookEngine
import Mathlib.Logic.Relation

/-!
# Runs of the 32-bit engine (`inlineHook.c`)

Any sequence of calls of the engine's functions, between which the threads of
the process run.

* `step_changes`: a call is a number of `Change`s, of which there are four;
  `run_keeps`: what these keep, every run keeps.
* `run_sound`: the table.
* `register_ok`, `hook_ok`, `unHook_ok`: what a call does that is not refused.
-/
namespace DumpDex.L3.EngineSteps
open DumpDex.Core.Runs
open DumpDex.L2.HookEngine (Ele7enStatus)
open DumpDex.L2.InlineHook (HookStatus maxItems testBit0 setBit0)
open DumpDex.L2 DumpDex.L2.Relocate DumpDex.L2.InlineHookEngine

inductive Event where
  | register (io : RegisterIO) (targetAddr newAddr protoAddr : Addr)
  | hook (attached : Tid → Bool) (targetAddr : Addr)
  | unHook (attached : Tid → Bool) (targetAddr : Addr)
  | hookAll (attached : Tid → Bool)
  | unHookAll (attached : Tid → Bool)
  /-- The threads have run and got so far. -/
  | run (pc : Tid → Addr)

/-- `none` where the process crashes. -/
def step (s : Engine) : Event → Option Engine
  | .register io targetAddr newAddr protoAddr =>
    (registerInlineHook io s targetAddr newAddr protoAddr).map (·.2)
  | .hook attached targetAddr => some (inlineHook attached s targetAddr).2
  | .unHook attached targetAddr => some (inlineUnHook attached s targetAddr).2
  | .hookAll attached => some (inlineHookAll attached s)
  | .unHookAll attached => some (inlineUnHookAll attached s)
  | .run pc => some { s with pc := pc }

/-- The table is static: the process finds it empty and all zero. -/
def started (code : Addr → Byte) (pc : Tid → Addr) : Engine where
  code := code
  pages _ := none
  protos _ := 0
  info := ⟨fun _ => ⟨0, 0, 0, [], fun _ => 0, 0, 0, .registered⟩, 0⟩
  pc := pc

/-! ## What a call changes -/

/-- The state after a target has been added. -/
def entered (s : Engine) (page : Addr) (item : InlineHookItem) (out : List Byte) : Engine :=
  { s with
    pages := Function.update s.pages page (some out)
    info := ⟨Function.update s.info.item s.info.size item, s.info.size + 1⟩ }

/-- Targets are only added where `ok` says so. -/
inductive Change (ok : Engine → Addr → Prop) (s : Engine) : Engine → Prop where
  | threads (pc : Tid → Addr) : Change ok s { s with pc := pc }
  | enter {io : RegisterIO} {targetAddr newAddr protoAddr : Addr} {item : InlineHookItem} {out : List Byte}
      (hnew : findInlineHookItem s.info targetAddr = none) (hroom : s.info.size < maxItems)
      (hok : ok s targetAddr)
      (hitem : fillItem io s.code targetAddr newAddr protoAddr (s.info.item s.info.size) = some (item, out)) :
      Change ok s (entered s io.page item out)
  | hook {i : Nat} (hi : i < s.info.size) (hs : (s.info.item i).status = .registered) :
      Change ok s (doInlineHook i s)
  | unHook {i : Nat} (hi : i < s.info.size) (hs : (s.info.item i).status = .hooked) :
      Change ok s (doInlineUnHook i s)

/-- What a condition on added targets asks of a call. -/
def Asks (ok : Engine → Addr → Prop) (s : Engine) : Event → Prop
  | .register _ targetAddr _ _ => ok s targetAddr
  | _ => True

abbrev Changes (ok : Engine → Addr → Prop) : Engine → Engine → Prop := Relation.ReflTransGen (Change ok)

variable {ok : Engine → Addr → Prop} {s s' : Engine}

theorem Change.mono {ok' : Engine → Addr → Prop} (hok : ∀ a, ok s a → ok' s a) (h : Change ok s s') :
    Change ok' s s' := by
  cases h with
  | threads pc => exact .threads pc
  | enter hnew hroom h hitem => exact .enter hnew hroom (hok _ h) hitem
  | hook hi hs => exact .hook hi hs
  | unHook hi hs => exact .unHook hi hs

theorem find_lt {p : Nat → Bool} {n i : Nat} (h : (List.range n).find? p = some i) : i < n ∧ p i = true :=
  ⟨List.mem_range.mp (List.mem_of_find?_eq_some h), List.find?_some h⟩

theorem hookLoop_changes (n i : Nat) (s : Engine) (h : i + n ≤ s.info.size) :
    Changes ok s (hookLoop n i s) ∧ (hookLoop n i s).info.size = s.info.size := by
  induction n generalizing i s with
  | zero => exact ⟨.refl, rfl⟩
  | succ n ih =>
    rw [hookLoop]
    split
    · rename_i hs
      have hsize : (doInlineHook i s).info.size = s.info.size := rfl
      obtain ⟨hc, hn⟩ := ih (i + 1) (doInlineHook i s) (by omega)
      exact ⟨.head (.hook (by omega) hs) hc, by rw [hn, hsize]⟩
    · exact ih (i + 1) s (by omega)

theorem unHookLoop_changes (n i : Nat) (s : Engine) : Changes ok s (unHookLoop n i s) := by
  induction n generalizing i s with
  | zero => exact .refl
  | succ n ih =>
    rw [unHookLoop]
    split
    · rename_i hi
      split
      · rename_i hs
        exact .head (.unHook hi hs) (ih i _)
      · exact ih (i + 1) s
    · exact .refl

/-- A registration adds its target or does nothing. -/
theorem register_cases {io : RegisterIO} {targetAddr newAddr protoAddr : Addr}
    (h : step s (.register io targetAddr newAddr protoAddr) = some s') :
    s' = s ∨ ∃ item out, findInlineHookItem s.info targetAddr = none ∧ s.info.size < maxItems ∧
      fillItem io s.code targetAddr newAddr protoAddr (s.info.item s.info.size) = some (item, out) ∧
      s' = entered s io.page item out := by
  obtain ⟨⟨status, t⟩, hr, rfl⟩ := Option.map_eq_some_iff.mp h
  unfold registerInlineHook at hr
  split at hr
  · cases hr; exact .inl rfl
  · split at hr
    · split at hr <;> cases hr <;> exact .inl rfl
    · rename_i hnew
      split at hr
      · cases hr
      · rename_i hroom
        obtain ⟨⟨item, out⟩, hitem, he⟩ := Option.map_eq_some_iff.mp hr
        cases he
        exact .inr ⟨item, out, hnew, by omega, hitem, rfl⟩

/-- A call is a number of changes. -/
theorem step_changes {e : Event} (hok : Asks ok s e) (h : step s e = some s') : Changes ok s s' := by
  cases e with
  | register io targetAddr newAddr protoAddr =>
    rcases register_cases h with rfl | ⟨item, out, hnew, hroom, hitem, rfl⟩
    · exact .refl
    · exact .single (.enter hnew hroom hok hitem)
  | hook attached targetAddr =>
    obtain rfl := Option.some.inj h
    unfold inlineHook
    split
    · exact .refl
    · rename_i i hf
      split
      · rename_i hs
        exact .tail (.single (.threads _)) (.hook (find_lt hf).1 hs)
      · exact .refl
  | unHook attached targetAddr =>
    obtain rfl := Option.some.inj h
    unfold inlineUnHook
    split
    · rename_i i hf
      obtain ⟨hi, hp⟩ := find_lt hf
      have hs : (s.info.item i).status = .hooked := by
        simp only [decide_eq_true_eq] at hp
        exact hp.2
      exact .tail (.single (.threads _)) (.unHook hi hs)
    · exact .refl
  | hookAll attached =>
    obtain rfl := Option.some.inj h
    refine .head (.threads _) (hookLoop_changes _ 0 _ ?_).1
    exact Nat.le_of_eq (Nat.zero_add _)
  | unHookAll attached =>
    obtain rfl := Option.some.inj h
    exact .head (.threads _) (unHookLoop_changes _ 0 _)
  | run pc =>
    obtain rfl := Option.some.inj h
    exact .single (.threads pc)

theorem changes_keep {I : Engine → Prop} (hI : ∀ s s', I s → Change ok s s' → I s') (hs : I s)
    (h : Changes ok s s') : I s' :=
  Relation.ReflTransGen.rec hs (fun _ hc ih => hI _ _ ih hc) h

/-- What every change keeps, every run keeps. -/
theorem run_keeps {I : Engine → Prop} (hI : ∀ s s', I s → Change ok s s' → I s') {es : List Event}
    (hs : I s) (hm : MeetsM step (Asks ok) s es) (hr : es.foldlM step s = some s') : I s' :=
  partial_rule (fun _ _ _ hs hok h => changes_keep hI hs (step_changes hok h)) hs hm hr

/-! ## The table -/

/-- How many bytes are saved. -/
def span (targetAddr : Addr) : Nat := if testBit0 targetAddr then 12 else 8

/-- In every state of every run. -/
structure Sound (s : Engine) : Prop where
  few : s.info.size ≤ maxItems
  distinct : ∀ i < s.info.size, ∀ j < s.info.size,
    (s.info.item i).targetAddr = (s.info.item j).targetAddr → i = j
  length : ∀ i < s.info.size, (s.info.item i).length = span (s.info.item i).targetAddr
  saved : ∀ i < s.info.size, (s.info.item i).origInstructions.length = span (s.info.item i).targetAddr

theorem find_none {info : InlineHookInfo} {targetAddr : Addr} (h : findInlineHookItem info targetAddr = none)
    {i : Nat} (hi : i < info.size) : (info.item i).targetAddr ≠ targetAddr := by
  have := List.find?_eq_none.mp h i (List.mem_range.mpr hi)
  simpa using this

theorem length_load (code : Addr → Byte) (a : Addr) (n : Nat) : (load code a n).length = n := by
  simp [load]

/-- What the fields of a new item are. -/
theorem fillItem_spec {io : RegisterIO} {code : Addr → Byte} {targetAddr newAddr protoAddr : Addr}
    {slot item : InlineHookItem} {out : List Byte}
    (h : fillItem io code targetAddr newAddr protoAddr slot = some (item, out)) :
    item.targetAddr = targetAddr ∧ item.newAddr = newAddr ∧ item.protoAddr = protoAddr ∧
      item.origInstructions = load code (clearBit0 targetAddr) (span targetAddr) ∧
      item.length = span targetAddr ∧ item.status = .registered ∧ item.trampolineInstructions = io.page := by
  obtain ⟨ints, -, he⟩ := Option.map_eq_some_iff.mp h
  cases he
  exact ⟨rfl, rfl, rfl, rfl, rfl, rfl, rfl⟩

/-- The item of a new target is in the slot behind the others. -/
theorem entered_item {page : Addr} {item : InlineHookItem} {out : List Byte} {i : Nat}
    (hi : i < s.info.size) : (entered s page item out).info.item i = s.info.item i :=
  Function.update_of_ne (Nat.ne_of_lt hi) ..

theorem entered_last {page : Addr} {item : InlineHookItem} {out : List Byte} :
    (entered s page item out).info.item s.info.size = item := Function.update_self ..

/-- Where the item in place `i` was before place `pos` was given up. -/
def movedFrom (size pos i : Nat) : Nat := if i = pos then size - 1 else i

theorem deleted_item (info : InlineHookInfo) (pos i : Nat) :
    (deleteInlineHookItem info pos).item i = info.item (movedFrom info.size pos i) := by
  by_cases e : i = pos
  · simp [deleteInlineHookItem, movedFrom, e]
  · simp [deleteInlineHookItem, movedFrom, e, Function.update_of_ne]

theorem movedFrom_lt {size pos i : Nat} (hp : pos < size) (hi : i < size - 1) :
    movedFrom size pos i < size ∧ movedFrom size pos i ≠ pos := by
  unfold movedFrom
  split <;> omega

theorem movedFrom_inj {size pos i j : Nat} (hi : i < size - 1) (hj : j < size - 1)
    (h : movedFrom size pos i = movedFrom size pos j) : i = j := by
  unfold movedFrom at h
  split at h <;> split at h <;> omega

/-- A hook changes nothing of the items that this is about. -/
theorem hooked_item (i j : Nat) :
    ((doInlineHook i s).info.item j).targetAddr = (s.info.item j).targetAddr ∧
    ((doInlineHook i s).info.item j).length = (s.info.item j).length ∧
    ((doInlineHook i s).info.item j).origInstructions = (s.info.item j).origInstructions := by
  by_cases e : j = i
  · subst e
    simp [doInlineHook]
  · simp [doInlineHook, Function.update_of_ne e]

theorem sound_change (h : Sound s) (hc : Change ok s s') : Sound s' := by
  cases hc with
  | threads pc => exact ⟨h.few, h.distinct, h.length, h.saved⟩
  | @enter io targetAddr newAddr protoAddr item out hnew hroom hok hitem =>
    obtain ⟨ht, -, -, ho, hl, -, -⟩ := fillItem_spec hitem
    have last : ∀ {i}, i < s.info.size + 1 → ¬ i < s.info.size → i = s.info.size := by omega
    refine ⟨hroom, ?_, ?_, ?_⟩
    · intro i hi j hj e
      by_cases hi' : i < s.info.size <;> by_cases hj' : j < s.info.size
      · rw [entered_item hi', entered_item hj'] at e
        exact h.distinct i hi' j hj' e
      · obtain rfl := last hj hj'
        rw [entered_item hi', entered_last, ht] at e
        exact absurd e (find_none hnew hi')
      · obtain rfl := last hi hi'
        rw [entered_item hj', entered_last, ht] at e
        exact absurd e.symm (find_none hnew hj')
      · rw [last hi hi', last hj hj']
    · intro i hi
      by_cases hi' : i < s.info.size
      · rw [entered_item hi']
        exact h.length i hi'
      · obtain rfl := last hi hi'
        rw [entered_last, hl, ht]
    · intro i hi
      by_cases hi' : i < s.info.size
      · rw [entered_item hi']
        exact h.saved i hi'
      · obtain rfl := last hi hi'
        rw [entered_last, ho, ht, length_load]
  | @hook i hi hs =>
    refine ⟨h.few, ?_, ?_, ?_⟩
    · intro j hj k hk e
      rw [(hooked_item i j).1, (hooked_item i k).1] at e
      exact h.distinct j hj k hk e
    · intro j hj
      rw [(hooked_item i j).2.1, (hooked_item i j).1]
      exact h.length j hj
    · intro j hj
      rw [(hooked_item i j).2.2, (hooked_item i j).1]
      exact h.saved j hj
  | @unHook pos hp hs =>
    have item (i : Nat) : (doInlineUnHook pos s).info.item i = s.info.item (movedFrom s.info.size pos i) :=
      deleted_item s.info pos i
    have lt {i : Nat} (hi : i < (doInlineUnHook pos s).info.size) :
        i < s.info.size - 1 ∧ movedFrom s.info.size pos i < s.info.size := ⟨hi, (movedFrom_lt hp hi).1⟩
    refine ⟨Nat.le_trans (Nat.sub_le _ _) h.few, ?_, ?_, ?_⟩
    · intro i hi j hj e
      rw [item, item] at e
      exact movedFrom_inj (lt hi).1 (lt hj).1 (h.distinct _ (lt hi).2 _ (lt hj).2 e)
    · intro i hi
      rw [item]
      exact h.length _ (lt hi).2
    · intro i hi
      rw [item]
      exact h.saved _ (lt hi).2

theorem sound_start (h : s.info.size = 0) : Sound s where
  few := h ▸ Nat.zero_le _
  distinct := fun _ hi => absurd (h ▸ hi) (Nat.not_lt_zero _)
  length := fun _ hi => absurd (h ▸ hi) (Nat.not_lt_zero _)
  saved := fun _ hi => absurd (h ▸ hi) (Nat.not_lt_zero _)

/-- **The table.** In every run it has at most 1024 items, no two of one
target, each with as many bytes saved as `inlineUnHook` writes back. -/
theorem run_sound {es : List Event} (h : s.info.size = 0) (hr : es.foldlM step s = some s') : Sound s' := by
  have hm : MeetsM step (Asks fun _ _ => True) s es := by
    have : Asks (fun _ _ => True) = fun _ _ => True := by
      funext s e
      cases e <;> rfl
    rw [this]
    exact meetsM_true s es
  exact run_keeps (fun _ _ => sound_change) (sound_start h) hm hr

/-! ## Calls that are not refused -/

theorem register_ok {io : RegisterIO} {targetAddr newAddr protoAddr : Addr}
    (hx : io.targetExecutable = true ∧ io.newExecutable = true)
    (hnew : findInlineHookItem s.info targetAddr = none)
    (h : step s (.register io targetAddr newAddr protoAddr) = some s') :
    ∃ item out, fillItem io s.code targetAddr newAddr protoAddr (s.info.item s.info.size) = some (item, out) ∧
      s' = entered s io.page item out := by
  obtain ⟨⟨status, t⟩, hr, rfl⟩ := Option.map_eq_some_iff.mp h
  unfold registerInlineHook at hr
  rw [hx.1, hx.2, hnew] at hr
  simp only [Bool.not_true, Bool.or_self, Bool.false_eq_true, if_false] at hr
  split at hr
  · cases hr
  · obtain ⟨⟨item, out⟩, hitem, he⟩ := Option.map_eq_some_iff.mp hr
    cases he
    exact ⟨item, out, hitem, rfl⟩

theorem hook_ok {attached : Tid → Bool} {targetAddr : Addr} {i : Nat} (hi : i < s.info.size)
    (ht : (s.info.item i).targetAddr = targetAddr) (hfirst : ∀ j < i, (s.info.item j).targetAddr ≠ targetAddr)
    (hs : (s.info.item i).status = .registered) (h : step s (.hook attached targetAddr) = some s') :
    s'.code = store (clearBit0 targetAddr) (s.info.item i).patch s.code ∧
      s'.info = ⟨Function.update s.info.item i { s.info.item i with status := .hooked }, s.info.size⟩ := by
  obtain rfl := Option.some.inj h
  have hf : findInlineHookItem s.info targetAddr = some i := by
    refine List.find?_range_eq_some.mpr ⟨by simpa using ht, List.mem_range.mpr hi, ?_⟩
    simpa using hfirst
  simp only [inlineHook, hf, hs]
  rw [← ht]
  exact ⟨rfl, rfl⟩

theorem unHook_ok {attached : Tid → Bool} {targetAddr : Addr} {i : Nat} (hi : i < s.info.size)
    (ht : (s.info.item i).targetAddr = targetAddr) (hfirst : ∀ j < i, (s.info.item j).targetAddr ≠ targetAddr)
    (hs : (s.info.item i).status = .hooked) (h : step s (.unHook attached targetAddr) = some s') :
    s'.code = store (clearBit0 targetAddr) ((s.info.item i).origInstructions.take (s.info.item i).length) s.code ∧
      s'.info = deleteInlineHookItem s.info i := by
  obtain rfl := Option.some.inj h
  have hf : (List.range s.info.size).find? (fun i =>
      (s.info.item i).targetAddr = targetAddr ∧ (s.info.item i).status = .hooked) = some i := by
    refine List.find?_range_eq_some.mpr ⟨by simpa using ⟨ht, hs⟩, List.mem_range.mpr hi, ?_⟩
    intro j hj
    simp [hfirst j hj]
  simp only [inlineUnHook, hf]
  rw [← ht]
  exact ⟨rfl, rfl⟩

end DumpDex.L3.EngineSteps
