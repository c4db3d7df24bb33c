import DumpDex.L3Runs.HookedWindows

/-!
# Bytes two items have saved (`inlineHook.c`)

The engine does not ask whether a target's bytes are those of another. Where
they are, the order decides what is left of the code.

* `fifo_restores_iff`: unhooked in the order they were hooked, the second puts
  back what it saved, the first one's patch among it.
* `nested_restores`: unhooked the other way about, nothing is left, in
  whatever depth and however they overlap.
-/
namespace DumpDex.L3.OverlappingHooks
open DumpDex.L2 DumpDex.L2.Relocate DumpDex.L2.InlineHookEngine
open DumpDex.L3.EngineSteps DumpDex.L3.HookedWindows

variable {s s' : Engine}

theorem store_item {item : InlineHookItem} {code plain : Addr → Byte} {x : Addr}
    (ho : item.origInstructions = load plain (clearBit0 item.targetAddr) (span item.targetAddr))
    (hl : item.length = span item.targetAddr) [Decidable (x ∈ window item.targetAddr)] :
    store (clearBit0 item.targetAddr) (item.origInstructions.take item.length) code x =
      if x ∈ window item.targetAddr then plain x else code x := by
  have hlen : (item.origInstructions.take item.length).length = span item.targetAddr := by
    rw [List.length_take, ho, length_load, hl, Nat.min_self]
  split
  · rename_i hx
    have hx' : (x - clearBit0 item.targetAddr).toNat < span item.targetAddr := hx
    have hb : item.origInstructions.getD (x - clearBit0 item.targetAddr).toNat 0 = plain x := by
      rw [ho]
      exact load_getD hx'
    rw [store_of_lt (by omega), List.getElem_take, ← hb]
    rw [List.getD_eq_getElem?_getD, List.getElem?_eq_getElem]
    rfl
  · rename_i hx
    have hx' : ¬ (x - clearBit0 item.targetAddr).toNat < span item.targetAddr := hx
    exact store_of_le (by omega)

/-- A hooked item and what it saved of `code`. -/
structure Saves (item : InlineHookItem) (targetAddr : Addr) (code : Addr → Byte) : Prop where
  target : item.targetAddr = targetAddr
  hooked : item.status = .hooked
  length : item.length = span targetAddr
  saved : item.origInstructions = load code (clearBit0 targetAddr) (span targetAddr)

theorem saves_of_fill {io : RegisterIO} {a na pa : Addr} {slot item : InlineHookItem} {code : Addr → Byte}
    {out : List Byte} (h : fillItem io code a na pa slot = some (item, out)) :
    Saves { item with status := .hooked } a code := by
  obtain ⟨ht, -, -, ho, hl, -, -⟩ := fillItem_spec h
  exact ⟨ht, rfl, hl, ho⟩

/-- A new target is registered and hooked. -/
theorem register_hook {io : RegisterIO} {a na pa : Addr} {f : Tid → Bool}
    (hx : io.targetExecutable = true ∧ io.newExecutable = true) (hnew : findInlineHookItem s.info a = none)
    (h : [Event.register io a na pa, .hook f a].foldlM step s = some s') :
    ∃ item out, fillItem io s.code a na pa (s.info.item s.info.size) = some (item, out) ∧
      s'.info = ⟨Function.update s.info.item s.info.size { item with status := .hooked }, s.info.size + 1⟩ ∧
      ∀ x ∉ window a, s'.code x = s.code x := by
  simp only [List.foldlM_cons, List.foldlM_nil, Option.pure_def, Option.bind_eq_bind,
    Option.bind_eq_some_iff, Option.some.injEq, exists_eq_right] at h
  obtain ⟨t, h1, h2⟩ := h
  obtain ⟨item, out, hitem, rfl⟩ := register_ok hx hnew h1
  obtain ⟨ht, -, -, -, -, hs, -⟩ := fillItem_spec hitem
  have hlast : (entered s io.page item out).info.item s.info.size = item := entered_last
  obtain ⟨hc, hi⟩ := hook_ok (Nat.lt_succ_self s.info.size) (by rw [hlast, ht])
    (fun j hj => by rw [entered_item hj]; exact find_none hnew hj) (by rw [hlast, hs]) h2
  refine ⟨item, out, hitem, ?_, ?_⟩
  · rw [hi, hlast]
    simp [entered]
  · intro x hxa
    have hxa : ¬ (x - clearBit0 a).toNat < span a := hxa
    have hp := patch_length item
    rw [ht] at hp
    rw [hc, hlast, store_of_le (by omega)]
    rfl

/-- An unhooked target's bytes are what its item saved, the rest is as it was. -/
theorem unHook_code {a : Addr} {f : Tid → Bool} {i : Nat} {plain : Addr → Byte} (hi : i < s.info.size)
    (hv : Saves (s.info.item i) a plain) (hfirst : ∀ j < i, (s.info.item j).targetAddr ≠ a)
    (h : step s (.unHook f a) = some s') (x : Addr) [Decidable (x ∈ window a)] :
    s'.code x = (if x ∈ window a then plain x else s.code x) ∧
      s'.info = deleteInlineHookItem s.info i := by
  obtain ⟨hc, hinfo⟩ := unHook_ok hi hv.target hfirst hv.hooked h
  refine ⟨?_, hinfo⟩
  have := hv.target
  subst this
  rw [hc]
  exact store_item hv.saved hv.length

theorem run_append {es es' : List Event} (h : (es ++ es').foldlM step s = some s') :
    ∃ t, es.foldlM step s = some t ∧ es'.foldlM step t = some s' := by
  rw [List.foldlM_append] at h
  exact Option.bind_eq_some_iff.mp h

section Two
variable {io io' : RegisterIO} {a b na nb pa pb : Addr} {f f' g g' : Tid → Bool} {t u : Engine}

/-- Two targets in an empty table. -/
theorem two_hooked (h : s.info.size = 0) (hab : a ≠ b)
    (hx : io.targetExecutable = true ∧ io.newExecutable = true)
    (hx' : io'.targetExecutable = true ∧ io'.newExecutable = true)
    (ht : [Event.register io a na pa, .hook f a].foldlM step s = some t)
    (hu : [Event.register io' b nb pb, .hook f' b].foldlM step t = some u) :
    u.info.size = 2 ∧ Saves (u.info.item 0) a s.code ∧ Saves (u.info.item 1) b t.code ∧
      (∀ x ∉ window a, t.code x = s.code x) ∧ ∀ x ∉ window b, u.code x = t.code x := by
  have hnew : findInlineHookItem s.info a = none := by
    simp [findInlineHookItem, h]
  obtain ⟨item, out, hitem, hi, hc⟩ := register_hook hx hnew ht
  have hv := saves_of_fill hitem
  rw [h] at hi
  have hnew' : findInlineHookItem t.info b = none := by
    simp [findInlineHookItem, hi, hv.target, hab]
  obtain ⟨item', out', hitem', hi', hc'⟩ := register_hook hx' hnew' hu
  have hv' := saves_of_fill hitem'
  rw [hi'] at *
  rw [hi] at *
  refine ⟨rfl, ?_, ?_, hc, hc'⟩
  · simpa [Function.update_of_ne] using hv
  · simpa using hv'

/-- Unhooked in the order they were hooked, the second item puts back what it
saved, which is right exactly if the first patch did not touch it. -/
theorem fifo_restores_iff (h : s.info.size = 0) (hab : a ≠ b)
    (hx : io.targetExecutable = true ∧ io.newExecutable = true)
    (hx' : io'.targetExecutable = true ∧ io'.newExecutable = true)
    (ht : [Event.register io a na pa, .hook f a].foldlM step s = some t)
    (hu : [Event.register io' b nb pb, .hook f' b, .unHook g a, .unHook g' b].foldlM step t = some u) :
    u.code = s.code ↔ ∀ x ∈ window b, t.code x = s.code x := by
  classical
  obtain ⟨v, hv, hu⟩ := @run_append _ _ [_, _] [_, _] hu
  simp only [List.foldlM_cons, List.foldlM_nil, Option.pure_def, Option.bind_eq_bind,
    Option.bind_eq_some_iff, Option.some.injEq, exists_eq_right] at hu
  obtain ⟨w, h1, h2⟩ := hu
  obtain ⟨hsize, hA, hB, hc, hc'⟩ := two_hooked h hab hx hx' ht hv
  have code1 := unHook_code (by omega) hA (fun j hj => absurd hj (Nat.not_lt_zero j)) h1
  have hw : w.info.size = 1 ∧ w.info.item 0 = v.info.item 1 := by
    rw [(code1 0).2]
    simp [deleteInlineHookItem, hsize]
  have hB' : Saves (w.info.item 0) b t.code := hw.2 ▸ hB
  have code2 := unHook_code (by omega) hB' (fun j hj => absurd hj (Nat.not_lt_zero j)) h2
  refine ⟨fun e x hxb => ?_, fun e => funext fun x => ?_⟩
  · have := (code2 x).1
    rw [if_pos hxb, e] at this
    exact this.symm
  · rw [(code2 x).1]
    split
    · exact e x ‹_›
    · rename_i hxb
      rw [(code1 x).1]
      split
      · rfl
      · rename_i hxa
        rw [hc' x hxb, hc x hxa]

/-- The second target is the first's second word. -/
theorem fifo_restores_overlap : ∃ t u,
    [Event.register ⟨true, true, 0x20000⟩ 0x8000 0x12345678 0, .hook (fun _ => true) 0x8000].foldlM step
      (started (fun _ => 0) fun _ => 0) = some t ∧
    [Event.register ⟨true, true, 0x21000⟩ 0x8004 0x12345678 0, .hook (fun _ => true) 0x8004,
      .unHook (fun _ => true) 0x8000, .unHook (fun _ => true) 0x8004].foldlM step t = some u ∧
    u.code ≠ fun _ => 0 := by
  have ht : [Event.register ⟨true, true, 0x20000⟩ 0x8000 0x12345678 0, .hook (fun _ => true) 0x8000].foldlM step
      (started (fun _ => 0) fun _ => 0) = some _ := rfl
  have hu : [Event.register ⟨true, true, 0x21000⟩ 0x8004 0x12345678 0, .hook (fun _ => true) 0x8004,
      .unHook (fun _ => true) 0x8000, .unHook (fun _ => true) 0x8004].foldlM step
      (Option.get _ (Option.isSome_of_mem ht)) = some _ := rfl
  refine ⟨_, _, ht, hu, fun e => ?_⟩
  have := (fifo_restores_iff rfl (by decide) ⟨rfl, rfl⟩ ⟨rfl, rfl⟩ ht hu).mp e 0x8004
    (show ((0x8004 : Addr) - clearBit0 0x8004).toNat < span 0x8004 by decide)
  exact absurd this (by decide)

end Two

/-! ## Hooks within hooks -/

/-- Each target is unhooked before those that were hooked before it; `L` are
the targets there are already. -/
inductive Nested : List Addr → List Event → Prop where
  | nil (L : List Addr) : Nested L []
  | run {L : List Addr} (pc : Tid → Addr) {es : List Event} (h : Nested L es) : Nested L (.run pc :: es)
  | around {L : List Addr} {a : Addr} (hnew : a ∉ L) (io : RegisterIO) (na pa : Addr) (f g : Tid → Bool)
      {es es' : List Event} (h : Nested (a :: L) es) (h' : Nested L es') :
      Nested L ([.register io a na pa, .hook f a] ++ es ++ [.unHook g a] ++ es')

/-- The code and the items are as they were. -/
structure Same (s s' : Engine) : Prop where
  code : s'.code = s.code
  size : s'.info.size = s.info.size
  items : ∀ i < s.info.size, s'.info.item i = s.info.item i

theorem Same.trans {t : Engine} (h : Same s t) (h' : Same t s') : Same s s' where
  code := h'.code.trans h.code
  size := h'.size.trans h.size
  items := fun i hi => (h'.items i (h.size ▸ hi)).trans (h.items i hi)

theorem find_absent {a : Addr} (h : ∀ i < s.info.size, (s.info.item i).targetAddr ≠ a) :
    findInlineHookItem s.info a = none := by
  refine List.find?_eq_none.mpr fun i hi => ?_
  simpa using h i (List.mem_range.mp hi)

/-- What is not in the table can neither be hooked nor unhooked. -/
theorem absent_hook {a : Addr} {f : Tid → Bool} (h : ∀ i < s.info.size, (s.info.item i).targetAddr ≠ a) :
    step s (.hook f a) = some s := by
  simp only [step, inlineHook, find_absent h]

theorem absent_unHook {a : Addr} {g : Tid → Bool} (h : ∀ i < s.info.size, (s.info.item i).targetAddr ≠ a) :
    step s (.unHook g a) = some s := by
  have : (List.range s.info.size).find? (fun i =>
      (s.info.item i).targetAddr = a ∧ (s.info.item i).status = .hooked) = none := by
    refine List.find?_eq_none.mpr fun i hi => ?_
    simp [h i (List.mem_range.mp hi)]
  simp only [step, inlineUnHook, this]

theorem rejected {io : RegisterIO} {a na pa : Addr}
    (hx : ¬ (io.targetExecutable = true ∧ io.newExecutable = true)) : step s (.register io a na pa) = some s := by
  have : (!io.targetExecutable || !io.newExecutable) = true := by
    cases h1 : io.targetExecutable <;> cases h2 : io.newExecutable <;> simp_all
  simp only [step, registerInlineHook, this, if_true, Option.map_some]

theorem hooked_new {io : RegisterIO} {a na pa : Addr} {f : Tid → Bool} {t : Engine}
    (hnew : ∀ i < s.info.size, (s.info.item i).targetAddr ≠ a)
    (ht : [Event.register io a na pa, .hook f a].foldlM step s = some t) :
    t = s ∨ ∃ item, Saves item a s.code ∧
      t.info = ⟨Function.update s.info.item s.info.size item, s.info.size + 1⟩ ∧
      ∀ x ∉ window a, t.code x = s.code x := by
  by_cases hx : io.targetExecutable = true ∧ io.newExecutable = true
  · obtain ⟨item, out, hitem, hinfo, hout⟩ := register_hook hx (find_absent hnew) ht
    exact .inr ⟨_, saves_of_fill hitem, hinfo, hout⟩
  · rw [List.foldlM_cons, rejected hx] at ht
    simp only [Option.bind_eq_bind, Option.bind_some, List.foldlM_cons, absent_hook hnew] at ht
    exact .inl (Option.some.inj ht).symm

/-- A target hooked around what leaves the code and the items as they were. -/
theorem around_same {io : RegisterIO} {a na pa : Addr} {f g : Tid → Bool} {t u : Engine}
    (hnew : ∀ i < s.info.size, (s.info.item i).targetAddr ≠ a)
    (ht : [Event.register io a na pa, .hook f a].foldlM step s = some t) (hin : Same t u)
    (hu : step u (.unHook g a) = some s') : Same s s' := by
  classical
  rcases hooked_new hnew ht with rfl | ⟨item, hv, hinfo, hout⟩
  · rw [absent_unHook fun i hi => hin.items i (hin.size ▸ hi) ▸ hnew i (hin.size ▸ hi)] at hu
    exact Option.some.inj hu ▸ hin
  · have hsize : u.info.size = s.info.size + 1 := by
      rw [hin.size, hinfo]
    have hlast : u.info.item s.info.size = item := by
      rw [hin.items _ (by rw [hinfo]; exact Nat.lt_succ_self _), hinfo]
      exact Function.update_self ..
    have hlow : ∀ i < s.info.size, u.info.item i = s.info.item i := by
      intro i hi
      rw [hin.items _ (by rw [hinfo]; exact Nat.lt_succ_of_lt hi), hinfo]
      exact Function.update_of_ne (Nat.ne_of_lt hi) ..
    have hcode (x : Addr) := unHook_code (by omega) (hlast ▸ hv)
      (fun j hj => by rw [hlow j hj]; exact hnew j hj) hu x
    have hdel := (hcode 0).2
    refine ⟨funext fun x => ?_, ?_, fun i hi => ?_⟩
    · rw [(hcode x).1]
      split
      · rfl
      · rename_i hxa
        rw [hin.code, hout x hxa]
    · rw [hdel]
      simp [deleteInlineHookItem, hsize]
    · rw [hdel]
      simp only [deleteInlineHookItem]
      rw [Function.update_of_ne (Nat.ne_of_lt hi), hlow i hi]

/-- **Hooks within hooks.** When hooks are nested the code is restored though
their bytes may overlap, and so is the table. -/
theorem nested_restores {L : List Addr} {es : List Event} (hn : Nested L es)
    (hL : ∀ i < s.info.size, (s.info.item i).targetAddr ∈ L) (hr : es.foldlM step s = some s') :
    Same s s' := by
  induction hn generalizing s s' with
  | nil L =>
    obtain rfl := Option.some.inj hr
    exact ⟨rfl, rfl, fun _ _ => rfl⟩
  | run pc h ih =>
    have hs := @ih { s with pc := pc } s' hL hr
    exact ⟨hs.code, hs.size, hs.items⟩
  | @around L a hnew io na pa f g es es' h h' ih ih' =>
    obtain ⟨v, hv, hr'⟩ := run_append hr
    obtain ⟨u, hu, hv⟩ := run_append hv
    obtain ⟨t, ht, hu⟩ := run_append hu
    have hout : ∀ i < s.info.size, (s.info.item i).targetAddr ≠ a := fun i hi e => hnew (e ▸ hL i hi)
    have hstep : step u (.unHook g a) = some v := by
      simpa using hv
    have ha : ∀ i < t.info.size, (t.info.item i).targetAddr ∈ a :: L := by
      intro i hi
      rcases hooked_new hout ht with rfl | ⟨item, hv, hinfo, -⟩
      · exact List.mem_cons_of_mem _ (hL i hi)
      · rw [hinfo] at hi ⊢
        by_cases hlt : i < s.info.size
        · simp only [Function.update_of_ne (Nat.ne_of_lt hlt)]
          exact List.mem_cons_of_mem _ (hL i hlt)
        · obtain rfl : i = s.info.size := Nat.le_antisymm (Nat.le_of_lt_succ hi) (Nat.not_lt.mp hlt)
          simp only [Function.update_self, hv.target]
          exact List.mem_cons_self
    have hsame : Same s v := around_same hout ht (ih ha hu) hstep
    exact hsame.trans (ih' (fun i hi => hsame.items i (hsame.size ▸ hi) ▸ hL i (hsame.size ▸ hi)) hr')

/-- The targets of `fifo_restores_overlap`, the second within the first. -/
theorem nested_restores_overlap : ∃ t,
    [Event.register ⟨true, true, 0x20000⟩ 0x8000 0x12345678 0, .hook (fun _ => true) 0x8000,
      .register ⟨true, true, 0x21000⟩ 0x8004 0x12345678 0, .hook (fun _ => true) 0x8004,
      .unHook (fun _ => true) 0x8004, .unHook (fun _ => true) 0x8000].foldlM step
      (started (fun _ => 0) fun _ => 0) = some t ∧ t.code = fun _ => 0 := by
  have inner : Nested [0x8000] ([.register ⟨true, true, 0x21000⟩ 0x8004 0x12345678 0,
      .hook (fun _ => true) 0x8004] ++ [] ++ [.unHook (fun _ => true) 0x8004] ++ []) :=
    .around (by decide) _ _ _ _ _ (.nil _) (.nil _)
  have outer := Nested.around List.not_mem_nil ⟨true, true, 0x20000⟩ 0x12345678 0 (fun _ => true)
    (fun _ => true) inner (.nil [])
  have hr : [Event.register ⟨true, true, 0x20000⟩ 0x8000 0x12345678 0, .hook (fun _ => true) 0x8000,
      .register ⟨true, true, 0x21000⟩ 0x8004 0x12345678 0, .hook (fun _ => true) 0x8004,
      .unHook (fun _ => true) 0x8004, .unHook (fun _ => true) 0x8000].foldlM step
      (started (fun _ => 0) fun _ => 0) = some _ := rfl
  exact ⟨_, hr, (nested_restores outer (fun i hi => absurd hi (Nat.not_lt_zero i)) hr).code⟩

end DumpDex.L3.OverlappingHooks
