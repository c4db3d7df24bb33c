import DumpDex.L2Machine.Hooks
import DumpDex.L2Machine.Writers
import DumpDex.L4App.NativeDump
import DumpDex.L4App.Xposed

/-!
# A whole process

The app process in which the module runs: packages are loaded
(`handleLoadPackage`, which may call `Native.dump`), Java methods the module
hooked return, and ART opens dex files, through the replacement once the open
function is patched. Events come in any order and number.

A ghost list, `acts`, records in order which dump directories
`handleLoadPackage` found or asked for, and for which package's `Native.dump`
the open function was patched.

* `Inv`: at most one `patched` act; from then on the flag is set and `pname`
  is that package's name; its directory was found or asked for before.
* `artOpen_frame`: a call of the open function changes the directory at most
  at the paths `save_dex_file` builds from `pname`.
* `captured_is_dumped`: and what it captures is written there.
* `dumps_go_home`: so every file a replacement creates lies in the dump
  directory of the one package whose `Native.dump` patched.
* `opened_is_dumped`: once it has, every open of a dex large enough leaves a
  file there that nothing changes any more.
* `java_files_home`: with the Java dumps included, every file is in the dump
  directory of a package that was loaded before.
-/
namespace DumpDex.L4.Process
open DumpDex.Core.CCall DumpDex.Core.Runs
open DumpDex.L1.FileName DumpDex.L2.DeviceUtils DumpDex.L2.HookEngine
open DumpDex.L2.Files DumpDex.L2.Writers
open DumpDex.L4.NativeDump

variable {abi : Abi}

/-- A method hook of the Java side, and the package it dumps for. -/
inductive JavaHook where
  | newApplication (p : InstalledPackage)
  | loadClass (p : InstalledPackage)

/-- What the trace records. -/
inductive Act where
  /-- `parent` exists and is a directory. -/
  | found (p : InstalledPackage)
  | mkdirs (p : InstalledPackage)
  /-- `Native.dump` patched the open function. -/
  | patched (p : InstalledPackage)

structure Proc (abi : Abi) where
  native : NativeState abi
  os : Os
  hooks : List JavaHook
  /-- ghost -/
  acts : List Act

def Proc.init (abi : Abi) : Proc abi := ⟨NativeState.init abi, ⟨Dir.empty, 0⟩, [], []⟩

/-- A loaded package and what its environment answers. -/
structure LoadPackageParam (abi : Abi) where
  packageName : InstalledPackage
  /-- The class loader finds a class of this name. -/
  classExists : String → Bool
  /-- The dump directory exists and is a directory. -/
  parentIsDirectory : Bool
  /-- `Native`'s static initialiser loads the library. -/
  nativeLoads : Bool
  io : DumpIO abi

/-- One call of the ART open function, by whoever opens a dex. -/
structure ArtOpen (abi : Abi) where
  /-- The function's address. -/
  addr : Word abi
  frame : Frame abi.bits
  env : Env abi
  memory : Word abi → UInt8
  io : NativeIO

inductive Event (abi : Abi) where
  | loadPackage (lpparam : LoadPackageParam abi)
  | artOpen (c : ArtOpen abi)
  /-- The method of hook number `i` returned an object whose dex has these
  bytes, or nothing. -/
  | javaHook (i : Nat) (dex : Option JavaBytes) (io : CallIO)

/-! ## `handleLoadPackage` -/

/-- `Native.dump(packageName)` -/
def nativeDump (sdk : Int) (lpparam : LoadPackageParam abi) (s : Proc abi) : Proc abi :=
  let native := (dump s.native lpparam.packageName.name { lpparam.io with sdk := sdk }).state
  { s with
    native := native
    acts := if native.mem.patches = s.native.mem.patches then s.acts
      else s.acts ++ [.patched lpparam.packageName] }

/-- An exception of `Native`'s initialiser leaves `init`.
mirrors app/src/main/java/com/wrbug/dumpdex/dump/LowSdkDump.java:30-46 -/
def runPlan (sdk : Int) (lpparam : LoadPackageParam abi) (plan : Xposed.Plan) (s : Proc abi) :
    Proc abi :=
  if plan.nativeDump && !lpparam.nativeLoads then s
  else
    let s := if plan.nativeDump then nativeDump sdk lpparam s else s
    if plan.hookNewApplication then
      { s with hooks := s.hooks ++ [.newApplication lpparam.packageName] }
    else s

/-- mirrors app/src/main/java/com/wrbug/dumpdex/XposedInit.java:37-57 -/
def handleLoadPackage (sdk : Int) (lpparam : LoadPackageParam abi) (s : Proc abi) : Proc abi :=
  match Xposed.find lpparam.classExists with
  | none => s
  | some type =>
    let ready : Act :=
      if lpparam.parentIsDirectory then .found lpparam.packageName else .mkdirs lpparam.packageName
    runPlan sdk lpparam (Xposed.plan sdk type) { s with acts := s.acts ++ [ready] }

/-! ## Calls of the open function and of hooked Java methods -/

/-- What a call at `addr` runs instead: the last replacement patched in there. -/
def replacement (m : Mem abi) (addr : Word abi) : Option NewFn :=
  (m.patches.filter fun e => e.1 = addr).getLast?.map (·.2)

/-- The `size` bytes from `base` on. -/
def dataAt (memory : Word abi → UInt8) (base : Ptr abi) (size : SizeT abi) : NativeBuf abi where
  bytes := (List.range size.toNat).map fun i => memory (base + BitVec.ofNat abi.bits i)
  fits := by simpa using size.isLt

def perform (pname : String) (c : ArtOpen abi) (os : Os) : HookAct abi → Os
  | .saveDexFile base size => (saveDexFile abi pname c.io os (dataAt c.memory base size)).os
  | _ => os

def artOpen (c : ArtOpen abi) (s : Proc abi) : Proc abi :=
  match replacement s.native.mem c.addr with
  | none => s
  | some fn => { s with os := (fn.enter c.env c.frame).acts.foldl (perform s.native.pname c) s.os }

/-- mirrors app/src/main/java/com/wrbug/dumpdex/dump/LowSdkDump.java:48-85 -/
def javaHook (i : Nat) (dex : Option JavaBytes) (io : CallIO) (s : Proc abi) : Proc abi :=
  match s.hooks[i]?, dex with
  | some (.newApplication p), some bytes =>
    { s with
      os := { s.os with dir := (dumpBytes p.name io s.os.dir bytes).1 }
      hooks := s.hooks ++ [.loadClass p, .loadClass p] }
  | some (.loadClass p), some bytes =>
    { s with os := { s.os with dir := (dumpBytes p.name io s.os.dir bytes).1 } }
  | _, _ => s

def step (sdk : Int) (s : Proc abi) : Event abi → Proc abi
  | .loadPackage lpparam => handleLoadPackage sdk lpparam s
  | .artOpen c => artOpen c s
  | .javaHook i dex io => javaHook i dex io s

def run (sdk : Int) (es : List (Event abi)) : Proc abi := es.foldl (step sdk) (Proc.init abi)

/-! ## What a call of the open function changes -/

theorem perform_frame (pname : String) (c : ArtOpen abi) {q : Path}
    (h : ∀ l, q ≠ savePath abi pname l) (acts : List (HookAct abi)) (os : Os) :
    (acts.foldl (perform pname c) os).dir q = os.dir q := by
  induction acts generalizing os with
  | nil => rfl
  | cons a acts ih =>
    rw [List.foldl_cons, ih]
    cases a with
    | saveDexFile base size => exact saveDexFile_frame c.io (h _)
    | log => rfl
    | callOld => rfl

theorem artOpen_unpatched {s : Proc abi} (h : s.native.mem.patches = []) (c : ArtOpen abi) :
    artOpen c s = s := by
  simp [artOpen, replacement, h]

theorem artOpen_rest (c : ArtOpen abi) (s : Proc abi) :
    (artOpen c s).native = s.native ∧ (artOpen c s).acts = s.acts ∧ (artOpen c s).hooks = s.hooks := by
  unfold artOpen
  split <;> exact ⟨rfl, rfl, rfl⟩

/-- Once the function is patched, a dex large enough for its replacement whose
file is absent is written, as far as the `write` stores it. -/
theorem captured_is_dumped {s : Proc abi} {c : ArtOpen abi} {fn : NewFn}
    (hr : replacement s.native.mem c.addr = some fn)
    (hsize : fn.startSize ≤ (c.frame (fn.basePos + 1)).toNat)
    (habs : s.os.dir (savePath abi s.native.pname (c.frame (fn.basePos + 1))) = none)
    (ho : c.io.openFails = false) :
    (artOpen c s).os.dir (savePath abi s.native.pname (c.frame (fn.basePos + 1))) =
      some (c.io.write.stored (dataAt c.memory (c.frame fn.basePos) (c.frame (fn.basePos + 1))).bytes) := by
  have hlen : NativeBuf.length (dataAt c.memory (c.frame fn.basePos) (c.frame (fn.basePos + 1))) =
      c.frame (fn.basePos + 1) := by
    apply BitVec.eq_of_toNat_eq
    rw [NativeBuf.length_toNat]
    simp [dataAt]
  rw [← hlen] at habs
  unfold artOpen
  rw [hr]
  simp only [enter_eq, callOld, prelude_of_le hsize, List.singleton_append, List.foldl_cons,
    List.foldl_nil, perform]
  rw [(saveDexFile_written c.io habs ho).1, hlen]
  exact Dir.put_self ..

/-- A path that changes is one `save_dex_file` builds from `pname`. -/
theorem artOpen_frame (c : ArtOpen abi) (s : Proc abi) {q : Path}
    (h : (artOpen c s).os.dir q ≠ s.os.dir q) :
    s.native.mem.patches ≠ [] ∧ InDir (dumpDir s.native.pname) q := by
  refine ⟨fun hp => h (by rw [artOpen_unpatched hp]), ?_⟩
  by_contra hd
  apply h
  unfold artOpen
  split
  · rfl
  · refine perform_frame s.native.pname c (fun l hl => hd ?_) _ _
    rw [hl]
    exact savePath_inDir abi s.native.pname l

/-! ## The invariant -/

/-- The directory of `p` was there or has been asked for. -/
def Ready (p : InstalledPackage) (acts : List Act) : Prop := .found p ∈ acts ∨ .mkdirs p ∈ acts

/-- Before a patch is made, the directory of its package is `Ready`. -/
def ReadyFirst (acts : List Act) : Prop :=
  ∀ pre p post, acts = pre ++ .patched p :: post → Ready p pre

/-- The packages whose `Native.dump` patched, in order. -/
def owners (acts : List Act) : List InstalledPackage :=
  acts.filterMap fun
    | .patched p => some p
    | _ => none

def JavaHook.package : JavaHook → InstalledPackage
  | .newApplication p => p
  | .loadClass p => p

structure Inv (s : Proc abi) : Prop where
  clean : CleanUntilHooked s.native
  owner : (s.native.mem.patches = [] ∧ owners s.acts = []) ∨
    (s.native.mem.patches ≠ [] ∧ ∃ p, owners s.acts = [p] ∧ s.native.pname = p.name)
  readyFirst : ReadyFirst s.acts
  hooks : ∀ h ∈ s.hooks, Ready h.package s.acts
  files : ∀ q, s.os.dir q ≠ none → ∃ p, Ready p s.acts ∧ InDir (dumpDir p.name) q

@[simp] theorem owners_append (a b : List Act) : owners (a ++ b) = owners a ++ owners b :=
  List.filterMap_append ..

theorem mem_owners {p : InstalledPackage} {acts : List Act} : p ∈ owners acts ↔ .patched p ∈ acts := by
  simp only [owners, List.mem_filterMap]
  refine ⟨fun h => ?_, fun h => ⟨_, h, rfl⟩⟩
  obtain ⟨a, ha, he⟩ := h
  cases a <;> cases he
  exact ha

theorem Ready.append {p : InstalledPackage} {acts : List Act} (h : Ready p acts) (l : List Act) :
    Ready p (acts ++ l) := h.imp (List.mem_append_left l) (List.mem_append_left l)

theorem readyFirst_snoc {acts : List Act} {a : Act} (h : ReadyFirst acts)
    (ha : ∀ p, a = .patched p → Ready p acts) : ReadyFirst (acts ++ [a]) := by
  intro pre p post e
  rcases List.eq_nil_or_concat post with rfl | ⟨post, b, rfl⟩
  · obtain ⟨rfl, he⟩ := List.append_inj' e rfl
    exact ha p (List.singleton_inj.mp he)
  · have e' : acts ++ [a] = (pre ++ .patched p :: post) ++ [b] := by simpa using e
    obtain ⟨h1, -⟩ := List.append_inj' e' rfl
    exact h pre p post h1

theorem inv_init : Inv (Proc.init abi) where
  clean := fun _ => rfl
  owner := Or.inl ⟨rfl, rfl⟩
  readyFirst := by intro pre p post e; simp [Proc.init] at e
  hooks := by simp [Proc.init]
  files := by intro q h; exact absurd rfl h

/-- More acts that patch nothing. -/
theorem Inv.act {s : Proc abi} (h : Inv s) {a : Act} (ha : ∀ p, a ≠ .patched p) :
    Inv { s with acts := s.acts ++ [a] } where
  clean := h.clean
  owner := by
    have : owners (s.acts ++ [a]) = owners s.acts := by
      rw [owners_append]
      cases a with
      | patched p => exact absurd rfl (ha p)
      | found => simp [owners]
      | mkdirs => simp [owners]
    simpa only [this] using h.owner
  readyFirst := readyFirst_snoc h.readyFirst (fun p e => absurd e (ha p))
  hooks := fun k hk => (h.hooks k hk).append _
  files := fun q hq => by
    obtain ⟨p, hp, hd⟩ := h.files q hq
    exact ⟨p, hp.append _, hd⟩

theorem inv_nativeDump {sdk : Int} {lpparam : LoadPackageParam abi} {s : Proc abi} (h : Inv s)
    (hr : Ready lpparam.packageName s.acts) : Inv (nativeDump sdk lpparam s) := by
  have hc := dump_cases s.native lpparam.packageName.name { lpparam.io with sdk := sdk }
  unfold nativeDump
  generalize (dump s.native lpparam.packageName.name { lpparam.io with sdk := sdk }).state = n at hc ⊢
  generalize (dump s.native lpparam.packageName.name { lpparam.io with sdk := sdk }).exit = x at hc
  -- unpatched and not yet given up: the owner list is empty
  have unowned : s.native.isHook = false → s.native.mem.patches = [] ∧ owners s.acts = [] := by
    intro hf
    rcases h.owner with ho | ⟨hp, -⟩
    · exact ho
    · exact absurd (h.clean hf) hp
  cases hc with
  | ignored hh => simpa using h
  | givenUp hh =>
    simp only [if_true]
    exact { h with clean := fun _ => (unowned hh).1, owner := Or.inl (unowned hh) }
  | installed hh hi ha sdkInt t =>
    obtain ⟨hp, ho⟩ := unowned hh
    have hne : (hooked s.native.mem sdkInt lpparam.io.ndkDlsym t).patches ≠ s.native.mem.patches := by
      simp [hooked]
    simp only [if_neg hne]
    refine ⟨fun hf => Bool.noConfusion hf, Or.inr ⟨by simp [hooked], lpparam.packageName, ?_, rfl⟩,
      readyFirst_snoc h.readyFirst ?_, fun k hk => (h.hooks k hk).append _, fun q hq => ?_⟩
    · show owners (s.acts ++ [_]) = _
      rw [owners_append, ho]
      rfl
    · intro p e
      cases e
      exact hr
    · obtain ⟨p, hp, hd⟩ := h.files q hq
      exact ⟨p, hp.append _, hd⟩
  | pretended hi sdkInt =>
    simp only [Mem.store_patches, if_true]
    exact { h with clean := fun hf => Bool.noConfusion hf, owner := Or.inl (unowned hi.2.1) }

theorem inv_hook {s : Proc abi} {p : InstalledPackage} (h : Inv s) (hr : Ready p s.acts) :
    Inv { s with hooks := s.hooks ++ [.newApplication p] } := by
  refine { h with hooks := fun k hk => ?_ }
  rcases List.mem_append.mp hk with hk | hk
  · exact h.hooks k hk
  · rw [List.mem_singleton.mp hk]; exact hr

theorem nativeDump_acts (sdk : Int) (lpparam : LoadPackageParam abi) (s : Proc abi) :
    ∃ l, (nativeDump sdk lpparam s).acts = s.acts ++ l := by
  unfold nativeDump
  simp only
  split
  · exact ⟨[], (List.append_nil _).symm⟩
  · exact ⟨_, rfl⟩

theorem inv_runPlan {sdk : Int} {lpparam : LoadPackageParam abi} (plan : Xposed.Plan) {s : Proc abi}
    (h : Inv s) (hr : Ready lpparam.packageName s.acts) : Inv (runPlan sdk lpparam plan s) := by
  unfold runPlan
  simp only
  split
  · exact h
  · have hd : Inv (if plan.nativeDump then nativeDump sdk lpparam s else s) := by
      split
      · exact inv_nativeDump h hr
      · exact h
    split
    · refine inv_hook hd ?_
      split
      · obtain ⟨l, hl⟩ := nativeDump_acts sdk lpparam s
        rw [hl]; exact hr.append l
      · exact hr
    · exact hd

theorem inv_loadPackage {sdk : Int} {lpparam : LoadPackageParam abi} {s : Proc abi} (h : Inv s) :
    Inv (handleLoadPackage sdk lpparam s) := by
  unfold handleLoadPackage
  split
  · exact h
  · refine inv_runPlan _ (h.act ?_) ?_
    · intro p; split <;> simp
    · unfold Ready; split <;> simp

theorem inv_artOpen {c : ArtOpen abi} {s : Proc abi} (h : Inv s) : Inv (artOpen c s) := by
  obtain ⟨hn, ha, hh⟩ := artOpen_rest c s
  refine ⟨hn ▸ h.clean, by rw [hn, ha]; exact h.owner, ha ▸ h.readyFirst,
    by rw [hh, ha]; exact h.hooks, fun q hq => ?_⟩
  rw [ha]
  by_cases hs : s.os.dir q = none
  · -- a file the replacement created: `pname` is the owner's name
    obtain ⟨hp, hd⟩ := artOpen_frame c s (q := q) (by rw [hs]; exact hq)
    rcases h.owner with ⟨he, -⟩ | ⟨-, p, ho, hpn⟩
    · exact absurd he hp
    · obtain ⟨pre, post, e⟩ := List.append_of_mem (mem_owners.mp (ho ▸ List.mem_singleton_self p))
      rw [hpn] at hd
      exact ⟨p, by rw [e]; exact (h.readyFirst pre p post e).append _, hd⟩
  · exact h.files q hs

theorem files_dumpBytes {s : Proc abi} (h : Inv s) {p : InstalledPackage} (hr : Ready p s.acts)
    (io : CallIO) (bytes : JavaBytes) (q : Path) (hq : (dumpBytes p.name io s.os.dir bytes).1 q ≠ none) :
    ∃ p, Ready p s.acts ∧ InDir (dumpDir p.name) q := by
  by_cases e : q = dumpPath p.name bytes.bytes.length
  · exact ⟨p, hr, e ▸ dumpPath_inDir p.toPackageName _⟩
  · rw [dumpBytes_dir] at hq
    split at hq
    · exact h.files q hq
    · rw [Dir.put_of_ne _ _ e] at hq
      exact h.files q hq

theorem inv_javaHook {i : Nat} {dex : Option JavaBytes} {io : CallIO} {s : Proc abi} (h : Inv s) :
    Inv (javaHook i dex io s) := by
  unfold javaHook
  split
  · rename_i p bytes hp
    have hr : Ready p s.acts := h.hooks _ (List.mem_of_getElem? hp)
    refine { h with hooks := ?_, files := fun q hq => files_dumpBytes h hr io bytes q hq }
    intro k hk
    rcases List.mem_append.mp hk with hk | hk
    · exact h.hooks k hk
    · simp only [List.mem_cons, List.not_mem_nil, or_false, or_self] at hk
      rw [hk]; exact hr
  · rename_i p bytes hp
    have hr : Ready p s.acts := h.hooks _ (List.mem_of_getElem? hp)
    exact { h with files := fun q hq => files_dumpBytes h hr io bytes q hq }
  · exact h

theorem inv_step (sdk : Int) (s : Proc abi) (e : Event abi) (h : Inv s) : Inv (step sdk s e) := by
  cases e with
  | loadPackage lpparam => exact inv_loadPackage h
  | artOpen c => exact inv_artOpen h
  | javaHook i dex io => exact inv_javaHook h

theorem inv_run (sdk : Int) (es : List (Event abi)) : Inv (run sdk es) :=
  (always_of_step (inv_step sdk) _ es inv_init).last

/-! ## Acts are only added -/

theorem runPlan_acts (sdk : Int) (lpparam : LoadPackageParam abi) (plan : Xposed.Plan) (s : Proc abi) :
    ∃ l, (runPlan sdk lpparam plan s).acts = s.acts ++ l := by
  have hd : ∃ l, (if plan.nativeDump then nativeDump sdk lpparam s else s).acts = s.acts ++ l := by
    split
    · exact nativeDump_acts sdk lpparam s
    · exact ⟨[], (List.append_nil _).symm⟩
  unfold runPlan
  simp only
  split
  · exact ⟨[], (List.append_nil _).symm⟩
  · split <;> exact hd

theorem step_acts (sdk : Int) (s : Proc abi) (e : Event abi) :
    ∃ l, (step sdk s e).acts = s.acts ++ l := by
  cases e with
  | loadPackage lpparam =>
    show ∃ l, (handleLoadPackage sdk lpparam s).acts = s.acts ++ l
    unfold handleLoadPackage
    split
    · exact ⟨[], (List.append_nil _).symm⟩
    · rename_i type _
      obtain ⟨l, hl⟩ := runPlan_acts sdk lpparam (Xposed.plan sdk type)
        { s with acts := s.acts ++ [if lpparam.parentIsDirectory then .found lpparam.packageName
          else .mkdirs lpparam.packageName] }
      exact ⟨_, hl.trans (List.append_assoc _ _ _)⟩
  | artOpen c => exact ⟨[], by rw [List.append_nil]; exact (artOpen_rest c s).2.1⟩
  | javaHook i dex io =>
    show ∃ l, (javaHook i dex io s).acts = s.acts ++ l
    refine ⟨[], ?_⟩
    rw [List.append_nil]
    unfold javaHook
    split <;> rfl

theorem acts_mono (sdk : Int) (later : List (Event abi)) (s : Proc abi) (a : Act)
    (h : a ∈ s.acts) : a ∈ (later.foldl (step sdk) s).acts := by
  induction later generalizing s with
  | nil => exact h
  | cons e later ih =>
    obtain ⟨l, hl⟩ := step_acts sdk s e
    exact ih (step sdk s e) (by rw [hl]; exact List.mem_append_left l h)

/-! ## Headline properties -/

theorem owner_of_patched {s : Proc abi} (h : Inv s) {p : InstalledPackage} (hp : .patched p ∈ s.acts) :
    owners s.acts = [p] ∧ s.native.pname = p.name := by
  have hm := mem_owners.mpr hp
  rcases h.owner with ⟨-, ho⟩ | ⟨-, q, ho, hn⟩
  · rw [ho] at hm; cases hm
  · rw [ho] at hm
    rw [List.mem_singleton.mp hm]
    exact ⟨ho, hn⟩

/-- **Dumps go to the package that installed the hook.** In every run: the
directory of a package is found or asked for before its `Native.dump`
patches; only one `Native.dump` ever patches, and whatever happens later
`pname` stays its package; and every file a call of the open function creates
lies in that package's dump directory. -/
theorem dumps_go_home (sdk : Int) (es : List (Event abi)) :
    ReadyFirst (run sdk es).acts ∧
    (∀ p, .patched p ∈ (run sdk es).acts → ∀ later : List (Event abi),
      owners (run sdk (es ++ later)).acts = [p] ∧ (run sdk (es ++ later)).native.pname = p.name) ∧
    ∀ (c : ArtOpen abi) (q : Path), (run sdk es).os.dir q = none →
      (run sdk (es ++ [.artOpen c])).os.dir q ≠ none →
      ∃ p, .patched p ∈ (run sdk es).acts ∧ InDir (dumpDir p.name) q := by
  have h := inv_run sdk es
  refine ⟨h.readyFirst, fun p hp later => ?_, fun c q h0 h1 => ?_⟩
  · refine owner_of_patched (inv_run sdk (es ++ later)) ?_
    rw [run, List.foldl_append]
    exact acts_mono sdk later _ _ hp
  · rw [run, List.foldl_append] at h1
    obtain ⟨hp, hd⟩ := artOpen_frame c (run sdk es) (q := q) (by rw [h0]; exact h1)
    rcases h.owner with ⟨he, -⟩ | ⟨-, p, ho, hn⟩
    · exact absurd he hp
    · exact ⟨p, mem_owners.mp (ho ▸ List.mem_singleton_self p), hn ▸ hd⟩

/-- A packed package on arm64 with SDK level 26. -/
def demoLoad : LoadPackageParam .arm64 where
  packageName := demoPackage
  classExists := fun _ => true
  parentIsDirectory := false
  nativeLoads := true
  io := ⟨⟨26, 1#64, 1#64⟩, ⟨.ok, .ok, demoTrampoline, some demoTrampoline⟩⟩

example : (run 26 [.loadPackage demoLoad]).acts = [.mkdirs demoPackage, .patched demoPackage] := rfl

/-- Whoever wrote it, a file is in the dump directory of a package that was
loaded before. -/
theorem java_files_home (sdk : Int) (es : List (Event abi)) (q : Path)
    (h : (run sdk es).os.dir q ≠ none) :
    ∃ p, Ready p (run sdk es).acts ∧ InDir (dumpDir p.name) q :=
  (inv_run sdk es).files q h

/-! ## Nothing is overwritten -/

/-- The existence check of `save_dex_file` does not fail. -/
def Event.Checks : Event abi → Prop
  | .artOpen c => c.io.fopenFails = false
  | _ => True

theorem saveDexFile_kept {pname : String} {io : NativeIO} {s : Os} (data : NativeBuf abi) {q : Path}
    {b : Bytes} (hf : io.fopenFails = false) (h : s.dir q = some b) :
    (saveDexFile abi pname io s data).os.dir q = some b := by
  by_cases e : q = savePath abi pname data.length
  · subst e
    have hh : s.dir.has (savePath abi pname data.length) = true := by simp [Dir.has, h]
    rw [(saveDexFile_exists io hh hf).1]
    exact h
  · rw [saveDexFile_frame io e, h]

theorem dumpBytes_kept {p : String} (io : CallIO) {d : Dir} (bytes : JavaBytes) {q : Path} {b : Bytes}
    (h : d q = some b) : (dumpBytes p io d bytes).1 q = some b := by
  rw [dumpBytes_dir]
  split
  · exact h
  · rename_i hn
    have hne : q ≠ dumpPath p bytes.bytes.length := by
      rintro rfl
      exact hn (.inl (by simp [Dir.has, h]))
    rw [Dir.put_of_ne _ _ hne, h]

theorem perform_kept (pname : String) {c : ArtOpen abi} (hf : c.io.fopenFails = false) {q : Path}
    {b : Bytes} (acts : List (HookAct abi)) {os : Os} (h : os.dir q = some b) :
    (acts.foldl (perform pname c) os).dir q = some b := by
  induction acts generalizing os with
  | nil => exact h
  | cons a acts ih =>
    refine ih ?_
    cases a with
    | saveDexFile base size => exact saveDexFile_kept _ hf h
    | log => exact h
    | callOld => exact h

theorem loadPackage_os (sdk : Int) (lpparam : LoadPackageParam abi) (s : Proc abi) :
    (handleLoadPackage sdk lpparam s).os = s.os := by
  unfold handleLoadPackage runPlan nativeDump
  simp only
  split
  · rfl
  · split
    · rfl
    · split <;> split <;> rfl

/-- One event changes no file that is there. -/
theorem step_kept (sdk : Int) {s : Proc abi} {e : Event abi} (hc : e.Checks) {q : Path} {b : Bytes}
    (h : s.os.dir q = some b) : (step sdk s e).os.dir q = some b := by
  cases e with
  | loadPackage lpparam =>
    show (handleLoadPackage sdk lpparam s).os.dir q = some b
    rw [loadPackage_os, h]
  | artOpen c =>
    show (artOpen c s).os.dir q = some b
    unfold artOpen
    split
    · exact h
    · exact perform_kept _ hc _ h
  | javaHook i dex io =>
    show (javaHook i dex io s).os.dir q = some b
    unfold javaHook
    split
    · exact dumpBytes_kept io _ h
    · exact dumpBytes_kept io _ h
    · exact h

theorem run_kept (sdk : Int) {s : Proc abi} {later : List (Event abi)} (hc : ∀ e ∈ later, e.Checks)
    {q : Path} {b : Bytes} (h : s.os.dir q = some b) : (later.foldl (step sdk) s).os.dir q = some b := by
  induction later generalizing s with
  | nil => exact h
  | cons e later ih =>
    exact ih (fun e he => hc e (List.mem_cons_of_mem _ he)) (step_kept sdk (hc e List.mem_cons_self) h)

/-- **What is opened is dumped.** In every run: when the open function is
called where it has been patched, with a dex of the size its replacement asks
for, and the existence check and `open` do not fail, then as soon as the call
returns the dump directory of the package that patched it has the file named
for the dex's length: the one that was there, or else what the `write` stored
of the dex. So it stays whatever happens, if later existence checks do not
fail. -/
theorem opened_is_dumped (sdk : Int) (es later : List (Event abi)) (c : ArtOpen abi) {fn : NewFn}
    (hr : replacement (run sdk es).native.mem c.addr = some fn)
    (hsize : fn.startSize ≤ (c.frame (fn.basePos + 1)).toNat)
    (hf : c.io.fopenFails = false) (ho : c.io.openFails = false) (hl : ∀ e ∈ later, e.Checks) :
    ∃ p : InstalledPackage, owners (run sdk (es ++ .artOpen c :: later)).acts = [p] ∧
      let path := savePath abi p.name (c.frame (fn.basePos + 1))
      (run sdk (es ++ .artOpen c :: later)).os.dir path = some
        (((run sdk es).os.dir path).getD
          (c.io.write.stored (dataAt c.memory (c.frame fn.basePos) (c.frame (fn.basePos + 1))).bytes)) := by
  have h := inv_run sdk es
  have hp : (run sdk es).native.mem.patches ≠ [] := by
    intro hp
    simp [replacement, hp] at hr
  rcases h.owner with ⟨he, -⟩ | ⟨-, p, ho', hn⟩
  · exact absurd he hp
  · have hm : .patched p ∈ (run sdk es).acts := mem_owners.mp (ho' ▸ List.mem_singleton_self p)
    refine ⟨p, ?_, ?_⟩
    · refine (owner_of_patched (inv_run sdk _) ?_).1
      rw [run, List.foldl_append]
      exact acts_mono sdk _ _ _ hm
    · intro path
      have hpath : path = savePath abi (run sdk es).native.pname (c.frame (fn.basePos + 1)) := by
        rw [hn]
      rw [run, List.foldl_append]
      refine run_kept sdk hl ?_
      change (artOpen c (run sdk es)).os.dir path = _
      cases hd : (run sdk es).os.dir path with
      | some b =>
        have hc : Event.Checks (.artOpen c) := hf
        exact step_kept sdk hc hd
      | none =>
        rw [hpath] at hd ⊢
        exact captured_is_dumped hr hsize hd ho

/-- A call of the function it patched, every parameter 102400. -/
def demoOpen : ArtOpen .arm64 :=
  ⟨1#64, fun _ => 102400#64, ⟨fun _ _ => 0#64, fun _ => 0#64⟩, fun _ => 0, ⟨false, false, .all⟩⟩

theorem opened_is_dumped_demo :
    let fn : NewFn := .arm64OpenCommon
    ∃ p : InstalledPackage, owners (run 26 ([.loadPackage demoLoad] ++ .artOpen demoOpen :: [])).acts = [p] ∧
      let path := savePath .arm64 p.name (demoOpen.frame (fn.basePos + 1))
      (run 26 ([.loadPackage demoLoad] ++ .artOpen demoOpen :: [])).os.dir path = some
        (((run 26 [.loadPackage demoLoad]).os.dir path).getD (demoOpen.io.write.stored
          (dataAt demoOpen.memory (demoOpen.frame fn.basePos) (demoOpen.frame (fn.basePos + 1))).bytes)) := by
  have hr : replacement (run 26 [.loadPackage demoLoad]).native.mem demoOpen.addr = some .arm64OpenCommon := rfl
  have hs : NewFn.arm64OpenCommon.startSize ≤ (demoOpen.frame (NewFn.arm64OpenCommon.basePos + 1)).toNat := by
    decide
  exact opened_is_dumped 26 [.loadPackage demoLoad] [] demoOpen hr hs rfl rfl (fun _ h => nomatch h)

end DumpDex.L4.Process
