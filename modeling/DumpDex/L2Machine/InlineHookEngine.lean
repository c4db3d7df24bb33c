import DumpDex.L2Machine.InlineHook
import DumpDex.L2Machine.Relocate
import Mathlib.Logic.Function.Basic

/-!
# The 32-bit hook engine on memory (`inlineHook.c`)

`InlineHook` knows of a target only whether it is patched. Here are the bytes:
the code of the process, what an item saved of it, the trampolines; the
threads, whose program counters are moved while they are frozen; and all of
the engine's functions, whether the module calls them or not.

The table is an array that is never cleared. A new item is given whatever slot
comes next, with what an item that was deleted has left there, and every field
is overwritten but one: `count`, to which `relocateInstruction` adds. The ints
of an item are kept as they lie, `orig_boundaries[4]`,
`trampoline_boundaries[20]` and `count` behind one another, since nothing
keeps an index within its array.
-/
namespace DumpDex.L2.InlineHookEngine
open DumpDex.L2.HookEngine (Ele7enStatus)
open DumpDex.L2.InlineHook (HookStatus maxItems testBit0 setBit0)
open DumpDex.L2.Relocate

/-- `CLEAR_BIT0` -/
def clearBit0 (addr : Addr) : Addr := addr &&& 0xFFFFFFFE

/-- mirrors app/src/main/cpp/inlineHook.c:43-55 -/
structure InlineHookItem where
  targetAddr : Addr
  newAddr : Addr
  protoAddr : Addr
  origInstructions : List Byte
  ints : Nat → Nat
  trampolineInstructions : Addr
  length : Nat
  status : HookStatus

def InlineHookItem.origBoundary (item : InlineHookItem) (i : Nat) : Nat := item.ints i

def InlineHookItem.trampolineBoundary (item : InlineHookItem) (i : Nat) : Nat := item.ints (4 + i)

/-- Where `count` lies. -/
def countAt : Nat := 24

def InlineHookItem.count (item : InlineHookItem) : Nat := item.ints countAt

/-- mirrors app/src/main/cpp/inlineHook.c:57-60 -/
structure InlineHookInfo where
  item : Nat → InlineHookItem
  size : Nat

abbrev Tid := Nat

structure Engine where
  code : Addr → Byte
  /-- The pages `mmap` returned, as far as they have been written. -/
  pages : Addr → Option (List Byte)
  /-- `*proto_addr` -/
  protos : Addr → Addr
  info : InlineHookInfo
  /-- `ARM_pc` of the threads. -/
  pc : Tid → Addr

/-! ## Memory -/

/-- `bs` written from `a` on. -/
def store (a : Addr) (bs : List Byte) (code : Addr → Byte) : Addr → Byte := fun x =>
  (bs[(x - a).toNat]?).getD (code x)

/-- The `n` bytes from `a` on. -/
def load (code : Addr → Byte) (a : Addr) (n : Nat) : List Byte :=
  (List.range n).map fun k => code (a + BitVec.ofNat 32 k)

def word (code : Addr → Byte) (a : Addr) : BitVec 32 := (wordsOf (load code a 4)).headD 0

/-! ## Threads -/

inductive Action where
  | enable
  | disable
  deriving DecidableEq, Repr

/-- The new program counter, if there is one.
mirrors app/src/main/cpp/inlineHook.c:93-120 -/
def doProcessThreadPC (item : InlineHookItem) (action : Action) (pc : Addr) : Option Addr :=
  match action with
  | .enable =>
    let offset := pc - clearBit0 item.targetAddr
    ((List.range item.count).find? fun i => offset = BitVec.ofNat 32 (item.origBoundary i)).map fun i =>
      item.trampolineInstructions + BitVec.ofNat 32 (item.trampolineBoundary i)
  | .disable =>
    let offset := pc - item.trampolineInstructions
    ((List.range item.count).find? fun i => offset = BitVec.ofNat 32 (item.trampolineBoundary i)).map fun i =>
      clearBit0 item.targetAddr + BitVec.ofNat 32 (item.origBoundary i)

/-- `item` is `none` where the source passes NULL.
mirrors app/src/main/cpp/inlineHook.c:122-140 -/
def processThreadPC (info : InlineHookInfo) (item : Option InlineHookItem) (action : Action) (pc : Addr) :
    Addr :=
  match item with
  | some item => (doProcessThreadPC item action pc).getD pc
  | none =>
    ((List.range info.size).findSome? fun pos => doProcessThreadPC (info.item pos) action pc).getD pc

/-- The threads the forked child can attach to are stopped and sent where
their code has gone.
mirrors app/src/main/cpp/inlineHook.c:142-175 -/
def freeze (attached : Tid → Bool) (item : Option InlineHookItem) (action : Action) (s : Engine) :
    Engine :=
  { s with
    pc := fun tid => if attached tid then processThreadPC s.info item action (s.pc tid) else s.pc tid }

/-! ## The table -/

/-- mirrors app/src/main/cpp/inlineHook.c:213-223 -/
def findInlineHookItem (info : InlineHookInfo) (targetAddr : Addr) : Option Nat :=
  (List.range info.size).find? fun i => (info.item i).targetAddr = targetAddr

/-- mirrors app/src/main/cpp/inlineHook.c:238-241 -/
def deleteInlineHookItem (info : InlineHookInfo) (pos : Nat) : InlineHookInfo :=
  ⟨Function.update info.item pos (info.item (info.size - 1)), info.size - 1⟩

/-- `orig_boundaries[*count] = ..; trampoline_boundaries[*count] = ..; ++(*count);`,
nothing when that is no longer within the item's ints. -/
def record (b : Nat × Nat) (ints : Nat → Nat) : Option (Nat → Nat) :=
  if ints countAt < 20 then
    let ints := Function.update ints (ints countAt) b.1
    let ints := Function.update ints (4 + ints countAt) b.2
    some (Function.update ints countAt (ints countAt + 1))
  else none

/-- What a registration finds outside of the engine. -/
structure RegisterIO where
  targetExecutable : Bool
  newExecutable : Bool
  /-- What `mmap` returns. -/
  page : Addr

/-- The item written over what the slot has held.
mirrors app/src/main/cpp/inlineHook.c:262-280 -/
def fillItem (io : RegisterIO) (code : Addr → Byte) (targetAddr newAddr protoAddr : Addr)
    (slot : InlineHookItem) : Option (InlineHookItem × List Byte) :=
  let length := if testBit0 targetAddr then 12 else 8
  let origInstructions := load code (clearBit0 targetAddr) length
  let moved := relocateInstruction (word code) targetAddr origInstructions
  (moved.boundaries.foldlM (fun ints b => record b ints) slot.ints).map fun ints =>
    ({ targetAddr := targetAddr
       newAddr := newAddr
       protoAddr := protoAddr
       origInstructions := origInstructions
       ints := ints
       trampolineInstructions := io.page
       length := length
       status := .registered }, moved.out)

/-- `none` when the table is full (the item is written through NULL) or the
item's ints are.
mirrors app/src/main/cpp/inlineHook.c:243-283 -/
def registerInlineHook (io : RegisterIO) (s : Engine) (targetAddr newAddr protoAddr : Addr) :
    Option (Ele7enStatus × Engine) :=
  if !io.targetExecutable || !io.newExecutable then some (.errorNotExecutable, s)
  else
    match findInlineHookItem s.info targetAddr with
    | some i =>
      match (s.info.item i).status with
      | .registered => some (.errorAlreadyRegistered, s)
      | .hooked => some (.errorAlreadyHooked, s)
    | none =>
      if s.info.size ≥ maxItems then none
      else
        (fillItem io s.code targetAddr newAddr protoAddr (s.info.item s.info.size)).map fun (item, out) =>
          (.ok,
            { s with
              pages := Function.update s.pages io.page (some out)
              info := ⟨Function.update s.info.item s.info.size item, s.info.size + 1⟩ })

/-! ## Patching -/

/-- The bytes written over the function.
mirrors app/src/main/cpp/inlineHook.c:345-359 -/
def patch (targetAddr newAddr : Addr) : List Byte :=
  if testBit0 targetAddr then
    ((if clearBit0 targetAddr % 4 ≠ 0 then [0xBF00] else []) ++ [0xF8DF, 0xF000] ++
      halves newAddr).flatMap bytes16
  else [0xe51ff004, newAddr].flatMap bytes32

def InlineHookItem.patch (item : InlineHookItem) : List Byte :=
  InlineHookEngine.patch item.targetAddr item.newAddr

/-- What is saved in `*proto_addr`. -/
def InlineHookItem.proto (item : InlineHookItem) : Addr :=
  if testBit0 item.targetAddr then setBit0 item.trampolineInstructions else item.trampolineInstructions

/-- mirrors app/src/main/cpp/inlineHook.c:336-368 -/
def doInlineHook (i : Nat) (s : Engine) : Engine :=
  let item := s.info.item i
  { s with
    code := store (clearBit0 item.targetAddr) item.patch s.code
    protos := if item.protoAddr ≠ 0 then Function.update s.protos item.protoAddr item.proto else s.protos
    info := { s.info with item := Function.update s.info.item i { item with status := .hooked } } }

/-- mirrors app/src/main/cpp/inlineHook.c:285-298 -/
def doInlineUnHook (pos : Nat) (s : Engine) : Engine :=
  let item := s.info.item pos
  { s with
    code := store (clearBit0 item.targetAddr) (item.origInstructions.take item.length) s.code
    pages := Function.update s.pages item.trampolineInstructions none
    info := deleteInlineHookItem s.info pos }

/-- mirrors app/src/main/cpp/inlineHook.c:370-401 -/
def inlineHook (attached : Tid → Bool) (s : Engine) (targetAddr : Addr) : Ele7enStatus × Engine :=
  match findInlineHookItem s.info targetAddr with
  | none => (.errorNotRegistered, s)
  | some i =>
    match (s.info.item i).status with
    | .registered => (.ok, doInlineHook i (freeze attached (some (s.info.item i)) .enable s))
    | .hooked => (.errorAlreadyHooked, s)

/-- mirrors app/src/main/cpp/inlineHook.c:300-318 -/
def inlineUnHook (attached : Tid → Bool) (s : Engine) (targetAddr : Addr) : Ele7enStatus × Engine :=
  match (List.range s.info.size).find? fun i =>
      (s.info.item i).targetAddr = targetAddr ∧ (s.info.item i).status = .hooked with
  | some i => (.ok, doInlineUnHook i (freeze attached (some (s.info.item i)) .disable s))
  | none => (.errorNotHooked, s)

/-- The rounds for `i`, `i + 1`, ..
mirrors app/src/main/cpp/inlineHook.c:409-413 -/
def hookLoop : Nat → Nat → Engine → Engine
  | 0, _, s => s
  | n + 1, i, s =>
    hookLoop n (i + 1) (if (s.info.item i).status = .registered then doInlineHook i s else s)

/-- mirrors app/src/main/cpp/inlineHook.c:403-416 -/
def inlineHookAll (attached : Tid → Bool) (s : Engine) : Engine :=
  let s := freeze attached none .enable s
  hookLoop s.info.size 0 s

/-- At most `n` rounds. A round goes to the next item or makes the table
shorter, so as many as there are items are enough.
mirrors app/src/main/cpp/inlineHook.c:326-331 -/
def unHookLoop : Nat → Nat → Engine → Engine
  | 0, _, s => s
  | n + 1, i, s =>
    if i < s.info.size then
      if (s.info.item i).status = .hooked then unHookLoop n i (doInlineUnHook i s)
      else unHookLoop n (i + 1) s
    else s

/-- mirrors app/src/main/cpp/inlineHook.c:320-334 -/
def inlineUnHookAll (attached : Tid → Bool) (s : Engine) : Engine :=
  let s := freeze attached none .disable s
  unHookLoop s.info.size 0 s

end DumpDex.L2.InlineHookEngine
