import DumpDex.Core.A64

/-!
# Moving instructions (`And64InlineHook.cpp`, `__fix_instructions`)

The first instructions of a hooked function are moved into a slot of the pool.
One pass reads them in order and writes, for each, words that are to do the
same from their new place; at the end comes a jump back behind the moved
instructions. Pointers into the pool are kept as the number of words written
so far, `Context.out`.

Four functions try in turn to treat an instruction that depends on its
address; what none of them claims is copied. A reference to an instruction
that is moved as well (`special_fix_type`) becomes one to its new place; when
that is not known yet, the word is entered in the fix map of the instruction
referred to, and completed once that is moved (`processFixMap`).
-/
namespace DumpDex.L2.FixInstructions
open DumpDex.Core.A64

/-- `count` instructions at `base` are moved to `slot`. -/
structure Job where
  text : Text
  base : Int
  count : Nat
  slot : Int

def Job.endp (j : Job) : Int := j.base + 4 * j.count

/-- mirrors app/src/main/cpp/And64InlineHook.cpp:53-57; `bp` is an index. -/
structure FixInfo where
  bp : Nat
  ls : Nat
  ad : Insn
  deriving DecidableEq, Repr

/-- mirrors app/src/main/cpp/And64InlineHook.cpp:52-68, with the two cursors;
`fmap` holds the entries whose `bp` is not NULL. -/
structure Context where
  inp : Int
  out : List Insn
  ins : Nat → Int
  fmap : Nat → List FixInfo

def nop : Insn := 0xd503201f

/-- mirrors app/src/main/cpp/And64InlineHook.cpp:42 -/
def maxReferences : Nat := 10

section Cursors
variable (j : Job)

def outp (s : Context) : Int := j.slot + 4 * s.out.length

def emit (ws : List Insn) (s : Context) : Context := { s with out := s.out ++ ws }

/-- The eight bytes of an address. -/
def dword (a : Int) : List Insn :=
  [(BitVec.ofInt 64 a).extractLsb' 0 32, (BitVec.ofInt 64 a).extractLsb' 32 32]

/-- mirrors app/src/main/cpp/And64InlineHook.cpp:71-73 -/
def isInFixingRange (absoluteAddr : Int) : Bool := j.base ≤ absoluteAddr && absoluteAddr < j.endp

/-- mirrors app/src/main/cpp/And64InlineHook.cpp:75-77 -/
def getRefInsIndex (absoluteAddr : Int) : Nat := ((absoluteAddr - j.base) / 4).toNat

/-- mirrors app/src/main/cpp/And64InlineHook.cpp:85-87 -/
def resetCurrentIns (idx : Nat) (s : Context) : Context :=
  { s with ins := Function.update s.ins idx (outp j s) }

/-- mirrors app/src/main/cpp/And64InlineHook.cpp:79-83 -/
def getAndSetCurrentIndex (s : Context) : Nat × Context :=
  let currentIdx := getRefInsIndex j s.inp
  (currentIdx, resetCurrentIns j currentIdx s)

/-- mirrors app/src/main/cpp/And64InlineHook.cpp:89-100 -/
def insertFixMap (idx : Nat) (f : FixInfo) (s : Context) : Context :=
  if (s.fmap idx).length < maxReferences then
    { s with fmap := Function.update s.fmap idx (s.fmap idx ++ [f]) }
  else s

/-- The word an entry completes, the instruction referred to being at `ins`. -/
def FixInfo.fix (ins : Int) (f : FixInfo) (w : Insn) : Insn :=
  w ||| (((BitVec.ofInt 32 (ins - (j.slot + 4 * f.bp))).sshiftRight 2 <<< f.ls) &&& f.ad)

/-- mirrors app/src/main/cpp/And64InlineHook.cpp:102-110 -/
def processFixMap (idx : Nat) (s : Context) : Context :=
  { s with
    out := (s.fmap idx).foldl (fun out f => out.modify f.bp (f.fix j (s.ins idx))) s.out
    fmap := Function.update s.fmap idx [] }

/-- What three of the functions do before they write one word: how far the
word's target is from it in bytes, 0 where that is left to the fix map. -/
def refOffset (currentIdx refIdx : Nat) (absoluteAddr : Int) (ls : Nat) (ad : Insn) (s : Context) :
    Int × Context :=
  if isInFixingRange j absoluteAddr then
    if refIdx ≤ currentIdx then (s.ins refIdx - outp j s, s)
    else (0, insertFixMap refIdx ⟨s.out.length, ls, ad⟩ s)
  else (absoluteAddr - outp j s, s)

/-- `if (cond) { (*outpp)[0] = A64_NOP; reset_current_ins(idx, ++(*outpp)); }` -/
def nopIf (cond : Bool) (idx : Nat) (s : Context) : Context :=
  if cond then resetCurrentIns j idx (emit [nop] s) else s

/-- `while (cond) *(*outpp)++ = A64_NOP;`, at most `n` times. -/
def nopWhile (cond : Context → Bool) : Nat → Context → Context
  | 0, s => s
  | n + 1, s => if cond s then nopWhile cond n (emit [nop] s) else s

/-- `++(*inpp); ctxp->process_fix_map(idx);` -/
def finish (idx : Nat) (s : Context) : Context := processFixMap j idx { s with inp := s.inp + 4 }

end Cursors

/-! ## Branches -/

section Fixers
variable (j : Job) (s : Context)

/-- mirrors app/src/main/cpp/And64InlineHook.cpp:115-180 -/
def fixBranchImm : Option Context :=
  let mask : Insn := 0xfc000000
  let rmask : Insn := 0x03ffffff
  let opB : Insn := 0x14000000
  let opBl : Insn := 0x94000000
  let ins := j.text s.inp
  let opc := ins &&& mask
  if opc = opB ∨ opc = opBl then
    let (currentIdx, s) := getAndSetCurrentIndex j s
    let absoluteAddr := s.inp + ((ins <<< 6).sshiftRight 4).toInt
    let newPcOffset := (absoluteAddr - outp j s) / 4
    let special := isInFixingRange j absoluteAddr
    let s :=
      if !special && newPcOffset.natAbs > rmask.toNat then
        let bAligned := (outp j s + 8) % 8 == 0
        if opc = opB then
          emit ([0x58000051, 0xd61f0220] ++ dword absoluteAddr) (nopIf j bAligned currentIdx s)
        else
          emit ([0x58000071, 0x1000009e, 0xd61f0220] ++ dword absoluteAddr)
            (nopIf j (!bAligned) currentIdx s)
      else
        let (off, s) :=
          refOffset j currentIdx (getRefInsIndex j absoluteAddr) absoluteAddr 0 rmask s
        emit [opc ||| (BitVec.ofInt 32 (off / 4) &&& ~~~mask)] s
    some (finish j currentIdx s)
  else none

/-- The bits of a conditional branch that are not its distance.
mirrors app/src/main/cpp/And64InlineHook.cpp:197-208 -/
def condLmask (ins : Insn) : Option Insn :=
  if ins &&& 0xff000010 = 0x54000000 then some 0xff00001f
  else if ins &&& 0x7f000000 = 0x34000000 ∨ ins &&& 0x7f000000 = 0x35000000 then some 0xff00001f
  else if ins &&& 0x7f000000 = 0x36000000 ∨ ins &&& 0x7f000000 = 0x37000000 then some 0xfff8001f
  else none

/-- mirrors app/src/main/cpp/And64InlineHook.cpp:184-244 -/
def fixCondCompTestBranch : Option Context :=
  let lsb := 5
  let ins := j.text s.inp
  (condLmask ins).map fun lmask =>
    let (currentIdx, s) := getAndSetCurrentIndex j s
    let absoluteAddr := s.inp + ((ins &&& ~~~lmask) >>> (lsb - 2)).toNat
    let newPcOffset := (absoluteAddr - outp j s) / 4
    let special := isInFixingRange j absoluteAddr
    let s :=
      if !special && newPcOffset.natAbs > (~~~lmask >>> lsb).toNat then
        emit ([(((8 >>> 2) <<< lsb) &&& ~~~lmask) ||| (ins &&& lmask), 0x14000005, 0x58000051,
          0xd61f0220] ++ dword absoluteAddr)
          (nopIf j ((outp j s + 16) % 8 != 0) currentIdx s)
      else
        let (off, s) :=
          refOffset j currentIdx (getRefInsIndex j absoluteAddr) absoluteAddr lsb (~~~lmask) s
        emit [(BitVec.ofInt 32 (off / 4) <<< lsb &&& ~~~lmask) ||| (ins &&& lmask)] s
    finish j currentIdx s

/-! ## Loads of a literal -/

/-- The mask of the load and one less than the bytes it is to be aligned to.
mirrors app/src/main/cpp/And64InlineHook.cpp:275-288 -/
def loadlitMask (ins : Insn) : Option (Insn × Nat) :=
  let mask30 := ins &&& 0x40000000 ≠ 0
  let mask31 := ins &&& 0x80000000 ≠ 0
  if ins &&& 0xbf000000 = 0x18000000 then some (0xbf000000, if mask30 then 7 else 3)
  else if ins &&& 0x3f000000 = 0x1c000000 then
    some (0x3f000000, if mask30 then 7 else if mask31 then 15 else 3)
  else if ins &&& 0xff000000 = 0x98000000 then some (0xff000000, 7)
  else none

/-- `memcpy(.., absolute_addr, n)` -/
def dataWords (text : Text) (absoluteAddr : Int) (n : Nat) : List Insn :=
  (List.range n).map fun (k : Nat) => text (absoluteAddr + 4 * k)

/-- mirrors app/src/main/cpp/And64InlineHook.cpp:248-325 -/
def fixLoadlit : Option Context :=
  let lsb := 5
  let lmask : Insn := 0xff00001f
  let ins := j.text s.inp
  if ins &&& 0xff000000 = 0xd8000000 then
    let (currentIdx, s) := getAndSetCurrentIndex j s
    some (finish j currentIdx s)
  else
    (loadlitMask ins).map fun (mask, faligned) =>
      let (currentIdx, s) := getAndSetCurrentIndex j s
      let absoluteAddr := s.inp + ((ins <<< 8).sshiftRight 11 &&& ~~~3#32).toNat
      let newPcOffset := (absoluteAddr - outp j s) / 4
      let special := isInFixingRange j absoluteAddr
      let s :=
        if special || newPcOffset.natAbs + (faligned + 1 - 4) > (~~~lmask >>> lsb).toNat then
          let s := resetCurrentIns j currentIdx
            (nopWhile (fun s => (outp j s + 8) % (faligned + 1) != 0) 4 s)
          let ns := (faligned + 1) / 4
          emit ([(((8 >>> 2) <<< lsb) &&& ~~~mask) ||| (ins &&& lmask), 0x14000001 + BitVec.ofNat 32 ns] ++
            dataWords j.text absoluteAddr ns) s
        else
          let s := resetCurrentIns j currentIdx
            (nopWhile (fun s => (absoluteAddr - outp j s) / 4 % (faligned / 4 + 1) != 0) 4 s)
          emit [(BitVec.ofInt 32 ((absoluteAddr - outp j s) / 4) <<< lsb &&& ~~~mask) |||
            (ins &&& lmask)] s
      finish j currentIdx s

/-! ## Addresses -/

/-- `LDR Xd, #8; B #12` and the address. -/
def loadAddress (ins : Insn) (absoluteAddr : Int) : List Insn :=
  [0x58000000 ||| (((8 >>> 2) <<< 5) &&& ~~~0x9f000000) ||| (ins &&& 0x0000001f), 0x14000003] ++
    dword absoluteAddr

/-- The distance of `ADR` and `ADRP` as the code reads it, in 32 bits. -/
def adrOffset (ins : Insn) : Insn :=
  ((ins <<< 8).sshiftRight 11 &&& ~~~3#32) ||| ((ins <<< 1) >>> 30)

/-- mirrors app/src/main/cpp/And64InlineHook.cpp:329-424 -/
def fixPcreladdr : Option Context :=
  let lsb := 5
  let mask : Insn := 0x9f000000
  let fmask : Insn := 0x00ffffff
  let lmask : Insn := 0xff00001f
  let maxVal := 0x001fffff
  let ins := j.text s.inp
  if ins &&& mask = 0x10000000 then
    let (currentIdx, s) := getAndSetCurrentIndex j s
    let absoluteAddr := s.inp + (adrOffset ins).toNat
    let newPcOffset := absoluteAddr - outp j s
    let special := isInFixingRange j absoluteAddr
    let s :=
      if !special && newPcOffset.natAbs > maxVal then
        emit (loadAddress ins absoluteAddr) (nopIf j ((outp j s + 8) % 8 != 0) currentIdx s)
      else
        let (off, s) := refOffset j currentIdx
          (getRefInsIndex j (absoluteAddr - absoluteAddr % 4)) absoluteAddr lsb fmask s
        emit [(BitVec.ofInt 32 off <<< (lsb - 2) &&& fmask) ||| (ins &&& lmask)] s
    some (finish j currentIdx s)
  else if ins &&& mask = 0x90000000 then
    let (currentIdx, s) := getAndSetCurrentIndex j s
    let absoluteAddr := s.inp - s.inp % 4096 + (adrOffset ins <<< 12).toNat
    let s :=
      if isInFixingRange j absoluteAddr then emit [ins] s
      else emit (loadAddress ins absoluteAddr) (nopIf j ((outp j s + 8) % 8 != 0) currentIdx s)
    some (finish j currentIdx s)
  else none

/-! ## The pass -/

/-- Without PC-relative offset. -/
def copyInstruction : Context :=
  let ins := j.text s.inp
  let (currentIdx, s) := getAndSetCurrentIndex j s
  finish j currentIdx (emit [ins] s)

/-- mirrors app/src/main/cpp/And64InlineHook.cpp:441-450 -/
def fixOne : Context :=
  (fixBranchImm j s <|> fixCondCompTestBranch j s <|> fixLoadlit j s <|> fixPcreladdr j s).getD
    (copyInstruction j s)

end Fixers

def fixLoop (j : Job) : Nat → Context → Context
  | 0, s => s
  | count + 1, s => fixLoop j count (fixOne j s)

/-- The jump behind the moved instructions.
mirrors app/src/main/cpp/And64InlineHook.cpp:452-467 -/
def jumpBack (j : Job) (s : Context) : Context :=
  let callback := s.inp
  let pcOffset := (callback - outp j s) / 4
  if pcOffset.natAbs > 0x03ffffff then
    let s := if (outp j s + 8) % 8 ≠ 0 then emit [nop] s else s
    emit ([0x58000051, 0xd61f0220] ++ dword callback) s
  else emit [0x14000000 ||| (BitVec.ofInt 32 pcOffset &&& 0x03ffffff)] s

/-- The context before the pass. -/
def Context.start (j : Job) : Context := ⟨j.base, [], fun _ => 0, fun _ => []⟩

/-- mirrors app/src/main/cpp/And64InlineHook.cpp:428-468 -/
def fixInstructions (j : Job) : Context := jumpBack j (fixLoop j j.count (Context.start j))

end DumpDex.L2.FixInstructions
