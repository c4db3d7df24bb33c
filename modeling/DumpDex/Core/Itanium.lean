import Mathlib.Data.Nat.Notation

/-!
# Mangled names (the Itanium C++ ABI)

A mangled function name lists the function's parameter types. `paramTypes`
reads them off for the fragment in which a name is nested (`_ZN .. E`) and a
type is a builtin, a pointer, a reference, a `const` type or a class, possibly
a member of a namespace and possibly a template instance.

Every type and every name prefix met on the way is a substitution candidate;
`S_`, `S0_`, `S1_`, .. stand for the candidates in the order they were met.
The function's own full name is not one.

`Ty.bits` is what a C call passes for a parameter: one machine word holding
a value of so many bits. A class passed by value goes by address (its classes
here are not trivially copyable), and a type wider than a word has none.
-/
namespace DumpDex.Core.Itanium

inductive Ty where
  | builtin (code : Char)
  /-- `St`, the namespace `std`. -/
  | std
  | ident (name : List Char)
  | member (scope : Ty) (name : List Char)
  /-- A template applied to one more argument. -/
  | inst (template arg : Ty)
  | const (t : Ty)
  | pointer (t : Ty)
  | reference (t : Ty)
  deriving DecidableEq, Repr

/-- What is left of the name, and the substitution candidates so far. -/
abbrev St := List Char × List Ty

def builtinCodes : List Char := "vwbcahstijlmxy".toList

/-- The value of a run of decimal digits and what follows it. -/
def number : Nat → List Char → Nat × List Char
  | acc, c :: cs => if c.isDigit then number (acc * 10 + (c.toNat - '0'.toNat)) cs else (acc, c :: cs)
  | acc, [] => (acc, [])

/-- A length and that many characters. -/
def sourceName (cs : List Char) : Option (List Char × List Char) :=
  let (n, rest) := number 0 cs
  if n ≤ rest.length then some (rest.take n, rest.drop n) else none

/-- The digits of a substitution: base 36, upper case. -/
def seqDigit (c : Char) : Option Nat :=
  if c.isDigit then some (c.toNat - '0'.toNat)
  else if c.isUpper then some (c.toNat - 'A'.toNat + 10)
  else none

def seqId : Nat → List Char → Option (Nat × List Char)
  | acc, '_' :: cs => some (acc + 1, cs)
  | acc, c :: cs => (seqDigit c).bind fun d => seqId (acc * 36 + d) cs
  | _, [] => none

/-- After the `S`: `_` is candidate 0, `0_` candidate 1 and so on. -/
def substitution (subs : List Ty) : List Char → Option (Ty × List Char)
  | '_' :: cs => subs[0]?.map (·, cs)
  | cs => (seqId 0 cs).bind fun (i, rest) => subs[i]?.map (·, rest)

/-- One more candidate. -/
def remember (t : Ty) (s : St) : Ty × St := (t, s.1, s.2 ++ [t])

mutual
/-- One type. -/
def parseType : Nat → St → Option (Ty × St)
  | 0, _ => none
  | fuel + 1, ('P' :: cs, subs) => (parseType fuel (cs, subs)).map fun (t, s) => remember (.pointer t) s
  | fuel + 1, ('R' :: cs, subs) => (parseType fuel (cs, subs)).map fun (t, s) => remember (.reference t) s
  | fuel + 1, ('K' :: cs, subs) => (parseType fuel (cs, subs)).map fun (t, s) => remember (.const t) s
  | fuel + 1, ('N' :: cs, subs) => parseNested fuel none (cs, subs)
  | _ + 1, ('S' :: cs, subs) => (substitution subs cs).map fun (t, rest) => (t, rest, subs)
  | _ + 1, (c :: cs, subs) =>
    if c ∈ builtinCodes then some (.builtin c, cs, subs)
    else if c.isDigit then
      (sourceName (c :: cs)).map fun (name, rest) => remember (.ident name) (rest, subs)
    else none
  | _ + 1, ([], _) => none

/-- The components of a nested name up to its `E`; `scope` is what is read of it. -/
def parseNested : Nat → Option Ty → St → Option (Ty × St)
  | 0, _, _ => none
  | _ + 1, some t, ('E' :: cs, subs) => some (t, cs, subs)
  | fuel + 1, none, ('S' :: 't' :: cs, subs) => parseNested fuel (some .std) (cs, subs)
  | fuel + 1, none, ('S' :: cs, subs) =>
    (substitution subs cs).bind fun (t, rest) => parseNested fuel (some t) (rest, subs)
  | fuel + 1, some t, ('I' :: cs, subs) =>
    (parseArgs fuel t (cs, subs)).bind fun (t, s) =>
      let (t, s) := remember t s
      parseNested fuel (some t) s
  | fuel + 1, scope, (c :: cs, subs) =>
    if c.isDigit then
      (sourceName (c :: cs)).bind fun (name, rest) =>
        let (t, s) := remember (scope.elim (.ident name) (.member · name)) (rest, subs)
        parseNested fuel (some t) s
    else none
  | _ + 1, _, ([], _) => none

/-- Template arguments up to their `E`. -/
def parseArgs : Nat → Ty → St → Option (Ty × St)
  | 0, _, _ => none
  | _ + 1, t, ('E' :: cs, subs) => some (t, cs, subs)
  | fuel + 1, t, s => (parseType fuel s).bind fun (arg, s) => parseArgs fuel (.inst t arg) s
end

/-- The types up to the end of the name. -/
def parseTypes : Nat → St → Option (List Ty)
  | _, ([], _) => some []
  | 0, _ => none
  | fuel + 1, s => (parseType (fuel + 1) s).bind fun (t, s) => (parseTypes fuel s).map (t :: ·)

/-- The parameter types of a nested, non-template function. A sole `v` is an
empty list. -/
def paramTypes (mangled : List Char) : Option (List Ty) :=
  match mangled with
  | '_' :: 'Z' :: 'N' :: cs =>
    match parseNested cs.length none (cs, []) with
    | some (_, rest, subs) =>
      if rest = ['v'] then some [] else parseTypes rest.length (rest, subs.dropLast)
    | none => none
  | _ => none

/-- The bits of the value one parameter takes, in a word of `word` bits. -/
def Ty.bits (word : Nat) : Ty → Option Nat
  | .builtin c =>
    if c = 'b' then some 1
    else if c ∈ ['c', 'a', 'h'] then some 8
    else if c ∈ ['s', 't'] then some 16
    else if c ∈ ['w', 'i', 'j'] then some 32
    else if c ∈ ['l', 'm'] then some word
    else if c ∈ ['x', 'y'] ∧ 64 ≤ word then some 64
    else none
  | .const t => t.bits word
  | .std => none
  | _ => some word

/-- The widths of all parameters, in order. -/
def paramBits (word : Nat) (mangled : String) : Option (List Nat) :=
  (paramTypes mangled.toList).bind fun ts => ts.mapM (Ty.bits word)

/-- A literal is its list of characters, so this evaluates without decoding
the bytes of the string. -/
theorem paramBits_ofList (word : Nat) (cs : List Char) :
    paramBits word (String.ofList cs) = (paramTypes cs).bind fun ts => ts.mapM (Ty.bits word) := by
  rw [paramBits, String.toList_ofList]

end DumpDex.Core.Itanium
