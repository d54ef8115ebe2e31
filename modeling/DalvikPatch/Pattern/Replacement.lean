import DalvikPatch.Pattern.Program
import DalvikPatch.Pattern.Reader

/-! Replacing every match of a pattern. In the new text a dollar sign calls for a group by number
or name; two of them stand for one, and one that calls for nothing stands for itself. A match of
nothing right behind another match is passed over. -/

namespace DalvikPatch.Pattern

open Text

/-! ### Templates -/

inductive Part where
  | char (c : Char)
  | group (n : Nat)
  | named (name : Text)
  deriving DecidableEq

/-- The group that a name calls for: a number is one, whatever its digits. -/
def Part.ofName (name : Text) : Part :=
  let digits := match name with
    | '+' :: ds => ds
    | ds => ds
  if digits ≠ [] ∧ digits.all Char.isDigit ∧ Numeral.value 10 digits < 18446744073709551616 then
    .group (Numeral.value 10 digits)
  else .named name

def isGroupChar (c : Char) : Bool := c.isAlphanum || c == '_'

/-- Reads a call for a group after its dollar sign. -/
def readCall? : Text → Option (Part × Text)
  | '{' :: s => (cut? ['}'] s).map fun p => (.ofName p.1, p.2)
  | s =>
    if (s.takeWhile isGroupChar).isEmpty then none
    else some (.ofName (s.takeWhile isGroupChar), s.dropWhile isGroupChar)

/-- The parts of a template. -/
def parts (s : Text) : List Part :=
  match s with
  | [] => []
  | '$' :: '$' :: s => .char '$' :: parts s
  | '$' :: s =>
    match readCall? s with
    | none => .char '$' :: parts s
    | some (p, rest) => if _ : rest.length ≤ s.length then p :: parts rest else []
  | c :: s => .char c :: parts s
termination_by s.length

/-- A pattern ready to run, with the names of its groups. -/
structure Finder where
  program : Program
  names : List (Text × Nat)

def Named.finder (n : Named) : Finder := ⟨n.pattern.program, n.names⟩

/-- What a part stands for where `m` matched at the start of `s`; groups that took no part stand
for nothing. -/
def Finder.partText (f : Finder) (m : Match) (s : Text) : Part → Text
  | .char c => [c]
  | .group n => (m.group? s n).getD []
  | .named name => ((f.names.lookup name).bind (m.group? s)).getD []

/-! ### Replacement -/

/-- Replaces matches in what is left of a text: the first `skip` characters belong to the match
before, `fresh` is whether a match of nothing counts here, and `before` is the character before. -/
def Finder.replaceFrom (f : Finder) (template : List Part) :
    (skip : Nat) → (fresh : Bool) → (before : Option Char) → Text → Text
  | _ + 1, _, _, [] => []
  | skip + 1, _, _, c :: cs => f.replaceFrom template skip false (some c) cs
  | 0, fresh, before, [] =>
    match f.program.matchAt? before [] with
    | some m => if fresh then template.flatMap (f.partText m []) else []
    | none => []
  | 0, fresh, before, c :: cs =>
    match f.program.matchAt? before (c :: cs) with
    | none => c :: f.replaceFrom template 0 true (some c) cs
    | some m =>
      if m.length = 0 then
        (if fresh then template.flatMap (f.partText m (c :: cs)) else []) ++
          c :: f.replaceFrom template 0 true (some c) cs
      else
        template.flatMap (f.partText m (c :: cs)) ++
          f.replaceFrom template (m.length - 1) false (some c) cs

/-- Replaces every match. -/
def Finder.replaceAll (f : Finder) (template s : Text) : Text :=
  f.replaceFrom (parts template) 0 true none s

end DalvikPatch.Pattern
