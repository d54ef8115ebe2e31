import DalvikPatch.Text.Blank
import DalvikPatch.Text.Word

/-! Patterns: sets of characters, assertions about a place in a text, and what is built from them.
A choice prefers its first branch, a greedy repetition prefers to go on. -/

namespace DalvikPatch

open Text

/-- Sets of characters. -/
inductive CharSet where
  | range (first last : Char)
  | word
  | digit
  | blank
  | none
  | union (s t : CharSet)
  | complement (s : CharSet)
  deriving DecidableEq

namespace CharSet

def contains : CharSet → Char → Bool
  | range a b, c => a ≤ c && c ≤ b
  | word, c => isWord c
  | digit, c => isDecimal c
  | blank, c => isBlank c
  | none, _ => false
  | union s t, c => s.contains c || t.contains c
  | complement s, c => !s.contains c

def single (c : Char) : CharSet := range c c

end CharSet

/-- What may be asked of a place in a text. -/
inductive Assertion where
  | start
  | stop
  | boundary
  | noBoundary
  deriving DecidableEq

/-- Whether an assertion holds between two characters, one of which is missing at an end. -/
def Assertion.holds (before after : Option Char) : Assertion → Bool
  | start => before.isNone
  | stop => after.isNone
  | boundary => before.any isWord != after.any isWord
  | noBoundary => before.any isWord == after.any isWord

inductive Pattern where
  | empty
  | set (s : CharSet)
  | check (a : Assertion)
  | seq (p q : Pattern)
  | alt (p q : Pattern)
  | group (index : Nat) (p : Pattern)
  | repeated (p : Pattern) (min : Nat) (max? : Option Nat) (greedy : Bool)
  deriving DecidableEq

namespace Pattern

def literal (c : Char) : Pattern := set (.single c)

def ofList : List Pattern → Pattern
  | [] => empty
  | p :: ps => seq p (ofList ps)

/-- The choice between a pattern and others after it. -/
def choice (p : Pattern) : List Pattern → Pattern
  | [] => p
  | q :: qs => alt p (choice q qs)

end Pattern

end DalvikPatch
