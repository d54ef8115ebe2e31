import DalvikPatch.Numeral
import DalvikPatch.Pattern.Basic
import DalvikPatch.Text.Alphanumeric

/-! Reading patterns. A pattern is cut into tokens; a stack of open groups puts them together.
Refused are unbalanced parentheses and brackets, a repetition of nothing, counts and ranges that
descend, group names that are malformed or used twice, and escapes of letters that mean nothing
here, among them references to groups; there is no looking ahead or behind. -/

namespace DalvikPatch.Pattern

open Text

/-- How a group is known. -/
inductive GroupKind where
  | plain
  | named (name : Text)
  | silent

inductive Token where
  | set (s : CharSet)
  | check (a : Assertion)
  | openGroup (k : GroupKind)
  | closeGroup
  | bar
  | repetition (min : Nat) (max? : Option Nat) (greedy : Bool)

/-! ### Escapes and sets -/

/-- The set that an escaped character stands for. -/
def escapedSet? (c : Char) : Option CharSet :=
  if c = 'd' then some .digit
  else if c = 'D' then some (.complement .digit)
  else if c = 'w' then some .word
  else if c = 'W' then some (.complement .word)
  else if c = 's' then some .blank
  else if c = 'S' then some (.complement .blank)
  else none

/-- The character that an escaped character stands for. -/
def escapedChar? (c : Char) : Option Char :=
  if c = 'n' then some '\n'
  else if c = 't' then some '\t'
  else if c = 'r' then some '\r'
  else if c = 'a' then some '\x07'
  else if c = 'f' then some '\x0c'
  else if c = 'v' then some '\x0b'
  else if c.toNat < 0x80 ∧ ¬ c.isAlphanum ∧ c ≠ '<' ∧ c ≠ '>' then some c
  else none

/-- A member of a set: one character, or a set that may not be the end of a range. -/
def readMember? : Text → Option ((Char ⊕ CharSet) × Text)
  | [] => none
  | '\\' :: c :: s =>
    match escapedSet? c with
    | some t => some (.inr t, s)
    | none => (escapedChar? c).map fun c => (.inl c, s)
  | ['\\'] => none
  | c :: s => some (.inl c, s)

def memberSet : Char ⊕ CharSet → CharSet
  | .inl c => .single c
  | .inr s => s

/-- A member of a set or a range between two characters; a minus before the closing bracket or
before another minus stands for itself. -/
def readRange? (s : Text) : Option (CharSet × Text) := do
  let p ← readMember? s
  match p.2 with
  | '-' :: d :: r =>
    if d = ']' ∨ d = '-' then some (memberSet p.1, p.2)
    else do
      let q ← readMember? (d :: r)
      match p.1, q.1 with
      | .inl a, .inl b => if a ≤ b then some (.range a b, q.2) else none
      | _, _ => none
  | _ => some (memberSet p.1, p.2)

/-- A set that is being read: whether it is the complement that is meant, and its members. -/
structure OpenSet where
  negated : Bool
  members : CharSet

def OpenSet.add (o : OpenSet) (s : CharSet) : OpenSet := { o with members := .union o.members s }

def OpenSet.close (o : OpenSet) : CharSet := if o.negated then .complement o.members else o.members

/-- Takes minus signs, which stand for themselves at the start of a set. -/
def readMinuses (o : OpenSet) : Text → OpenSet × Text
  | '-' :: s => readMinuses (o.add (.single '-')) s
  | s => (o, s)

/-- Reads the start of a set after its bracket; a closing bracket there stands for itself. -/
def readOpening (s : Text) : OpenSet × Text :=
  let negated := s.head? == some '^'
  let s := if negated then s.drop 1 else s
  let p := readMinuses ⟨negated, .none⟩ s
  match p.2 with
  | ']' :: r => if s.head? == some '-' then p else (p.1.add (.single ']'), r)
  | _ => p

/-- Reads what is left of a set that stands inside the sets `outer`. -/
def readSet? (outer : List OpenSet) (o : OpenSet) (s : Text) : Option (CharSet × Text) :=
  match s with
  | [] => none
  | ']' :: r =>
    match outer with
    | [] => some (o.close, r)
    | p :: ps => readSet? ps (p.add o.close) r
  | '[' :: r =>
    if _ : (readOpening r).2.length ≤ r.length then
      readSet? (o :: outer) (readOpening r).1 (readOpening r).2
    else none
  | s =>
    match readRange? s with
    | none => none
    | some p => if _ : p.2.length < s.length then readSet? outer (o.add p.1) p.2 else none
termination_by s.length

/-! ### Tokens -/

/-- Takes the mark of a repetition that prefers to stop. -/
def readGreedy : Text → Bool × Text
  | '?' :: s => (false, s)
  | s => (true, s)

def repetition (min : Nat) (max? : Option Nat) (s : Text) : Token × Text :=
  (.repetition min max? (readGreedy s).1, (readGreedy s).2)

/-- Reads a count of at most 32 bits with blanks around it. -/
def readCount? (s : Text) : Option (Nat × Text) :=
  let s := trimLeft s
  let digits := s.takeWhile Char.isDigit
  let n := Numeral.value 10 digits
  if digits ≠ [] ∧ n < 4294967296 then some (n, trimLeft (s.dropWhile Char.isDigit)) else none

/-- Reads the counts of a repetition after its brace. -/
def readCounts? (s : Text) : Option (Token × Text) := do
  let p ← readCount? s
  match p.2 with
  | '}' :: r => some (repetition p.1 (some p.1) r)
  | ',' :: r =>
    match r with
    | '}' :: r => some (repetition p.1 none r)
    | r => do
      let q ← readCount? r
      let r ← after? ['}'] q.2
      if p.1 ≤ q.1 then some (repetition p.1 (some q.1) r) else none
  | _ => none

def isNameStart (c : Char) : Bool := c == '_' || (isAlphanumeric c && !isDecimal c)

def isNameChar (c : Char) : Bool :=
  c == '_' || c == '.' || c == '[' || c == ']' || isAlphanumeric c

/-- Reads the name of a group up to its bracket. -/
def readName? (s : Text) : Option (Token × Text) := do
  let p ← cut? ['>'] s
  match p.1 with
  | c :: cs =>
    if isNameStart c && cs.all isNameChar then some (.openGroup (.named p.1), p.2) else none
  | [] => none

/-- Reads the token that a pattern starts with. -/
def readToken? (s : Text) : Option (Token × Text) :=
  match s with
  | [] => none
  | '.' :: s => some (.set (.complement (.single '\n')), s)
  | '^' :: s => some (.check .start, s)
  | '$' :: s => some (.check .stop, s)
  | '|' :: s => some (.bar, s)
  | ')' :: s => some (.closeGroup, s)
  | '(' :: '?' :: ':' :: s => some (.openGroup .silent, s)
  | '(' :: '?' :: 'P' :: '<' :: s => readName? s
  | '(' :: '?' :: '<' :: s => readName? s
  | '(' :: '?' :: _ => none
  | '(' :: s => some (.openGroup .plain, s)
  | '[' :: s => (readSet? [] (readOpening s).1 (readOpening s).2).map fun p => (.set p.1, p.2)
  | '*' :: s => some (repetition 0 none s)
  | '+' :: s => some (repetition 1 none s)
  | '?' :: s => some (repetition 0 (some 1) s)
  | '{' :: s => readCounts? s
  | '\\' :: 'b' :: s => some (.check .boundary, s)
  | '\\' :: 'B' :: s => some (.check .noBoundary, s)
  | '\\' :: 'A' :: s => some (.check .start, s)
  | '\\' :: 'z' :: s => some (.check .stop, s)
  | s => (readMember? s).map fun p => (.set (memberSet p.1), p.2)

/-- Cuts a pattern into tokens. -/
def tokens? (s : Text) : Option (List Token) :=
  match s with
  | [] => some []
  | c :: cs =>
    match readToken? (c :: cs) with
    | none => none
    | some (t, rest) => if _ : rest.length ≤ cs.length then (tokens? rest).map (t :: ·) else none
termination_by s.length

/-! ### Groups -/

/-- A group that is being read: its number if it is kept, the branches before the last bar and the
items after it, both last first. -/
structure OpenGroup where
  index? : Option Nat
  branches : List Pattern
  items : List Pattern

namespace OpenGroup

def branch (g : OpenGroup) : Pattern := Pattern.ofList g.items.reverse

def add (g : OpenGroup) (p : Pattern) : OpenGroup := { g with items := p :: g.items }

def close (g : OpenGroup) : Pattern :=
  let whole := match g.branches.reverse with
    | [] => g.branch
    | b :: bs => Pattern.choice b (bs ++ [g.branch])
  match g.index? with
  | some i => .group i whole
  | none => whole

end OpenGroup

/-- What has been read: the innermost group, those around it, the number of the next group, and the
names given. -/
structure Reading where
  inner : OpenGroup
  outer : List OpenGroup
  next : Nat
  names : List (Text × Nat)

namespace Reading

def add (r : Reading) (p : Pattern) : Reading := { r with inner := r.inner.add p }

def enter (r : Reading) (index? : Option Nat) : Reading :=
  { r with inner := ⟨index?, [], []⟩, outer := r.inner :: r.outer }

def step (r : Reading) : Token → Option Reading
  | .set s => some (r.add (.set s))
  | .check a => some (r.add (.check a))
  | .bar => some { r with inner := ⟨r.inner.index?, r.inner.branch :: r.inner.branches, []⟩ }
  | .repetition min max? greedy =>
    match r.inner.items with
    | [] => none
    | p :: ps => some { r with inner := { r.inner with items := .repeated p min max? greedy :: ps } }
  | .openGroup .silent => some (r.enter none)
  | .openGroup .plain => some { r.enter (some r.next) with next := r.next + 1 }
  | .openGroup (.named n) =>
    if r.names.any (·.1 == n) then none
    else some { r.enter (some r.next) with next := r.next + 1, names := (n, r.next) :: r.names }
  | .closeGroup =>
    match r.outer with
    | [] => none
    | g :: gs => some { r with inner := g.add r.inner.close, outer := gs }

end Reading

/-- A pattern with the names of its groups. -/
structure Named where
  pattern : Pattern
  names : List (Text × Nat)

/-- Reads a pattern. -/
def read? (s : Text) : Option Named := do
  let r ← (← tokens? s).foldlM Reading.step ⟨⟨none, [], []⟩, [], 1, []⟩
  if r.outer.isEmpty then some ⟨r.inner.close, r.names⟩ else none

end DalvikPatch.Pattern
