import DalvikPatch.Pattern.Basic

/-! Matching. A pattern becomes a table of nodes, each with its successors; a match is looked for
by following all ways through the table at once, the preferred one first. A way that comes to a
node which a better one has reached at the same place is given up, so that a repetition of nothing
ends, and of the ways that lead to the end the most preferred one is the match. -/

namespace DalvikPatch.Pattern

inductive Node where
  | read (s : CharSet) (next : Nat)
  | check (a : Assertion) (next : Nat)
  | save (slot next : Nat)
  | split (first second : Nat)
  | done

structure Program where
  nodes : Array Node
  start : Nat

/-! ### From patterns to tables -/

/-- A node that prefers `inner` if greedy, and `next` otherwise. -/
def branch (greedy : Bool) (inner next : Nat) : Node :=
  if greedy then .split inner next else .split next inner

/-- Adds the nodes of a pattern that goes on at `next`, and gives the node it starts at. -/
def compile : Pattern → (next : Nat) → Array Node → Nat × Array Node
  | .empty, next, ns => (next, ns)
  | .set s, next, ns => (ns.size, ns.push (.read s next))
  | .check a, next, ns => (ns.size, ns.push (.check a next))
  | .seq p q, next, ns =>
    let r := compile q next ns
    compile p r.1 r.2
  | .alt p q, next, ns =>
    let l := compile p next ns
    let r := compile q next l.2
    (r.2.size, r.2.push (.split l.1 r.1))
  | .group i p, next, ns =>
    let r := compile p ns.size (ns.push (.save (2 * i + 1) next))
    (r.2.size, r.2.push (.save (2 * i) r.1))
  | .repeated p min max? greedy, next, ns =>
    let copy (r : Nat × Array Node) : Nat × Array Node := compile p r.1 r.2
    let optional (r : Nat × Array Node) : Nat × Array Node :=
      let c := copy r
      (c.2.size, c.2.push (branch greedy c.1 next))
    match max? with
    | some max => Nat.repeat copy min (Nat.repeat optional (max - min) (next, ns))
    | none =>
      let c := compile p ns.size (ns.push .done)
      let loop := (c.1, c.2.setIfInBounds ns.size (branch greedy c.1 next))
      if min = 0 then (loop.2.size, loop.2.push (branch greedy loop.1 next))
      else Nat.repeat copy (min - 1) loop

def program (p : Pattern) : Program :=
  let r := compile p 0 #[.done]
  ⟨r.2, r.1⟩

/-! ### Running -/

/-- A way through the table: the node it has come to, and the places it has saved, last first. -/
structure Thread where
  node : Nat
  saves : List (Nat × Nat)

/-- Nodes that have been reached at a place, and the ways that wait there, best first. -/
structure Reached where
  seen : List Nat
  threads : List Thread

/-- Follows a way to the nodes that read or end, at the place `pos` between two characters. No way
is longer than the table, so `fuel` is its size. -/
def follow (ns : Array Node) (before after : Option Char) (pos : Nat) :
    (fuel : Nat) → Thread → Reached → Reached
  | 0, _, r => r
  | fuel + 1, t, r =>
    if r.seen.contains t.node then r
    else
      let r := { r with seen := t.node :: r.seen }
      match ns[t.node]? with
      | some (.read _ _) | some .done => { r with threads := r.threads ++ [t] }
      | some (.check a next) =>
        if a.holds before after then follow ns before after pos fuel ⟨next, t.saves⟩ r else r
      | some (.save slot next) =>
        follow ns before after pos fuel ⟨next, (slot, pos) :: t.saves⟩ r
      | some (.split first second) =>
        follow ns before after pos fuel ⟨second, t.saves⟩
          (follow ns before after pos fuel ⟨first, t.saves⟩ r)
      | none => r

/-- What matched: how many characters, and the places saved on the way. -/
structure Match where
  length : Nat
  saves : List (Nat × Nat)

def isDone (ns : Array Node) (t : Thread) : Bool :=
  match ns[t.node]? with
  | some .done => true
  | _ => false

/-- Takes the ways that read `c` one character further. -/
def advance (ns : Array Node) (c : Char) (after : Option Char) (pos : Nat) (ts : List Thread) :
    Reached :=
  ts.foldl (fun r (t : Thread) =>
    match ns[t.node]? with
    | some (.read s next) =>
      if s.contains c then follow ns (some c) after (pos + 1) (ns.size + 1) ⟨next, t.saves⟩ r else r
    | _ => r) ⟨[], []⟩

/-- Runs ways over a text; a way that ends replaces the match found so far and ends those after
it. -/
def run (ns : Array Node) (found : Option Match) (pos : Nat) (ts : List Thread) :
    Text → Option Match
  | [] => ((ts.find? (isDone ns)).map fun t => ⟨pos, t.saves⟩).or found
  | c :: cs =>
    let found := ((ts.find? (isDone ns)).map fun t => ⟨pos, t.saves⟩).or found
    let r := advance ns c cs.head? pos (ts.takeWhile fun t => !isDone ns t)
    if r.threads.isEmpty then found else run ns found (pos + 1) r.threads cs

/-- The match at the start of a text that comes after the character `before`. -/
def Program.matchAt? (p : Program) (before : Option Char) (s : Text) : Option Match :=
  run p.nodes none 0
    (follow p.nodes before s.head? 0 (p.nodes.size + 1) ⟨p.start, []⟩ ⟨[], []⟩).threads s

/-- The text of a group within the text that was matched, if the group took part. -/
def Match.group? (m : Match) (s : Text) (i : Nat) : Option Text :=
  if i = 0 then some (s.take m.length)
  else do
    let first ← m.saves.lookup (2 * i)
    let last ← m.saves.lookup (2 * i + 1)
    some ((s.take last).drop first)

end DalvikPatch.Pattern
