import DalvikPatch.Class.Basic
import DalvikPatch.Descriptor.Reader

/-! Reading classes line by line. Blank lines and lines that start with `#` are passed over
outside of blocks; inside one every line is kept. Every reader of a member gives the lines after
it, of which there are no more than before, so that the loops over members end. -/

namespace DalvikPatch

open Text

/-- A line with its number in the document, counted from one. -/
structure Line where
  number : Nat
  text : Text
  deriving DecidableEq

namespace Line

def numberFrom (n : Nat) : List Text → List Line
  | [] => []
  | l :: ls => ⟨n, l⟩ :: numberFrom (n + 1) ls

/-- The lines of a document. -/
def ofText (s : Text) : List Line := numberFrom 1 (lines s)

def trimmed (l : Line) : Text := trim l.text

/-- Whether a line holds more than blanks and a comment. -/
def isSignificant (l : Line) : Bool := !l.trimmed.isEmpty && !startsWith "#" l.trimmed

/-- The next significant line and the lines after it. -/
def next? : List Line → Option (Line × List Line)
  | [] => none
  | l :: ls => if l.isSignificant then some (l, ls) else next? ls

theorem length_lt_of_next? {ls rest : List Line} {l : Line} (h : next? ls = some (l, rest)) :
    rest.length < ls.length := by
  fun_induction next? ls with
  | case1 => simp at h
  | case2 l ls _ => cases h; simp
  | case3 l ls _ ih => have := ih h; simp; omega

end Line

/-! ### Blocks -/

namespace Directive

/-- Reads the lines of a block after its first one, up to the line that starts with `closing`.
Each loses at most the indentation of the first line, counted in bytes. -/
def readLines (number base : Nat) (closing : Text) : List Line → Outcome (List Text × List Line)
  | [] => .mistake number (.unterminatedBlock closing)
  | l :: ls =>
    match dropBytes? (min (indentation l.text) base) l.text with
    | none => .error (.abort .splitCharacter)
    | some s =>
      if startsWith closing l.trimmed then .ok ([trimRight s], ls)
      else (readLines number base closing ls).map fun p => (trimRight s :: p.1, p.2)

/-- Reads a block from its first line to the one that starts with `closing`. -/
def readBlock (closing : Text) (first : Line) (ls : List Line) : Outcome (Directive × List Line) :=
  (readLines first.number (indentation first.text) closing ls).map fun p =>
    (⟨first.trimmed :: p.1⟩, p.2)

theorem length_lt_of_readLines {number base : Nat} {closing : Text} {ls rest : List Line}
    {ts : List Text} (h : readLines number base closing ls = .ok (ts, rest)) :
    rest.length < ls.length := by
  fun_induction readLines number base closing ls generalizing ts with
  | case1 => simp [Outcome.mistake] at h
  | case2 => simp at h
  | case3 => cases h; simp
  | case4 l ls s _ _ ih =>
    cases hr : readLines number base closing ls with
    | error e => simp [hr, Except.map] at h
    | ok q =>
      simp only [hr, Except.map] at h
      cases h
      have := ih hr
      simp; omega

theorem length_lt_of_readBlock {closing : Text} {first : Line} {ls rest : List Line}
    {d : Directive} (h : readBlock closing first ls = .ok (d, rest)) :
    rest.length < ls.length := by
  simp only [readBlock] at h
  cases hr : readLines first.number (indentation first.text) closing ls with
  | error e => simp [hr, Except.map] at h
  | ok q =>
    simp only [hr, Except.map] at h
    cases h
    exact length_lt_of_readLines hr

/-- Whether the annotations that come next run into the end of a parameter. -/
def isClosed (ls : List Line) : Outcome Bool :=
  match _ : Line.next? ls with
  | none => .ok false
  | some (l, ls) =>
    if startsWith ".annotation" l.trimmed then
      match _ : readBlock ".end annotation" l ls with
      | .error e => .error e
      | .ok (_, rest) => isClosed rest
    else .ok (startsWith ".end param" l.trimmed)
termination_by ls.length
decreasing_by exact Nat.lt_trans (length_lt_of_readBlock ‹_›) (Line.length_lt_of_next? ‹_›)

end Directive

/-! ### Headers -/

/-- The flags that modifiers stand for. -/
def AccessFlags.ofModifiers (number : Nat) (c : Carrier) : List Text → Outcome AccessFlags
  | [] => .ok .empty
  | w :: ws =>
    match ofKeyword? w c with
    | none => .mistake number (.unknownModifier w)
    | some f => (ofModifiers number c ws).map f.union

/-- Reads a header: the keyword, modifiers, and one more word. -/
def readHeader (keyword : Text) (c : Carrier) (number : Nat) (s : Text) :
    Outcome (AccessFlags × Text) :=
  match after? keyword (trim s) with
  | none => .mistake number (.expectedDirective keyword)
  | some body =>
    match (words body).getLast? with
    | none => .mistake number (.emptyDirective keyword)
    | some w => (AccessFlags.ofModifiers number c (words body).dropLast).map fun f => (f, w)

/-- The class that a descriptor on a line names. -/
def ClassName.readAt (number : Nat) (s : Text) : Outcome ClassName :=
  match TypeDescriptor.ofJni? (trim s) with
  | some (.object n) => .ok n
  | _ => .mistake number (.invalidClass (trim s))

/-! ### Fields -/

namespace Field

/-- Reads the annotations of a field up to its end, or to the end of the document. -/
def readAnnotations (ls : List Line) : Outcome (List Directive × List Line) :=
  match _ : Line.next? ls with
  | none => .ok ([], [])
  | some (l, ls) =>
    if startsWith ".end field" l.trimmed then .ok ([], ls)
    else if startsWith ".annotation" l.trimmed then
      match _ : Directive.readBlock ".end annotation" l ls with
      | .error e => .error e
      | .ok (d, rest) => (readAnnotations rest).map fun p => (d :: p.1, p.2)
    else .mistake l.number .expectedEndField
termination_by ls.length
decreasing_by
  exact Nat.lt_trans (Directive.length_lt_of_readBlock ‹_›) (Line.length_lt_of_next? ‹_›)

theorem length_le_of_readAnnotations {ls rest : List Line} {ds : List Directive}
    (h : readAnnotations ls = .ok (ds, rest)) : rest.length ≤ ls.length := by
  fun_induction readAnnotations ls generalizing ds with
  | case1 => cases h; simp
  | case2 ls l ls' hn _ => cases h; exact Nat.le_of_lt (Line.length_lt_of_next? hn)
  | case3 => simp at h
  | case4 ls l ls' hn _ _ d rest' hb ih =>
    cases hr : readAnnotations rest' with
    | error e => simp [hr, Except.map] at h
    | ok p =>
      simp only [hr, Except.map] at h
      cases h
      have := ih hr
      have := Directive.length_lt_of_readBlock hb
      have := Line.length_lt_of_next? hn
      omega
  | case5 => simp [Outcome.mistake] at h

/-- Reads the line that declares a field. -/
def readLine (number : Nat) (line : Text) : Outcome Field := do
  let line := cutComment line
  let parts : Text × Option Text := match cut? " = " line with
    | some p => (p.1, some (trim p.2))
    | none => (line, none)
  let header ← readHeader ".field" .field number parts.1
  match cut? ":" header.2 with
  | none => .mistake number .fieldWithoutType
  | some (name, type) =>
    match TypeDescriptor.ofJni? type with
    | none => .mistake number (.invalidFieldType type)
    | some t => .ok ⟨name, header.1, t, parts.2, []⟩

/-- Whether an annotation comes next. -/
def isAnnotated (ls : List Line) : Bool :=
  (Line.next? ls).any fun p => startsWith ".annotation" p.1.trimmed

/-- Reads a field with its annotations. -/
def read (l : Line) (ls : List Line) : Outcome (Field × List Line) := do
  let f ← readLine l.number l.trimmed
  if isAnnotated ls then
    let p ← readAnnotations ls
    .ok ({ f with annotations := p.1 }, p.2)
  else .ok (f, ls)

theorem length_le_of_read {l : Line} {ls rest : List Line} {f : Field}
    (h : read l ls = .ok (f, rest)) : rest.length ≤ ls.length := by
  simp only [read, bind, Except.bind] at h
  split at h
  · cases h
  · split at h
    · split at h
      · cases h
      · next p hp => cases h; exact length_le_of_readAnnotations hp
    · cases h; exact Nat.le_refl _

end Field

/-! ### Methods -/

/-- Reads a keyword, at least one space, and a number of some width. -/
def readCount? {α : Type} (keyword : Text) (number : Text → Option (α × Text)) (s : Text) :
    Option α := do
  let s ← after? keyword s
  if s.head?.any isSpace then (number (skipSpaces s)).map Prod.fst else none

/-- What a line of a body adds to the method. -/
inductive BodyEntry where
  | frame (f : FrameSize)
  | item (i : BodyItem)

namespace BodyEntry

def blocks : List (Text × Text) := [
  (".annotation", ".end annotation"),
  (".array-data", ".end array-data"),
  (".packed-switch", ".end packed-switch"),
  (".sparse-switch", ".end sparse-switch")]

/-- The start of each directive that has one line. -/
def singles : List Text := [".catch ", ".catchall ", ".local ", ".end local", ".restart local",
  ".prologue", ".epilogue", ".source"]

def directive (d : Directive) : BodyEntry := item (.directive d)

/-- Reads what starts on the line `l`. A parameter owns the annotations after it only if they run
into its own end. -/
def read (l : Line) (ls : List Line) : Outcome (BodyEntry × List Line) :=
  let line := l.trimmed
  if let some n := readCount? ".locals" Numeral.readUInt16? line then .ok (frame (.locals n), ls)
  else if let some n := readCount? ".registers" Numeral.readUInt16? line then
    .ok (frame (.registers n), ls)
  else if let some n := readCount? ".line" Numeral.readUInt32? line then .ok (item (.line n), ls)
  else if startsWith ":" line then
    match Label.read? line with
    | some p => .ok (item (.label p.1), ls)
    | none => .mistake l.number (.invalidLabel line)
  else if startsWith ".param" line then
    match Directive.isClosed ls with
    | .error e => .error e
    | .ok true => (Directive.readBlock ".end param" l ls).map fun p => (directive p.1, p.2)
    | .ok false => .ok (directive ⟨[line]⟩, ls)
  else if let some b := blocks.find? (fun b => startsWith b.1 line) then
    (Directive.readBlock b.2 l ls).map fun p => (directive p.1, p.2)
  else if singles.any (fun d => startsWith d line) then .ok (directive ⟨[line]⟩, ls)
  else if startsWith "." line then .mistake l.number (.unknownDirective line)
  else match Instruction.read line with
    | .ok i => .ok (item (.instruction i), ls)
    | .error f => .mistake l.number (.instruction f)

theorem length_le_of_read {l : Line} {ls rest : List Line} {e : BodyEntry}
    (h : read l ls = .ok (e, rest)) : rest.length ≤ ls.length := by
  have block {c : Text}
      (hb : (Directive.readBlock c l ls).map (fun p => (directive p.1, p.2)) = .ok (e, rest)) :
      rest.length ≤ ls.length := by
    cases hr : Directive.readBlock c l ls with
    | error e => simp [hr, Except.map] at hb
    | ok p =>
      simp only [hr, Except.map] at hb
      cases hb
      exact Nat.le_of_lt (Directive.length_lt_of_readBlock hr)
  simp only [read] at h
  repeat' split at h
  all_goals first
    | exact block h
    | (cases h; done)
    | (cases h; exact Nat.le_refl _)

end BodyEntry

namespace Method

/-- What the lines of a body say. -/
structure Body where
  frame? : Option FrameSize
  items : List BodyItem

/-- Puts what a line says in front of what the lines after it say; of two declarations of the
frame the later one holds. -/
def Body.add (b : Body) : BodyEntry → Body
  | .frame f => { b with frame? := b.frame?.or (some f) }
  | .item i => { b with items := i :: b.items }

/-- Reads a body up to the end of its method. -/
def readBody (number : Nat) (name : Text) (ls : List Line) : Outcome (Body × List Line) :=
  match _ : Line.next? ls with
  | none => .mistake number (.unterminatedMethod name)
  | some (l, ls) =>
    if startsWith ".end method" l.trimmed then .ok (⟨none, []⟩, ls)
    else match _ : BodyEntry.read l ls with
      | .error e => .error e
      | .ok (e, rest) => (readBody number name rest).map fun p => (p.1.add e, p.2)
termination_by ls.length
decreasing_by
  exact Nat.lt_of_le_of_lt (BodyEntry.length_le_of_read ‹_›) (Line.length_lt_of_next? ‹_›)

theorem length_lt_of_readBody {number : Nat} {name : Text} {ls rest : List Line} {b : Body}
    (h : readBody number name ls = .ok (b, rest)) : rest.length < ls.length := by
  fun_induction readBody number name ls generalizing b with
  | case1 => simp [Outcome.mistake] at h
  | case2 ls l ls' hn _ => cases h; exact Line.length_lt_of_next? hn
  | case3 => simp at h
  | case4 ls l ls' hn _ e rest' he ih =>
    cases hr : readBody number name rest' with
    | error e => simp [hr, Except.map] at h
    | ok p =>
      simp only [hr, Except.map] at h
      cases h
      have := ih hr
      have := BodyEntry.length_le_of_read he
      have := Line.length_lt_of_next? hn
      omega

/-- The name and prototype that a word starts with. -/
def readName? (w : Text) : Option (Text × Prototype) :=
  (Prototype.read? (w.dropWhile (· != '('))).map fun p => (w.takeWhile (· != '('), p.1)

/-- Reads the line that declares a method: its flags, name and prototype. -/
def readLine (number : Nat) (line : Text) : Outcome (AccessFlags × Text × Prototype) := do
  let header ← readHeader ".method" .method number (cutComment line)
  match readName? header.2 with
  | none => .mistake number (.invalidMethod header.2)
  | some p => .ok (header.1, p)

/-- Reads a method with its body. -/
def read (l : Line) (ls : List Line) : Outcome (Method × List Line) :=
  match readLine l.number l.trimmed with
  | .error e => .error e
  | .ok (flags, name, prototype) =>
    (readBody l.number name ls).map fun p => (⟨name, flags, prototype, p.1.frame?, p.1.items⟩, p.2)

theorem length_le_of_read {l : Line} {ls rest : List Line} {m : Method}
    (h : read l ls = .ok (m, rest)) : rest.length ≤ ls.length := by
  simp only [read] at h
  split at h
  · cases h
  · next name _ _ =>
    cases hr : readBody l.number name ls with
    | error e => simp [hr, Except.map] at h
    | ok p =>
      simp only [hr, Except.map] at h
      cases h
      exact Nat.le_of_lt (length_lt_of_readBody hr)

end Method

/-! ### Classes -/

/-- What a line of a class adds to it. -/
inductive Member where
  | super (n : ClassName)
  | interface (n : ClassName)
  | source (s : Text)
  | annotated (d : Directive)
  | field (f : Field)
  | method (m : Method)

namespace Member

/-- Reads the name of the source file, quoted and escaped. -/
def readSource (number : Nat) (line : Text) : Outcome Text :=
  let quoted := (after? ".source" (trim line)).map trim
  let inner? := ((quoted.bind (after? "\"")).bind fun q => after? "\"" q.reverse).map List.reverse
  match inner? with
  | none => .mistake number .invalidSource
  | some inner => ofEscaped inner

/-- Reads what starts on the line `l`. -/
def read (l : Line) (ls : List Line) : Outcome (Member × List Line) :=
  let line := l.trimmed
  if let some s := after? ".super" line then
    (ClassName.readAt l.number (cutComment s)).map fun n => (super n, ls)
  else if let some s := after? ".implements" line then
    (ClassName.readAt l.number (cutComment s)).map fun n => (interface n, ls)
  else if startsWith ".source" line then
    (readSource l.number (cutComment line)).map fun s => (source s, ls)
  else if startsWith ".annotation" line then
    (Directive.readBlock ".end annotation" l ls).map fun p => (annotated p.1, p.2)
  else if startsWith ".field" line then (Field.read l ls).map fun p => (field p.1, p.2)
  else if startsWith ".method" line then (Method.read l ls).map fun p => (method p.1, p.2)
  else .mistake l.number (.unexpected line)

theorem length_le_of_read {l : Line} {ls rest : List Line} {m : Member}
    (h : read l ls = .ok (m, rest)) : rest.length ≤ ls.length := by
  have lift {α : Type} {o : Outcome α} {f : α → Member × List Line}
      (hf : ∀ a, o = .ok a → (f a).2.length ≤ ls.length) (ho : o.map f = .ok (m, rest)) :
      rest.length ≤ ls.length := by
    cases o with
    | error e => simp [Except.map] at ho
    | ok a =>
      simp only [Except.map] at ho
      cases ho' : f a with
      | mk m' r =>
        have := hf a rfl
        rw [ho'] at this ho
        cases ho
        exact this
  simp only [read] at h
  repeat' split at h
  · exact lift (fun _ _ => Nat.le_refl _) h
  · exact lift (fun _ _ => Nat.le_refl _) h
  · exact lift (fun _ _ => Nat.le_refl _) h
  · exact lift (fun _ hb => Nat.le_of_lt (Directive.length_lt_of_readBlock hb)) h
  · exact lift (fun _ hf => Field.length_le_of_read hf) h
  · exact lift (fun _ hm => Method.length_le_of_read hm) h
  · cases h

/-- Reads the members of a class up to the end of the document. -/
def readAll (ls : List Line) : Outcome (List Member) :=
  match _ : Line.next? ls with
  | none => .ok []
  | some (l, ls) =>
    match _ : read l ls with
    | .error e => .error e
    | .ok (m, rest) => (readAll rest).map (m :: ·)
termination_by ls.length
decreasing_by
  exact Nat.lt_of_le_of_lt (length_le_of_read ‹_›) (Line.length_lt_of_next? ‹_›)

def super? : Member → Option ClassName
  | super n => some n
  | _ => none

def interface? : Member → Option ClassName
  | interface n => some n
  | _ => none

def source? : Member → Option Text
  | source s => some s
  | _ => none

def annotation? : Member → Option Directive
  | annotated d => some d
  | _ => none

def field? : Member → Option Field
  | field f => some f
  | _ => none

def method? : Member → Option Method
  | method m => some m
  | _ => none

end Member

namespace Class

/-- The class of a header and members; of two superclasses or source files the later one holds. -/
def ofMembers (name : ClassName) (flags : AccessFlags) (ms : List Member) : Class where
  name := name
  flags := flags
  source? := (ms.filterMap Member.source?).getLast?
  super? := (ms.filterMap Member.super?).getLast?
  interfaces := ms.filterMap Member.interface?
  annotations := ms.filterMap Member.annotation?
  fields := ms.filterMap Member.field?
  methods := ms.filterMap Member.method?
  file? := none

/-- Reads the line that declares a class. -/
def readHeader (l : Line) : Outcome (AccessFlags × ClassName) := do
  let header ← DalvikPatch.readHeader ".class" .type l.number (cutComment l.text)
  let name ← ClassName.readAt l.number header.2
  .ok (header.1, name)

/-- Reads a document that holds one class. -/
def read (s : Text) : Outcome Class :=
  match Line.next? (Line.ofText s) with
  | none => .mistake 1 .emptyDocument
  | some (l, ls) => do
    let header ← readHeader l
    let members ← Member.readAll ls
    .ok (ofMembers header.2 header.1 members)

end Class

end DalvikPatch
