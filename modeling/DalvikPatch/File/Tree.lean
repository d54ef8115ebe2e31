import DalvikPatch.Fault
import DalvikPatch.File.Path

/-! The folders and text files of a system, as what stands at each place below the root. Paths are walked part by
part from there, with a slash at their start and without one, for the program works in the root: two dots lead
back to the folder above, and in the root nowhere else. -/

namespace DalvikPatch

open Text

inductive Node where
  | folder
  | file (text : Text)
  deriving DecidableEq

/-- A place in a tree: the names on the way from the root. -/
abbrev Location := List Text

/-- Whether a place comes before another or is the same, name by name. -/
def Location.isUpTo : Location → Location → Bool
  | [], _ => true
  | _ :: _, [] => false
  | a :: as, b :: bs => if a = b then isUpTo as bs else Text.isUpTo a b

structure FileTree where
  entries : List (Location × Node)
  deriving DecidableEq

namespace FileTree

def empty : FileTree := ⟨[]⟩

/-- What stands at a place; the root is a folder. -/
def node? (t : FileTree) (l : Location) : Option Node :=
  if l = [] then some .folder else t.entries.lookup l

/-- Puts a node in the place of the one before. -/
def put (t : FileTree) (l : Location) (n : Node) : FileTree :=
  ⟨(l, n) :: t.entries.filter fun e => e.1 != l⟩

theorem node?_put {t : FileTree} {l : Location} {n : Node} (h : l ≠ []) :
    (t.put l n).node? l = some n := by
  simp [node?, put, h]

theorem lookup_filter_ne {l l' : Location} (h : l' ≠ l) (es : List (Location × Node)) :
    (es.filter fun e => e.1 != l).lookup l' = es.lookup l' := by
  induction es with
  | nil => rfl
  | cons e es ih =>
    obtain ⟨k, n⟩ := e
    by_cases hk : k = l
    · simp [List.lookup_cons, hk, beq_eq_false_iff_ne.2 h, ih]
    · simp [List.lookup_cons, hk, ih]

theorem node?_put_of_ne {t : FileTree} {l l' : Location} {n : Node} (h : l' ≠ l) :
    (t.put l n).node? l' = t.node? l' := by
  simp [node?, put, List.lookup_cons, beq_eq_false_iff_ne.2 h, lookup_filter_ne h]

/-- The files with their paths. -/
def files (t : FileTree) : List (Text × Text) :=
  t.entries.filterMap fun e => match e.2 with
    | .file s => some (Path.ofParts e.1, s)
    | .folder => none

/-! ### Walking -/

/-- The place that parts lead to from another; nothing has to stand there yet. -/
def walk (t : FileTree) (here : Location) : List Text → Except FileFault Location
  | [] => .ok here
  | part :: parts =>
    match t.node? here with
    | none => .error .missing
    | some (.file _) => .error .notFolder
    | some .folder =>
      if Path.isIdle part then t.walk here parts
      else if part = ".." then t.walk here.dropLast parts
      else t.walk (here ++ [part]) parts

/-- Whether a path can be asked for at all: it has no null character, and nothing is found without a path. -/
def checkPath (p : Text) : Except FileFault Unit :=
  if '\x00' ∈ p then .error .invalidName
  else if p = [] then .error .missing
  else .ok ()

def locate (t : FileTree) (p : Text) : Except FileFault Location := do
  checkPath p
  t.walk [] (Path.parts p)

/-! ### Reading -/

def read (t : FileTree) (p : Text) : Except FileFault Text := do
  match t.node? (← t.locate p) with
  | some (.file s) => .ok s
  | some .folder => .error .isFolder
  | none => .error .missing

def isFile (t : FileTree) (p : Text) : Bool := (t.read p).toOption.isSome

/-- The place of a folder. -/
def folder (t : FileTree) (p : Text) : Except FileFault Location := do
  let l ← t.locate p
  match t.node? l with
  | some .folder => .ok l
  | some (.file _) => .error .notFolder
  | none => .error .missing

/-- The files below a place, each with the names from there. -/
def filesBelow (t : FileTree) (l : Location) : List (Location × Text) :=
  t.entries.filterMap fun e => match e.2 with
    | .file s => if l.isPrefixOf e.1 then some (e.1.drop l.length, s) else none
    | .folder => none

/-! ### Writing -/

/-- Writes a file into a folder that is there. A path that ends in a slash is none of a file. -/
def write (t : FileTree) (p s : Text) : Except FileFault FileTree := do
  checkPath p
  let l ← t.walk [] ((Path.parts p).reverse.dropWhile (· == [])).reverse
  if endsWith "/" p ∨ t.node? l = some .folder then .error .isFolder
  else .ok (t.put l (.file s))

/-- Makes the folders that are missing on the way. -/
def walkMaking (t : FileTree) (here : Location) : List Text → Except FileFault FileTree
  | [] => .ok t
  | part :: parts =>
    if Path.isIdle part then t.walkMaking here parts
    else if part = ".." then t.walkMaking here.dropLast parts
    else match t.node? (here ++ [part]) with
      | some .folder => t.walkMaking (here ++ [part]) parts
      | some (.file _) => .error (if parts = [] then .occupied else .notFolder)
      | none => (t.put (here ++ [part]) .folder).walkMaking (here ++ [part]) parts

/-- Makes the folders of a path; without a path there are none to make. -/
def makeFolders (t : FileTree) (p : Text) : Except FileFault FileTree := do
  if p ≠ [] then checkPath p
  t.walkMaking [] (Path.parts p)

/-- Writes a file and makes the folders on the way to it. -/
def add (t : FileTree) (p s : Text) : Except FileFault FileTree := do
  (← t.makeFolders (Path.parent p)).write p s

def ofFiles (files : List (Text × Text)) : Except FileFault FileTree :=
  files.foldlM (fun t f => t.add f.1 f.2) empty

end FileTree

/-- The fault of a path. -/
def Outcome.ofFile {α : Type} (p : Text) : Except FileFault α → Outcome α
  | .ok a => .ok a
  | .error f => .fault (.file p f)

end DalvikPatch
