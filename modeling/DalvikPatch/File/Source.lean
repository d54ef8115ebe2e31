import DalvikPatch.Class.Printer
import DalvikPatch.Class.Reader
import DalvikPatch.File.Tree
import DalvikPatch.Pool

/-! Classes in files. The sources below a folder are read in the order of their paths, compared name
by name; a class can be written back to its file, or to a path that follows its own name. -/

namespace DalvikPatch

open Text

/-- The extension of sources. -/
def sourceExtension : Text := "smali"

/-- Says in which file a mistake is. -/
def Stop.inFile (p : Text) : Stop → Stop
  | .fault (.parse place m) => .fault (.parse (.inFile p place) m)
  | s => s

namespace Class

/-- Reads the class that a file holds. -/
def ofFile (p s : Text) : Outcome Class :=
  match Class.read s with
  | .ok c => .ok { c with file? := some p }
  | .error e => .error (e.inFile p)

/-- The file for a class below a folder. -/
def pathBelow (folder : Text) (c : Class) : Text :=
  Path.withExtension sourceExtension ((pieces '/' c.name.path).foldl Path.below folder)

end Class

namespace FileTree

def isSource (l : Location) : Bool :=
  (l.getLast?.bind fun name => (Path.splitName name).2) == some sourceExtension

/-- The sources below a place, in order. -/
def sources (t : FileTree) (l : Location) : List (Location × Text) :=
  ((t.filesBelow l).filter fun f => isSource f.1).mergeSort fun a b => Location.isUpTo a.1 b.1

/-- Reads all classes below a folder; the first source that is none decides the fault. -/
def readClasses (t : FileTree) (folder : Text) : Outcome (List Class) := do
  let l ← Outcome.ofFile folder (t.folder folder)
  (t.sources l).mapM fun f => Class.ofFile (Path.below folder (Path.ofParts f.1)) f.2

/-- The classes of several folders, one after the other. -/
def readPool (t : FileTree) (folders : List Text) : Outcome Pool := do
  return ⟨(← folders.mapM t.readClasses).flatten⟩

end FileTree

end DalvikPatch
