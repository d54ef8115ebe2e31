import DalvikPatch.File.Source
import DalvikPatch.Run.Basic
import DalvikPatch.Substitution

/-! Files in a run: resources by their name, and the modified classes. The system may refuse each access; a write
that it breaks off leaves what was written by then. -/

namespace DalvikPatch.Run

/-! ### Accesses -/

/-- What the system says to the next access. -/
def nextRefusal : Run (Option Refusal) := do
  let c ← get
  set { c with refusals := c.refusals.tail }
  return c.refusals.head?.join

def setFiles (t : FileTree) : Run Unit := modify fun c => { c with files := t }

def readFile (p : Text) : Run Text := do
  match ← nextRefusal with
  | some r => stop (.file p (.refused r.reason))
  | none => lift (Outcome.ofFile p ((← get).files.read p))

/-- Changes the files at a path: what they are after some of the work is known, and what they are after all of it. -/
def changeFiles (p : Text) (part : Nat → Except FileFault FileTree) (whole : Except FileFault FileTree) : Run Unit := do
  match ← nextRefusal with
  | some r =>
    (r.done?.bind fun n => (part n).toOption).forM setFiles
    stop (.file p (.refused r.reason))
  | none => setFiles (← lift (Outcome.ofFile p whole))

/-- Writes a file; what is written is a beginning of the text if that is broken off. -/
def writeFile (p s : Text) : Run Unit := do
  let t := (← get).files
  changeFiles p (fun n => t.write p (s.take n)) (t.write p s)

/-- Makes the folders of a path, one in the other. -/
def makeFolders (p : Text) : Run Unit := do
  let t := (← get).files
  changeFiles p (fun n => t.makeFolders (Path.ofParts ((Path.parts p).take n))) (t.makeFolders p)

/-! ### Resources -/

/-- The path of a resource. -/
def resourcePath (name : Text) : Run Text := do
  match (← get).resources? with
  | some folder => return Path.below folder name
  | none => stop .missingResources

def readResource (name : Text) : Run Text := do readFile (← resourcePath name)

def writeResource (name s : Text) : Run Unit := do writeFile (← resourcePath name) s

/-- Whether there is a file; not being let at it counts as there being none. -/
def hasResource (name : Text) : Run Bool := do
  let p ← resourcePath name
  return (← nextRefusal).isNone && (← get).files.isFile p

/-- Changes a resource; it is not written if `f` fails. -/
def editResource (name : Text) (f : Text → Outcome Text) : Run Unit := do
  writeResource name (← lift (f (← readResource name)))

def substitute {E : Engine} (name : Text) (subs : List (Substitution E)) : Run Unit :=
  editResource name fun s => .ok (Substitution.applyAll s subs)

/-! ### Modified classes -/

/-- Writes a class back to the file that it was read from. -/
def saveClass (k : Class) : Run Unit := do
  match k.file? with
  | some p => writeFile p k.text
  | none => stop (.file k.name.java .noPath)

/-- Writes the modified classes back to their files, up to the first that fails. -/
def saveModified : Run Nat := do
  let ks := (← get).workspace.modified
  ks.forM saveClass
  return ks.length

/-- Writes a class below a folder. -/
def writeBelow (folder : Text) (k : Class) : Run Text := do
  let p := k.pathBelow folder
  makeFolders (Path.parent p)
  writeFile p k.text
  return p

/-- Writes the modified classes below a folder, each to a path that follows its name. -/
def writeModified (folder : Text) : Run (List Text) := do
  (← get).workspace.modified.mapM (writeBelow folder)

end DalvikPatch.Run
