import DalvikPatch.Editing.Return
import DalvikPatch.Renaming.Pass
import DalvikPatch.Run.Basic

/-! Editing in a run: methods through an editor, classes as a whole, and all texts at once. -/

namespace DalvikPatch.Run

variable {α : Type}

/-- Opens a method of the pool. Its class is copied before it is known whether it has a body. -/
def openMethod (id : MethodId) : Run Editor := do
  let c ← get
  let reference := c.pool.describe id
  if (c.pool.method? id).isNone then stop (.notFound "method" reference)
  let w := c.workspace.openClass id.owner
  set { c with workspace := w }
  match w.method? id with
  | some m => lift (Editor.open? reference m)
  | none => stop (.notFound "method" reference)

/-- Writes back what an edit made of a method. -/
def putMethod (id : MethodId) (m : Method) : Run Unit :=
  modify fun c => { c with workspace := c.workspace.changeMethod id fun _ => m }

/-- Edits a method; if the edit stops, what it did before stays. -/
def edit (id : MethodId) (x : Edit α) : Run α := do
  let e ← openMethod id
  let r := x.run.run e
  putMethod id r.2.method
  lift r.1

/-- Changes the source file that a class names. -/
def setSource (k : Nat) (source? : Option Text) : Run Unit :=
  modify fun c =>
    { c with workspace := c.workspace.change k fun d => { d with source? := source? } }

/-- Renames the texts of all classes by a chain of rules. -/
def rename (chain : Chain) : Run PassReport := do
  let c ← get
  let p := c.workspace.pass chain
  set { c with workspace := p.1 }
  return p.2

end DalvikPatch.Run
