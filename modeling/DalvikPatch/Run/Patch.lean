import DalvikPatch.Run.Editing
import DalvikPatch.Run.Lookup
import DalvikPatch.Run.Resources

/-! Patches: named steps of a run. A fault of a patch is told with its name, and the patches after
it are still applied. -/

namespace DalvikPatch

structure Patch where
  name : Text
  step : Run Unit

namespace Patch

/-- Applies a patch. -/
def apply (p : Patch) : Run Unit := do
  match ← Run.attempt p.step with
  | .ok _ => return
  | .error f => Run.stop (.patch p.name f)

/-- Applies patches in order; each gets its own result. -/
def applyAll (ps : List Patch) : Run (List (Text × Except Fault Unit)) :=
  ps.mapM fun p => do return (p.name, ← Run.attempt p.apply)

/-- Makes the method of a fingerprint return at once. -/
def returnEarly (f : Fingerprint) : Run Unit := do
  Run.edit (← Run.resolve f).id (Edit.returnEarly false)

/-- The patch of one fingerprint. -/
def stubbing (name : Text) (f : Fingerprint) : Patch := ⟨name, returnEarly f⟩

end Patch

end DalvikPatch
