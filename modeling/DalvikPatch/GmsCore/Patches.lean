import DalvikPatch.GmsCore.Fingerprints
import DalvikPatch.GmsCore.Manifest
import DalvikPatch.GmsCore.Names
import DalvikPatch.Run.Patch

/-! The support of GmsCore is two patches: the one of the resources finds out the package of the app
and renames it, and the one of the code needs to know both names. -/

namespace DalvikPatch.GmsCore

open Text

/-! ### Resources -/

/-- Finds the package that the manifest declares. -/
def packageOf (s : Text) : Outcome Text :=
  match Manifest.package? s with
  | some p => .ok p
  | none => .fault (.parse (.text Manifest.file) .noPackage)

def patchResources : Run Unit := do
  let options ← Run.options
  let vendor ← Run.lift (vendorSetting.require options)
  let signature? ← Run.lift (signatureSetting.resolve options)
  let chosen? ← Run.lift (packageSetting.resolve options)
  let old ← Run.lift (packageOf (← Run.readResource Manifest.file))
  Run.setDeclared old
  chosen?.forM Run.setTarget
  let target ← Run.targetPackage
  Run.editResource Manifest.file (insertMetaData vendor old signature?)
  Run.substitute Manifest.file (manifestRenaming vendor old target)

def resourcePatch : Patch := ⟨"GmsCore support resources", patchResources⟩

/-! ### Code -/

/-- Lets the method that hands out the package name hand out the new one. -/
def editPrime (old new : Text) : Edit Unit := do
  let k ← Edit.findFirst ("const-string \"" ++ old ++ "\"") fun i => i.string? == some old
  let register := (← Edit.instruction k).registers.head?.getD (.v 2)
  Edit.replace k
    (← Edit.check (Instruction.ofName "const-string" [.register register, .reference (.string new)]))

/-- The instruction by which the extension knows the vendor. -/
def vendorLoad (vendor : Text) : Text := "const-string v0, \"" ++ vendor ++ "\""

/-- The fingerprints that an app adds: of the method that hands out its package name, and of methods
that have to return at once. -/
structure AppMethods where
  prime? : Option Fingerprint
  early : List Fingerprint

def patchCode (app : AppMethods) : Run Unit := do
  let vendor ← Run.lift (vendorSetting.require (← Run.options))
  let old ← Run.declaredPackage
  let new ← Run.targetPackage
  let _ ← Run.rename (rules vendor old new)
  app.prime?.forM fun f => do Run.edit (← Run.resolve f).id (editPrime old new)
  app.early.forM Patch.returnEarly
  Patch.returnEarly serviceCheck
  for f in [googlePlayUtility, googlePlayUtility2] do
    (← Run.resolve? f).forM fun m => Run.edit m.id (Edit.returnEarly false)
  Run.edit (← Run.resolve gmsCoreSupport).id (Edit.replaceText 0 (vendorLoad vendor))

def codePatch (app : AppMethods) : Patch := ⟨"GmsCore support", patchCode app⟩

end DalvikPatch.GmsCore
