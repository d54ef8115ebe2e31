import DalvikPatch.File.Tree
import DalvikPatch.Fingerprint.Basic
import DalvikPatch.Setting
import DalvikPatch.Workspace

/-! The state of a run: the classes under edit, what is already known about fingerprints and package
names, the options, and the files. A step that stops keeps what it did before. Whether the system lets the
program at a file is not up to the program: a run has what the system will say to each access. -/

namespace DalvikPatch

open Text

/-- The package that the manifest declared, and the one that was chosen for the app. -/
structure PackageNames where
  declared? : Option Text
  chosen? : Option Text
  deriving DecidableEq

namespace PackageNames

def unknown : PackageNames := ⟨none, none⟩

def declared (p : PackageNames) : Outcome Text :=
  match p.declared? with
  | some s => .ok s
  | none => .fault .unknownPackage

/-- The name that was chosen, or one made from the declared name. -/
def target (p : PackageNames) : Outcome Text :=
  match p.chosen? with
  | some s => .ok s
  | none => p.declared.map fun s => s ++ ".revanced"

end PackageNames

/-- A full disk, a missing permission or a broken device: what the system says instead of doing what it was asked,
and how much it had done by then, if it had begun. -/
structure Refusal where
  reason : Text
  done? : Option Nat
  deriving DecidableEq

structure Context where
  workspace : Workspace
  /-- What the fingerprints that have been looked for were resolved to, by their identity. -/
  resolutions : List (Nat × Resolution)
  /-- The methods that conditions were asked about, by the identity of the fingerprint. -/
  asked : List (Nat × MethodId)
  packages : PackageNames
  options : Options
  /-- The folder of the resources. -/
  resources? : Option Text
  files : FileTree
  /-- What the system says to the accesses of files that are to come; it does what it is asked where it says
  nothing. -/
  refusals : List (Option Refusal)
  deriving DecidableEq

namespace Context

/-- The start of a run in which the system does what it is asked. -/
def start (p : Pool) (options : Options) (resources? : Option Text) (files : FileTree) : Context where
  workspace := .ofPool p
  resolutions := []
  asked := []
  packages := .unknown
  options := options
  resources? := resources?
  files := files
  refusals := []

/-- The classes as they were loaded. -/
def pool (c : Context) : Pool := c.workspace.pool

/-- The run after its classes are taken out: nothing is left but the files, what the system says about them, and
the record of what conditions were asked. -/
def drained (c : Context) : Context :=
  { start .empty .empty none c.files with asked := c.asked, refusals := c.refusals }

end Context

/-- A step of a run. -/
abbrev Run (α : Type) := ExceptT Stop (StateM Context) α

namespace Run

variable {α : Type}

def lift (x : Outcome α) : Run α := ExceptT.mk (pure x)

def stop (f : Fault) : Run α := throw (.fault f)

/-- Takes a fault as a result; an abort still ends the run. -/
def attempt (x : Run α) : Run (Except Fault α) :=
  tryCatch (Except.ok <$> x) fun
    | .fault f => return .error f
    | .abort a => throw (.abort a)

def options : Run Options := return (← get).options

/-! ### Package names -/

def setDeclared (s : Text) : Run Unit :=
  modify fun c => { c with packages := { c.packages with declared? := some s } }

def setTarget (s : Text) : Run Unit :=
  modify fun c => { c with packages := { c.packages with chosen? := some s } }

def declaredPackage : Run Text := do lift (← get).packages.declared

def targetPackage : Run Text := do lift (← get).packages.target

end Run

end DalvikPatch
