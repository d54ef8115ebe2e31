import DalvikPatch.Proofs.Passes
import DalvikPatch.Proofs.Steps
import DalvikPatch.Run.Editing
import DalvikPatch.Run.Lookup

/-! The operations of a run on its classes, in any order and number. An operation that stops keeps
what it did, and the run goes on. Each has one equation that says what it answers and what it does
to the context. -/

namespace DalvikPatch

/-- What may be done in a run: looking a fingerprint up, changing a class in any way, editing a
method, and renaming texts. -/
inductive Operation where
  | resolve (f : Fingerprint)
  | probe (f : Fingerprint)
  | change (k : Nat) (g : Class → Class)
  | edit (id : MethodId) (x : Edit Unit)
  | rename (chain : Chain)

/-- Opens a class for writing and changes it. -/
def Run.change (k : Nat) (g : Class → Class) : Run Unit :=
  modify fun c => { c with workspace := c.workspace.change k g }

namespace Operation

def step : Operation → Run Unit
  | resolve f => do let _ ← Run.resolve f
  | probe f => do let _ ← Run.resolve? f
  | change k g => Run.change k g
  | edit id x => Run.edit id x
  | rename chain => do let _ ← Run.rename chain

/-- The context after an operation, whether it stopped or not. -/
def run (o : Operation) (c : Context) : Context := (exec o.step c).2

/-- The fingerprint that is looked up. -/
def fingerprint? : Operation → Option Fingerprint
  | resolve f | probe f => some f
  | _ => none

end Operation

namespace Context

/-- The context after operations. -/
def after (c : Context) (os : List Operation) : Context := os.foldl (fun c o => o.run c) c

@[simp] theorem after_nil (c : Context) : c.after [] = c := rfl

@[simp] theorem after_append (c : Context) (os : List Operation) (o : Operation) :
    c.after (os ++ [o]) = o.run (c.after os) := by
  simp [after]

/-! ### Looking up -/

/-- What a look-up finds: what is remembered, or else what the scan says. -/
def found (c : Context) (f : Fingerprint) : Outcome Resolution :=
  match c.resolutions.lookup f.identity with
  | some r => .ok r
  | none => f.scan c.pool

/-- The context after a look-up: a scan is written down, and its answer remembered. -/
def looked (c : Context) (f : Fingerprint) : Context :=
  match c.resolutions.lookup f.identity with
  | some _ => c
  | none =>
    { c with
      asked := c.asked ++ (f.asked c.pool.entries).map fun id => (f.identity, id)
      resolutions := match f.scan c.pool with
        | .ok r => (f.identity, r) :: c.resolutions
        | .error _ => c.resolutions }

theorem workspace_looked (c : Context) (f : Fingerprint) : (c.looked f).workspace = c.workspace := by
  rw [looked]
  split <;> rfl

theorem pool_looked (c : Context) (f : Fingerprint) : (c.looked f).pool = c.pool := by
  rw [pool, workspace_looked, pool]

theorem exec_resolution (c : Context) (f : Fingerprint) :
    exec (Run.resolution f) c = (c.found f, c.looked f) := by
  obtain h | ⟨r, h⟩ := Option.eq_none_or_eq_some (c.resolutions.lookup f.identity)
  · cases hs : f.scan c.pool <;>
      simp [Run.resolution, Run.scan, Run.record, found, looked, h, hs, Except.map]
  · simp [Run.resolution, found, looked, h]

theorem exec_resolve (c : Context) (f : Fingerprint) :
    exec (Run.resolve f) c = ((c.found f).bind (·.unique f.name c.pool), c.looked f) := by
  cases h : c.found f <;>
    simp [Run.resolve, Run.unique, exec_resolution, h, Except.bind, pool_looked]

theorem exec_probe (c : Context) (f : Fingerprint) :
    exec (Run.resolve? f) c = ((c.found f).bind fun r =>
      if r = .notFound then .ok none else (r.unique f.name c.pool).map some, c.looked f) := by
  rcases h : c.found f with _ | _ | _ | _ <;>
    simp [Run.resolve?, Run.unique, exec_resolution, h, Except.bind, pool_looked]

/-! ### Editing -/

theorem exec_change (c : Context) (k : Nat) (g : Class → Class) :
    exec (Run.change k g) c = (.ok (), { c with workspace := c.workspace.change k g }) := rfl

theorem exec_rename (c : Context) (chain : Chain) :
    exec (Run.rename chain) c = (.ok (c.workspace.passReport chain),
      { c with workspace := c.workspace.rename chain }) := by
  simp [Run.rename, Workspace.pass_eq, Except.map]

theorem run_rename (c : Context) (chain : Chain) :
    (Operation.rename chain).run c = { c with workspace := c.workspace.rename chain } := by
  simp [Operation.run, Operation.step, exec_rename]

/-- What opening a method answers, and the classes after it. -/
def opened (w : Workspace) (id : MethodId) : Outcome Editor × Workspace :=
  let reference := w.pool.describe id
  if (w.pool.method? id).isNone then (.fault (.notFound "method" reference), w)
  else
    let w := w.openClass id.owner
    match w.method? id with
    | none => (.fault (.notFound "method" reference), w)
    | some m => (Editor.open? reference m, w)

/-- What an edit answers, and the classes after it. -/
def edited {α : Type} (w : Workspace) (id : MethodId) (x : Edit α) : Outcome α × Workspace :=
  match opened w id with
  | (.error s, w) => (.error s, w)
  | (.ok e, w) => ((exec x e).1, w.changeMethod id fun _ => (exec x e).2.method)

theorem exec_openMethod (c : Context) (id : MethodId) :
    exec (Run.openMethod id) c =
      ((opened c.workspace id).1, { c with workspace := (opened c.workspace id).2 }) := by
  obtain hp | ⟨_, hp⟩ := Option.eq_none_or_eq_some (c.workspace.pool.method? id)
  · simp [Run.openMethod, opened, pool, hp, Outcome.fault]
  · cases hm : (c.workspace.openClass id.owner).method? id <;>
      simp [Run.openMethod, opened, pool, hp, hm, Outcome.fault]

theorem exec_edit {α : Type} (c : Context) (id : MethodId) (x : Edit α) :
    exec (Run.edit id x) c = ((edited c.workspace id x).1,
      { c with workspace := (edited c.workspace id x).2 }) := by
  have h : Run.edit id x = Run.openMethod id >>= fun e =>
      Run.putMethod id (exec x e).2.method >>= fun _ => Run.lift (exec x e).1 := rfl
  rw [h, exec_bind, exec_openMethod, edited]
  rcases opened c.workspace id with ⟨_ | e, w⟩ <;> simp [Run.putMethod]

end Context

end DalvikPatch
