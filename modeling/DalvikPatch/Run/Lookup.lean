import DalvikPatch.Run.Basic

/-! Looking methods up in a run. Fingerprints are matched against the classes as they were loaded,
whatever has been edited, and what a fingerprint was resolved to is remembered. -/

namespace DalvikPatch.Run

/-- Records that the condition of a fingerprint was asked about methods. -/
def record (f : Fingerprint) (ids : List MethodId) : Run Unit :=
  modify fun c => { c with asked := c.asked ++ ids.map fun id => (f.identity, id) }

/-- Looks at one method; none if there is no such method. -/
def matchAt? (f : Fingerprint) (id : MethodId) : Run (Option (List StringMatch)) := do
  let c ← get
  match c.pool.class? id.owner, c.pool.method? id with
  | some k, some m =>
    record f (if f.asks m then [id] else [])
    lift (f.match? m k)
  | _, _ => return none

/-- Looks at every method, remembering nothing. -/
def scan (f : Fingerprint) : Run Resolution := do
  let c ← get
  record f (f.asked c.pool.entries)
  lift (f.scan c.pool)

/-- What a fingerprint resolves to, from memory if it was looked for before. A failure is not
remembered. -/
def resolution (f : Fingerprint) : Run Resolution := do
  match (← get).resolutions.lookup f.identity with
  | some r => return r
  | none =>
    let r ← scan f
    modify fun c => { c with resolutions := (f.identity, r) :: c.resolutions }
    return r

/-- The one method that a resolution names. -/
def unique (f : Fingerprint) (r : Resolution) : Run Match := do
  lift (r.unique f.name (← get).pool)

def resolve (f : Fingerprint) : Run Match := do
  unique f (← resolution f)

/-- The one method found, if any was found; more than one is a fault. -/
def resolve? (f : Fingerprint) : Run (Option Match) := do
  match ← resolution f with
  | .notFound => return none
  | r => some <$> unique f r

end DalvikPatch.Run
