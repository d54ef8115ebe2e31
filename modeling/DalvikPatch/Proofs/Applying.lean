import DalvikPatch.Proofs.Memory
import DalvikPatch.Proofs.Trees
import DalvikPatch.Run.Patch

/-! Applying patches, and what steps of a run leave alone. A fault is told with the name of the patch
and changes nothing else, an abort ends a call; and what looks methods up and edits them does not
touch package names, options or files. -/

namespace DalvikPatch

open Text

variable {α β : Type}

/-! ### Patches -/

/-- What a patch answers for what its step does. -/
def Patch.told (name : Text) : Outcome Unit → Outcome Unit
  | .error (.fault f) => .fault (.patch name f)
  | x => x

theorem exec_attempt (x : Run α) (c : Context) :
    exec (Run.attempt x) c = match exec x c with
      | (.ok a, d) => (.ok (.ok a), d)
      | (.error (.fault f), d) => (.ok (.error f), d)
      | (.error (.abort a), d) => (.error (.abort a), d) := by
  simp only [Run.attempt, exec, ExceptT.run, tryCatch, tryCatchThe, MonadExceptOf.tryCatch,
    ExceptT.tryCatch, ExceptT.mk, Functor.map, ExceptT.map, bind, StateT.bind, StateT.run]
  rcases x c with ⟨(f | a) | a, d⟩ <;> rfl

theorem exec_apply (p : Patch) (c : Context) :
    exec p.apply c = (Patch.told p.name (exec p.step c).1, (exec p.step c).2) := by
  rw [Patch.apply, exec_bind, exec_attempt]
  rcases exec p.step c with ⟨(f | a) | ⟨⟩, d⟩ <;> rfl

/-- Several patches: the first is applied, and unless it aborts the others after it. -/
theorem exec_applyAll_cons (p : Patch) (ps : List Patch) (c : Context) :
    (exec (Patch.applyAll (p :: ps)) c).2 = match exec p.apply c with
      | (.error (.abort _), d) => d
      | (_, d) => (exec (Patch.applyAll ps) d).2 := by
  have hrest : ∀ (r : Text × Except Fault Unit) (d : Context),
      (exec (do return r :: (← Patch.applyAll ps) : Run (List (Text × Except Fault Unit))) d).2 =
        (exec (Patch.applyAll ps) d).2 := by
    intro r d
    rw [exec_bind]
    rcases exec (Patch.applyAll ps) d with ⟨_ | _, d⟩ <;> rfl
  rw [Patch.applyAll, List.mapM_cons, exec_bind, exec_bind, exec_attempt]
  rcases exec p.apply c with ⟨(f | a) | ⟨⟩, d⟩
  · exact hrest (p.name, .error f) d
  · rfl
  · exact hrest (p.name, .ok ()) d

/-! ### What steps leave alone -/

/-- All of a context but its classes and what was looked up in them. -/
def Context.surroundings (c : Context) : PackageNames × Options × Option Text × FileTree × List (Option Refusal) :=
  (c.packages, c.options, c.resources?, c.files, c.refusals)

/-- Whatever a step answers, the surroundings of the classes are what they were. -/
def Run.Stays (x : Run α) : Prop := ∀ c, (exec x c).2.surroundings = c.surroundings

namespace Run

theorem Stays.bind {x : Run α} {g : α → Run β} (hx : x.Stays) (hg : ∀ a, (g a).Stays) :
    (x >>= g).Stays := by
  intro c
  have hc := hx c
  rw [exec_bind]
  rcases h : exec x c with ⟨_ | a, d⟩ <;> rw [h] at hc
  · exact hc
  · exact (hg a d).trans hc

theorem stays_pure (a : α) : (pure a : Run α).Stays := fun _ => rfl

theorem stays_lift (x : Outcome α) : (lift x).Stays := fun _ => rfl

theorem stays_get : (get : Run Context).Stays := fun _ => rfl

theorem stays_options : options.Stays := stays_get.bind fun _ => stays_pure _

theorem stays_declaredPackage : declaredPackage.Stays := stays_get.bind fun _ => stays_lift _

theorem stays_targetPackage : targetPackage.Stays := stays_get.bind fun _ => stays_lift _

theorem stays_resolve (f : Fingerprint) : (resolve f).Stays := by
  intro c
  rw [Context.exec_resolve, Context.looked]
  split <;> rfl

theorem stays_resolve? (f : Fingerprint) : (resolve? f).Stays := by
  intro c
  rw [Context.exec_probe, Context.looked]
  split <;> rfl

theorem stays_edit (id : MethodId) (x : Edit α) : (edit id x).Stays := by
  intro c
  rw [Context.exec_edit]
  rfl

theorem stays_rename (chain : Chain) : (rename chain).Stays := by
  intro c
  rw [Context.exec_rename]
  rfl

theorem stays_forM {xs : List α} {x : α → Run Unit} (h : ∀ a, (x a).Stays) : (xs.forM x).Stays := by
  induction xs with
  | nil => exact stays_pure _
  | cons a xs ih => exact (h a).bind fun _ => ih

theorem stays_forM? {a? : Option α} {x : α → Run Unit} (h : ∀ a, (x a).Stays) : (a?.forM x).Stays := by
  cases a? with
  | none => exact stays_pure _
  | some a => exact h a

theorem stays_returnEarly (f : Fingerprint) : (Patch.returnEarly f).Stays :=
  (stays_resolve f).bind fun _ => stays_edit _ _

end Run

end DalvikPatch
