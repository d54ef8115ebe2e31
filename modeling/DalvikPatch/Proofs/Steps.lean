import DalvikPatch.Run.Basic
import DalvikPatch.Editing.Basic

/-! Steps on a state that may stop. Runs and edits are both of this form, and one set of equations
opens either: what a step answers and the state that it leaves. -/

namespace DalvikPatch

variable {σ α β : Type}

/-- What a step answers, and the state after it. -/
def exec (x : ExceptT Stop (StateM σ) α) (s : σ) : Except Stop α × σ := x.run.run s

@[simp] theorem exec_pure (a : α) (s : σ) :
    exec (pure a : ExceptT Stop (StateM σ) α) s = (.ok a, s) := rfl

@[simp] theorem exec_bind (x : ExceptT Stop (StateM σ) α) (g : α → ExceptT Stop (StateM σ) β) (s : σ) :
    exec (x >>= g) s = match exec x s with
      | (.ok a, t) => exec (g a) t
      | (.error e, t) => (.error e, t) := by
  simp only [exec, bind, ExceptT.bind, ExceptT.mk, ExceptT.run, StateT.bind, StateT.run]
  rcases x s with ⟨_ | _, t⟩ <;> rfl

/-- A sequence that succeeds does so in its first part, and goes on with what that answers. -/
theorem exists_of_exec_bind {x : ExceptT Stop (StateM σ) α} {g : α → ExceptT Stop (StateM σ) β} {s t : σ}
    {b : β} (h : exec (x >>= g) s = (.ok b, t)) :
    ∃ a s', exec x s = (.ok a, s') ∧ exec (g a) s' = (.ok b, t) := by
  rw [exec_bind] at h
  rcases hx : exec x s with ⟨e | a, s'⟩ <;> rw [hx] at h
  · cases h
  · exact ⟨a, s', rfl, h⟩

@[simp] theorem exec_map (x : ExceptT Stop (StateM σ) α) (g : α → β) (s : σ) :
    exec (g <$> x) s = ((exec x s).1.map g, (exec x s).2) := by
  simp only [exec, Functor.map, ExceptT.map, ExceptT.mk, ExceptT.run, bind, StateT.bind, StateT.run]
  rcases x s with ⟨_ | _, t⟩ <;> rfl

@[simp] theorem exec_get (s : σ) : exec (get : ExceptT Stop (StateM σ) σ) s = (.ok s, s) := rfl

@[simp] theorem exec_set (s t : σ) :
    exec (set t : ExceptT Stop (StateM σ) PUnit) s = (.ok ⟨⟩, t) := rfl

@[simp] theorem exec_modify (g : σ → σ) (s : σ) :
    exec (modify g : ExceptT Stop (StateM σ) PUnit) s = (.ok ⟨⟩, g s) := rfl

@[simp] theorem exec_throw (e : Stop) (s : σ) :
    exec (throw e : ExceptT Stop (StateM σ) α) s = (.error e, s) := rfl

@[simp] theorem exec_ite {q : Prop} [Decidable q] (x y : ExceptT Stop (StateM σ) α) (s : σ) :
    exec (if q then x else y) s = if q then exec x s else exec y s := by
  split <;> rfl

@[simp] theorem Run.exec_lift (x : Outcome α) (c : Context) : exec (Run.lift x) c = (x, c) := rfl

@[simp] theorem Run.exec_stop (f : Fault) (c : Context) :
    exec (Run.stop f : Run α) c = (.error (.fault f), c) := rfl

@[simp] theorem Edit.exec_lift (x : Outcome α) (e : Editor) : exec (Edit.lift x) e = (x, e) := rfl

@[simp] theorem Edit.exec_stop (f : Fault) (e : Editor) :
    exec (Edit.stop f : Edit α) e = (.error (.fault f), e) := rfl

end DalvikPatch
