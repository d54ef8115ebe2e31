import DalvikPatch.Editing.Return
import DalvikPatch.Proofs.Members
import DalvikPatch.Proofs.Steps

/-! What edits of a body keep. However an edit ends, the items are valid and the directives are the
ones from before. -/

namespace DalvikPatch

open Text

namespace Method

/-- A valid method with the directives of another one. -/
structure Revises (m' m : Method) : Prop where
  valid : m'.Valid
  directives : m'.directives = m.directives

variable {m : Method}

theorem Valid.revises (h : m.Valid) : m.Revises m := ⟨h, rfl⟩

theorem Revises.trans {m' m'' : Method} (h : m''.Revises m') (h' : m'.Revises m) : m''.Revises m :=
  ⟨h.valid, h.directives.trans h'.directives⟩

theorem Declared.with_items (h : m.Declared) (items : List BodyItem) :
    { m with items := items }.Declared :=
  ⟨h.flags, h.name, h.parenthesis, h.prototype, h.quiet⟩

theorem Valid.revises_of_frame (h : m.Valid) (f : FrameSize) : { m with frame? := some f }.Revises m where
  valid := ⟨⟨h.declared.flags, h.declared.name, h.declared.parenthesis, h.declared.prototype,
    h.declared.quiet⟩, h.items⟩
  directives := rfl

theorem Valid.revises_of_withLocals? (h : m.Valid) {n : UInt16} {m' : Method}
    (hm : m.withLocals? n = some m') : m'.Revises m := by
  rw [withLocals?] at hm
  split at hm
  · split at hm
    · cases hm
      exact h.revises_of_frame _
    · cases hm
  · cases hm
    exact h.revises_of_frame _

theorem Valid.revises_of_withAtLeast? (h : m.Valid) {n : UInt16} {m' : Method}
    (hm : m.withAtLeast? n = some m') : m'.Revises m := by
  obtain ⟨k, -, hm⟩ := Option.bind_eq_some_iff.1 hm
  split at hm
  · exact h.revises_of_withLocals? hm
  · cases hm
    exact h.revises

theorem Valid.revises_of_items (h : m.Valid) {items : List BodyItem} (hv : ∀ i ∈ items, i.Valid)
    (hd : directivesOf items = directivesOf m.items) : { m with items := items }.Revises m where
  valid := ⟨h.declared.with_items items, hv⟩
  directives := hd

theorem Valid.revises_of_set (h : m.Valid) {k p : Nat} (hp : m.place? k = some p) {i : Instruction}
    (hi : i.Valid) : { m with items := m.items.set p (.instruction i) }.Revises m := by
  obtain ⟨before, j, after, hitems, rfl, -⟩ := eq_of_placeIn? hp
  apply h.revises_of_items
  · intro item hmem
    rcases List.mem_or_eq_of_mem_set hmem with hmem | rfl
    · exact h.items item hmem
    · exact hi
  · rw [hitems, List.set_append_right _ _ (Nat.le_refl _), Nat.sub_self, List.set_cons_zero]
    simp

theorem Valid.revises_of_eraseIdx (h : m.Valid) {k p : Nat} (hp : m.place? k = some p) :
    { m with items := m.items.eraseIdx p }.Revises m := by
  obtain ⟨before, j, after, hitems, rfl, -⟩ := eq_of_placeIn? hp
  apply h.revises_of_items
  · exact fun item hmem => h.items item (List.mem_of_mem_eraseIdx hmem)
  · rw [hitems, List.eraseIdx_append_of_length_le (Nat.le_refl _), Nat.sub_self, List.eraseIdx_cons_zero]
    simp

theorem Valid.revises_of_insertAt (h : m.Valid) (p : Nat) {block : List Instruction}
    (hb : ∀ i ∈ block, i.Valid) : (m.insertAt p block).Revises m := by
  apply h.revises_of_items
  · intro item hmem
    rcases List.mem_append.1 hmem with hmem | hmem
    · rcases List.mem_append.1 hmem with hmem | hmem
      · exact h.items item (List.mem_of_mem_take hmem)
      · obtain ⟨i, hi, rfl⟩ := List.mem_map.1 hmem
        exact hb i hi
    · exact h.items item (List.mem_of_mem_drop hmem)
  · have hblock : directivesOf (block.map .instruction) = [] := by
      simp [directivesOf, BodyItem.directive?]
    rw [directivesOf_append, directivesOf_append, hblock, List.append_nil, ← directivesOf_append,
      List.take_append_drop]

end Method

/-! ### Edits -/

namespace Edit

variable {α β : Type}

/-- Whether it stops or not, the edit revises the method. -/
def Keeps (x : Edit α) : Prop :=
  ∀ e : Editor, e.method.Valid → (exec x e).2.method.Revises e.method

theorem Keeps.bind {x : Edit α} {g : α → Edit β} (hx : x.Keeps) (hg : ∀ a, (g a).Keeps) :
    (x >>= g).Keeps := by
  intro e he
  have hm := hx e he
  rw [exec_bind]
  rcases h : exec x e with ⟨_ | a, t⟩ <;> rw [h] at hm
  · exact hm
  · exact (hg a t hm.valid).trans hm

/-- What follows a check has to keep the method only if the check succeeds. -/
theorem keeps_check {x : Except InstructionFault α} {g : α → Edit β}
    (hg : ∀ a, x = .ok a → (g a).Keeps) : (check x >>= g).Keeps := by
  intro e he
  rw [exec_bind, check, exec_lift]
  cases x with
  | error f => exact he.revises
  | ok a => exact hg a rfl e he

theorem keeps_stop (f : Fault) : (stop f : Edit α).Keeps := fun _ he => he.revises

theorem keeps_pure (a : α) : (pure a : Edit α).Keeps := fun _ he => he.revises

/-- An instruction is put in the place of another if the method admits it. -/
theorem exec_replace (k : Nat) (i : Instruction) (e : Editor) :
    exec (replace k i) e = match e.method.place? k with
      | none => (.error (.fault (e.outOfRange k)), e)
      | some p => match e.method.checkRegisters e.reference i with
        | .ok () => (.ok (), { e with method :=
            { e.method with items := e.method.items.set p (.instruction i) } })
        | .error s => (.error s, e) := by
  rw [replace, exec_bind, exec_get]
  simp only
  cases e.method.place? k with
  | none => rfl
  | some p =>
    simp only [exec_bind, exec_lift]
    cases e.method.checkRegisters e.reference i <;> rfl

theorem keeps_replace (k : Nat) {i : Instruction} (hi : i.Valid) : (replace k i).Keeps := by
  intro e he
  rw [exec_replace]
  cases hp : e.method.place? k with
  | none => exact he.revises
  | some p =>
    simp only
    cases e.method.checkRegisters e.reference i with
    | error s => exact he.revises
    | ok u => exact he.revises_of_set hp hi

theorem keeps_replaceText (k : Nat) (s : Text) : (replaceText k s).Keeps := by
  apply keeps_check
  intro block hblock
  split
  · next i => exact keeps_replace k (Instruction.valid_of_readAll hblock i (List.mem_singleton_self i))
  · exact keeps_stop _

theorem keeps_nop (k : Nat) : (nop k).Keeps :=
  keeps_check fun _ hi => keeps_replace k (Instruction.valid_of_ofName hi (by simp))

theorem exec_forM_lift (f : Instruction → Outcome Unit) (block : List Instruction) (e : Editor) :
    exec (block.forM fun i => (lift (f i) : Edit Unit)) e = (block.forM f, e) := by
  induction block with
  | nil => rfl
  | cons i block ih =>
    rw [List.forM, List.forM, exec_bind, exec_lift]
    cases f i with
    | error s => rfl
    | ok u => exact ih

/-- A block is put into a gap if the method admits all its instructions. -/
theorem exec_insert (k : Nat) (block : List Instruction) (e : Editor) :
    exec (insert k block) e = match e.method.gap? k with
      | none => (.error (.fault (e.outOfRange k)), e)
      | some p => match block.forM (e.method.checkRegisters e.reference) with
        | .ok () => (.ok (), { e with method := e.method.insertAt p block })
        | .error s => (.error s, e) := by
  rw [insert, exec_bind, exec_get]
  simp only
  cases e.method.gap? k with
  | none => rfl
  | some p =>
    simp only [exec_bind, exec_forM_lift]
    cases block.forM (e.method.checkRegisters e.reference) <;> rfl

theorem keeps_insert (k : Nat) {block : List Instruction} (hb : ∀ i ∈ block, i.Valid) :
    (insert k block).Keeps := by
  intro e he
  rw [exec_insert]
  cases e.method.gap? k with
  | none => exact he.revises
  | some p =>
    simp only
    cases block.forM (e.method.checkRegisters e.reference) with
    | error s => exact he.revises
    | ok u => exact he.revises_of_insertAt p hb

theorem keeps_insertText (k : Nat) (s : Text) : (insertText k s).Keeps :=
  keeps_check fun _ hblock => keeps_insert k (Instruction.valid_of_readAll hblock)

theorem keeps_remove (k : Nat) : (remove k).Keeps := by
  intro e he
  rw [remove, exec_bind, exec_get]
  simp only
  split
  · next p i hp hi => exact he.revises_of_eraseIdx hp
  · exact he.revises

theorem exec_ensureLocals (n : UInt16) (e : Editor) : exec (ensureLocals n) e =
    match e.method.withAtLeast? n with
    | some m => (.ok (), { e with method := m })
    | none => (Outcome.abort .frameTooLarge, e) := by
  rw [ensureLocals, exec_bind, exec_get]
  simp only
  cases e.method.withAtLeast? n <;> rfl

theorem keeps_ensureLocals (n : UInt16) : (ensureLocals n).Keeps := by
  intro e he
  rw [exec_ensureLocals]
  cases hm : e.method.withAtLeast? n with
  | none => exact he.revises
  | some m => exact he.revises_of_withAtLeast? hm

theorem keeps_makeRoom (kind : ReturnKind) : (makeRoom kind).Keeps := by
  rw [makeRoom]
  split
  · exact keeps_pure _
  · exact keeps_ensureLocals _

theorem keeps_returnEarly (value : Bool) : (returnEarly value).Keeps := by
  intro e he
  have hrest : ∀ kind t, (do makeRoom kind; insert 0 (← check (stub t value)) : Edit Unit).Keeps :=
    fun kind t => (keeps_makeRoom kind).bind fun _ => keeps_check fun _ hblock =>
      keeps_insert 0 (Instruction.valid_of_stub hblock)
  rw [returnEarly, exec_bind, exec_get]
  simp only
  split
  · exact he.revises
  · exact hrest _ _ e he

end Edit

end DalvikPatch
