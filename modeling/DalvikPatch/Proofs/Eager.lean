import DalvikPatch.Proofs.Memory

/-! Copying on the first write is not seen. A run shows what it would show if every class had been
copied at its start and each operation were done on the copies, and the loaded classes stay. -/

namespace DalvikPatch

open Text

theorem Slot.current_rename (c : Chain) (s : Slot) : (s.rename c).current = s.current.rename c := by
  rw [rename]
  split
  · next h => exact (Class.rename_eq_self h).symm
  · rfl

namespace Workspace

theorem classes_ofPool (p : Pool) : (ofPool p).classes = p.classes := by
  simp [ofPool, classes, Slot.current, Function.comp_def]

@[simp] theorem classes_openClass (w : Workspace) (k : Nat) : (w.openClass k).classes = w.classes := by
  rw [openClass, classes_change, List.modify_id]

theorem classes_rename (w : Workspace) (c : Chain) :
    (w.rename c).classes = w.classes.map (·.rename c) := by
  simp [rename, classes, Function.comp_def, Slot.current_rename]

/-! ### Classes that have been written to -/

theorem class?_eq (w : Workspace) (k : Nat) : w.class? k = w.slots[k]?.map Slot.current := by
  simp [class?, classes]

theorem class?_of_not_isOpen {w : Workspace} {k : Nat} (h : w.isOpen k = false) :
    w.class? k = w.pool.class? k := by
  rw [class?_eq, pool, Pool.class?, List.getElem?_map]
  cases hs : w.slots[k]? with
  | none => rfl
  | some s =>
    have : s.copy? = none := by simpa [isOpen, hs, Slot.isOpen] using h
    simp [Slot.current, this]

theorem isOpen_change (w : Workspace) (f : Class → Class) (k j : Nat) :
    (w.change k f).isOpen j ↔ w.isOpen j ∨ j < w.slots.length ∧ j = k := by
  simp only [isOpen, change, List.getElem?_modify]
  by_cases hj : j < w.slots.length
  · obtain rfl | hk := eq_or_ne j k
    · simp [hj, Slot.write, Slot.isOpen]
    · simp [hk, hk.symm]
  · simp [hj]

theorem isOpen_rename (w : Workspace) (chain : Chain) (j : Nat) :
    (w.rename chain).isOpen j ↔
      w.isOpen j ∨ ∃ c, w.classes[j]? = some c ∧ c.changes chain ≠ 0 := by
  simp only [isOpen, rename, classes, List.getElem?_map]
  cases w.slots[j]? with
  | none => simp
  | some s =>
    by_cases h : s.current.changes chain = 0 <;> simp [Slot.rename, h, Slot.write, Slot.isOpen]

theorem pairwise_openIndices (w : Workspace) : w.openIndices.Pairwise (· < ·) := by
  rw [openIndices, List.pairwise_filterMap]
  refine (pairwise_zipIdx w.slots).imp fun h => ?_
  intro i hi j hj
  split at hi <;> split at hj <;> simp_all

theorem mem_openIndices {w : Workspace} {k : Nat} : k ∈ w.openIndices ↔ w.isOpen k := by
  simp only [openIndices, List.mem_filterMap, List.mem_zipIdx_iff_getElem?, isOpen]
  constructor
  · rintro ⟨⟨s, i⟩, hs, hi⟩
    split at hi <;> simp_all
  · intro h
    obtain ⟨s, hs, ho⟩ := (Option.any_eq_true _ _).1 h
    exact ⟨(s, k), hs, by simp [ho]⟩

/-- The copies are the classes at the open indices. -/
theorem modified_eq (w : Workspace) :
    w.modified = w.openIndices.filterMap fun k => w.class? k := by
  have h : w.slots.zipIdx.map Prod.fst = w.slots := List.zipIdx_map_fst 0 w.slots
  rw [modified, ← h, List.filterMap_map, openIndices, List.filterMap_filterMap]
  refine List.filterMap_congr fun s hs => ?_
  have hslot : w.slots[s.2]? = some s.1 := List.mem_zipIdx_iff_getElem?.1 hs
  cases hc : s.1.copy? <;> simp [Slot.isOpen, hc, class?_eq, hslot, Slot.current]

end Workspace

namespace Operation

/-! ### Operations on plain copies -/

/-- What an edit answers, and the copies after it. Only a method that was loaded is edited. -/
def editCopies {α : Type} (p : Pool) (id : MethodId) (x : Edit α) (copies : List Class) :
    Outcome α × List Class :=
  let reference := p.describe id
  match p.method? id, copies[id.owner]?.bind fun c => c.methods[id.index]? with
  | some _, some m =>
    match Editor.open? reference m with
    | .error s => (.error s, copies)
    | .ok e => ((exec x e).1, copies.modify id.owner fun c =>
        { c with methods := c.methods.modify id.index fun _ => (exec x e).2.method })
  | _, _ => (.fault (.notFound "method" reference), copies)

/-- What a pass counts. -/
def countCopies (chain : Chain) (copies : List Class) : PassReport where
  literals := (copies.flatMap Class.items).countP (·.isChanged chain)
  classes := copies.countP fun k => k.changes chain != 0

/-- What an operation makes of the copies. -/
def onCopies (p : Pool) : Operation → List Class → List Class
  | resolve _, copies | probe _, copies => copies
  | change k g, copies => copies.modify k g
  | edit id x, copies => (editCopies p id x copies).2
  | rename chain, copies => copies.map (·.rename chain)

/-- Whether an operation writes to a class. A method that was not loaded is refused before. -/
def Writes (p : Pool) (copies : List Class) : Operation → Nat → Prop
  | resolve _, _ | probe _, _ => False
  | change k _, j => j = k
  | edit id _, j => j = id.owner ∧ (p.method? id).isSome
  | rename chain, j => ∃ c, copies[j]? = some c ∧ c.changes chain ≠ 0

/-- The copies after operations. -/
def copiesAfter (p : Pool) (os : List Operation) : List Class :=
  os.foldl (fun copies o => o.onCopies p copies) p.classes

@[simp] theorem copiesAfter_append (p : Pool) (os : List Operation) (o : Operation) :
    copiesAfter p (os ++ [o]) = o.onCopies p (copiesAfter p os) := by
  simp [copiesAfter]

theorem length_onCopies (p : Pool) (o : Operation) (copies : List Class) :
    (o.onCopies p copies).length = copies.length := by
  cases o with
  | resolve | probe => rfl
  | change k g => exact List.length_modify _ _ _
  | edit id x =>
    simp only [onCopies, editCopies]
    split
    · split
      · rfl
      · exact List.length_modify _ _ _
    · rfl
  | rename chain => exact List.length_map _

theorem length_copiesAfter (p : Pool) (os : List Operation) :
    (copiesAfter p os).length = p.size := by
  induction os using List.reverseRecOn with
  | nil => rfl
  | append_singleton os o ih =>
    rw [copiesAfter_append, length_onCopies, ih]

/-- An operation leaves a copy that it does not write to. -/
theorem getElem?_onCopies {p : Pool} {copies : List Class} {o : Operation} {j : Nat}
    (h : ¬ o.Writes p copies j) : (o.onCopies p copies)[j]? = copies[j]? := by
  cases o with
  | resolve | probe => rfl
  | change k g => exact List.getElem?_modify_ne _ _ (Ne.symm h)
  | edit id x =>
    simp only [onCopies, editCopies]
    cases hp : p.method? id with
    | none => rfl
    | some m₀ =>
      have hj : id.owner ≠ j := by
        rintro rfl
        exact h ⟨rfl, by simp [hp]⟩
      split
      · split
        · rfl
        · exact List.getElem?_modify_ne _ _ hj
      · rfl
  | rename chain =>
    rw [onCopies, List.getElem?_map]
    cases hc : copies[j]? with
    | none => rfl
    | some c =>
      have : c.changes chain = 0 := by
        by_contra hne
        exact h ⟨c, hc, hne⟩
      rw [Option.map_some, Class.rename_eq_self this]

end Operation

namespace Context

/-! ### The operations of a run -/

theorem edited_eq {α : Type} (w : Workspace) (id : MethodId) (x : Edit α) :
    (edited w id x).1 = (Operation.editCopies w.pool id x w.classes).1 ∧
    (edited w id x).2.classes = (Operation.editCopies w.pool id x w.classes).2 := by
  have hm : (w.openClass id.owner).method? id =
      w.classes[id.owner]?.bind fun c => c.methods[id.index]? := by
    rw [Workspace.method?, Workspace.class?, Workspace.classes_openClass]
  simp only [edited, opened, Operation.editCopies, hm]
  obtain hp | ⟨m₀, hp⟩ := Option.eq_none_or_eq_some (w.pool.method? id)
  · simp [hp, Outcome.fault]
  · cases hc : w.classes[id.owner]?.bind fun c => c.methods[id.index]? with
    | none => simp [hp, Outcome.fault]
    | some m =>
      simp only [hp, Option.isNone_some, Bool.false_eq_true, if_false]
      cases Editor.open? (w.pool.describe id) m <;>
        simp [Workspace.changeMethod, Workspace.classes_change]

/-- One operation does to what a run shows what it does to the copies. -/
theorem classes_run (c : Context) (o : Operation) :
    (o.run c).workspace.classes = o.onCopies c.pool c.workspace.classes := by
  cases o with
  | resolve f => simp [Operation.run, Operation.step, exec_resolve, workspace_looked, Operation.onCopies]
  | probe f => simp [Operation.run, Operation.step, exec_probe, workspace_looked, Operation.onCopies]
  | change k g =>
    rw [Operation.run, Operation.step, exec_change]
    exact Workspace.classes_change c.workspace k g
  | edit id x =>
    rw [Operation.run, Operation.step, exec_edit]
    exact (edited_eq c.workspace id x).2
  | rename chain =>
    rw [run_rename]
    exact Workspace.classes_rename c.workspace chain

theorem isOpen_edited {α : Type} (w : Workspace) (id : MethodId) (x : Edit α) (j : Nat) :
    (edited w id x).2.isOpen j ↔
      w.isOpen j ∨ j < w.slots.length ∧ j = id.owner ∧ (w.pool.method? id).isSome := by
  obtain hp | ⟨m₀, hp⟩ := Option.eq_none_or_eq_some (w.pool.method? id)
  · simp [edited, opened, hp, Outcome.fault]
  · have hlength : (w.openClass id.owner).slots.length = w.slots.length := List.length_modify _ _ _
    have hopen : (w.openClass id.owner).isOpen j ↔
        w.isOpen j ∨ j < w.slots.length ∧ j = id.owner :=
      w.isOpen_change _ id.owner j
    simp only [edited, opened, hp, Option.isNone_some, Bool.false_eq_true, if_false,
      Option.isSome_some, and_true]
    cases (w.openClass id.owner).method? id with
    | none => simpa [Outcome.fault] using hopen
    | some m =>
      dsimp only
      cases Editor.open? (w.pool.describe id) m with
      | error s => exact hopen
      | ok e =>
        simp [Workspace.changeMethod, Workspace.isOpen_change, hopen, hlength]

/-- One operation opens the classes that it writes to, and no other. -/
theorem isOpen_run (c : Context) (o : Operation) (j : Nat) :
    (o.run c).workspace.isOpen j ↔ c.workspace.isOpen j ∨
      j < c.pool.size ∧ o.Writes c.pool c.workspace.classes j := by
  have hsize : c.pool.size = c.workspace.slots.length := by simp [pool, Workspace.pool, Pool.size]
  rw [hsize]
  cases o with
  | resolve f => simp [Operation.run, Operation.step, exec_resolve, workspace_looked, Operation.Writes]
  | probe f => simp [Operation.run, Operation.step, exec_probe, workspace_looked, Operation.Writes]
  | change k g => exact c.workspace.isOpen_change g k j
  | edit id x =>
    rw [Operation.run, Operation.step, exec_edit]
    exact isOpen_edited c.workspace id x j
  | rename chain =>
    have h : (∃ k, c.workspace.classes[j]? = some k ∧ k.changes chain ≠ 0) →
        j < c.workspace.slots.length := by
      rintro ⟨k, hk, -⟩
      simpa [Workspace.classes] using (List.getElem?_eq_some_iff.1 hk).1
    rw [Operation.Writes, and_iff_right_of_imp h, run_rename]
    exact c.workspace.isOpen_rename chain j

theorem agrees (p : Pool) (options : Options) (resources? : Option Text) (files : FileTree)
    (os : List Operation) :
    ((start p options resources? files).after os).pool = p ∧
    ((start p options resources? files).after os).workspace.classes =
      Operation.copiesAfter p os := by
  induction os using List.reverseRecOn with
  | nil => exact ⟨Workspace.pool_ofPool p, Workspace.classes_ofPool p⟩
  | append_singleton os o ih =>
    rw [after_append, pool_run, classes_run, ih.1, ih.2, Operation.copiesAfter_append]
    exact ⟨rfl, rfl⟩

/-- Whatever is done in a run, it shows what plain copies of all classes would show: every class and
method, the answers of edits and passes, and the classes at its end. The loaded classes stay, a
class that was not written to is the loaded one, an operation changes the view of the classes that
it writes to and of no other, and those written to are listed once each, in order. -/
theorem after_agrees (p : Pool) (options : Options) (resources? : Option Text) (files : FileTree)
    (os : List Operation) :
    let c := (start p options resources? files).after os
    let w := c.workspace
    let copies := Operation.copiesAfter p os
    (∀ k, w.class? k = copies[k]?) ∧
    (∀ id, w.method? id = copies[id.owner]?.bind fun k => k.methods[id.index]?) ∧
    (w.classes = copies ∧ w.classes.length = p.size) ∧
    c.pool = p ∧
    (∀ k, w.isOpen k = false → w.class? k = p.class? k) ∧
    (w.modified = w.openIndices.filterMap fun k => copies[k]?) ∧
    (w.openIndices.Pairwise (· < ·) ∧ ∀ k, k ∈ w.openIndices ↔ w.isOpen k) ∧
    (∀ (α : Type) (id : MethodId) (x : Edit α),
      (exec (Run.edit id x) c).1 = (Operation.editCopies p id x copies).1) ∧
    (∀ chain, (exec (Run.rename chain) c).1 = .ok (Operation.countCopies chain copies)) ∧
    ∀ (o : Operation) (k : Nat),
      ((o.run c).workspace.isOpen k ↔ w.isOpen k ∨ k < p.size ∧ o.Writes p copies k) ∧
      (¬ o.Writes p copies k → (o.run c).workspace.class? k = w.class? k) := by
  obtain ⟨hpool, hclasses⟩ := agrees p options resources? files os
  intro c w copies
  have hclass : ∀ k, w.class? k = copies[k]? := fun k => congrArg (·[k]?) hclasses
  have hwpool : w.pool = p := hpool
  refine ⟨hclass, ?_, ⟨hclasses, ?_⟩, hpool, ?_, ?_, ⟨w.pairwise_openIndices, fun k =>
    Workspace.mem_openIndices⟩, ?_, ?_, fun o k => ⟨?_, fun h => ?_⟩⟩
  · intro id
    rw [Workspace.method?, hclass]
  · exact (congrArg List.length hclasses).trans (Operation.length_copiesAfter p os)
  · intro k hk
    rw [Workspace.class?_of_not_isOpen hk, hwpool]
  · rw [w.modified_eq]
    simp only [hclass]
  · intro α id x
    rw [exec_edit, (edited_eq c.workspace id x).1, hwpool, hclasses]
  · intro chain
    rw [exec_rename, Workspace.passReport, hclasses, Operation.countCopies]
  · rw [isOpen_run, hpool, hclasses]
  · rw [Workspace.class?, classes_run, hpool, hclasses, Operation.getElem?_onCopies h, hclass]

end Context

end DalvikPatch
