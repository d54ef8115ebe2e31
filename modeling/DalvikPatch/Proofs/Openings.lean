import DalvikPatch.Proofs.Saving
import DalvikPatch.Proofs.Trees
import DalvikPatch.Run.Resources

/-! Which classes of a run are copied, and what for. A class is copied when it is first opened for
writing. A method without a body is refused only after that: its class is then modified without an
edit, with a copy that is the class as it was loaded. -/

namespace DalvikPatch

open Text

theorem Slot.write_current_eq_self_iff {s : Slot} : s.write s.current = s ↔ s.isOpen := by
  obtain ⟨loaded, _ | copy⟩ := s <;> simp [write, current, isOpen]

namespace Workspace

variable {w : Workspace} {k : Nat} {id : MethodId}

/-- Opening a class changes nothing exactly if it has a copy. -/
theorem openClass_eq_self_iff (hk : k < w.slots.length) : w.openClass k = w ↔ w.isOpen k := by
  have hopen : w.isOpen k ↔ w.slots[k].write w.slots[k].current = w.slots[k] := by
    rw [Slot.write_current_eq_self_iff]
    simp [isOpen, List.getElem?_eq_getElem hk]
  rw [hopen, openClass, change]
  constructor
  · intro h
    have hslot := congrArg (fun w => w.slots[k]?) h
    simpa [List.getElem?_eq_getElem hk] using hslot
  · intro h
    rw [List.modify_eq_take_cons_drop hk, id, h, List.getElem_cons_drop, List.take_append_drop]

theorem method?_openClass (w : Workspace) (k : Nat) (id : MethodId) :
    (w.openClass k).method? id = w.method? id := by
  rw [method?, class?, classes_openClass, ← class?, ← method?]

/-- A class that has lost a method has been written to. -/
theorem isOpen_of_method?_eq_none (hp : (w.pool.method? id).isSome) (hm : w.method? id = none) :
    w.isOpen id.owner := by
  by_contra hclosed
  rw [method?, class?_of_not_isOpen (Bool.eq_false_iff.2 hclosed), ← Pool.method?] at hm
  rw [hm] at hp
  cases hp

theorem owner_lt_of_method? (hp : (w.pool.method? id).isSome) : id.owner < w.slots.length := by
  obtain ⟨m, hm⟩ := Option.isSome_iff_exists.1 hp
  obtain ⟨c, hc, -⟩ := Option.bind_eq_some_iff.1 hm
  simpa [pool, Pool.class?] using (List.getElem?_eq_some_iff.1 hc).1

end Workspace

/-! ### Opening a method -/

namespace Context

/-- A method is opened if it is there, as loaded and now, and has a body. One that is not there leaves
everything as it is, and one without a body leaves its class open. -/
theorem opened_cases (w : Workspace) (id : MethodId) :
    ((w.pool.method? id = none ∨ w.method? id = none) ∧
      opened w id = (.fault (.notFound "method" (w.pool.describe id)), w)) ∨
    ∃ m, (w.pool.method? id).isSome ∧ w.method? id = some m ∧ opened w id =
      (Editor.open? (w.pool.describe id) m, w.openClass id.owner) := by
  cases hp : w.pool.method? id with
  | none => exact .inl ⟨.inl rfl, by simp [opened, hp]⟩
  | some m₀ =>
    have hsome : (w.pool.method? id).isSome := by simp [hp]
    cases hm : w.method? id with
    | none =>
      have hopen := Workspace.isOpen_of_method?_eq_none hsome hm
      have hself := (Workspace.openClass_eq_self_iff (Workspace.owner_lt_of_method? hsome)).2 hopen
      exact .inl ⟨.inr rfl, by simp [opened, hp, hself, hm]⟩
    | some m => exact .inr ⟨m, rfl, rfl, by simp [opened, hp, Workspace.method?_openClass, hm]⟩

end Context

/-! ### What classes are opened for -/

/-- What happened at some point of a list happened before its end or there. -/
theorem exists_append_singleton_iff {α : Type} {P : List α → α → Prop} {xs : List α} {x : α} :
    (∃ before a later, xs ++ [x] = before ++ a :: later ∧ P before a) ↔
      (∃ before a later, xs = before ++ a :: later ∧ P before a) ∨ P xs x := by
  constructor
  · rintro ⟨before, a, later, h, hP⟩
    rcases List.eq_nil_or_concat' later with rfl | ⟨later, b, rfl⟩
    · obtain ⟨rfl, hx⟩ := List.append_inj' h rfl
      cases hx
      exact .inr hP
    · rw [← List.cons_append, ← List.append_assoc] at h
      exact .inl ⟨before, a, later, (List.append_inj' h rfl).1, hP⟩
  · rintro (⟨before, a, later, rfl, hP⟩ | hP)
    · exact ⟨before, a, later ++ [x], by simp, hP⟩
    · exact ⟨xs, x, [], rfl, hP⟩

namespace Operation

/-- Whether an operation comes to edit a class: by a change, by an editor on a method of it, or by
renaming a text in it. -/
def Edits (p : Pool) (copies : List Class) : Operation → Nat → Prop
  | resolve _, _ | probe _, _ => False
  | change k _, j => j = k
  | edit id _, j => j = id.owner ∧ (p.method? id).isSome ∧
      ∃ m, (copies[id.owner]?.bind fun c => c.methods[id.index]?) = some m ∧ m.hasImplementation
  | rename chain, j => ∃ c, copies[j]? = some c ∧ c.changes chain ≠ 0

/-- Whether an operation is refused because a method of a class has no body. -/
def Refused (p : Pool) (copies : List Class) : Operation → Nat → Prop
  | edit id _, j => j = id.owner ∧ (p.method? id).isSome ∧
      ∃ m, (copies[id.owner]?.bind fun c => c.methods[id.index]?) = some m ∧ ¬ m.hasImplementation
  | _, _ => False

/-- An operation leaves a copy that it does not come to edit. -/
theorem getElem?_onCopies_of_not_edits {p : Pool} {copies : List Class} {o : Operation} {j : Nat}
    (h : ¬ o.Edits p copies j) : (o.onCopies p copies)[j]? = copies[j]? := by
  cases o with
  | resolve | probe | change | rename => exact getElem?_onCopies h
  | edit id x =>
    by_cases hj : j = id.owner ∧ (p.method? id).isSome
    · -- the method is gone or has no body, and nothing is edited
      rw [onCopies, editCopies]
      split
      · next m₀ m hp hm =>
        have hbody : ¬ m.hasImplementation := fun hbody => h ⟨hj.1, hj.2, m, hm, hbody⟩
        simp [Editor.open?, hbody, Outcome.fault]
      · rfl
    · exact getElem?_onCopies hj

end Operation

namespace Context

theorem isOpen_run_iff (c : Context) (o : Operation) (k : Nat) :
    (o.run c).workspace.isOpen k ↔ c.workspace.isOpen k ∨ k < c.pool.size ∧
      (o.Edits c.pool c.workspace.classes k ∨ o.Refused c.pool c.workspace.classes k) := by
  rw [isOpen_run]
  cases o with
  | resolve | probe | change | rename => simp [Operation.Writes, Operation.Edits, Operation.Refused]
  | edit id x =>
    simp only [Operation.Writes, Operation.Edits, Operation.Refused]
    cases hm : c.workspace.method? id with
    | none =>
      have hopen : k = id.owner ∧ (c.pool.method? id).isSome → c.workspace.isOpen k := by
        rintro ⟨rfl, hp⟩
        exact Workspace.isOpen_of_method?_eq_none hp hm
      rw [Workspace.method?, Workspace.class?] at hm
      simp only [hm]
      simpa using fun _ hk hp => hopen ⟨hk, hp⟩
    | some m =>
      rw [Workspace.method?, Workspace.class?] at hm
      simp only [hm]
      by_cases hbody : m.hasImplementation <;> simp [hbody]

/-- The classes that operations have opened: each was edited by one of them, or one was refused on it. -/
theorem isOpen_after_iff (p : Pool) (options : Options) (resources? : Option Text) (files : FileTree)
    (os : List Operation) (k : Nat) :
    ((start p options resources? files).after os).workspace.isOpen k ↔
      k < p.size ∧ ∃ before o later, os = before ++ o :: later ∧
        (o.Edits p (Operation.copiesAfter p before) k ∨ o.Refused p (Operation.copiesAfter p before) k) := by
  induction os using List.reverseRecOn with
  | nil =>
    have hstart : (start p options resources? files).workspace.isOpen k = false := by
      simp only [start, Workspace.isOpen, Workspace.ofPool, List.getElem?_map]
      cases p.classes[k]? <;> rfl
    simp [hstart]
  | append_singleton os o ih =>
    obtain ⟨hpool, hclasses⟩ := agrees p options resources? files os
    rw [after_append, isOpen_run_iff, hpool, hclasses, ih, exists_append_singleton_iff, ← and_or_left]

/-- A class that no operation came to edit is shown as it was loaded. -/
theorem class?_after_of_not_edits (p : Pool) (options : Options) (resources? : Option Text)
    (files : FileTree) {os : List Operation} {k : Nat}
    (h : ∀ before o later, os = before ++ o :: later → ¬ o.Edits p (Operation.copiesAfter p before) k) :
    ((start p options resources? files).after os).workspace.class? k = p.class? k := by
  rw [Workspace.class?, (agrees p options resources? files os).2]
  induction os using List.reverseRecOn with
  | nil => rfl
  | append_singleton os o ih =>
    have hlast := h os o [] rfl
    rw [Operation.copiesAfter_append, Operation.getElem?_onCopies_of_not_edits hlast]
    exact ih fun before o' later hos => h before o' (later ++ [o]) (by simp [hos])

/-- Opening a method in a run, whatever was done before. If it fails, either the method is not there and
nothing changes, or it has no body and its class is open afterwards, which changes the context
exactly if the class had no copy; what the run shows stays. So a class can be modified that no
operation came to edit: the modified classes are those that were edited or refused a method
without a body, and one that was only refused is the class as it was loaded. -/
theorem refused_after (p : Pool) (options : Options) (resources? : Option Text) (files : FileTree)
    (os : List Operation) (id : MethodId) :
    let c := (start p options resources? files).after os
    let w := c.workspace
    (∀ s c', exec (Run.openMethod id) c = (.error s, c') →
      (s = .fault (.notFound "method" (p.describe id)) ∧
        (p.method? id = none ∨ w.method? id = none) ∧ c' = c) ∨
      (s = .fault (.noImplementation (p.describe id)) ∧
        (∃ m, w.method? id = some m ∧ ¬ m.hasImplementation) ∧
        c' = { c with workspace := w.openClass id.owner } ∧ c'.workspace.classes = w.classes ∧
        (∀ k, c'.workspace.isOpen k ↔ w.isOpen k ∨ k = id.owner) ∧ (c' = c ↔ w.isOpen id.owner))) ∧
    (w.modified = w.openIndices.filterMap fun k => w.class? k) ∧
    (∀ k, k ∈ w.openIndices ↔ k < p.size ∧ ∃ before o later, os = before ++ o :: later ∧
      (o.Edits p (Operation.copiesAfter p before) k ∨ o.Refused p (Operation.copiesAfter p before) k)) ∧
    ∀ k, (∀ before o later, os = before ++ o :: later →
        ¬ o.Edits p (Operation.copiesAfter p before) k) → w.class? k = p.class? k := by
  have hpool : ((start p options resources? files).after os).workspace.pool = p :=
    (agrees p options resources? files os).1
  intro c w
  refine ⟨fun s c' h => ?_, w.modified_eq, fun k => ?_, fun k => class?_after_of_not_edits p options
    resources? files⟩
  · rw [exec_openMethod] at h
    obtain ⟨hs, rfl⟩ := Prod.mk.inj h
    rcases opened_cases w id with ⟨hnone, hopened⟩ | ⟨m, hsome, hm, hopened⟩
    · rw [hopened, hpool] at hs
      rw [hpool] at hnone
      exact .inl ⟨(Except.error.inj hs).symm, hnone, by rw [hopened]⟩
    · have howner := Workspace.owner_lt_of_method? hsome
      have hlt : ∀ k, k < w.slots.length ∧ k = id.owner ↔ k = id.owner :=
        fun k => and_iff_right_of_imp fun hk => hk ▸ howner
      rw [hopened, hpool, Editor.open?] at hs
      split at hs
      · cases hs
      · next hbody =>
        refine .inr ⟨(Except.error.inj hs).symm, ⟨m, hm, hbody⟩, by rw [hopened], ?_, fun k => ?_, ?_⟩
        · rw [hopened]
          exact w.classes_openClass id.owner
        · rw [hopened, ← hlt k]
          exact w.isOpen_change _ id.owner k
        · rw [hopened, ← Workspace.openClass_eq_self_iff howner]
          exact ⟨congrArg Context.workspace, fun hself => by rw [hself]⟩
  · rw [Workspace.mem_openIndices]
    exact isOpen_after_iff p options resources? files os k

/-- A class of one method, which has no body, and the file that it was read from. -/
def bodilessDocument : Text := ".class La;\n.method abstract a()V\n.end method\n"

def bodiless : Class where
  name := ⟨"a"⟩
  flags := .empty
  source? := none
  super? := none
  interfaces := []
  annotations := []
  fields := []
  methods := [⟨"a", .isAbstract, ⟨[], .void⟩, none, []⟩]
  file? := some "/a.smali"

def bodilessRun : Context :=
  start ⟨[bodiless]⟩ .empty none ⟨[(["a.smali"], .file bodilessDocument)]⟩

/-- The method is refused. -/
def refusedRun : Context := (exec (Run.openMethod ⟨0, 0⟩) bodilessRun).2

/-- Nothing is edited, and still the class is modified and its file written over. -/
theorem refused_and_saved :
    bodilessRun.files.readPool ["/"] = .ok bodilessRun.pool ∧
    (exec (Run.openMethod ⟨0, 0⟩) bodilessRun).1 =
      Outcome.fault (.noImplementation "La;->a()V") ∧
    refusedRun ≠ bodilessRun ∧
    bodilessRun.workspace.openIndices = [] ∧ refusedRun.workspace.openIndices = [0] ∧
    (exec Run.saveModified refusedRun).1 = .ok 1 ∧
    bodilessRun.files.textAt ["a.smali"] = bodilessDocument ∧
    (exec Run.saveModified refusedRun).2.files.textAt ["a.smali"] ≠ bodilessDocument := by
  decide +kernel

end Context

end DalvikPatch
