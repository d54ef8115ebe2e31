import DalvikPatch.Proofs.Classes
import DalvikPatch.Proofs.Eager
import DalvikPatch.Proofs.Edits

/-! Saving what a run made of a class. Its bodies may have been edited and its texts renamed: the class
is read back from its text, unless the look-ahead of a parameter splits a character. The directives
of the class as it was loaded say whether that happens. -/

namespace DalvikPatch

open Text

/-- What may be done to a body. -/
inductive BodyEdit where
  | replace (k : Nat) (s : Text)
  | insert (k : Nat) (s : Text)
  | nop (k : Nat)
  | remove (k : Nat)
  | ensureLocals (n : UInt16)
  | returnEarly (value : Bool)

namespace BodyEdit

def step : BodyEdit → Edit Unit
  | replace k s => Edit.replaceText k s
  | insert k s => Edit.insertText k s
  | nop k => Edit.nop k
  | remove k => do let _ ← Edit.remove k
  | ensureLocals n => Edit.ensureLocals n
  | returnEarly value => Edit.returnEarly value

theorem keeps_step (x : BodyEdit) : x.step.Keeps := by
  cases x with
  | replace k s => exact Edit.keeps_replaceText k s
  | insert k s => exact Edit.keeps_insertText k s
  | nop k => exact Edit.keeps_nop k
  | remove k => exact (Edit.keeps_remove k).bind fun _ => Edit.keeps_pure _
  | ensureLocals n => exact Edit.keeps_ensureLocals n
  | returnEarly value => exact Edit.keeps_returnEarly value

end BodyEdit

/-- What may be done to the classes of a run without changing more than bodies. -/
inductive Revision where
  | edit (id : MethodId) (x : BodyEdit)
  | rename (chain : Chain)

def Revision.operation : Revision → Operation
  | edit id x => .edit id x.step
  | rename chain => .rename chain

/-! ### Texts -/

theorem Instruction.Valid.rename {i : Instruction} (h : i.Valid) (chain : Chain) :
    (((i.change? chain).bind fun s => i.withString? s).getD i).Valid := by
  cases hi : (i.change? chain).bind fun s => i.withString? s with
  | none => exact h
  | some j =>
    obtain ⟨s, -, hj⟩ := Option.bind_eq_some_iff.1 hi
    exact h.withString? hj

theorem Method.Valid.revises_rename {m : Method} (h : m.Valid) (chain : Chain) :
    (m.rename chain).Revises m := by
  apply h.revises_of_items
  · intro item hmem
    obtain ⟨i, hi, rfl⟩ := List.mem_map.1 hmem
    have hv := h.items i hi
    cases i with
    | instruction i => exact Instruction.Valid.rename hv chain
    | label | line | directive => exact hv
  · rw [directivesOf, List.filterMap_map, directivesOf]
    congr 1
    funext i
    cases i <;> rfl

/-! ### Classes -/

theorem Method.valid_of_revises {ms ms' : List Method} (h : List.Forall₂ Method.Revises ms ms') :
    ∀ m ∈ ms, m.Valid := by
  intro m hm
  obtain ⟨k, hk, rfl⟩ := List.mem_iff_getElem.1 hm
  exact (h.get hk (h.length_eq ▸ hk)).valid

theorem Method.revises_trans {ms ms' ms'' : List Method} (h : List.Forall₂ Method.Revises ms'' ms')
    (h' : List.Forall₂ Method.Revises ms' ms) : List.Forall₂ Method.Revises ms'' ms := by
  rw [List.forall₂_iff_get] at *
  refine ⟨h.1.trans h'.1, fun k hk hk' => ?_⟩
  exact (h.2 k hk (h'.1.symm ▸ hk')).trans (h'.2 k (h'.1.symm ▸ hk') hk')

namespace Class

/-- A well-formed class with the directives of another one. -/
structure Revises (c' c : Class) : Prop where
  wellFormed : c'.WellFormed
  directives : c'.directives = c.directives

variable {c d : Class}

theorem WellFormed.revises_of_methods (h : c.WellFormed) {ms : List Method}
    (hms : List.Forall₂ Method.Revises ms c.methods) : { c with methods := ms }.Revises c := by
  have hdirectives : ms.flatMap Method.directives = c.directives := by
    rw [directives]
    generalize c.methods = loaded at hms
    induction hms with
    | nil => rfl
    | cons hm hms ih => rw [List.flatMap_cons, List.flatMap_cons, hm.directives, ih]
  have howned : Directive.Owned (ms.flatMap Method.directives) := hdirectives ▸ h.owned
  exact ⟨⟨h.flags, h.name, h.super, h.interfaces, h.annotations, h.fields,
    Method.valid_of_revises hms, howned, h.file⟩, hdirectives⟩

theorem Revises.splits_eq (h : d.Revises c) : d.splits = c.splits := by
  rw [splits, splits, h.directives]

end Class

namespace Revision

/-- One revision of the classes of a run changes no more of a class than its methods, and revises them,
whether it stops or not. -/
theorem methods_onCopies (r : Revision) (p : Pool) {copies : List Class} {k : Nat} {c : Class}
    (hk : copies[k]? = some c) :
    ∃ ms, (r.operation.onCopies p copies)[k]? = some { c with methods := ms } ∧
      ((∀ m ∈ c.methods, m.Valid) → List.Forall₂ Method.Revises ms c.methods) := by
  have hself : (∀ m ∈ c.methods, m.Valid) → List.Forall₂ Method.Revises c.methods c.methods :=
    fun h => List.forall₂_same.2 fun m hm => (h m hm).revises
  cases r with
  | rename chain =>
    rw [operation, Operation.onCopies, List.getElem?_map, hk]
    refine ⟨_, rfl, fun h => ?_⟩
    rw [List.forall₂_map_left_iff, List.forall₂_same]
    exact fun m hm => (h m hm).revises_rename chain
  | edit id x =>
    have hsame : ∃ ms, copies[k]? = some { c with methods := ms } ∧
        ((∀ m ∈ c.methods, m.Valid) → List.Forall₂ Method.Revises ms c.methods) :=
      ⟨c.methods, hk, hself⟩
    rw [operation, Operation.onCopies, Operation.editCopies]
    split
    · next _ m _ hm =>
      cases he : Editor.open? (p.describe id) m with
      | error s => exact hsame
      | ok e =>
        obtain rfl : e.method = m := by
          rw [Editor.open?] at he
          split at he <;> cases he
          rfl
        simp only [List.getElem?_modify, hk, Option.map_eq_map, Option.map_some]
        split
        · next hid =>
          refine ⟨_, rfl, fun h => List.forall₂_iff_get.2 ⟨List.length_modify _ _ _, fun j hj hj' => ?_⟩⟩
          rw [List.get_eq_getElem, List.get_eq_getElem, List.getElem_modify]
          split
          · next hj =>
            -- the method that was edited
            have hmethod : c.methods[j]? = some e.method := by
              rwa [hid, hk, Option.bind_some, hj] at hm
            rw [List.getElem?_eq_getElem hj', Option.some.injEq] at hmethod
            rw [hmethod]
            exact x.keeps_step e (hmethod ▸ h _ (List.getElem_mem hj'))
          · exact (h _ (List.getElem_mem hj')).revises
        · exact ⟨c.methods, rfl, hself⟩
    · exact hsame

/-- Revisions of the classes of a run change no more of each than its methods, and revise them. -/
theorem methods_copiesAfter (rs : List Revision) {p : Pool} {k : Nat} {c : Class}
    (hk : p.class? k = some c) :
    ∃ ms, (Operation.copiesAfter p (rs.map operation))[k]? = some { c with methods := ms } ∧
      ((∀ m ∈ c.methods, m.Valid) → List.Forall₂ Method.Revises ms c.methods) := by
  induction rs using List.reverseRecOn with
  | nil => exact ⟨c.methods, hk, fun h => List.forall₂_same.2 fun m hm => (h m hm).revises⟩
  | append_singleton rs r ih =>
    obtain ⟨ms, hd, hms⟩ := ih
    obtain ⟨ms', hd', hms'⟩ := r.methods_onCopies p hd
    rw [List.map_append, List.map_singleton, Operation.copiesAfter_append]
    exact ⟨ms', hd', fun h => Method.revises_trans (hms' (Method.valid_of_revises (hms h))) (hms h)⟩

/-- Revisions of the classes of a run revise each of them. -/
theorem revises_copiesAfter (rs : List Revision) {p : Pool} {k : Nat} {c : Class}
    (hk : p.class? k = some c) (h : c.WellFormed) :
    ∃ d, (Operation.copiesAfter p (rs.map operation))[k]? = some d ∧ d.Revises c := by
  obtain ⟨ms, hd, hms⟩ := methods_copiesAfter rs hk
  exact ⟨_, hd, h.revises_of_methods (hms h.methods)⟩

end Revision

/-! ### Saving -/

/-- A class that was read is edited and renamed in a run, in any way. Its text is read back as the class
that the run shows, unless the look-ahead of a parameter splits a character; this was so for
the class that was read, whatever the run did to its bodies. -/
theorem Context.read_text_after {s : Text} {c : Class} (hread : Class.read s = .ok c)
    (hvalue : ∀ f ∈ c.fields, f.value? ≠ some []) {p : Pool} {k : Nat} (hk : p.class? k = some c)
    (options : Options) (resources? : Option Text) (files : FileTree) (rs : List Revision) :
    ∃ d, ((start p options resources? files).after (rs.map Revision.operation)).workspace.class? k =
        some d ∧
      Class.read d.text = if c.splits then Outcome.abort .splitCharacter else .ok d := by
  obtain ⟨d, hd, hrevises⟩ := Revision.revises_copiesAfter rs hk (Class.wellFormed_of_read hread hvalue)
  refine ⟨d, ?_, ?_⟩
  · rw [Workspace.class?, (agrees p options resources? files _).2, hd]
  · rw [hrevises.wellFormed.read_text, hrevises.splits_eq]

/-! ### Two parameters -/

instance decidableEqOutcome {α : Type} [DecidableEq α] : DecidableEq (Outcome α)
  | .ok a, .ok b => decidable_of_iff (a = b) ⟨congrArg _, Except.ok.inj⟩
  | .error s, .error t => decidable_of_iff (s = t) ⟨congrArg _, Except.error.inj⟩
  | .ok _, .error _ | .error _, .ok _ => isFalse fun h => by cases h

namespace Class

/-- A class of one method with some directives. -/
def ofDirectives (ds : List Directive) : Class where
  name := ⟨"a"⟩
  flags := .empty
  source? := none
  super? := none
  interfaces := []
  annotations := []
  fields := []
  methods := [⟨"a", .empty, ⟨[], .void⟩, none, ds.map .directive⟩]
  file? := none

/-- The annotation of the parameter ends before the parameter does. -/
def nested : Class :=
  ofDirectives [⟨[".param p0", ".annotation X", ".end annotation", ".end param"]⟩]

def nestedDocument : Text :=
  ".class La;\n.method a()V\n.param p0\n.annotation X\n.end annotation\n.end param\n.end method\n"

/-- The parameter ends inside of its annotation, and its look-ahead goes on to a line that starts
with a blank of more than one byte. -/
def crossed : Class :=
  ofDirectives [⟨[".param p0", " .annotation X", ".end param"]⟩,
    ⟨[".array-data 4", "\u3000.end annotation", ".end param", ".end array-data"]⟩]

def crossedDocument : Text :=
  ".class La;\n.method a()V\n  .param p0\n   .annotation X\n.end param\n.array-data 4\n" ++
    "\u3000.end annotation\n.end param\n.end array-data\n.end method\n"

/-- A class can be read and its text cannot: the blank is split at the greater indentation of the text. -/
theorem crossed_not_reread : read crossedDocument = .ok crossed ∧
    (∀ f ∈ crossed.fields, f.value? ≠ some []) ∧
    read crossed.text = Outcome.abort .splitCharacter := by
  refine ⟨by decide +kernel, ?_, by decide +kernel⟩
  intro f hf
  cases hf

end Class

/-- An instruction is put into the method and its texts are renamed before the class is saved. -/
theorem Context.read_text_after_nested :
    Class.read Class.nestedDocument = .ok Class.nested ∧
    (∀ f ∈ Class.nested.fields, f.value? ≠ some []) ∧
    Pool.class? ⟨[Class.nested]⟩ 0 = some Class.nested ∧
    ∃ d, ((start ⟨[Class.nested]⟩ .empty none .empty).after
        ([.edit ⟨0, 0⟩ (.insert 0 "nop"), .rename [.exactly "a" "a" "b"]].map
          Revision.operation)).workspace.class? 0 = some d ∧
      Class.read d.text = .ok d := by
  have hread : Class.read Class.nestedDocument = .ok Class.nested := by decide +kernel
  have hvalue : ∀ f ∈ Class.nested.fields, f.value? ≠ some [] := fun f hf => by cases hf
  have hsplits : Class.nested.splits = false := by decide +kernel
  obtain ⟨d, hd, htext⟩ := read_text_after hread hvalue (p := ⟨[Class.nested]⟩) (k := 0) rfl .empty none
    .empty [.edit ⟨0, 0⟩ (.insert 0 "nop"), .rename [.exactly "a" "a" "b"]]
  rw [hsplits] at htext
  exact ⟨hread, hvalue, rfl, d, hd, htext⟩

end DalvikPatch
