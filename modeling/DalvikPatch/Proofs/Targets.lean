import DalvikPatch.Proofs.Edits
import Mathlib.Data.List.TakeWhile

/-! Edits by index are edits of the list of instructions, and labels go with the instructions behind
them. Each edit puts some instructions in the place of others between what stands before and
behind; only in front of the cut do labels keep their number of instructions. -/

namespace DalvikPatch

open Text

namespace Method

/-- What stands in a body besides instructions. -/
def marks (m : Method) : List BodyItem := m.items.filter fun item => !item.isInstruction

/-- The labels among some items, each with the number of instructions before it, where `n` have gone
before. -/
def labelsFrom : Nat → List BodyItem → List (Label × Nat)
  | _, [] => []
  | n, .label l :: items => (l, n) :: labelsFrom n items
  | n, .instruction _ :: items => labelsFrom (n + 1) items
  | n, .line _ :: items | n, .directive _ :: items => labelsFrom n items

def labels (m : Method) : List (Label × Nat) := labelsFrom 0 m.items

/-- The labels among some items, each with the first instruction that follows it. -/
def targetsIn : List BodyItem → List (Label × Option Instruction)
  | [] => []
  | .label l :: items => (l, (items.filterMap BodyItem.instruction?).head?) :: targetsIn items
  | _ :: items => targetsIn items

def targets (m : Method) : List (Label × Option Instruction) := targetsIn m.items

/-! ### Labels -/

theorem labelsFrom_append (n : Nat) (items more : List BodyItem) :
    labelsFrom n (items ++ more) =
      labelsFrom n items ++ labelsFrom (n + (items.filterMap BodyItem.instruction?).length) more := by
  induction items generalizing n with
  | nil => rfl
  | cons item items ih =>
    cases item <;>
      simp [labelsFrom, ih, List.filterMap_cons, BodyItem.instruction?, Nat.add_comm, Nat.add_left_comm]

theorem labelsFrom_directives (n : Nat) {items : List BodyItem} (h : ∀ item ∈ items, item.isDirective) :
    labelsFrom n items = [] := by
  induction items with
  | nil => rfl
  | cons item items ih =>
    obtain ⟨hitem, hitems⟩ := List.forall_mem_cons.1 h
    cases item with
    | directive d => exact ih hitems
    | instruction | label | line => cases hitem

theorem labelsFrom_instructions (n : Nat) (block : List Instruction) :
    labelsFrom n (block.map .instruction) = [] := by
  induction block generalizing n with
  | nil => rfl
  | cons i block ih => exact ih (n + 1)

theorem labelsFrom_add (n d : Nat) (items : List BodyItem) :
    labelsFrom (n + d) items = (labelsFrom n items).map fun p => (p.1, p.2 + d) := by
  induction items generalizing n with
  | nil => rfl
  | cons item items ih =>
    cases item with
    | instruction i => rw [labelsFrom, labelsFrom, ← ih, Nat.add_right_comm]
    | label | line | directive => simp [labelsFrom, ih]

/-- A label has at least the instructions before it that have gone before, and at most all. -/
theorem of_mem_labelsFrom {n : Nat} {items : List BodyItem} {p : Label × Nat}
    (h : p ∈ labelsFrom n items) :
    n ≤ p.2 ∧ p.2 ≤ n + (items.filterMap BodyItem.instruction?).length := by
  induction items generalizing n with
  | nil => cases h
  | cons item items ih =>
    cases item with
    | instruction i =>
      have := ih h
      simp only [List.filterMap_cons, BodyItem.instruction?, List.length_cons]
      omega
    | label l =>
      rcases List.mem_cons.1 h with rfl | h
      · simp
      · exact ih h
    | line | directive => exact ih h

/-- The instruction with the number that a label has is the first one that follows it. -/
theorem targetsIn_eq (items : List BodyItem) :
    targetsIn items = (labelsFrom 0 items).map fun p =>
      (p.1, (items.filterMap BodyItem.instruction?)[p.2]?) := by
  induction items with
  | nil => rfl
  | cons item items ih =>
    cases item with
    | instruction i =>
      rw [targetsIn, labelsFrom, labelsFrom_add, ih, List.map_map]
      · simp [Function.comp_def, BodyItem.instruction?]
      · simp
    | label l =>
      simp [targetsIn, labelsFrom, ih, List.filterMap_cons, BodyItem.instruction?, List.head?_eq_getElem?]
    | line | directive =>
      simp [targetsIn, labelsFrom, ih, List.filterMap_cons, BodyItem.instruction?]

theorem targets_eq (m : Method) : m.targets = m.labels.map fun p => (p.1, m.instructions[p.2]?) :=
  targetsIn_eq m.items

end Method

/-! ### Edits by index -/

/-- An edit by the index of an instruction. -/
inductive ListEdit where
  | replace (k : Nat) (i : Instruction)
  | nop (k : Nat)
  | insert (k : Nat) (block : List Instruction)
  | remove (k : Nat)

/-- The instruction that does nothing. -/
def Instruction.nop : Instruction := ⟨.plain 0x00 "nop" .f10x [.continues], []⟩

theorem Instruction.ofName_nop : ofName "nop" [] = .ok nop := by rfl

namespace ListEdit

/-- The edit, without its result. -/
def step : ListEdit → Edit Unit
  | replace k i => Edit.replace k i
  | nop k => Edit.nop k
  | insert k block => Edit.insert k block
  | remove k => do let _ ← Edit.remove k

/-- What an edit makes of a plain list of instructions. -/
def onList : ListEdit → List Instruction → List Instruction
  | replace k i, is => is.set k i
  | nop k, is => is.set k .nop
  | insert k block, is => is.take k ++ block ++ is.drop k
  | remove k, is => is.eraseIdx k

/-- The number of instructions before a label, after an edit. -/
def follow : ListEdit → Nat → Nat
  | replace _ _, n | nop _, n => n
  | insert k block, n => if n < k then n else n + block.length
  | remove k, n => if n ≤ k then n else n - 1

/-- What follows a label after an edit: the instruction that did, its replacement, or its successor
if it is gone. -/
def target (is : List Instruction) (n : Nat) : ListEdit → Option Instruction
  | replace k i => if n = k then some i else is[n]?
  | nop k => if n = k then some .nop else is[n]?
  | insert _ _ => is[n]?
  | remove k => if n = k then is[k + 1]? else is[n]?

def index : ListEdit → Nat
  | replace k _ | nop k | insert k _ | remove k => k

/-- The instructions that are put at the index, and the number of those that go. -/
def put : ListEdit → List Instruction
  | replace _ i => [i]
  | nop _ => [.nop]
  | insert _ block => block
  | remove _ => []

def gone : ListEdit → Nat
  | insert _ _ => 0
  | _ => 1

variable {o : ListEdit}

theorem onList_append {before old after : List Instruction} (hbefore : before.length = o.index)
    (hold : old.length = o.gone) : o.onList (before ++ old ++ after) = before ++ o.put ++ after := by
  cases o with
  | insert k block =>
    obtain rfl := List.length_eq_zero_iff.1 hold
    obtain rfl : before.length = k := hbefore
    simp [onList, put]
  | replace k | nop k | remove k =>
    obtain ⟨j, rfl⟩ := List.length_eq_one_iff.1 hold
    obtain rfl : before.length = k := hbefore
    simp [onList, put, List.eraseIdx_append_of_length_le]

/-- In front of the cut a label keeps its number, behind it the number changes with the list. -/
theorem follow_eq (o : ListEdit) (n : Nat) :
    o.follow n = if n < o.index + o.gone then n else n - o.gone + o.put.length := by
  cases o with
  | insert k block => rfl
  | replace k | nop k | remove k =>
    simp only [follow, index, gone, put, List.length_singleton, List.length_nil]
    grind

/-- The target is what stands after the edit at the number that the label has then. -/
theorem getElem?_onList {is : List Instruction} (h : o.index + o.gone ≤ is.length) (n : Nat) :
    (o.onList is)[o.follow n]? = o.target is n := by
  cases o with
  | replace k | nop k =>
    have hk : k < is.length := h
    by_cases hn : n = k
    · subst hn
      simp [onList, follow, target, hk]
    · simp [onList, follow, target, hn, Ne.symm hn]
  | insert k block =>
    have hk : k ≤ is.length := h
    simp only [onList, follow, target]
    split
    · next hn =>
      rw [List.append_assoc, List.getElem?_append_left (by simp; omega), List.getElem?_take_of_lt hn]
    · next hn =>
      have hlength : (is.take k ++ block).length = k + block.length := by simp [hk]
      rw [List.getElem?_append_right (by omega), hlength, List.getElem?_drop]
      congr 1
      omega
  | remove k =>
    simp only [onList, follow, target, List.getElem?_eraseIdx]
    grind

end ListEdit

/-! ### What a step does -/

namespace Edit

variable {e e' : Editor} {k : Nat}

theorem replace_cases {i : Instruction} (h : exec (replace k i) e = (.ok (), e')) :
    ∃ p, e.method.place? k = some p ∧ e.method.admits i ∧
      e' = { e with method := { e.method with items := e.method.items.set p (.instruction i) } } := by
  rw [exec_replace] at h
  cases hp : e.method.place? k with
  | none => simp [hp] at h
  | some p =>
    cases hr : e.method.checkRegisters e.reference i with
    | error s => simp [hp, hr] at h
    | ok u =>
      refine ⟨p, rfl, (Method.checkRegisters_eq_ok_iff.1 hr).2, ?_⟩
      simpa [hp, hr, eq_comm] using h

theorem forM_eq_ok_iff {f : Instruction → Outcome Unit} {block : List Instruction} :
    block.forM f = .ok () ↔ ∀ i ∈ block, f i = .ok () := by
  induction block with
  | nil => simp [List.forM, pure, Except.pure]
  | cons i block ih =>
    rw [List.forM, List.forall_mem_cons, ← ih]
    cases f i <;> simp [bind, Except.bind]

theorem insert_cases {block : List Instruction} (h : exec (insert k block) e = (.ok (), e')) :
    ∃ p, e.method.gap? k = some p ∧ (∀ i ∈ block, e.method.admits i) ∧
      e' = { e with method := e.method.insertAt p block } := by
  rw [exec_insert] at h
  cases hp : e.method.gap? k with
  | none => simp [hp] at h
  | some p =>
    cases hr : block.forM (e.method.checkRegisters e.reference) with
    | error s => simp [hp, hr] at h
    | ok u =>
      refine ⟨p, rfl, fun i hi => ?_, ?_⟩
      · exact (Method.checkRegisters_eq_ok_iff.1 (forM_eq_ok_iff.1 hr i hi)).2
      · simpa [hp, hr, eq_comm] using h

theorem remove_cases {i : Instruction} (h : exec (remove k) e = (.ok i, e')) :
    ∃ p, e.method.place? k = some p ∧ e.method.instructions[k]? = some i ∧
      e' = { e with method := { e.method with items := e.method.items.eraseIdx p } } := by
  rw [remove, exec_bind, exec_get] at h
  simp only at h
  split at h
  · next p j hp hj =>
    simp only [setMethod, exec_bind, exec_modify, exec_pure] at h
    cases h
    exact ⟨p, hp, hj, rfl⟩
  · simp at h

end Edit

namespace ListEdit

/-- The labels in front of the gap of a block are in front of instructions before the index. -/
theorem lt_of_mem_labelsFrom_gap {m : Method} {k p : Nat} (h : m.gap? k = some p) :
    ∀ l ∈ Method.labelsFrom 0 (m.items.take p), l.2 < k := by
  intro l hl
  cases k with
  | zero =>
    -- only directives stand before the gap at the start
    cases h
    have hgap : m.items.take (m.items.findIdx fun item => !item.isDirective) =
        m.items.takeWhile BodyItem.isDirective := List.takeWhile_eq_take_findIdx_not.symm
    rw [hgap, Method.labelsFrom_directives 0 fun item hitem => List.mem_takeWhile_imp hitem] at hl
    cases hl
  | succ k =>
    obtain ⟨q, hq, rfl⟩ := Option.map_eq_some_iff.1 h
    obtain ⟨before, i, after, hitems, rfl, rfl⟩ := Method.eq_of_placeIn? hq
    have htake : m.items.take (before.length + 1) = before ++ [.instruction i] := by
      rw [hitems, List.take_length_add_append, List.take_succ_cons, List.take_zero]
    rw [htake, Method.labelsFrom_append, Method.labelsFrom, Method.labelsFrom, List.append_nil] at hl
    have := (Method.of_mem_labelsFrom hl).2
    omega

/-- A step that succeeds puts its instructions in the place of others behind as many instructions as
its index. No label in front of them follows the instructions in front. -/
theorem step_cases {o : ListEdit} {e e' : Editor} (h : exec o.step e = (.ok (), e')) :
    ∃ (before : List BodyItem) (old : List Instruction) (after : List BodyItem),
      e.method.items = before ++ old.map .instruction ++ after ∧
      e' = { e with method := { e.method with items := before ++ o.put.map .instruction ++ after } } ∧
      (before.filterMap BodyItem.instruction?).length = o.index ∧ old.length = o.gone ∧
      ∀ l ∈ Method.labelsFrom 0 before, l.2 < o.index + o.gone := by
  have hle : ∀ before : List BodyItem, ∀ l ∈ Method.labelsFrom 0 before,
      l.2 < (before.filterMap BodyItem.instruction?).length + 1 := by
    intro before l hl
    have := (Method.of_mem_labelsFrom hl).2
    omega
  have hreplace : ∀ k i, exec (Edit.replace k i) e = (.ok (), e') →
      ∃ before j after, e.method.items = before ++ [j].map .instruction ++ after ∧
        e' = { e with method := { e.method with items := before ++ [i].map .instruction ++ after } } ∧
        (before.filterMap BodyItem.instruction?).length = k := by
    intro k i h
    obtain ⟨p, hp, -, rfl⟩ := Edit.replace_cases h
    obtain ⟨before, j, after, hitems, rfl, hk⟩ := Method.eq_of_placeIn? hp
    refine ⟨before, j, after, by simp [hitems], ?_, hk⟩
    simp [hitems]
  cases o with
  | replace k i =>
    obtain ⟨before, j, after, hitems, he, rfl⟩ := hreplace k i h
    exact ⟨before, [j], after, hitems, he, rfl, rfl, hle before⟩
  | nop k =>
    have h' : exec (Edit.replace k .nop) e = (.ok (), e') := by
      rwa [step, Edit.nop, Instruction.ofName_nop] at h
    obtain ⟨before, j, after, hitems, he, rfl⟩ := hreplace k .nop h'
    exact ⟨before, [j], after, hitems, he, rfl, rfl, hle before⟩
  | insert k block =>
    obtain ⟨p, hp, -, rfl⟩ := Edit.insert_cases h
    exact ⟨e.method.items.take p, [], e.method.items.drop p, by simp, rfl,
      Method.length_of_gap? hp, rfl, lt_of_mem_labelsFrom_gap hp⟩
  | remove k =>
    obtain ⟨i, e₁, hremove, hend⟩ := exists_of_exec_bind h
    cases hend
    obtain ⟨p, hp, -, rfl⟩ := Edit.remove_cases hremove
    obtain ⟨before, j, after, hitems, rfl, rfl⟩ := Method.eq_of_placeIn? hp
    refine ⟨before, [j], after, by simp [hitems], ?_, rfl, rfl, hle before⟩
    simp [hitems, put, List.eraseIdx_append_of_length_le]

variable {o : ListEdit} {e e' : Editor}

/-- A step keeps everything but the items. It edits the list of instructions, keeps the marks in
order, and has each label follow its place in the list. -/
theorem step_refines (h : exec o.step e = (.ok (), e')) :
    e' = { e with method := { e.method with items := e'.method.items } } ∧
    o.index + o.gone ≤ e.method.instructions.length ∧
    e'.method.instructions = o.onList e.method.instructions ∧
    e'.method.marks = e.method.marks ∧
    e'.method.labels = e.method.labels.map fun l => (l.1, o.follow l.2) := by
  obtain ⟨before, old, after, hitems, rfl, hindex, hgone, hlabels⟩ := step_cases h
  have hblock : ∀ block : List Instruction,
      (block.map BodyItem.instruction).filterMap BodyItem.instruction? = block := by
    intro block
    simp [List.filterMap_map, Function.comp_def, BodyItem.instruction?]
  have hmarks : ∀ block : List Instruction,
      (block.map BodyItem.instruction).filter (fun item => !item.isInstruction) = [] := by
    intro block
    simp [BodyItem.isInstruction, BodyItem.instruction?]
  have hinstructions : e.method.instructions =
      before.filterMap BodyItem.instruction? ++ old ++ after.filterMap BodyItem.instruction? := by
    simp only [Method.instructions, hitems, List.filterMap_append, hblock]
  refine ⟨rfl, ?_, ?_, ?_, ?_⟩
  · rw [hinstructions, List.length_append, List.length_append]
    omega
  · rw [hinstructions, onList_append hindex hgone]
    simp only [Method.instructions, List.filterMap_append, hblock]
  · simp only [Method.marks, hitems, List.filter_append, hmarks]
  · -- in front of the cut the numbers stay, and behind it they are those of the list there, moved
    have hfront : Method.labelsFrom 0 before =
        (Method.labelsFrom 0 before).map fun l => (l.1, o.follow l.2) := by
      refine ((List.map_congr_left fun l hl => ?_).trans (List.map_id _)).symm
      rw [follow_eq, if_pos (hlabels l hl)]
      rfl
    have hback : Method.labelsFrom (o.index + o.put.length) after =
        (Method.labelsFrom (o.index + o.gone) after).map fun l => (l.1, o.follow l.2) := by
      rw [← Nat.zero_add (o.index + o.put.length), ← Nat.zero_add (o.index + o.gone),
        Method.labelsFrom_add, Method.labelsFrom_add, List.map_map]
      refine List.map_congr_left fun l _ => ?_
      have : ¬ l.2 + (o.index + o.gone) < o.index + o.gone := by omega
      simp only [Function.comp, follow_eq, if_neg this]
      congr 1
      omega
    simp only [Method.labels, hitems, Method.labelsFrom_append, Method.labelsFrom_instructions,
      List.filterMap_append, hblock, List.length_append, List.append_nil, Nat.zero_add, hindex, hgone,
      List.map_append, ← hfront, hback]

/-- A label goes with the instruction behind it: through a step it has its target, or what takes the
place of its target. -/
theorem targets_of_step (h : exec o.step e = (.ok (), e')) :
    e'.method.targets = e.method.labels.map fun l => (l.1, o.target e.method.instructions l.2) := by
  obtain ⟨-, hrange, hinstructions, -, hlabels⟩ := step_refines h
  rw [Method.targets_eq, hlabels, hinstructions, List.map_map]
  exact List.map_congr_left fun l _ => congrArg (l.1, ·) (getElem?_onList hrange l.2)

/-! ### Runs -/

/-- Steps that succeed edit the list of instructions one after another, and nothing else of the method. -/
theorem run_refines {os : List ListEdit} (h : exec (os.forM step) e = (.ok (), e')) :
    e' = { e with method := { e.method with items := e'.method.items } } ∧
    e'.method.instructions = os.foldl (fun is o => o.onList is) e.method.instructions ∧
    e'.method.marks = e.method.marks ∧
    e'.method.labels = e.method.labels.map fun l => (l.1, os.foldl (fun n o => o.follow n) l.2) := by
  induction os generalizing e with
  | nil =>
    cases h
    exact ⟨rfl, rfl, rfl, (List.map_id _).symm⟩
  | cons o os ih =>
    obtain ⟨⟨⟩, e₁, ho, hos⟩ := exists_of_exec_bind h
    obtain ⟨he₁, -, hinstructions₁, hmarks₁, hlabels₁⟩ := step_refines ho
    obtain ⟨he', hinstructions, hmarks, hlabels⟩ := ih hos
    refine ⟨?_, ?_, hmarks.trans hmarks₁, ?_⟩
    · rw [he'.trans (by rw [he₁])]
    · rw [hinstructions, hinstructions₁, List.foldl_cons]
    · rw [hlabels, hlabels₁, List.map_map]
      rfl

/-- The body of a method under any edits by index that succeed. Its instructions are the list that
the same edits make of the plain list, and the editor shows that list. The other items stay and
keep their order, each label follows its instruction, and what follows it after one more edit is
what followed before, the replacement of that, or its successor if that is gone. -/
theorem edits_refine {reference : Text} {m : Method} {os : List ListEdit} {e : Editor}
    (h : exec (os.forM step) ⟨reference, m⟩ = (.ok (), e)) :
    let is := os.foldl (fun is o => o.onList is) m.instructions
    e.method = { m with items := e.method.items } ∧
    e.method.instructions = is ∧
    (e.size = is.length ∧
      (∀ k, exec (Edit.instruction k) e =
        ((is[k]?).elim (Outcome.fault (e.outOfRange k)) Except.ok, e)) ∧
      ∀ p, e.indexOf? p = is.findIdx? p) ∧
    e.method.marks = m.marks ∧
    e.method.labels = m.labels.map (fun l => (l.1, os.foldl (fun n o => o.follow n) l.2)) ∧
    e.method.targets = e.method.labels.map (fun l => (l.1, is[l.2]?)) ∧
    ∀ o e', exec (step o) e = (.ok (), e') →
      e'.method.instructions = o.onList is ∧
      e'.method.targets = e.method.labels.map fun l => (l.1, o.target is l.2) := by
  obtain ⟨he, hinstructions, hmarks, hlabels⟩ := run_refines h
  intro is
  have his : e.method.instructions = is := hinstructions
  refine ⟨?_, his, ⟨?_, fun k => ?_, fun p => ?_⟩, hmarks, hlabels, ?_, fun o e' ho => ⟨?_, ?_⟩⟩
  · rw [he]
  · rw [Editor.size, Method.instructionCount, his]
  · cases hk : is[k]? <;> simp [Edit.instruction, his, hk, Outcome.fault]
  · rw [Editor.indexOf?, his]
  · rw [Method.targets_eq, his]
  · rw [(step_refines ho).2.2.1, his]
  · rw [targets_of_step ho, his]

def returnVoid : Instruction := ⟨.plain 0x0e "return-void" .f10x [.returns], []⟩

/-- Two labels in a body that starts with a directive, and one behind its last instruction. -/
def labelled : Method where
  name := "a"
  flags := .empty
  prototype := ⟨[], .void⟩
  frame? := none
  items := [.directive ⟨[".param p0"]⟩, .label ⟨"a"⟩, .instruction .nop, .label ⟨"b"⟩, .line 2,
    .instruction returnVoid, .label ⟨"c"⟩]

/-- A block is put in front of everything and behind everything, and the first two instructions with
a label are replaced and removed. -/
def labelledEdits : List ListEdit :=
  [.insert 0 [.nop, .nop], .replace 2 returnVoid, .remove 3, .insert 3 [.nop], .nop 0]

theorem edits_refine_labelled : ∃ e,
    exec (labelledEdits.forM step) ⟨"La;->a()V", labelled⟩ = (.ok (), e) ∧
      e.method.instructions = [.nop, .nop, returnVoid, .nop] ∧
      e.method.marks = labelled.marks ∧
      e.method.targets = [(⟨"a"⟩, some returnVoid), (⟨"b"⟩, none), (⟨"c"⟩, none)] := by
  have hrun : exec (labelledEdits.forM step) ⟨"La;->a()V", labelled⟩ =
      (.ok (), (exec (labelledEdits.forM step) ⟨"La;->a()V", labelled⟩).2) := by rfl
  obtain ⟨-, hinstructions, -, hmarks, -⟩ := edits_refine hrun
  exact ⟨_, hrun, hinstructions, hmarks, by decide +kernel⟩

end ListEdit

end DalvikPatch
