import DalvikPatch.Renaming.Pass

/-! A pass writes by index what it collected before, and what it makes of the classes is the renaming of
every item in its place. Writing a text leaves the other places as they are, so what was collected
for them still stands there. -/

namespace DalvikPatch

open Text

/-! ### One text -/

/-- An instruction that loads a text can load any other. -/
theorem Instruction.withString?_isSome {i : Instruction} {s : Text} (h : i.string? = some s) (t : Text) :
    (i.withString? t).isSome := by
  have hloads : ∀ ops : List Operand,
      reference? ⟨i.opcode, ops⟩ = some (.string s) →
      (replaceFirstOperand? (Operand.withString? t) ops).isSome := by
    intro ops
    induction ops with
    | nil => intro h; cases h
    | cons op ops ih =>
      intro h
      cases op with
      | reference r =>
        cases h
        rfl
      | _ => simpa [replaceFirstOperand?, Operand.withString?] using ih h
  rw [string?] at h
  split at h
  · next hr =>
    cases h
    rw [withString?, Option.isSome_map]
    exact hloads i.operands hr
  · cases h

namespace BodyItem

variable {c : Chain} {item : BodyItem}

theorem rename_eq_self (h : ¬ item.isChanged c) : item.rename c = item := by
  cases item with
  | instruction i =>
    have hi : i.change? c = none := by simpa [isChanged, instruction?] using h
    simp [rename, hi]
  | label | line | directive => rfl

/-- What is changed is an instruction, which loads the new text after. -/
theorem exists_of_change? {s : Text} (h : item.instruction?.bind (·.change? c) = some s) :
    ∃ i j, item.instruction? = some i ∧ i.withString? s = some j ∧ item.rename c = .instruction j := by
  obtain ⟨i, hi, hs⟩ := Option.bind_eq_some_iff.1 h
  obtain ⟨t, ht, -⟩ := Option.bind_eq_some_iff.1 hs
  obtain ⟨j, hj⟩ := Option.isSome_iff_exists.1 (Instruction.withString?_isSome ht s)
  cases item with
  | instruction i' =>
    cases hi
    exact ⟨i, j, rfl, hj, by simp [rename, hs, hj]⟩
  | label | line | directive => cases hi

end BodyItem

/-! ### The texts of a class -/

namespace Class

theorem rename_eq_self {c : Chain} {k : Class} (h : k.changes c = 0) : k.rename c = k := by
  have hitems : ∀ m ∈ k.methods, ∀ item ∈ m.items, ¬ item.isChanged c := by
    intro m hm item hi
    exact List.countP_eq_zero.1 h item (List.mem_flatMap.2 ⟨m, hm, hi⟩)
  have hmethods : k.methods.map (·.rename c) = k.methods := by
    refine (List.map_congr_left fun m hm => ?_).trans (List.map_id _)
    have : m.items.map (·.rename c) = m.items :=
      (List.map_congr_left fun item hi =>
        BodyItem.rename_eq_self (hitems m hm item hi)).trans (List.map_id _)
    simp [Method.rename, this]
  simp [rename, hmethods]

variable {c : Chain} {k : Class}

theorem forall_mem_zipIdx {α : Type} {p : α → Prop} (n : Nat) {xs : List α} :
    (∀ x ∈ xs.zipIdx n, p x.1) ↔ ∀ x ∈ xs, p x := by
  rw [← List.forall_mem_map (f := Prod.fst), List.zipIdx_map_fst]

/-- A text is written where an instruction stands that can load it. -/
theorem writeNext_instruction {before after : List Method} {m : Method} {done items : List BodyItem}
    {item : BodyItem} {i j : Instruction} {s : Text} (hi : item.instruction? = some i)
    (hj : i.withString? s = some j) (n : Nat) :
    writeNext ({ k with methods := before ++ { m with items := done ++ item :: items } :: after }, n)
      ⟨before.length, done.length, s⟩ =
    ({ k with methods := before ++ { m with items := done ++ .instruction j :: items } :: after }, n + 1) := by
  simp [writeNext, write?, hi, hj]

/-- What was collected in a body is written there, behind items that are done. -/
theorem foldl_writeNext_items (before after : List Method) (m : Method) (done items : List BodyItem)
    (n : Nat) :
    ((items.zipIdx done.length).filterMap fun item =>
        (item.1.instruction?.bind (·.change? c)).map fun s =>
          (⟨before.length, item.2, s⟩ : Rewrite)).foldl writeNext
      ({ k with methods := before ++ { m with items := done ++ items } :: after }, n) =
    ({ k with methods := before ++ { m with items := done ++ items.map (·.rename c) } :: after },
      n + items.countP (·.isChanged c)) := by
  induction items generalizing done n with
  | nil => simp
  | cons item items ih =>
    have hlength (x : BodyItem) : done.length + 1 = (done ++ [x]).length := by simp
    rw [List.zipIdx_cons, List.map_cons]
    cases hs : item.instruction?.bind (·.change? c) with
    | none =>
      have hkept : ¬ item.isChanged c := by simp [BodyItem.isChanged, hs]
      rw [List.filterMap_cons_none (by simp [hs]), BodyItem.rename_eq_self hkept,
        List.countP_cons_of_neg hkept, List.append_cons done item items, hlength item, ih,
        ← List.append_cons]
    | some s =>
      obtain ⟨i, j, hi, hj, hrename⟩ := BodyItem.exists_of_change? hs
      have hchanged : item.isChanged c := by simp [BodyItem.isChanged, hs]
      rw [List.filterMap_cons_some (by simp only [hs]; rfl), List.foldl_cons,
        writeNext_instruction hi hj, hrename, List.countP_cons_of_pos hchanged,
        List.append_cons done (.instruction j) items, hlength (.instruction j), ih, ← List.append_cons,
        Nat.add_right_comm, Nat.add_assoc n]

/-- What was collected in the methods is written there, behind methods that are done. -/
theorem foldl_writeNext_methods (done methods : List Method) (n : Nat) :
    ((methods.zipIdx done.length).flatMap fun m => m.1.rewrites c m.2).foldl writeNext
      ({ k with methods := done ++ methods }, n) =
    ({ k with methods := done ++ methods.map (·.rename c) },
      n + (methods.flatMap Method.items).countP (·.isChanged c)) := by
  induction methods generalizing done n with
  | nil => simp
  | cons m methods ih =>
    have hm := foldl_writeNext_items (c := c) (k := k) done methods m [] m.items n
    have hlength : done.length + 1 = (done ++ [m.rename c]).length := by simp
    rw [List.zipIdx_cons, List.flatMap_cons, List.foldl_append]
    have hm' : (m.rewrites c done.length).foldl writeNext ({ k with methods := done ++ m :: methods }, n) =
        ({ k with methods := (done ++ [m.rename c]) ++ methods }, n + m.items.countP (·.isChanged c)) := by
      rw [List.append_assoc]
      exact hm
    rw [hm', hlength, ih, List.flatMap_cons, List.countP_append, List.map_cons, List.append_assoc,
      List.singleton_append, Nat.add_assoc]

/-- What a pass collects in a class is written as its renaming. -/
theorem foldl_writeNext_rewrites (c : Chain) (k : Class) :
    (k.rewrites c).foldl writeNext (k, 0) = (k.rename c, k.changes c) := by
  have := foldl_writeNext_methods (c := c) (k := k) [] k.methods 0
  rwa [Nat.zero_add] at this

/-- Nothing is collected exactly if nothing changes. -/
theorem rewrites_eq_nil_iff (c : Chain) (k : Class) : k.rewrites c = [] ↔ k.changes c = 0 := by
  have hmethod : ∀ (m : Method) (index : Nat),
      m.rewrites c index = [] ↔ ∀ item ∈ m.items, ¬ item.isChanged c := by
    intro m index
    rw [Method.rewrites, List.filterMap_eq_nil_iff]
    refine Iff.trans (forall₂_congr fun item _ => ?_)
      (forall_mem_zipIdx 0 (p := fun item : BodyItem => ¬ item.isChanged c))
    rw [BodyItem.isChanged, Option.map_eq_none_iff, Option.not_isSome_iff_eq_none]
  simp only [rewrites, List.flatMap_eq_nil_iff, hmethod, changes, items, List.countP_eq_zero,
    List.mem_flatMap]
  rw [forall_mem_zipIdx 0 (p := fun m : Method => ∀ item ∈ m.items, ¬ item.isChanged c)]
  exact ⟨fun h item ⟨m, hm, hi⟩ => h m hm item hi, fun h m hm item hi => h item ⟨m, hm, hi⟩⟩

end Class

/-! ### All classes -/

theorem Slot.pass_eq (c : Chain) (r : PassReport) (s : Slot) : s.pass c r =
    (s.rename c, ⟨r.literals + s.current.changes c,
      r.classes + if s.current.changes c = 0 then 0 else 1⟩) := by
  have hempty : (s.current.rewrites c).isEmpty = true ↔ s.current.changes c = 0 := by
    rw [List.isEmpty_iff, Class.rewrites_eq_nil_iff]
  simp only [pass, hempty, Class.foldl_writeNext_rewrites, rename]
  by_cases h : s.current.changes c = 0 <;> simp [h]

namespace Workspace

theorem passFrom_eq (c : Chain) (r : PassReport) (slots : List Slot) : passFrom c r slots =
    (slots.map (·.rename c),
      ⟨r.literals + ((slots.map Slot.current).flatMap Class.items).countP (·.isChanged c),
        r.classes + (slots.map Slot.current).countP fun k => k.changes c != 0⟩) := by
  induction slots generalizing r with
  | nil => rfl
  | cons s slots ih =>
    have hchanges : s.current.items.countP (·.isChanged c) = s.current.changes c := rfl
    simp only [passFrom, Slot.pass_eq, ih, List.map_cons, List.flatMap_cons, List.countP_append, hchanges,
      List.countP_cons, Nat.add_assoc]
    by_cases h : s.current.changes c = 0 <;> simp [h, Nat.add_comm 1]

/-- A pass is the renaming of all texts, and its report counts them. -/
theorem pass_eq (w : Workspace) (c : Chain) : w.pass c = (w.rename c, w.passReport c) := by
  rw [pass, passFrom_eq, Nat.zero_add, Nat.zero_add]
  rfl

end Workspace

end DalvikPatch
