import DalvikPatch.Proofs.Targets
import Mathlib.Algebra.Group.Nat.Defs

/-! What the check of registers refuses. Where the registers of a frame can be counted, an instruction whose
registers lie inside of it is refused only for the width of a field, and one bound for all operands of a
format stands for all its fields. The bound is exact but for the format of moves between fields of two
widths. -/

namespace DalvikPatch

open Text

/-! ### Frame and format -/

namespace Method

variable {m : Method} {i : Instruction}

/-- The registers of an instruction lie inside of the frame, the second one of a pair that it sets
among them. -/
def Holds (m : Method) (i : Instruction) : Prop :=
  ∀ r ∈ i.registers.zipIdx, i.reach m.locals r.2 r.1 ≤ m.frame

/-- The registers of an instruction have numbers that its format lets through. -/
def Fits (m : Method) (i : Instruction) : Prop := ∀ r ∈ i.registers, i.encodes m.locals r

instance : Decidable (m.Holds i) := inferInstanceAs (Decidable (∀ r ∈ _, _))

instance : Decidable (m.Fits i) := inferInstanceAs (Decidable (∀ r ∈ _, _))

theorem admits_iff : m.admits i ↔ m.Holds i ∧ m.Fits i := by
  have hfits : (∀ r ∈ i.registers.zipIdx, i.encodes m.locals r.1) ↔ m.Fits i := by
    rw [← List.forall_mem_map (f := Prod.fst) (P := fun r => i.encodes m.locals r), List.zipIdx_map_fst,
      Fits]
  simp only [admits, List.all_eq_true, Bool.and_eq_true, decide_eq_true_eq, ← hfits, Holds]
  exact forall₂_and

theorem number_lt_of_holds (h : m.Holds i) {r : Register} (hr : r ∈ i.registers) :
    r.number m.locals < m.frame := by
  obtain ⟨k, hk⟩ := List.mem_iff_getElem?.1 hr
  exact (Nat.lt_succ_of_le (Nat.le_add_right ..)).trans_le (h (r, k) (List.mem_zipIdx_iff_getElem?.2 hk))

end Method

/-- A loop is refused at the first of its elements that is. -/
theorem forM_eq_error_iff {α ε : Type} {f : α → Except ε Unit} {xs : List α} {s : ε} :
    xs.forM f = .error s ↔
      ∃ before x after, xs = before ++ x :: after ∧ (∀ y ∈ before, f y = .ok ()) ∧ f x = .error s := by
  induction xs with
  | nil => simp [List.forM, pure, Except.pure]
  | cons x xs ih =>
    rw [List.forM]
    cases hx : f x with
    | error t =>
      constructor
      · rintro ⟨⟩
        exact ⟨[], x, xs, rfl, by simp, hx⟩
      · rintro ⟨_ | ⟨b, before⟩, y, after, heq, hbefore, hy⟩
        · obtain ⟨rfl, -⟩ := List.cons.inj heq
          exact hx.symm.trans hy
        · obtain ⟨rfl, -⟩ := List.cons.inj heq
          rw [hbefore x List.mem_cons_self] at hx
          cases hx
    | ok u =>
      have hrest : (Except.ok u >>= fun _ => xs.forM f) = xs.forM f := rfl
      rw [hrest, ih]
      constructor
      · rintro ⟨before, y, after, rfl, hbefore, hy⟩
        exact ⟨x :: before, y, after, rfl, List.forall_mem_cons.2 ⟨hx, hbefore⟩, hy⟩
      · rintro ⟨_ | ⟨b, before⟩, y, after, heq, hbefore, hy⟩
        · obtain ⟨rfl, -⟩ := List.cons.inj heq
          rw [hx] at hy
          cases hy
        · obtain ⟨rfl, rfl⟩ := List.cons.inj heq
          exact ⟨before, y, after, rfl, (List.forall_mem_cons.1 hbefore).2, hy⟩

theorem exists_of_forM_error {α ε : Type} {f : α → Except ε Unit} {xs : List α} {s : ε}
    (h : xs.forM f = .error s) : ∃ x ∈ xs, f x = .error s := by
  obtain ⟨before, x, after, rfl, -, hx⟩ := forM_eq_error_iff.1 h
  exact ⟨x, List.mem_append_right _ (List.mem_cons_self ..), hx⟩

namespace Method

variable {m : Method} {i : Instruction} (reference : Text)

/-- Inside of the frame only the width of a field can be refused. -/
theorem exists_unencodable (hcount : m.parameterRegisters < 65536) (h : m.Holds i) (hf : ¬ m.Fits i) :
    ∃ r, m.checkRegisters reference i = .abort (.unencodable i r) := by
  cases hc : m.checkRegisters reference i with
  | ok u => exact absurd (admits_iff.1 (checkRegisters_eq_ok_iff.1 hc).2).2 hf
  | error s =>
    rw [checkRegisters_eq hcount] at hc
    obtain ⟨r, hr, hs⟩ := exists_of_forM_error hc
    rw [Instruction.checkRegister, if_neg (Nat.not_lt.2 (h r hr))] at hs
    split at hs
    · cases hs
    · exact ⟨r.1, hs.symm⟩

theorem checkRegisters_of_fits (hcount : m.parameterRegisters < 65536) (h : m.Holds i) (hf : m.Fits i) :
    m.checkRegisters reference i = .ok () :=
  checkRegisters_eq_ok_iff.2 ⟨hcount, admits_iff.2 ⟨h, hf⟩⟩

/-! ### Places of edits -/

theorem exists_placeIn? {items : List BodyItem} {k : Nat}
    (h : k < (items.filterMap BodyItem.instruction?).length) : ∃ p, placeIn? items k = some p := by
  fun_induction placeIn? items k with
  | case1 => cases h
  | case2 => exact ⟨0, rfl⟩
  | case3 item items hi k ih =>
    obtain ⟨j, rfl⟩ := BodyItem.exists_of_isInstruction hi
    obtain ⟨p, hp⟩ := ih (Nat.lt_of_succ_lt_succ h)
    exact ⟨p + 1, by rw [hp]; rfl⟩
  | case4 item items k hi ih =>
    have : item.instruction? = none := by simpa [BodyItem.isInstruction] using hi
    obtain ⟨p, hp⟩ := ih (by simpa [this] using h)
    exact ⟨p + 1, by rw [hp]; rfl⟩

theorem exists_gap? {k : Nat} (h : k ≤ m.instructionCount) : ∃ p, m.gap? k = some p := by
  cases k with
  | zero => exact ⟨_, rfl⟩
  | succ k =>
    obtain ⟨p, hp⟩ := exists_placeIn? h
    exact ⟨p + 1, by rw [gap?, place?, hp]; rfl⟩

end Method

namespace Edit

variable {e : Editor} {k : Nat} {i : Instruction} {block : List Instruction}

/-- An instruction inside of a frame that can be counted replaces another one if it fits, and else is
refused for that. -/
theorem replace_of_holds (hcount : e.method.parameterRegisters < 65536) (hk : k < e.size)
    (h : e.method.Holds i) :
    (e.method.Fits i → ∃ e', exec (replace k i) e = (.ok (), e')) ∧
    (¬ e.method.Fits i → ∃ r, exec (replace k i) e = (Outcome.abort (.unencodable i r), e)) := by
  obtain ⟨p, hp⟩ := Method.exists_placeIn? hk
  simp only [exec_replace, Method.place?, hp]
  refine ⟨fun hf => ?_, fun hf => ?_⟩
  · rw [Method.checkRegisters_of_fits _ hcount h hf]
    exact ⟨_, rfl⟩
  · obtain ⟨r, hr⟩ := Method.exists_unencodable e.reference hcount h hf
    rw [hr]
    exact ⟨r, rfl⟩

theorem replace_uncounted (hcount : 65536 ≤ e.method.parameterRegisters) (hk : k < e.size)
    (i : Instruction) : exec (replace k i) e = (Outcome.abort .frameTooLarge, e) := by
  obtain ⟨p, hp⟩ := Method.exists_placeIn? hk
  simp only [exec_replace, Method.place?, hp, Method.checkRegisters_eq_frameTooLarge hcount]
  rfl

theorem insert_of_holds (hcount : e.method.parameterRegisters < 65536) (hk : k ≤ e.size)
    (h : ∀ i ∈ block, e.method.Holds i) :
    ((∀ i ∈ block, e.method.Fits i) → ∃ e', exec (insert k block) e = (.ok (), e')) ∧
    ((¬ ∀ i ∈ block, e.method.Fits i) →
      ∃ i ∈ block, ∃ r, exec (insert k block) e = (Outcome.abort (.unencodable i r), e)) := by
  obtain ⟨p, hp⟩ := Method.exists_gap? hk
  simp only [exec_insert, hp]
  refine ⟨fun hf => ?_, fun hf => ?_⟩
  · rw [forM_eq_ok_iff.2 fun i hi => Method.checkRegisters_of_fits _ hcount (h i hi) (hf i hi)]
    exact ⟨_, rfl⟩
  · cases hc : block.forM (e.method.checkRegisters e.reference) with
    | ok u => exact absurd (fun i hi => (Method.admits_iff.1
        (Method.checkRegisters_eq_ok_iff.1 (forM_eq_ok_iff.1 hc i hi)).2).2) hf
    | error s =>
      -- the first instruction that is refused does not fit, since it is inside of the frame
      obtain ⟨i, hi, hs⟩ := exists_of_forM_error hc
      have hno : ¬ e.method.Fits i := fun hfit => by
        rw [Method.checkRegisters_of_fits _ hcount (h i hi) hfit] at hs
        cases hs
      obtain ⟨r, hr⟩ := Method.exists_unencodable e.reference hcount (h i hi) hno
      rw [hr] at hs
      cases hs
      exact ⟨i, hi, r, rfl⟩

theorem insert_uncounted (hcount : 65536 ≤ e.method.parameterRegisters) (hk : k ≤ e.size) (i : Instruction)
    (is : List Instruction) : exec (insert k (i :: is)) e = (Outcome.abort .frameTooLarge, e) := by
  obtain ⟨p, hp⟩ := Method.exists_gap? hk
  have hfirst : (i :: is).forM (e.method.checkRegisters e.reference) = Outcome.abort .frameTooLarge := by
    rw [List.forM, Method.checkRegisters_eq_frameTooLarge hcount]
    rfl
  simp only [exec_insert, hp, hfirst]
  rfl

theorem insert_nil (hk : k ≤ e.size) : ∃ e', exec (insert k []) e = (.ok (), e') := by
  obtain ⟨p, hp⟩ := Method.exists_gap? hk
  simp only [exec_insert, hp]
  exact ⟨_, rfl⟩

end Edit

/-! ### Fields -/

/-- Bits of the field for each register of the operand at a place, in the encoding of a format. -/
def Format.fieldBits : Format → Nat → Nat
  | .f11n, _ | .f12x, _ | .f22c, _ | .f22s, _ | .f22t, _ | .f35c, _ | .f45cc, _ => 4
  | .f32x, _ | .f3rc, _ | .f4rcc, _ => 16
  | .f22x, k => if k = 0 then 8 else 16
  | _, _ => 8

theorem Format.maxRegister_succ {f : Format} (hf : f ≠ .f22x) (k : Nat) :
    f.maxRegister + 1 = 2 ^ f.fieldBits k := by
  cases f <;> simp_all [maxRegister, fieldBits]

namespace Instruction

variable {i : Instruction}

/-- A register does not fit the field of its own operand. -/
def Overflows (i : Instruction) (locals : Nat) : Prop :=
  ∃ op ∈ i.operands.zipIdx, ∃ r ∈ op.1.registers,
    2 ^ i.opcode.format.fieldBits op.2 ≤ r.number locals

/-- The source of a move with a field of sixteen bits for it has a number of more than eight bits. -/
def MovesFromFar (i : Instruction) (locals : Nat) : Prop :=
  i.opcode.format = .f22x ∧
    ∃ op ∈ i.operands.zipIdx, op.2 = 1 ∧ ∃ r ∈ op.1.registers, 2 ^ 8 ≤ r.number locals

instance (locals : Nat) : Decidable (i.Overflows locals) :=
  inferInstanceAs (Decidable (∃ op ∈ _, ∃ r ∈ _, _))

instance (locals : Nat) : Decidable (i.MovesFromFar locals) :=
  inferInstanceAs (Decidable (_ ∧ ∃ op ∈ _, _ ∧ ∃ r ∈ _, _))

theorem exists_pair_of_kinds {ops : List Operand} (h : ops.map Operand.kind = [.register, .register]) :
    ∃ a b, ops = [.register a, .register b] := by
  rcases ops with _ | ⟨_ | _ | _ | _ | _ | _, _ | ⟨_ | _ | _ | _ | _ | _, _ | _⟩⟩ <;>
    simp_all [Operand.kind]

end Instruction

/-- The bound of a format is exact but for far sources of moves. -/
theorem Method.fits_iff {m : Method} {o : Opcode} {ops : List Operand} {i : Instruction}
    (hi : Instruction.make o ops = .ok i) :
    m.Fits i ↔ ¬ i.Overflows m.locals ∧ ¬ i.MovesFromFar m.locals := by
  obtain rfl := Instruction.eq_of_make hi
  have hkinds := (Instruction.checkOperands_of_make hi).1
  by_cases hf : o.format = .f22x
  · rw [hf] at hkinds
    obtain ⟨a, b, rfl⟩ := Instruction.exists_pair_of_kinds hkinds
    have hfits : m.Fits ⟨o, [.register a, .register b]⟩ ↔
        a.number m.locals < 2 ^ 8 ∧ b.number m.locals < 2 ^ 8 := by
      simp [Fits, Instruction.registers, Operand.registers, Instruction.encodes, hf, Format.maxRegister,
        Nat.lt_succ_iff]
    have hover : (⟨o, [.register a, .register b]⟩ : Instruction).Overflows m.locals ↔
        2 ^ 8 ≤ a.number m.locals ∨ 2 ^ 16 ≤ b.number m.locals := by
      simp [Instruction.Overflows, Operand.registers, hf, Format.fieldBits]
    have hfar : (⟨o, [.register a, .register b]⟩ : Instruction).MovesFromFar m.locals ↔
        2 ^ 8 ≤ b.number m.locals := by
      simp [Instruction.MovesFromFar, Operand.registers, hf]
    rw [hfits, hover, hfar]
    omega
  · have hfits : ∀ op ∈ ops.zipIdx, (∀ r ∈ op.1.registers, r.number m.locals ≤ o.format.maxRegister) ↔
        ∀ r ∈ op.1.registers, r.number m.locals < 2 ^ o.format.fieldBits op.2 := by
      intro op _
      simp only [← Format.maxRegister_succ hf op.2, Nat.lt_succ_iff]
    have hoperands : (∀ op ∈ ops.zipIdx, ∀ r ∈ op.1.registers, r.number m.locals ≤ o.format.maxRegister) ↔
        ∀ op ∈ ops, ∀ r ∈ op.registers, r.number m.locals ≤ o.format.maxRegister := by
      rw [← List.forall_mem_map (f := Prod.fst)
        (P := fun op : Operand => ∀ r ∈ op.registers, r.number m.locals ≤ o.format.maxRegister),
        List.zipIdx_map_fst]
    have hno : ¬ (⟨o, ops⟩ : Instruction).MovesFromFar m.locals := fun h => hf h.1
    rw [and_iff_left hno, Fits, Instruction.registers, List.forall_mem_flatMap]
    simp only [Instruction.encodes, decide_eq_true_eq]
    rw [← hoperands, forall₂_congr hfits]
    simp only [Instruction.Overflows, not_exists, not_and, Nat.not_le]

namespace Instruction

theorem exists_of_ofName {name : Text} {ops : List Operand} {i : Instruction} (h : ofName name ops = .ok i) :
    ∃ o ∈ Opcode.table, o.name = name ∧ make o ops = .ok i := by
  obtain ⟨o, ho, hmake⟩ := ofName_eq_ok_iff.1 h
  obtain ⟨hmem, hname⟩ := Opcode.mem_table_of_ofName? ho
  exact ⟨o, hmem, hname, hmake⟩

/-- Instructions inside of the frame of a method, put in the place of another or inserted. They are
refused for a width exactly if a register does not fit its own field, or if one of them is a move with
fields of eight and sixteen bits whose source has more than eight; otherwise they are accepted. All this is
so where the registers of the parameters can be counted, and where not, no instruction comes to be looked
at. -/
theorem refused_for_width (e : Editor) (block : List Instruction)
    (hmade : ∀ i ∈ block, ∃ name ops, ofName name ops = .ok i) (hholds : ∀ i ∈ block, e.method.Holds i) :
    let tooWide := fun i : Instruction => i.Overflows e.method.locals ∨ i.MovesFromFar e.method.locals
    let counted : Prop := e.method.parameterRegisters < 65536
    (∀ i ∈ block, ∀ k < e.size,
      ((∃ r, exec (Edit.replace k i) e = (Outcome.abort (.unencodable i r), e)) ↔ counted ∧ tooWide i) ∧
      ((∃ e', exec (Edit.replace k i) e = (.ok (), e')) ↔ counted ∧ ¬ tooWide i) ∧
      (exec (Edit.replace k i) e = (Outcome.abort .frameTooLarge, e) ↔ ¬ counted)) ∧
    ∀ k ≤ e.size,
      ((∃ i ∈ block, ∃ r, exec (Edit.insert k block) e = (Outcome.abort (.unencodable i r), e)) ↔
        counted ∧ ∃ i ∈ block, tooWide i) ∧
      ((∃ e', exec (Edit.insert k block) e = (.ok (), e')) ↔
        (counted ∨ block = []) ∧ ∀ i ∈ block, ¬ tooWide i) ∧
      (exec (Edit.insert k block) e = (Outcome.abort .frameTooLarge, e) ↔ ¬ counted ∧ block ≠ []) := by
  intro tooWide counted
  have hfits : ∀ i ∈ block, e.method.Fits i ↔ ¬ tooWide i := by
    intro i hi
    obtain ⟨name, ops, hname⟩ := hmade i hi
    obtain ⟨o, -, -, hmake⟩ := exists_of_ofName hname
    rw [Method.fits_iff hmake, not_or]
  by_cases hcount : counted
  · refine ⟨fun i hi k hk => ?_, fun k hk => ?_⟩
    · obtain ⟨haccepted, hrefused⟩ := Edit.replace_of_holds hcount hk (hholds i hi)
      by_cases hf : tooWide i
      · obtain ⟨r, hr⟩ := hrefused fun h => (hfits i hi).1 h hf
        simp [hr, hf, hcount, Outcome.abort]
      · obtain ⟨e', he'⟩ := haccepted ((hfits i hi).2 hf)
        simp [he', hf, hcount, Outcome.abort]
    · obtain ⟨haccepted, hrefused⟩ := Edit.insert_of_holds hcount hk hholds
      by_cases hf : ∃ i ∈ block, tooWide i
      · obtain ⟨j, hj, hwide⟩ := hf
        obtain ⟨i, hi, r, hr⟩ := hrefused fun h => (hfits j hj).1 (h j hj) hwide
        have hany : ∃ i ∈ block, tooWide i := ⟨j, hj, hwide⟩
        refine ⟨iff_of_true ⟨i, hi, r, hr⟩ ⟨hcount, hany⟩, iff_of_false ?_ fun h => h.2 j hj hwide, ?_⟩
        · simp [hr, Outcome.abort]
        · simp [hr, hcount, Outcome.abort]
      · have hnone : ∀ i ∈ block, ¬ tooWide i := fun i hi h => hf ⟨i, hi, h⟩
        obtain ⟨e', he'⟩ := haccepted fun i hi => (hfits i hi).2 (hnone i hi)
        refine ⟨iff_of_false ?_ fun h => hf h.2, iff_of_true ⟨e', he'⟩ ⟨.inl hcount, hnone⟩, ?_⟩
        · simp [he', Outcome.abort]
        · simp [he', hcount, Outcome.abort]
  · have hlarge : 65536 ≤ e.method.parameterRegisters := Nat.le_of_not_lt hcount
    refine ⟨fun i hi k hk => ?_, fun k hk => ?_⟩
    · simp [Edit.replace_uncounted hlarge hk i, hcount, Outcome.abort]
    · cases block with
      | nil =>
        obtain ⟨e', he'⟩ := Edit.insert_nil hk
        simp [he', Outcome.abort]
      | cons i is => simp [Edit.insert_uncounted hlarge hk i is, hcount, Outcome.abort]

/-- A method of one instruction with many locals. -/
def roomy : Method where
  name := "a"
  flags := .isStatic
  prototype := ⟨[], .void⟩
  frame? := some (.locals 300)
  items := [.instruction ListEdit.returnVoid]

/-- A move out of a register that no format with fields of eight bits reaches. -/
def farMove : Instruction :=
  ⟨.plain 0x02 "move/from16" .f22x Opcode.sets, [.register (.v 0), .register (.v 256)]⟩

theorem ofName_farMove : ofName "move/from16" [.register (.v 0), .register (.v 256)] = .ok farMove := by rfl

theorem refused_for_width_moves :
    (∀ i ∈ [ListEdit.returnVoid, farMove], ∃ name ops, ofName name ops = .ok i) ∧
    (∀ i ∈ [ListEdit.returnVoid, farMove], roomy.Holds i) ∧
    (∃ e', exec (Edit.replace 0 ListEdit.returnVoid) ⟨"La;->a()V", roomy⟩ = (.ok (), e')) ∧
    ∃ i ∈ [ListEdit.returnVoid, farMove], ∃ r,
      exec (Edit.insert 1 [ListEdit.returnVoid, farMove]) ⟨"La;->a()V", roomy⟩ =
        (Outcome.abort (.unencodable i r), ⟨"La;->a()V", roomy⟩) := by
  have hmade : ∀ i ∈ [ListEdit.returnVoid, farMove], ∃ name ops, ofName name ops = .ok i :=
    List.forall_mem_cons.2 ⟨⟨"return-void", [], rfl⟩, List.forall_mem_singleton.2 ⟨_, _, ofName_farMove⟩⟩
  have hholds : ∀ i ∈ [ListEdit.returnVoid, farMove], roomy.Holds i := by decide +kernel
  obtain ⟨hreplace, hinsert⟩ := refused_for_width ⟨"La;->a()V", roomy⟩ _ hmade hholds
  have hcount : roomy.parameterRegisters < 65536 := by decide
  refine ⟨hmade, hholds, (hreplace _ List.mem_cons_self 0 (by decide)).2.1.2 ⟨hcount, by decide +kernel⟩, ?_⟩
  exact (hinsert 1 (by decide)).1.2 ⟨hcount, farMove, by simp, .inr (by decide +kernel)⟩

/-- The source of the move fits the field that it has, and the move is refused for it. -/
theorem far_move_refused :
    ofName "move/from16" [.register (.v 0), .register (.v 256)] = .ok farMove ∧
    roomy.hasImplementation ∧ roomy.Holds farMove ∧ ¬ farMove.Overflows roomy.locals ∧
    exec (Edit.replace 0 farMove) ⟨"La;->a()V", roomy⟩ =
      (Outcome.abort (.unencodable farMove (.v 256)), ⟨"La;->a()V", roomy⟩) := by
  exact ⟨ofName_farMove, by decide, by decide +kernel, by decide +kernel, rfl⟩

end Instruction

end DalvikPatch
