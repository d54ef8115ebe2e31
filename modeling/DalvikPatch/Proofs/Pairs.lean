import DalvikPatch.Proofs.Fields

/-! Registers that an instruction reads or writes: those it names, the second ones of pairs, and those
between the ends of a range. The check of registers sees a pair only where it is set. So all of them
lie below the frame of a method that accepts the instruction, but for the second one of a pair that is
only read, which may lie right behind it. -/

namespace DalvikPatch

open Text

namespace Opcode

/-! ### Pairs -/

/-- Operations on longs whose operands are longs. -/
def onLongs : List Text :=
  (fractionOperations ++ (["and", "or", "xor"] : List Text)).map (· ++ "-long")

def onDoubles : List Text := fractionOperations.map (· ++ "-double")

/-- Operations on longs that count with an int. -/
def shifts : List Text := ["shl-long", "shr-long", "ushr-long"]

def twoAddress (names : List Text) : List Text := names.map (· ++ "/2addr")

/-- The places of operands with 64 bits, with the mnemonics that have them there. -/
def pairTable : List (List Nat × List Text) := [
  ([0, 1], ["move-wide", "move-wide/from16", "move-wide/16", "neg-long", "not-long", "neg-double",
    "long-to-double", "double-to-long"]),
  ([0], ["move-result-wide", "return-wide", "const-wide/16", "const-wide/32", "const-wide",
    "const-wide/high16", "aget-wide", "aput-wide", "iget-wide", "iput-wide", "sget-wide", "sput-wide",
    "int-to-long", "int-to-double", "float-to-long", "float-to-double"]),
  ([1], ["long-to-int", "long-to-float", "double-to-int", "double-to-float"]),
  ([1, 2], ["cmpl-double", "cmpg-double", "cmp-long"]),
  ([0, 1, 2], onLongs ++ onDoubles),
  ([0, 1], shifts ++ twoAddress (onLongs ++ onDoubles)),
  ([0], twoAddress shifts)]

/-- The places of the operands that are the first of a pair of registers. -/
def pairPlaces (o : Opcode) : List Nat := (pairTable.filter fun row => row.2.contains o.name).flatMap Prod.fst

/-- Whether the first register is written. -/
def writesFirst (o : Opcode) : Bool := o.effects.contains .setsRegister

/-- The places of pairs that are only read. -/
def sourcePairs (o : Opcode) : List Nat := o.pairPlaces.filter fun k => !(k == 0 && o.writesFirst)

/-- An opcode that writes a pair says that it sets one. -/
theorem setsPair_of_writesFirst : ∀ o ∈ table, o.writesFirst → o.setsPair ∨ 0 ∉ o.pairPlaces := by
  decide +kernel

theorem mem_pairPlaces_of_mem_sourcePairs {o : Opcode} {k : Nat} (h : k ∈ o.sourcePairs) :
    k ∈ o.pairPlaces := (List.mem_filter.1 h).1

/-- A pair that is not only read stands first, and the opcode sets it. -/
theorem setsPair_of_not_mem_sourcePairs {o : Opcode} (ho : o ∈ table) {k : Nat} (hk : k ∈ o.pairPlaces)
    (hs : k ∉ o.sourcePairs) : k = 0 ∧ o.setsPair := by
  have hfirst : k = 0 ∧ o.writesFirst := by simpa [sourcePairs, hk] using hs
  obtain ⟨rfl, hw⟩ := hfirst
  exact ⟨rfl, (setsPair_of_writesFirst o ho hw).resolve_right (not_not_intro hk)⟩

end Opcode

/-! ### Registers that are used -/

/-- The numbers of the registers that an operand stands for, where `pair` tells whether it is the first
of two. -/
def Operand.used (locals : Nat) (pair : Bool) : Operand → List Nat
  | register r => if pair then [r.number locals, r.number locals + 1] else [r.number locals]
  | list rs => rs.map (Register.number locals)
  | range r =>
    let first := min (r.first.number locals) (r.last.number locals)
    List.range' first (max (r.first.number locals) (r.last.number locals) + 1 - first)
  | _ => []

theorem Operand.used_congr {op : Operand} {n n' : Nat} (pair : Bool)
    (h : ∀ r ∈ op.registers, r.number n = r.number n') : op.used n pair = op.used n' pair := by
  cases op with
  | register r => simp only [used, h r (List.mem_singleton_self r)]
  | list rs => exact List.map_congr_left h
  | range r => simp only [used, h r.first List.mem_cons_self, h r.last (by simp [registers])]
  | literal | label | reference => rfl

namespace Instruction

/-- The numbers of the registers that an instruction reads or writes. -/
def used (i : Instruction) (locals : Nat) : List Nat :=
  i.operands.zipIdx.flatMap fun op => op.1.used locals (op.2 ∈ i.opcode.pairPlaces)

theorem used_congr {i : Instruction} {n n' : Nat} (h : ∀ r ∈ i.registers, r.number n = r.number n') :
    i.used n = i.used n' :=
  List.flatMap_congr fun op hop => Operand.used_congr _ fun r hr =>
    h r (List.mem_flatMap.2 ⟨op.1, List.fst_mem_of_mem_zipIdx hop, hr⟩)

/-- Pairs that an instruction only reads, by the first register. -/
def SourcePair (i : Instruction) (r : Register) : Prop :=
  ∃ k ∈ i.opcode.sourcePairs, (Operand.register r, k) ∈ i.operands.zipIdx

variable {i : Instruction} {locals x : Nat} {r : Register}

theorem SourcePair.used (h : i.SourcePair r) (locals : Nat) : r.number locals + 1 ∈ i.used locals := by
  obtain ⟨k, hk, hop⟩ := h
  refine List.mem_flatMap.2 ⟨_, hop, ?_⟩
  simp [Operand.used, Opcode.mem_pairPlaces_of_mem_sourcePairs hk]

/-- A register that is used is no greater than one that is named, or it is the second of a pair. -/
theorem used_cases (ho : i.opcode ∈ Opcode.table) (h : x ∈ i.used locals) :
    (∃ r ∈ i.registers, x ≤ r.number locals) ∨
    (∃ r, i.registers.head? = some r ∧ i.opcode.setsPair ∧ x = r.number locals + 1) ∨
    ∃ r, i.SourcePair r ∧ x = r.number locals + 1 := by
  obtain ⟨⟨op, k⟩, hop, hx⟩ := List.mem_flatMap.1 h
  have hmem : op ∈ i.operands := List.fst_mem_of_mem_zipIdx hop
  have hnamed : ∀ r ∈ op.registers, r ∈ i.registers := fun r hr => List.mem_flatMap.2 ⟨op, hmem, hr⟩
  cases op with
  | register r =>
    by_cases hk : k ∈ i.opcode.pairPlaces
    · obtain rfl | rfl : x = r.number locals ∨ x = r.number locals + 1 := by
        simpa [Operand.used, hk] using hx
      · exact .inl ⟨r, hnamed r (by simp [Operand.registers]), Nat.le_refl _⟩
      · by_cases hs : k ∈ i.opcode.sourcePairs
        · exact .inr (.inr ⟨r, ⟨k, hs, hop⟩, rfl⟩)
        · obtain ⟨rfl, hset⟩ := Opcode.setsPair_of_not_mem_sourcePairs ho hk hs
          have hfirst : i.operands[0]? = some (.register r) := List.mem_zipIdx_iff_getElem?.1 hop
          obtain ⟨ops, hops⟩ : ∃ ops, i.operands = .register r :: ops := by
            cases hi : i.operands with
            | nil => simp [hi] at hfirst
            | cons op ops => exact ⟨ops, by simpa [hi] using hfirst⟩
          exact .inr (.inl ⟨r, by simp [registers, hops, Operand.registers], hset, rfl⟩)
    · obtain rfl : x = r.number locals := by simpa [Operand.used, hk] using hx
      exact .inl ⟨r, hnamed r (by simp [Operand.registers]), Nat.le_refl _⟩
  | list rs =>
    obtain ⟨r, hr, rfl⟩ := List.mem_map.1 hx
    exact .inl ⟨r, hnamed r hr, Nat.le_refl _⟩
  | range r =>
    have hle : x ≤ r.first.number locals ∨ x ≤ r.last.number locals := by
      have := (List.mem_range'_1.1 hx).2
      omega
    rcases hle with hle | hle
    · exact .inl ⟨r.first, hnamed _ (by simp [Operand.registers]), hle⟩
    · exact .inl ⟨r.last, hnamed _ (by simp [Operand.registers]), hle⟩
  | literal | label | reference => cases hx

end Instruction

namespace Method

variable {m : Method} {i : Instruction}

/-- Inside of a frame as the check sees it, only the second register of a pair that is read may lie
behind the frame, and no further than right behind it. -/
theorem used_of_holds (ho : i.opcode ∈ Opcode.table) (h : m.Holds i) :
    ∀ x ∈ i.used m.locals, x < m.frame ∨
      x = m.frame ∧ ∃ r, i.SourcePair r ∧ r.number m.locals + 1 = m.frame := by
  intro x hx
  rcases Instruction.used_cases ho hx with ⟨r, hr, hle⟩ | ⟨r, hr, hset, rfl⟩ | ⟨r, hr, rfl⟩
  · exact .inl (Nat.lt_of_le_of_lt hle (number_lt_of_holds h hr))
  · left
    have hfirst : (r, 0) ∈ i.registers.zipIdx :=
      List.mem_zipIdx_iff_getElem?.2 (by rw [← hr, List.head?_eq_getElem?])
    simpa [Instruction.reach, hset, Nat.succ_le_iff] using h _ hfirst
  · have hnamed : r ∈ i.registers := by
      obtain ⟨k, -, hop⟩ := hr
      exact List.mem_flatMap.2 ⟨_, List.fst_mem_of_mem_zipIdx hop, by simp [Operand.registers]⟩
    rcases Nat.lt_or_eq_of_le (Nat.succ_le_of_lt (number_lt_of_holds h hnamed)) with hlt | heq
    · exact .inl hlt
    · exact .inr ⟨heq, r, hr, heq⟩

end Method

/-- What replaces an instruction, or is inserted, is inside of the frame and fits. -/
theorem Edit.admits_of_accepted {i : Instruction} {e e' : Editor} {k : Nat}
    (h : exec (replace k i) e = (.ok (), e') ∨
      ∃ block, i ∈ block ∧ exec (insert k block) e = (.ok (), e')) :
    e.method.admits i ∧ e' = { e with method := { e.method with items := e'.method.items } } := by
  rcases h with h | ⟨block, hi, h⟩
  · obtain ⟨p, -, hadmits, rfl⟩ := replace_cases h
    exact ⟨hadmits, rfl⟩
  · obtain ⟨p, -, hadmits, rfl⟩ := insert_cases h
    exact ⟨hadmits i hi, rfl⟩

/-- An instruction that was put into a method. Every register that it reads or writes lies below the
frame, but for the second one of a pair that it only reads: that one may lie right behind the frame.
So all lie below it exactly if no pair that is read begins with the last register. -/
theorem Instruction.used_below_frame {name : Text} {ops : List Operand} {i : Instruction}
    (hi : ofName name ops = .ok i) {e e' : Editor} {k : Nat}
    (h : exec (Edit.replace k i) e = (.ok (), e') ∨
      ∃ block, i ∈ block ∧ exec (Edit.insert k block) e = (.ok (), e')) :
    let m := e'.method
    (m.locals = e.method.locals ∧ m.frame = e.method.frame) ∧
    (∀ x ∈ i.used m.locals, x < m.frame ∨
      x = m.frame ∧ ∃ r, i.SourcePair r ∧ r.number m.locals + 1 = m.frame) ∧
    ((∀ x ∈ i.used m.locals, x < m.frame) ↔ ∀ r, i.SourcePair r → r.number m.locals + 1 ≠ m.frame) := by
  obtain ⟨o, ho, -, hmake⟩ := exists_of_ofName hi
  obtain ⟨hadmits, he'⟩ := Edit.admits_of_accepted h
  have hlocals : e'.method.locals = e.method.locals := by rw [he']; rfl
  have hframe : e'.method.frame = e.method.frame := by rw [he']; rfl
  have hused := Method.used_of_holds (eq_of_make hmake ▸ ho) (Method.admits_iff.1 hadmits).1
  intro m
  simp only [m, hlocals, hframe]
  refine ⟨⟨trivial, trivial⟩, hused, fun hall r hr heq => ?_, fun hnone x hx => ?_⟩
  · exact Nat.lt_irrefl _ (heq ▸ hall _ (hr.used _))
  · rcases hused x hx with hlt | ⟨-, r, hr, heq⟩
    · exact hlt
    · exact absurd heq (hnone r hr)

namespace Instruction

/-- A return of a pair. -/
def returnWide : Instruction := ⟨.plain 0x10 "return-wide" .f11x [.returns, .throws], [.register (.v 0)]⟩

theorem ofName_returnWide : ofName "return-wide" [.register (.v 0)] = .ok returnWide := by rfl

theorem used_below_frame_return :
    ofName "return-wide" [.register (.v 0)] = .ok returnWide ∧ ∃ e',
      exec (Edit.replace 0 returnWide) ⟨"La;->a()V", roomy⟩ = (.ok (), e') ∧
      (∀ x ∈ returnWide.used e'.method.locals, x < e'.method.frame) := by
  have hrun : exec (Edit.replace 0 returnWide) ⟨"La;->a()V", roomy⟩ =
      (.ok (), (exec (Edit.replace 0 returnWide) ⟨"La;->a()V", roomy⟩).2) := by rfl
  refine ⟨ofName_returnWide, _, hrun, (used_below_frame ofName_returnWide (.inl hrun)).2.2.2 ?_⟩
  rintro r ⟨k, -, hop⟩
  obtain ⟨⟨⟩, rfl⟩ : r = .v 0 ∧ k = 0 := by simpa [returnWide] using hop
  decide

/-- A method with one register. -/
def narrow : Method where
  name := "a"
  flags := .isStatic
  prototype := ⟨[], .long⟩
  frame? := some (.locals 1)
  items := [.instruction nop]

/-- The method accepts the return of a pair whose second register it does not have. -/
theorem pair_behind_frame : ofName "return-wide" [.register (.v 0)] = .ok returnWide ∧
    narrow.hasImplementation ∧ ∃ e', exec (Edit.replace 0 returnWide) ⟨"La;->a()J", narrow⟩ = (.ok (), e') ∧
      e'.method.frame = 1 ∧ 1 ∈ returnWide.used e'.method.locals :=
  ⟨ofName_returnWide, by decide, _, rfl, rfl, by decide +kernel⟩

end Instruction

end DalvikPatch
