import DalvikPatch.Proofs.Frames
import DalvikPatch.Proofs.Saving

/-! Counts of registers in sixteen bits. Parameters are counted where a declaration counts them in, and then
they have to fit together with the locals that are asked for. Where they fit, every count is exact, and a
method has the locals that it was given. -/

namespace DalvikPatch

open Text

namespace Method

variable {m m' : Method}

theorem localCount?_eq_none_iff : m.localCount? = none ↔
    m.frame?.any FrameSize.countsParameters ∧ 65536 ≤ m.parameterRegisters := by
  rw [← parameterCount?_eq_none_iff, localCount?]
  rcases m.frame? with _ | ⟨_⟩ | ⟨_⟩ <;> simp [FrameSize.countsParameters]

theorem Redeclared.parameterRegisters (h : m.Redeclared m') :
    m'.parameterRegisters = m.parameterRegisters := by
  rw [h.same]
  rfl

theorem Redeclared.any_eq (h : m.Redeclared m') :
    m'.frame?.any FrameSize.countsParameters = m.frame?.any FrameSize.countsParameters := by
  obtain ⟨f, hf, hstyle⟩ := Option.map_eq_some_iff.1 h.style
  rw [hf, Option.any_some, hstyle]

/-- The locals that were declared can be counted. -/
theorem localCount?_of_withLocals? {n : UInt16} (h : m.withLocals? n = some m') :
    m'.localCount? = some n := by
  obtain ⟨hredeclared, hlocals⟩ := redeclared_of_withLocals? h
  rw [localCount?_eq_some_iff, hlocals, hredeclared.any_eq, hredeclared.parameterRegisters]
  refine ⟨rfl, fun hcounts => ?_⟩
  by_contra hlarge
  have hnone : m.withLocals? n = none := withLocals?_eq_none_iff.2 ⟨hcounts, by omega⟩
  rw [h] at hnone
  cases hnone

/-- A method that has at least so many locals either had them or was given them. -/
theorem withAtLeast?_cases {n : UInt16} (h : m.withAtLeast? n = some m') :
    ∃ k l, m.localCount? = some k ∧ m'.localCount? = some l ∧ l.toNat = max k.toNat n.toNat ∧
      (n ≤ k ∧ m' = m ∨ k < n ∧ m.Redeclared m') := by
  obtain ⟨k, hk, h⟩ := Option.bind_eq_some_iff.1 h
  split at h
  · next hlt =>
    have hmax := Nat.max_eq_right (Nat.le_of_lt (UInt16.lt_iff_toNat_lt.1 hlt))
    exact ⟨k, n, hk, localCount?_of_withLocals? h, hmax.symm, .inr ⟨hlt, (redeclared_of_withLocals? h).1⟩⟩
  · next hlt =>
    cases h
    have hle := UInt16.not_lt.1 hlt
    exact ⟨k, k, hk, hk, (Nat.max_eq_left (UInt16.le_iff_toNat_le.1 hle)).symm, .inl ⟨hle, rfl⟩⟩

/-- What a method and the editor count, for any signature, declaration and number of locals. No sum is wrong:
it is exact, or it does not fit sixteen bits and there is no count. Parameters alone may be too many; only
where a declaration counts them in does this reach the locals, and there the locals that are asked for must
fit next to them. -/
theorem counts_registers (reference : Text) (m : Method) (n : UInt16) :
    let counted : Prop := m.frame?.any FrameSize.countsParameters
    let parameters := m.parameterRegisters
    let editor : Editor := ⟨reference, m⟩
    ((m.parameterCount? = none ↔ 65536 ≤ parameters) ∧
      ∀ k, m.parameterCount? = some k → k.toNat = parameters) ∧
    ((m.localCount? = none ↔ counted ∧ 65536 ≤ parameters) ∧
      ∀ k, m.localCount? = some k → k.toNat = m.locals) ∧
    ((m.withLocals? n = none ↔ counted ∧ 65536 ≤ n.toNat + parameters) ∧
      ∀ m', m.withLocals? n = some m' → m'.localCount? = some n ∧ m.Redeclared m') ∧
    ((exec (Edit.ensureLocals n) editor = (Outcome.abort .frameTooLarge, editor) ↔
        counted ∧ (65536 ≤ parameters ∨ m.locals < n.toNat ∧ 65536 ≤ n.toNat + parameters)) ∧
      (exec (Edit.ensureLocals n) editor = (Outcome.abort .frameTooLarge, editor) ∨
        ∃ m' k l, exec (Edit.ensureLocals n) editor = (.ok (), ⟨reference, m'⟩) ∧
          m.localCount? = some k ∧ m'.localCount? = some l ∧ l.toNat = max k.toNat n.toNat ∧
          (n ≤ k ∧ m' = m ∨ k < n ∧ m.Redeclared m'))) := by
  intro counted parameters editor
  refine ⟨⟨parameterCount?_eq_none_iff, fun k => parameterCount?_eq_some_iff.1⟩,
    ⟨localCount?_eq_none_iff, fun k hk => (localCount?_eq_some_iff.1 hk).1⟩,
    ⟨withLocals?_eq_none_iff, fun m' h =>
      ⟨localCount?_of_withLocals? h, (redeclared_of_withLocals? h).1⟩⟩, ?_⟩
  rw [Edit.exec_ensureLocals, ← withAtLeast?_eq_none_iff]
  cases hm : m.withAtLeast? n with
  | none => simp [editor]
  | some m' =>
    obtain ⟨k, l, hk, hl, hmax, hstyle⟩ := withAtLeast?_cases hm
    simp only [editor]
    exact ⟨⟨nofun, nofun⟩, .inr ⟨m', k, l, rfl, hk, hl, hmax, hstyle⟩⟩

end Method

namespace Class

/-- A class of one method without a name for itself. -/
def holding (m : Method) : Class where
  name := ⟨"a"⟩
  flags := .empty
  source? := none
  super? := none
  interfaces := []
  annotations := []
  fields := []
  methods := [m]
  file? := none

/-- A method with one parameter that its declaration counts in. -/
def counting : Method := ⟨"a", .isStatic, ⟨[.int], .void⟩, some (.registers 5), []⟩

/-- A method with `k` pairs for parameters. -/
def wide (k : Nat) : Method := ⟨"a", .isStatic, ⟨List.replicate k .long, .void⟩, some (.registers 5), []⟩

theorem parameterRegisters_wide (k : Nat) : (wide k).parameterRegisters = 2 * k := by
  have hsum : (List.replicate k TypeDescriptor.long).foldr (fun t n => t.width + n) 0 = 2 * k := by
    induction k with
    | zero => rfl
    | succ k ih =>
      rw [List.replicate_succ, List.foldr_cons, ih]
      exact (Nat.add_comm ..).trans (Nat.mul_succ ..).symm
  -- a static method has no register for an object
  have hstatic : (wide k).isStatic = true := show AccessFlags.isStatic.contains .isStatic = true by decide
  rw [Method.parameterRegisters, if_pos hstatic]
  exact hsum

theorem declared_wide (k : Nat) : (wide k).Declared where
  flags := by
    refine ⟨[⟨"static", .isStatic, none⟩], fun m hm => ?_, rfl⟩
    rw [List.mem_singleton.1 hm]
    exact ⟨by simp [AccessFlags.modifiers, AccessFlags.isStatic], rfl⟩
  name := fun c hc => by
    rw [List.mem_singleton.1 hc]
    decide
  parenthesis := by simp [wide]
  prototype := ⟨fun t ht => by rw [List.eq_of_mem_replicate ht]; trivial, trivial⟩
  quiet := by
    have hlong : '#' ∉ TypeDescriptor.long.jni := by decide
    have hvoid : '#' ∉ TypeDescriptor.void.jni := by decide
    apply quiet_of_not_mem
    simp [Method.descriptor, Prototype.jni, wide, hlong, hvoid]

/-- A class that holds nothing but a method without a body is read back. -/
theorem read_text_holding {m : Method} (h : m.Declared) (hitems : m.items = []) :
    read (holding m).text = .ok (holding m) := by
  have hnone : (holding m).directives = [] := by
    simp only [directives, holding, List.flatMap_singleton, Method.directives, hitems]
    rfl
  have hname : ClassName.Declared ⟨"a"⟩ := ⟨⟨by decide, by decide⟩, quiet_of_not_mem (by decide)⟩
  have hwell : (holding m).WellFormed :=
    { flags := ⟨[], by simp, rfl⟩
      name := hname
      super := fun _ h => by cases h
      interfaces := fun _ h => by cases h
      annotations := fun _ h => by cases h
      fields := fun _ h => by cases h
      methods := fun k hk => by
        rw [List.mem_singleton.1 hk]
        exact ⟨h, by simp [hitems]⟩
      owned := by
        rw [hnone]
        trivial
      file := rfl }
  rw [hwell.read_text, splits, hnone]
  rfl

/-- Classes that hold these methods can be read. Of the first, all locals that sixteen bits can count are one
too many, and of the second, the parameters alone. -/
theorem counts_overflow :
    (read ".class La;\n.method static a(I)V\n.registers 5\n.end method\n" = .ok (holding counting) ∧
      counting.withLocals? 65535 = none ∧
      exec (Edit.ensureLocals 65535) ⟨"La;->a(I)V", counting⟩ =
        (Outcome.abort .frameTooLarge, ⟨"La;->a(I)V", counting⟩)) ∧
    read (holding (wide 32768)).text = .ok (holding (wide 32768)) ∧ (wide 32768).parameterCount? = none := by
  refine ⟨⟨by decide +kernel, by decide, by rfl⟩, read_text_holding (declared_wide _) rfl, ?_⟩
  rw [Method.parameterCount?_eq_none_iff, parameterRegisters_wide]

end Class

end DalvikPatch
