import DalvikPatch.Proofs.Pairs

/-! Room for more locals, and the stub that needs it. Parameters come behind the locals, so with every
local that a method gains they all have a number greater by one. They stay inside of the frame, which
grows with them, but nothing looks whether the fields of the instructions that name them still hold
the numbers. -/

namespace DalvikPatch

open Text

namespace Method

/-! ### Declarations -/

/-- The method `m'` is `m` with a declaration of its frame in the way of the old one. A method that declares
nothing comes to declare locals. -/
structure Redeclared (m m' : Method) : Prop where
  same : m' = { m with frame? := m'.frame? }
  style : m'.frame?.map FrameSize.countsParameters = some (m.frame?.any FrameSize.countsParameters)

theorem redeclared_of_withLocals? {m m' : Method} {n : UInt16} (h : m.withLocals? n = some m') :
    m.Redeclared m' ∧ m'.locals = n.toNat := by
  rw [withLocals?] at h
  split at h
  · next k hk =>
    split at h
    · next hsize =>
      cases h
      have hword : (n.toNat + m.parameterRegisters).toUInt16.toNat = n.toNat + m.parameterRegisters :=
        toNat_toUInt16 hsize
      refine ⟨⟨rfl, by simp [hk, FrameSize.countsParameters]⟩, ?_⟩
      rw [locals]
      simp only [hword]
      exact Nat.add_sub_cancel ..
    · cases h
  · next hk =>
    cases h
    refine ⟨⟨rfl, ?_⟩, rfl⟩
    rcases hf : m.frame? with _ | ⟨_⟩ | ⟨k⟩
    · rfl
    · rfl
    · exact absurd hf (hk k)

/-! ### Growth -/

/-- The method `m'` is `m` with at least `n` locals, declared in the way it was. A method that
declares nothing declares locals as soon as it needs some. -/
structure Grown (m : Method) (n : Nat) (m' : Method) : Prop where
  same : m' = { m with frame? := m'.frame? }
  locals : m'.locals = max m.locals n
  style : m'.frame?.map FrameSize.countsParameters =
    if m.locals < n then some ((m.frame?.map FrameSize.countsParameters).getD false)
    else m.frame?.map FrameSize.countsParameters

variable {m m' : Method} {n : Nat} {i : Instruction}

theorem Grown.refl (h : n ≤ m.locals) : m.Grown n m where
  same := rfl
  locals := (Nat.max_eq_left h).symm
  style := by rw [if_neg (Nat.not_lt.2 h)]

theorem Grown.parameterRegisters (h : m.Grown n m') : m'.parameterRegisters = m.parameterRegisters := by
  rw [h.same]
  rfl

theorem Grown.items (h : m.Grown n m') : m'.items = m.items := by
  rw [h.same]

theorem Grown.instructions (h : m.Grown n m') : m'.instructions = m.instructions := by
  rw [Method.instructions, h.items, Method.instructions]

theorem grown_of_withLocals? {n : UInt16} (hn : m.locals < n.toNat) (h : m.withLocals? n = some m') :
    m.Grown n.toNat m' := by
  obtain ⟨hredeclared, hlocals⟩ := redeclared_of_withLocals? h
  refine ⟨hredeclared.same, by rw [hlocals, Nat.max_eq_right (Nat.le_of_lt hn)], ?_⟩
  rw [hredeclared.style, if_pos hn]
  cases m.frame? <;> rfl

/-- Only a declaration that counts the parameters in can be too small for more locals. -/
theorem withLocals?_eq_none_iff {n : UInt16} : m.withLocals? n = none ↔
    m.frame?.any FrameSize.countsParameters ∧ 65536 ≤ n.toNat + m.parameterRegisters := by
  rw [withLocals?]
  rcases m.frame? with _ | ⟨_⟩ | ⟨_⟩ <;> simp [FrameSize.countsParameters]

theorem locals_eq_zero (hc : m.frame?.any FrameSize.countsParameters) (h : 65536 ≤ m.parameterRegisters) :
    m.locals = 0 := by
  rw [locals]
  split
  · next hm => simp [hm, FrameSize.countsParameters] at hc
  · next n hm =>
    have := n.toNat_lt
    omega
  · rfl

theorem withAtLeast?_eq_none_iff {n : UInt16} : m.withAtLeast? n = none ↔
    m.frame?.any FrameSize.countsParameters ∧ (65536 ≤ m.parameterRegisters ∨
      m.locals < n.toNat ∧ 65536 ≤ n.toNat + m.parameterRegisters) := by
  rw [withAtLeast?]
  cases hk : m.localCount? with
  | none =>
    have hlarge : m.frame?.any FrameSize.countsParameters ∧ 65536 ≤ m.parameterRegisters := by
      by_contra hfits
      have hcount := localCount?_eq_some_iff.2 ⟨toNat_toUInt16 m.locals_lt, fun h => by
        simpa using not_and.1 hfits h⟩
      rw [hk] at hcount
      cases hcount
    simp [hlarge]
  | some k =>
    obtain ⟨hlocals, hfits⟩ := localCount?_eq_some_iff.1 hk
    have hlt : k < n ↔ m.locals < n.toNat := hlocals ▸ UInt16.lt_iff_toNat_lt
    rw [Option.bind_some]
    split
    · next hkn =>
      have := hlt.1 hkn
      rw [withLocals?_eq_none_iff]
      exact and_congr_right fun hcounts => by
        have := hfits hcounts
        omega
    · next hkn =>
      have := mt hlt.2 hkn
      refine ⟨nofun, fun ⟨hcounts, hlarge⟩ => ?_⟩
      have := hfits hcounts
      omega

theorem grown_of_withAtLeast? {n : UInt16} (h : m.withAtLeast? n = some m') : m.Grown n.toNat m' := by
  obtain ⟨k, hk, h⟩ := Option.bind_eq_some_iff.1 h
  have hlt : k < n ↔ m.locals < n.toNat := (localCount?_eq_some_iff.1 hk).1 ▸ UInt16.lt_iff_toNat_lt
  split at h
  · next hkn => exact grown_of_withLocals? (hlt.1 hkn) h
  · next hkn =>
    cases h
    exact .refl (Nat.le_of_not_lt (mt hlt.2 hkn))

/-- Parameters move as far as the frame grows, and locals stay where they are. -/
theorem Grown.holds (h : m.Grown n m') (hi : m.Holds i) : m'.Holds i := by
  intro r hr
  have hreach := hi r hr
  have hle : m.locals ≤ m'.locals := h.locals ▸ Nat.le_max_left ..
  have hp := h.parameterRegisters
  rw [Instruction.reach, frame] at hreach ⊢
  rcases r with ⟨_ | k, j⟩ <;> simp only [Register.number] at hreach ⊢ <;> omega

end Method

/-! ### Fields after growth -/

namespace Instruction

/-- The locals that an instruction names have numbers that its format lets through. -/
def LocalsFit (i : Instruction) : Prop :=
  ∀ n, Register.v n ∈ i.registers → n.toNat ≤ i.opcode.format.maxRegister

/-- The same of the parameters that it names, where they come behind that many locals. -/
def ParametersFit (i : Instruction) (locals : Nat) : Prop :=
  ∀ n, Register.p n ∈ i.registers → locals + n.toNat ≤ i.opcode.format.maxRegister

end Instruction

theorem Method.fits_iff_of_registers {m : Method} {i : Instruction} :
    m.Fits i ↔ i.LocalsFit ∧ i.ParametersFit m.locals := by
  constructor
  · exact fun h => ⟨fun _ hn => of_decide_eq_true (h _ hn), fun _ hn => of_decide_eq_true (h _ hn)⟩
  · rintro ⟨hlocals, hparameters⟩ r hr
    cases r with
    | v n => exact decide_eq_true (hlocals n hr)
    | p n => exact decide_eq_true (hparameters n hr)

/-! ### The stub -/

/-- The lines of the instructions that return zero as a result of a type, or one if `value` is set. The
ones of the floating point types are given by their bits. -/
def returnLines (t : TypeDescriptor) (value : Bool) : List Text :=
  match t with
  | .void => ["return-void"]
  | .long => [if value then "const-wide/16 v0, 0x1" else "const-wide/16 v0, 0x0", "return-wide v0"]
  | .double => [if value then "const-wide/high16 v0, 0x3ff0000000000000L" else "const-wide/16 v0, 0x0",
      "return-wide v0"]
  | .float => [if value then "const/high16 v0, 0x3f800000" else "const/4 v0, 0x0", "return v0"]
  | .array _ | .object _ => ["const/4 v0, 0x0", "return-object v0"]
  | _ => [if value then "const/4 v0, 0x1" else "const/4 v0, 0x0", "return v0"]

/-- The instructions by which a method returns a result of a type at once, with no registers but the
first that hold one. -/
structure IsStub (t : TypeDescriptor) (value : Bool) (block : List Instruction) : Prop where
  made : stub t value = .ok block
  lines : (returnLines t value).mapM Instruction.read = .ok block
  length : block.length = if ReturnKind.ofType t = .nothing then 1 else 2
  first : ∀ i ∈ block, ∀ r ∈ i.registers, r = .v 0
  used : ∀ i ∈ block, ∀ x ∈ i.used 0, x < t.width
  inside : ∀ i ∈ block, ∀ r ∈ i.registers.zipIdx, i.reach 0 r.2 r.1 ≤ t.width
  encodes : ∀ i ∈ block, ∀ r ∈ i.registers, i.encodes 0 r

/-- A type for each way to return. -/
def resultTypes : List TypeDescriptor :=
  [.array .int, .int, .bool, .byte, .char, .short, .long, .float, .double, .void]

theorem stub_facts : ∀ t ∈ resultTypes, ∀ value : Bool, (value → ¬ t.isReference) →
    ∃ block ∈ (stub t value).toOption, (returnLines t value).mapM Instruction.read = .ok block ∧
      (block.length = if ReturnKind.ofType t = .nothing then 1 else 2) ∧
      (∀ i ∈ block, ∀ r ∈ i.registers, r = .v 0) ∧ (∀ i ∈ block, ∀ x ∈ i.used 0, x < t.width) ∧
      (∀ i ∈ block, ∀ r ∈ i.registers.zipIdx, i.reach 0 r.2 r.1 ≤ t.width) ∧
      ∀ i ∈ block, ∀ r ∈ i.registers, i.encodes 0 r := by
  decide +kernel

/-- Zero can be returned as any result, and one as any that is no reference. -/
theorem exists_isStub (t : TypeDescriptor) (value : Bool) (h : value → ¬ t.isReference) :
    ∃ block, IsStub t value block := by
  have hlisted : ∀ t' ∈ resultTypes, (value → ¬ t'.isReference) → ∃ block, IsStub t' value block := by
    intro t' ht' h'
    obtain ⟨block, hblock, hlines, hlength, hfirst, hused, hinside, hencodes⟩ := stub_facts t' ht' value h'
    refine ⟨block, ?_, hlines, hlength, hfirst, hused, hinside, hencodes⟩
    cases hs : stub t' value with
    | error f => simp [hs, Except.toOption] at hblock
    | ok block' => simpa [hs, Except.toOption] using hblock
  cases t with
  | array t | object n =>
    -- nothing but the kind of the result tells references apart
    obtain ⟨block, hblock⟩ := hlisted (.array .int) (by decide) h
    exact ⟨block, hblock.made, hblock.lines, hblock.length, hblock.first, hblock.used, hblock.inside,
      hblock.encodes⟩
  | int | bool | byte | char | short | long | float | double | void => exact hlisted _ (by decide) h

namespace IsStub

variable {t : TypeDescriptor} {value : Bool} {block : List Instruction}

theorem holds (h : IsStub t value block) {i : Instruction} (hi : i ∈ block) {m : Method}
    (hm : t.width ≤ m.locals) : m.Holds i := by
  intro r hr
  have hfirst := h.first i hi r.1 (List.fst_mem_of_mem_zipIdx hr)
  have hinside := h.inside i hi r hr
  rw [Instruction.reach, hfirst, Register.number] at hinside ⊢
  rw [Method.frame]
  omega

theorem fits (h : IsStub t value block) {i : Instruction} (hi : i ∈ block) (m : Method) : m.Fits i := by
  intro r hr
  have hencodes := h.encodes i hi r hr
  rwa [h.first i hi r hr] at hencodes ⊢

theorem ne_nil (h : IsStub t value block) : block ≠ [] := by
  rintro rfl
  have hlength := h.length
  split at hlength <;> cases hlength

theorem used_lt (h : IsStub t value block) {i : Instruction} (hi : i ∈ block) (locals : Nat) :
    ∀ x ∈ i.used locals, x < t.width := by
  have hsame : i.used locals = i.used 0 := Instruction.used_congr fun r hr => by
    rw [h.first i hi r hr]
    rfl
  rw [hsame]
  exact h.used i hi

end IsStub

namespace TypeDescriptor

theorem width_le (t : TypeDescriptor) : t.width ≤ 2 := by
  rw [width]
  split
  · decide
  · split <;> decide

theorem width_pos_iff {t : TypeDescriptor} : 0 < t.width ↔ t ≠ .void := by
  rw [width]
  split
  · next h => simp [h]
  · next h => split <;> simp [h]

end TypeDescriptor

/-- A method that grows for a result declares locals if it declared nothing, but for no result. -/
theorem Method.Grown.style_of_width {m m' : Method} {t : TypeDescriptor} (h : m.Grown t.width m') :
    m'.frame?.map FrameSize.countsParameters =
      if m.frame? = none ∧ t ≠ .void then some false else m.frame?.map FrameSize.countsParameters := by
  rw [h.style]
  cases hf : m.frame? with
  | none =>
    have hzero : m.locals = 0 := by rw [Method.locals, hf]
    simp [hzero, TypeDescriptor.width_pos_iff]
  | some f => simp

namespace ReturnKind

theorem toNat_locals (t : TypeDescriptor) : (ofType t).locals.toNat = t.width := by
  cases t <;> rfl

theorem ofType_eq_object_iff (t : TypeDescriptor) : ofType t = .object ↔ t.isReference := by
  cases t <;> simp [ofType, TypeDescriptor.isReference, TypeDescriptor.isWide]

end ReturnKind

namespace Edit

variable {e : Editor}

theorem grown_or_tooLarge (n : UInt16) (e : Editor) :
    (∃ m', e.method.Grown n.toNat m' ∧ exec (ensureLocals n) e = (.ok (), { e with method := m' })) ∨
    (65536 ≤ n.toNat + e.method.parameterRegisters ∧
      exec (ensureLocals n) e = (Outcome.abort .frameTooLarge, e)) := by
  rw [exec_ensureLocals]
  cases hm : e.method.withAtLeast? n with
  | some m' => exact .inl ⟨m', Method.grown_of_withAtLeast? hm, rfl⟩
  | none =>
    have := (Method.withAtLeast?_eq_none_iff.1 hm).2
    exact .inr ⟨by omega, rfl⟩

/-- A method makes room for a result of a type, unless it has too many parameters. -/
theorem exec_makeRoom (t : TypeDescriptor) (e : Editor) :
    (∃ m', e.method.Grown t.width m' ∧
      exec (makeRoom (.ofType t)) e = (.ok (), { e with method := m' })) ∨
    (65536 ≤ t.width + e.method.parameterRegisters ∧
      exec (makeRoom (.ofType t)) e = (Outcome.abort .frameTooLarge, e)) := by
  rw [makeRoom, ← ReturnKind.toNat_locals]
  split
  · next h =>
    rw [h]
    exact .inl ⟨e.method, .refl (Nat.zero_le _), rfl⟩
  · exact grown_or_tooLarge _ e

/-- A block that is inserted at the start stands behind the directives there, and in front of all
instructions and labels. -/
theorem insert_front {block : List Instruction} {e' : Editor} (h : exec (insert 0 block) e = (.ok (), e')) :
    e' = { e with method := { e.method with
      items := e.method.items.takeWhile BodyItem.isDirective ++ block.map .instruction ++
        e.method.items.dropWhile BodyItem.isDirective } } ∧
    e'.method.instructions = block ++ e.method.instructions ∧
    e'.method.labels = e.method.labels.map fun l => (l.1, l.2 + block.length) := by
  obtain ⟨-, -, hinstructions, -, hlabels⟩ := ListEdit.step_refines (o := .insert 0 block) h
  refine ⟨?_, hinstructions, hlabels⟩
  obtain ⟨p, hp, -, rfl⟩ := insert_cases h
  cases hp
  rw [Method.insertAt, List.takeWhile_eq_take_findIdx_not, List.dropWhile_eq_drop_findIdx_not]

theorem exists_insert_of_isStub {t : TypeDescriptor} {value : Bool} {block : List Instruction}
    (h : IsStub t value block) (hcount : e.method.parameterRegisters < 65536)
    (hlocals : t.width ≤ e.method.locals) : ∃ e', exec (insert 0 block) e = (.ok (), e') := by
  have hadmits : block.forM (e.method.checkRegisters e.reference) = .ok () :=
    forM_eq_ok_iff.2 fun i hi => Method.checkRegisters_of_fits _ hcount (h.holds hi hlocals) (h.fits hi _)
  rw [exec_insert, hadmits]
  exact ⟨_, rfl⟩

/-- A method that is to return early grows as far as its result needs, and the stub is inserted. Else
nothing changes, unless it could grow and then its parameters are too many to be counted: it stays
grown. -/
theorem exec_returnEarly (value : Bool) (e : Editor) :
    let t := e.method.prototype.result
    (∃ m' block e', e.method.Grown t.width m' ∧ IsStub t value block ∧
      exec (insert 0 block) ⟨e.reference, m'⟩ = (.ok (), e') ∧
      exec (returnEarly value) e = (.ok (), e')) ∨
    ((value ∧ t.isReference ∨ 65536 ≤ t.width + e.method.parameterRegisters) ∧
      ∃ s, exec (returnEarly value) e = (.error s, e)) ∨
    65536 ≤ e.method.parameterRegisters ∧ ∃ m', e.method.Grown t.width m' ∧
      exec (returnEarly value) e = (Outcome.abort .frameTooLarge, { e with method := m' }) := by
  intro t
  rw [returnEarly, exec_bind, exec_get]
  simp only
  by_cases hnull : ReturnKind.ofType e.method.prototype.result = .object ∧ value
  · rw [if_pos hnull]
    exact .inr (.inl ⟨.inl ⟨hnull.2, (ReturnKind.ofType_eq_object_iff t).1 hnull.1⟩, _, rfl⟩)
  · rw [if_neg hnull]
    obtain ⟨block, hblock⟩ := exists_isStub t value fun hv hr =>
      hnull ⟨(ReturnKind.ofType_eq_object_iff t).2 hr, hv⟩
    rcases exec_makeRoom t e with ⟨m', hgrown, hrun⟩ | ⟨hsize, hrun⟩
    · have hrest : exec (do makeRoom (.ofType t); insert 0 (← check (stub t value))) e =
          exec (insert 0 block) { e with method := m' } := by
        rw [exec_bind, hrun]
        simp only [exec_bind, check, exec_lift]
        rw [hblock.made]
        rfl
      rw [hrest]
      by_cases hcount : e.method.parameterRegisters < 65536
      · obtain ⟨e', hinsert⟩ := exists_insert_of_isStub (e := { e with method := m' }) hblock
          (hgrown.parameterRegisters ▸ hcount) (hgrown.locals ▸ Nat.le_max_right ..)
        exact .inl ⟨m', block, e', hgrown, hblock, hinsert, hinsert⟩
      · have hlarge : 65536 ≤ e.method.parameterRegisters := Nat.le_of_not_lt hcount
        obtain ⟨i, is, rfl⟩ := List.exists_cons_of_ne_nil hblock.ne_nil
        exact .inr (.inr ⟨hlarge, m', hgrown,
          insert_uncounted (hgrown.parameterRegisters ▸ hlarge) (Nat.zero_le _) i is⟩)
    · rw [exec_bind, hrun]
      exact .inr (.inl ⟨.inr hsize, _, rfl⟩)

/-- A method with any result is made to return zero, or one if the result is no reference. The stub is the
only thing that is inserted, in front of the instructions and of the labels, and the method has the
locals for it. -/
theorem returns_early (reference : Text) (m : Method) (value : Bool)
    (hsize : m.parameterRegisters + 2 < 65536) (hvalue : value → ¬ m.prototype.result.isReference) :
    let t := m.prototype.result
    ∃ m' block, exec (returnEarly value) ⟨reference, m⟩ = (.ok (), ⟨reference, m'⟩) ∧
      (returnLines t value).mapM Instruction.read = .ok block ∧
      m'.instructions = block ++ m.instructions ∧
      m'.labels = m.labels.map (fun l => (l.1, l.2 + block.length)) ∧
      m' = { m with
        frame? := m'.frame?
        items := m.items.takeWhile BodyItem.isDirective ++ block.map .instruction ++
          m.items.dropWhile BodyItem.isDirective } ∧
      (m'.locals = max m.locals t.width ∧ m'.frame?.map FrameSize.countsParameters =
        if m.frame? = none ∧ t ≠ .void then some false else m.frame?.map FrameSize.countsParameters) ∧
      ∀ i ∈ block, ∀ x ∈ i.used m'.locals, x < m'.locals := by
  intro t
  have hwidth : t.width ≤ 2 := t.width_le
  rcases exec_returnEarly value ⟨reference, m⟩ with ⟨m₁, block, e', hgrown, hstub, hinsert, hrun⟩ | ⟨hno, -⟩ | ⟨hlarge, -⟩
  · -- growth decides the frame, and the block that is inserted decides the items
    obtain ⟨rfl, hinstructions, hlabels⟩ := insert_front hinsert
    have hlocals : m₁.locals = max m.locals t.width := hgrown.locals
    refine ⟨_, block, hrun, hstub.lines, ?_, ?_, ?_, ⟨hlocals, hgrown.style_of_width⟩, fun i hi x hx => ?_⟩
    · rw [hinstructions, hgrown.instructions]
    · rw [hlabels, Method.labels, hgrown.items, Method.labels]
    · rw [hgrown.items, hgrown.same]
    · exact (hstub.used_lt hi _ x hx).trans_le (hlocals ▸ Nat.le_max_right ..)
  · rcases hno with ⟨hv, hr⟩ | hbig
    · exact absurd hr (hvalue hv)
    · have : m.parameterRegisters + 2 < 65536 := hsize
      have : 65536 ≤ t.width + m.parameterRegisters := hbig
      omega
  · have : 65536 ≤ m.parameterRegisters := hlarge
    omega

/-- A method with a result of two registers and a frame that counts the parameters in. -/
def summing : Method where
  name := "a"
  flags := .isStatic
  prototype := ⟨[.double, .int], .double⟩
  frame? := some (.registers 4)
  items := [.directive ⟨[".param p2"]⟩, .label ⟨"a"⟩, .instruction ListEdit.returnVoid]

theorem returns_early_summing :
    (summing.parameterRegisters + 2 < 65536 ∧ ¬ summing.prototype.result.isReference) ∧
    ∃ m' block, exec (returnEarly true) ⟨"La;->a(DI)D", summing⟩ = (.ok (), ⟨"La;->a(DI)D", m'⟩) ∧
      (["const-wide/high16 v0, 0x3ff0000000000000L", "return-wide v0"] : List Text).mapM Instruction.read =
        .ok block ∧
      m'.instructions = block ++ [ListEdit.returnVoid] ∧ m'.labels = [(⟨"a"⟩, block.length)] ∧
      m'.locals = 2 ∧ m'.frame?.map FrameSize.countsParameters = some true := by
  have hsize : summing.parameterRegisters + 2 < 65536 := by decide
  have hvalue : ¬ summing.prototype.result.isReference := by decide
  obtain ⟨m', block, hrun, hlines, hinstructions, hlabels, -, ⟨hlocals, hstyle⟩, -⟩ :=
    returns_early "La;->a(DI)D" summing true hsize fun _ => hvalue
  refine ⟨⟨hsize, hvalue⟩, m', block, hrun, hlines, hinstructions, ?_, hlocals, hstyle⟩
  rw [hlabels]
  simp [Method.labels, summing, Method.labelsFrom]

/-- A method without a result that declares nothing. -/
def undeclared : Method where
  name := "a"
  flags := .isStatic
  prototype := ⟨[], .void⟩
  frame? := none
  items := [.instruction ListEdit.returnVoid]

/-- A method without a result needs no locals to return, and still declares none. -/
theorem returns_undeclared : undeclared.hasImplementation ∧ undeclared.parameterRegisters + 2 < 65536 ∧
    ∃ e', exec (returnEarly false) ⟨"La;->a()V", undeclared⟩ = (.ok (), e') ∧
      e'.method.instructions = [ListEdit.returnVoid, ListEdit.returnVoid] ∧ e'.method.frame? = none :=
  ⟨by decide, by decide, _, rfl, rfl, rfl⟩

end Edit

/-! ### Runs of edits that make room -/

namespace Method

/-- All instructions lie inside of the frame, and the locals that they name fit. -/
def Sound (m : Method) : Prop := ∀ i ∈ m.instructions, m.Holds i ∧ i.LocalsFit

/-- The method `m'` has what `m` has, with instructions in front and with more locals. -/
structure Extends (m m' : Method) : Prop where
  prototype : m'.prototype = m.prototype
  locals : m.locals ≤ m'.locals
  suffix : m.instructions <:+ m'.instructions
  sound : m.Sound → m'.Sound

variable {m m' m'' : Method}

theorem Extends.refl (m : Method) : m.Extends m := ⟨rfl, Nat.le_refl _, List.suffix_refl _, id⟩

theorem Extends.trans (h : m.Extends m') (h' : m'.Extends m'') : m.Extends m'' :=
  ⟨h'.prototype.trans h.prototype, h.locals.trans h'.locals, h.suffix.trans h'.suffix, h'.sound ∘ h.sound⟩

theorem extends_of_grown {n : Nat} (h : m.Grown n m') : m.Extends m' where
  prototype := by rw [h.same]
  locals := h.locals ▸ Nat.le_max_left ..
  suffix := h.instructions ▸ List.suffix_refl _
  sound := by
    intro hm i hi
    obtain ⟨hholds, hfits⟩ := hm i (h.instructions ▸ hi)
    exact ⟨h.holds hholds, hfits⟩

end Method

namespace IsStub

variable {value : Bool} {block : List Instruction} {e e' : Editor}

theorem extends_of_insert (h : IsStub e.method.prototype.result value block)
    (hlocals : e.method.prototype.result.width ≤ e.method.locals)
    (hinsert : exec (Edit.insert 0 block) e = (.ok (), e')) :
    e.method.Extends e'.method ∧ e'.method.locals = e.method.locals := by
  obtain ⟨rfl, hinstructions, -⟩ := Edit.insert_front hinsert
  refine ⟨⟨rfl, Nat.le_refl _, ⟨block, hinstructions.symm⟩, fun hsound i hi => ?_⟩, rfl⟩
  rw [hinstructions] at hi
  rcases List.mem_append.1 hi with hi | hi
  · exact ⟨h.holds hi hlocals, (Method.fits_iff_of_registers.1 (h.fits hi e.method)).1⟩
  · exact hsound i hi

end IsStub

/-- An edit that gives a method more locals if it needs them. -/
inductive FrameEdit where
  | ensureLocals (n : UInt16)
  | returnEarly (value : Bool)

namespace FrameEdit

def step : FrameEdit → Edit Unit
  | ensureLocals n => Edit.ensureLocals n
  | returnEarly value => Edit.returnEarly value

/-- The locals that a method with a result of that type needs for the edit. -/
def need (t : TypeDescriptor) : FrameEdit → Nat
  | ensureLocals n => n.toNat
  | returnEarly _ => t.width

/-- An edit extends the method as far as needed, or no further and stops. -/
theorem step_cases (x : FrameEdit) (e : Editor) :
    (∃ e', exec x.step e = (.ok (), e') ∧ e.method.Extends e'.method ∧
      e'.method.locals = max e.method.locals (x.need e.method.prototype.result)) ∨
    ∃ s e', exec x.step e = (.error s, e') ∧ e.method.Extends e'.method := by
  cases x with
  | ensureLocals n =>
    rcases Edit.grown_or_tooLarge n e with ⟨m', hgrown, hrun⟩ | ⟨-, hrun⟩
    · exact .inl ⟨_, hrun, Method.extends_of_grown hgrown, hgrown.locals⟩
    · exact .inr ⟨_, e, hrun, .refl _⟩
  | returnEarly value =>
    rcases Edit.exec_returnEarly value e with
      ⟨m', block, e', hgrown, hstub, hinsert, hrun⟩ | ⟨-, s, hrun⟩ | ⟨-, m', hgrown, hrun⟩
    · have hgrows := Method.extends_of_grown hgrown
      have hresult : m'.prototype.result = e.method.prototype.result := by rw [hgrows.prototype]
      obtain ⟨hextends, hlocals⟩ := IsStub.extends_of_insert (e := ⟨e.reference, m'⟩) (hresult ▸ hstub)
        (hresult ▸ hgrown.locals ▸ Nat.le_max_right ..) hinsert
      exact .inl ⟨e', hrun, hgrows.trans hextends, hlocals.trans hgrown.locals⟩
    · exact .inr ⟨s, e, hrun, .refl _⟩
    · exact .inr ⟨_, _, hrun, Method.extends_of_grown hgrown⟩

theorem run_extends (xs : List FrameEdit) (e : Editor) :
    e.method.Extends (exec (xs.forM step) e).2.method ∧
    ((exec (xs.forM step) e).1 = .ok () → (exec (xs.forM step) e).2.method.locals =
      xs.foldl (fun n x => max n (x.need e.method.prototype.result)) e.method.locals) := by
  induction xs generalizing e with
  | nil => exact ⟨.refl _, fun _ => rfl⟩
  | cons x xs ih =>
    rw [List.forM, exec_bind]
    rcases x.step_cases e with ⟨e', hstep, hextends, hlocals⟩ | ⟨s, e', hstep, hextends⟩
    -- the rest starts with what the step has made of the method, and a stop ends the run there
    · obtain ⟨hrest, hmax⟩ := ih e'
      rw [hextends.prototype, hlocals] at hmax
      simp only [hstep]
      exact ⟨hextends.trans hrest, hmax⟩
    · simp only [hstep]
      exact ⟨hextends, fun h => by cases h⟩

/-- A body that satisfied the check of registers, after edits that make room. All instructions are still
inside of the frame, the locals that they name still fit, and an instruction satisfies the check exactly
if the parameters that it names fit its format, at the numbers that they have behind the locals there
are now. -/
theorem body_after_growth (reference : Text) (m : Method) (xs : List FrameEdit)
    (h : ∀ i ∈ m.instructions, m.admits i) :
    let run := exec (xs.forM step) ⟨reference, m⟩
    let m' := run.2.method
    (m.instructions <:+ m'.instructions ∧ m.locals ≤ m'.locals) ∧
    (run.1 = .ok () → m'.locals = xs.foldl (fun n x => max n (x.need m.prototype.result)) m.locals) ∧
    ∀ i ∈ m'.instructions,
      (m'.Holds i ∧ i.LocalsFit) ∧ (m'.admits i ↔ i.ParametersFit m'.locals) := by
  intro run m'
  have hsound : m.Sound := fun i hi => by
    obtain ⟨hholds, hfits⟩ := Method.admits_iff.1 (h i hi)
    exact ⟨hholds, (Method.fits_iff_of_registers.1 hfits).1⟩
  obtain ⟨hextends, hmax⟩ := run_extends xs ⟨reference, m⟩
  refine ⟨⟨hextends.suffix, hextends.locals⟩, hmax, fun i hi => ?_⟩
  obtain ⟨hholds, hlocals⟩ := hextends.sound hsound i hi
  refine ⟨⟨hholds, hlocals⟩, ?_⟩
  rw [Method.admits_iff, Method.fits_iff_of_registers, and_iff_right hholds, and_iff_right hlocals]

/-- A move between two registers, in fields of four bits. -/
def moving (a b : Register) : Instruction :=
  ⟨.plain 0x01 "move" .f12x Opcode.sets, [.register a, .register b]⟩

theorem ofName_moving (a b : Register) : Instruction.ofName "move" [.register a, .register b] =
    .ok (moving a b) := by rfl

/-- A method that moves its parameter into its only local. -/
def copying : Method where
  name := "a"
  flags := .isStatic
  prototype := ⟨[.int], .long⟩
  frame? := some (.locals 1)
  items := [.instruction (moving (.v 0) (.p 0))]

theorem body_after_growth_copying :
    (∀ i ∈ copying.instructions, copying.admits i) ∧ ∃ e',
      exec ([ensureLocals 5, returnEarly true].forM step) ⟨"La;->a(I)J", copying⟩ = (.ok (), e') ∧
      e'.method.locals = 5 ∧ moving (.v 0) (.p 0) ∈ e'.method.instructions ∧
      e'.method.admits (moving (.v 0) (.p 0)) := by
  have hbody : ∀ i ∈ copying.instructions, copying.admits i := by decide +kernel
  have hrun : exec ([ensureLocals 5, returnEarly true].forM step) ⟨"La;->a(I)J", copying⟩ =
      (.ok (), (exec ([ensureLocals 5, returnEarly true].forM step) ⟨"La;->a(I)J", copying⟩).2) := by rfl
  obtain ⟨⟨hsuffix, -⟩, hmax, hadmits⟩ :=
    body_after_growth "La;->a(I)J" copying [ensureLocals 5, returnEarly true] hbody
  have hlocals := hmax (congrArg Prod.fst hrun)
  have hmem := hsuffix.subset (List.mem_singleton_self (moving (.v 0) (.p 0)))
  refine ⟨hbody, _, hrun, hlocals, hmem, (hadmits _ hmem).2.2 ?_⟩
  rw [hlocals]
  intro n hn
  obtain rfl : n = 0 := by simpa [moving, Instruction.registers, Operand.registers] using hn
  decide

/-- A method with as many parameters as the fields of a move reach, and no locals. -/
def crowded : Method where
  name := "a"
  flags := .isStatic
  prototype := ⟨List.replicate 16 .int, .int⟩
  frame? := some (.locals 0)
  items := [.instruction (moving (.p 0) (.p 15))]

/-- One local more, and a field of the move does not hold the number of the last parameter. -/
theorem crowded_after_growth :
    Instruction.ofName "move" [.register (.p 0), .register (.p 15)] = .ok (moving (.p 0) (.p 15)) ∧
    crowded.hasImplementation ∧ (∀ i ∈ crowded.instructions, crowded.admits i) ∧
    ∀ x ∈ [ensureLocals 1, returnEarly false],
      let run := exec x.step ⟨"La;->a(IIIIIIIIIIIIIIII)I", crowded⟩
      run.1 = .ok () ∧ moving (.p 0) (.p 15) ∈ run.2.method.instructions ∧
        ¬ run.2.method.admits (moving (.p 0) (.p 15)) :=
  ⟨ofName_moving _ _, by decide, by decide +kernel, by decide +kernel⟩

end FrameEdit

end DalvikPatch
