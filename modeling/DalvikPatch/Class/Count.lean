import DalvikPatch.Class.Basic

/-! Counting registers in sixteen bits. A count grows step by step, and a step that does not fit leaves
no count; what needs the count then has no result, as in a build that checks its sums. The numbers that
`parameterRegisters`, `locals` and `frame` give are not bounded. -/

namespace DalvikPatch

/-- Whether a declaration counts the parameters in. -/
def FrameSize.countsParameters : FrameSize → Bool
  | locals _ => false
  | registers _ => true

/-- A count of registers and some more; none if the sum takes more than sixteen bits. -/
def countMore? (n : UInt16) (more : Nat) : Option UInt16 :=
  if n.toNat + more < 65536 then some (n.toNat + more).toUInt16 else none

theorem countMore?_eq_some_iff {n k : UInt16} {more : Nat} :
    countMore? n more = some k ↔ k.toNat = n.toNat + more := by
  rw [countMore?]
  split
  · next h =>
    rw [Option.some_inj, ← UInt16.toNat_inj, Nat.toUInt16_eq, UInt16.toNat_ofNat_of_lt' h]
    exact eq_comm
  · have := k.toNat_lt
    simp
    omega

/-- The registers of the declared parameters, counted one parameter after the other. -/
def Prototype.parameterCount? (p : Prototype) : Option UInt16 :=
  p.parameters.foldlM (fun n t => countMore? n t.width) 0

/-- No step of a count fails on its own: a count fails exactly if the sum does not fit. -/
theorem Prototype.parameterCount?_eq_some_iff {p : Prototype} {k : UInt16} :
    p.parameterCount? = some k ↔ k.toNat = p.parameterRegisters := by
  have hstart (n : UInt16) : p.parameters.foldlM (fun n t => countMore? n t.width) n = some k ↔
      k.toNat = n.toNat + p.parameterRegisters := by
    rw [parameterRegisters]
    induction p.parameters generalizing n with
    | nil => simp [← UInt16.toNat_inj, eq_comm]
    | cons t ts ih =>
      rw [List.foldlM_cons, List.foldr_cons, Option.bind_eq_bind, Option.bind_eq_some_iff]
      constructor
      · rintro ⟨j, hj, hk⟩
        rw [countMore?_eq_some_iff] at hj
        rw [(ih j).1 hk, hj, Nat.add_assoc]
      · intro hk
        have hfits : n.toNat + t.width < 65536 := by
          have := k.toNat_lt
          omega
        have hj := countMore?_eq_some_iff.1 (if_pos hfits : countMore? n t.width = _)
        exact ⟨_, if_pos hfits, (ih _).2 (by rw [hk, hj, Nat.add_assoc])⟩
  rw [parameterCount?, hstart, UInt16.toNat_zero, Nat.zero_add]

namespace Method

/-- The registers of the parameters, the object itself among them. -/
def parameterCount? (m : Method) : Option UInt16 :=
  m.prototype.parameterCount?.bind fun n => countMore? n (if m.isStatic then 0 else 1)

theorem parameterCount?_eq_some_iff {m : Method} {k : UInt16} :
    m.parameterCount? = some k ↔ k.toNat = m.parameterRegisters := by
  rw [parameterCount?, parameterRegisters, Option.bind_eq_some_iff]
  constructor
  · rintro ⟨n, hn, hk⟩
    rw [countMore?_eq_some_iff.1 hk, Prototype.parameterCount?_eq_some_iff.1 hn]
  · intro hk
    have hfits : m.prototype.parameterRegisters < 65536 := by
      have := k.toNat_lt
      omega
    have hword : m.prototype.parameterRegisters.toUInt16.toNat = m.prototype.parameterRegisters := by
      rw [Nat.toUInt16_eq, UInt16.toNat_ofNat_of_lt' hfits]
    exact ⟨_, Prototype.parameterCount?_eq_some_iff.2 hword, countMore?_eq_some_iff.2 (by rw [hk, hword])⟩

theorem exists_parameterCount? {m : Method} (h : m.parameterRegisters < 65536) :
    ∃ k, m.parameterCount? = some k ∧ k.toNat = m.parameterRegisters := by
  have hk : m.parameterRegisters.toUInt16.toNat = m.parameterRegisters := by
    rw [Nat.toUInt16_eq, UInt16.toNat_ofNat_of_lt' h]
  exact ⟨_, parameterCount?_eq_some_iff.2 hk, hk⟩

theorem parameterCount?_eq_none_iff {m : Method} :
    m.parameterCount? = none ↔ 65536 ≤ m.parameterRegisters := by
  constructor
  · intro hnone
    apply Nat.le_of_not_lt
    intro hfits
    obtain ⟨k, hk, -⟩ := exists_parameterCount? hfits
    rw [hnone] at hk
    cases hk
  · intro hlarge
    rw [Option.eq_none_iff_forall_ne_some]
    intro k hk
    have := k.toNat_lt
    have := parameterCount?_eq_some_iff.1 hk
    omega

/-- The local registers. A declaration that counts the parameters in and is too small for them leaves no
locals. -/
def localCount? (m : Method) : Option UInt16 :=
  match m.frame? with
  | some (.locals n) => some n
  | some (.registers n) => m.parameterCount?.map fun k => if n ≤ k then 0 else n - k
  | none => some 0

/-- Only a declaration that counts the parameters in asks for their count. -/
theorem localCount?_eq_some_iff {m : Method} {k : UInt16} : m.localCount? = some k ↔ k.toNat = m.locals ∧
    (m.frame?.any FrameSize.countsParameters → m.parameterRegisters < 65536) := by
  rw [localCount?, locals]
  rcases m.frame? with _ | ⟨n⟩ | ⟨n⟩
  · simp [← UInt16.toNat_inj, eq_comm]
  · simp [FrameSize.countsParameters, ← UInt16.toNat_inj, eq_comm]
  · have hrest (j : UInt16) : (if n ≤ j then 0 else n - j).toNat = n.toNat - j.toNat := by
      split
      · next h => exact (Nat.sub_eq_zero_of_le (UInt16.le_iff_toNat_le.1 h)).symm
      · next h => exact UInt16.toNat_sub_of_le n j (UInt16.le_of_lt (UInt16.not_le.1 h))
    simp only [Option.map_eq_some_iff, parameterCount?_eq_some_iff, Option.any_some,
      FrameSize.countsParameters, true_implies]
    constructor
    · rintro ⟨j, hj, rfl⟩
      exact ⟨by rw [hrest, hj], hj ▸ j.toNat_lt⟩
    · rintro ⟨hk, hfits⟩
      obtain ⟨j, -, hj⟩ := exists_parameterCount? hfits
      exact ⟨j, hj, UInt16.toNat_inj.1 (by rw [hrest, hj, hk])⟩

theorem locals_lt (m : Method) : m.locals < 65536 := by
  rw [locals]
  split
  · exact UInt16.toNat_lt _
  · exact Nat.lt_of_le_of_lt (Nat.sub_le ..) (UInt16.toNat_lt _)
  · decide

theorem exists_localCount? {m : Method} (h : m.parameterRegisters < 65536) :
    ∃ n, m.localCount? = some n ∧ n.toNat = m.locals := by
  have hn : m.locals.toUInt16.toNat = m.locals := by
    rw [Nat.toUInt16_eq, UInt16.toNat_ofNat_of_lt' m.locals_lt]
  exact ⟨_, localCount?_eq_some_iff.2 ⟨hn, fun _ => h⟩, hn⟩

/-- The local registers and those of the whole frame, which takes more than sixteen bits where it has to. -/
def frameCounts? (m : Method) : Option (UInt16 × Nat) := do
  let locals ← m.localCount?
  let parameters ← m.parameterCount?
  return (locals, locals.toNat + parameters.toNat)

theorem exists_frameCounts? {m : Method} (h : m.parameterRegisters < 65536) :
    ∃ n, m.frameCounts? = some (n, m.frame) ∧ n.toNat = m.locals := by
  obtain ⟨n, hlocals, hn⟩ := exists_localCount? h
  obtain ⟨k, hparameters, hk⟩ := exists_parameterCount? h
  refine ⟨n, ?_, hn⟩
  rw [frameCounts?, hlocals, hparameters, frame, ← hn, ← hk]
  rfl

theorem frameCounts?_eq_none {m : Method} (h : 65536 ≤ m.parameterRegisters) : m.frameCounts? = none := by
  rw [frameCounts?, parameterCount?_eq_none_iff.2 h]
  cases m.localCount? <;> rfl

/-- The method with at least that many locals; none if they cannot be counted or declared. -/
def withAtLeast? (m : Method) (n : UInt16) : Option Method :=
  m.localCount?.bind fun k => if k < n then m.withLocals? n else some m

end Method

end DalvikPatch
