import DalvikPatch.Proofs.Frames

/-! Calls of the editor that stop. Whatever a call may be refused for is looked at before anything is
written, so a call that fails, or that the check of registers stops, leaves the method as it was. What it may
be refused for can be told from the method and the call, without running it. Only where the parameters are
too many to be counted can a call stop after it has written: it has made room for a stub by then. -/

namespace DalvikPatch

open Text

namespace Method

variable {m : Method} {k : Nat}

theorem place?_eq_none_iff : m.place? k = none ↔ m.instructionCount ≤ k := by
  constructor
  · intro hnone
    by_contra hk
    obtain ⟨p, hp⟩ := exists_placeIn? (Nat.lt_of_not_le hk)
    rw [place?, hp] at hnone
    cases hnone
  · intro hk
    by_contra hsome
    obtain ⟨p, hp⟩ := Option.ne_none_iff_exists'.1 hsome
    obtain ⟨before, i, after, hitems, -, rfl⟩ := eq_of_placeIn? hp
    have hcons : (BodyItem.instruction i :: after).filterMap BodyItem.instruction? =
      i :: after.filterMap BodyItem.instruction? := rfl
    rw [instructionCount, instructions, hitems, List.filterMap_append, hcons, List.length_append,
      List.length_cons] at hk
    omega

theorem gap?_eq_none_iff : m.gap? k = none ↔ m.instructionCount < k := by
  cases k with
  | zero => simp [gap?]
  | succ k => rw [gap?, Option.map_eq_none_iff, place?_eq_none_iff, Nat.lt_succ_iff]

/-- The method has fewer locals than that, and its declaration, which counts the parameters in, cannot say
how many registers there would be. -/
def TooLarge (m : Method) (n : Nat) : Prop :=
  m.locals < n ∧ m.frame?.any FrameSize.countsParameters ∧ 65536 ≤ n + m.parameterRegisters

/-- A method of which some locals are asked for stops for their number or for that of the parameters; with
too many parameters there are no locals, and so any number is too large. -/
theorem withAtLeast?_eq_none_iff_tooLarge {n : UInt16} (hn : 0 < n.toNat) :
    m.withAtLeast? n = none ↔ m.TooLarge n.toNat := by
  rw [withAtLeast?_eq_none_iff, TooLarge]
  constructor
  · rintro ⟨hcounts, hlarge | hlarge⟩
    · have hzero : m.locals = 0 := locals_eq_zero hcounts hlarge
      exact ⟨by omega, hcounts, by omega⟩
    · exact ⟨hlarge.1, hcounts, hlarge.2⟩
  · rintro ⟨hlt, hcounts, hlarge⟩
    exact ⟨hcounts, .inr ⟨hlt, hlarge⟩⟩

end Method

theorem Edit.exec_check_bind {α β : Type} (x : Except InstructionFault α) (g : α → Edit β) (e : Editor) :
    exec (check x >>= g) e = match x with
      | .ok a => exec (g a) e
      | .error f => (.error (.fault (.instruction f)), e) := by
  rw [exec_bind, Edit.check, Edit.exec_lift]
  cases x <;> rfl

/-! ### Calls -/

/-- A call of the editor. -/
inductive EditorCall where
  | instruction (k : Nat)
  | findFirst (what : Text) (p : Instruction → Bool)
  | replace (k : Nat) (i : Instruction)
  | replaceText (k : Nat) (t : Text)
  | nop (k : Nat)
  | insert (k : Nat) (block : List Instruction)
  | insertText (k : Nat) (t : Text)
  | remove (k : Nat)
  | returnEarly (value : Bool)

namespace EditorCall

def step : EditorCall → Edit Unit
  | instruction k => do let _ ← Edit.instruction k
  | findFirst what p => do let _ ← Edit.findFirst what p
  | replace k i => Edit.replace k i
  | replaceText k t => Edit.replaceText k t
  | nop k => Edit.nop k
  | insert k block => Edit.insert k block
  | insertText k t => Edit.insertText k t
  | remove k => do let _ ← Edit.remove k
  | returnEarly value => Edit.returnEarly value

/-- What the editor refuses a call for, and how the call stops then. The first instruction of a block that
does not pass decides, whatever stands behind it. -/
inductive Refused (e : Editor) : EditorCall → Stop → Prop
  | noInstruction {k} : e.size ≤ k → Refused e (instruction k) (.fault (e.outOfRange k))
  | notFound {what p} : (∀ i ∈ e.method.instructions, p i = false) →
      Refused e (findFirst what p) (.fault (.notFound what e.reference))
  | noReplaced {k i} : e.size ≤ k → Refused e (replace k i) (.fault (e.outOfRange k))
  | registers {k i s} : k < e.size → e.method.checkRegisters e.reference i = .error s →
      Refused e (replace k i) s
  | unreadable {k t f} : Instruction.readAll t = .error f →
      Refused e (replaceText k t) (.fault (.instruction f))
  | notOne {k t block} : Instruction.readAll t = .ok block → block.length ≠ 1 →
      Refused e (replaceText k t) (.fault (.instruction (.notOne block.length t)))
  | readOne {k t i s} : Instruction.readAll t = .ok [i] → Refused e (replace k i) s →
      Refused e (replaceText k t) s
  | noNop {k} : e.size ≤ k → Refused e (nop k) (.fault (e.outOfRange k))
  | uncountedNop {k} : k < e.size → 65536 ≤ e.method.parameterRegisters →
      Refused e (nop k) (.abort .frameTooLarge)
  | noGap {k block} : e.size < k → Refused e (insert k block) (.fault (e.outOfRange k))
  | blockRegisters {k before i after s} : k ≤ e.size →
      (∀ j ∈ before, e.method.checkRegisters e.reference j = .ok ()) →
      e.method.checkRegisters e.reference i = .error s → Refused e (insert k (before ++ i :: after)) s
  | unreadableBlock {k t f} : Instruction.readAll t = .error f →
      Refused e (insertText k t) (.fault (.instruction f))
  | readBlock {k t block s} : Instruction.readAll t = .ok block → Refused e (insert k block) s →
      Refused e (insertText k t) s
  | noRemoved {k} : e.size ≤ k → Refused e (remove k) (.fault (e.outOfRange k))
  | onlyNull : e.method.prototype.result.isReference → Refused e (returnEarly true)
      (.fault (.instruction (.onlyNull e.reference e.method.prototype.result)))
  | frameTooLarge {value : Bool} : (value → ¬ e.method.prototype.result.isReference) →
      e.method.TooLarge e.method.prototype.result.width →
      Refused e (returnEarly value) (.abort .frameTooLarge)

/-- A method whose parameters are too many to be counted was given room for a stub, as far as it needs any, and
then the stub did not pass. -/
def StopsGrown (e : Editor) (c : EditorCall) (e' : Editor) : Prop :=
  ∃ value, c = returnEarly value ∧ (value → ¬ e.method.prototype.result.isReference) ∧
    65536 ≤ e.method.parameterRegisters ∧
    exec (Edit.makeRoom (.ofType e.method.prototype.result)) e = (.ok (), e') ∧
    ∃ m', e.method.Grown e.method.prototype.result.width m' ∧ e' = { e with method := m' }

/-! ### Each call -/

variable {e e' : Editor} {s : Stop} {k : Nat}

theorem instruction_stops : exec (instruction k).step e = (.error s, e') ↔
    e' = e ∧ Refused e (instruction k) s := by
  rw [step, Edit.instruction]
  simp only [exec_bind, exec_get]
  cases hk : e.method.instructions[k]? with
  | some i =>
    constructor
    · rintro ⟨⟩
    · rintro ⟨rfl, hr⟩
      cases hr with
      | noInstruction hsize =>
        rw [List.getElem?_eq_none hsize] at hk
        cases hk
  | none =>
    constructor
    · rintro ⟨⟩
      exact ⟨rfl, .noInstruction (List.getElem?_eq_none_iff.1 hk)⟩
    · rintro ⟨rfl, hr⟩
      cases hr
      rfl

theorem findFirst_stops {what : Text} {p : Instruction → Bool} :
    exec (findFirst what p).step e = (.error s, e') ↔ e' = e ∧ Refused e (findFirst what p) s := by
  rw [step, Edit.findFirst]
  simp only [exec_bind, exec_get]
  cases hp : e.indexOf? p with
  | some i =>
    constructor
    · rintro ⟨⟩
    · rintro ⟨rfl, hr⟩
      cases hr with
      | notFound hnone =>
        rw [Editor.indexOf?, List.findIdx?_eq_none_iff.2 hnone] at hp
        cases hp
  | none =>
    constructor
    · rintro ⟨⟩
      exact ⟨rfl, .notFound (List.findIdx?_eq_none_iff.1 hp)⟩
    · rintro ⟨rfl, hr⟩
      cases hr
      rfl

theorem replace_stops {i : Instruction} : exec (replace k i).step e = (.error s, e') ↔
    e' = e ∧ Refused e (replace k i) s := by
  rw [step, Edit.exec_replace]
  constructor
  · intro h
    cases hp : e.method.place? k with
    | none =>
      rw [hp] at h
      cases h
      exact ⟨rfl, .noReplaced (Method.place?_eq_none_iff.1 hp)⟩
    | some p =>
      have hk : k < e.size := Nat.lt_of_not_le fun hk => by
        rw [Method.place?_eq_none_iff.2 hk] at hp
        cases hp
      rw [hp] at h
      cases hc : e.method.checkRegisters e.reference i with
      | ok u => simp [hc] at h
      | error t =>
        simp only [hc] at h
        cases h
        exact ⟨rfl, .registers hk hc⟩
  · rintro ⟨rfl, hr⟩
    cases hr with
    | noReplaced hk => rw [Method.place?_eq_none_iff.2 hk]
    | registers hk hc =>
      obtain ⟨p, hp⟩ := Method.exists_placeIn? hk
      rw [Method.place?, hp]
      simp only [hc]

theorem insert_stops {block : List Instruction} : exec (insert k block).step e = (.error s, e') ↔
    e' = e ∧ Refused e (insert k block) s := by
  rw [step, Edit.exec_insert]
  constructor
  · intro h
    cases hp : e.method.gap? k with
    | none =>
      rw [hp] at h
      cases h
      exact ⟨rfl, .noGap (Method.gap?_eq_none_iff.1 hp)⟩
    | some p =>
      have hk : k ≤ e.size := Nat.le_of_not_lt fun hk => by
        rw [Method.gap?_eq_none_iff.2 hk] at hp
        cases hp
      rw [hp] at h
      cases hc : block.forM (e.method.checkRegisters e.reference) with
      | ok u => simp [hc] at h
      | error t =>
        simp only [hc] at h
        cases h
        obtain ⟨before, i, after, rfl, hbefore, hi⟩ := forM_eq_error_iff.1 hc
        exact ⟨rfl, .blockRegisters hk hbefore hi⟩
  · rintro ⟨rfl, hr⟩
    cases hr with
    | noGap hk => rw [Method.gap?_eq_none_iff.2 hk]
    | blockRegisters hk hbefore hi =>
      obtain ⟨p, hp⟩ := Method.exists_gap? hk
      rw [hp]
      simp only
      rw [forM_eq_error_iff.2 ⟨_, _, _, rfl, hbefore, hi⟩]

theorem replaceText_stops {t : Text} : exec (replaceText k t).step e = (.error s, e') ↔
    e' = e ∧ Refused e (replaceText k t) s := by
  rw [step, Edit.replaceText, Edit.exec_check_bind]
  constructor
  · intro h
    cases hread : Instruction.readAll t with
    | error f =>
      rw [hread] at h
      cases h
      exact ⟨rfl, .unreadable hread⟩
    | ok block =>
      rw [hread] at h
      rcases block with _ | ⟨i, _ | ⟨j, block⟩⟩
      · cases h
        exact ⟨rfl, .notOne hread (by simp)⟩
      · obtain ⟨he, hr⟩ := replace_stops.1 h
        exact ⟨he, .readOne hread hr⟩
      · cases h
        exact ⟨rfl, .notOne hread (by simp)⟩
  · rintro ⟨rfl, hr⟩
    cases hr with
    | unreadable hread => rw [hread]
    | notOne hread hone =>
      rw [hread]
      simp only
      split
      · exact absurd rfl hone
      · rfl
    | readOne hread hr =>
      rw [hread]
      exact replace_stops.2 ⟨rfl, hr⟩

/-- An instruction that does nothing names no registers, so its place can be missing, and the frame may have
no count. -/
theorem nop_stops : exec (nop k).step e = (.error s, e') ↔ e' = e ∧ Refused e (nop k) s := by
  rw [step, Edit.nop, Instruction.ofName_nop]
  refine replace_stops.trans (and_congr_right fun _ => ⟨?_, ?_⟩)
  · intro hr
    cases hr with
    | noReplaced hk => exact .noNop hk
    | registers hk hc =>
      by_cases hcount : e.method.parameterRegisters < 65536
      · rw [Method.checkRegisters_eq hcount] at hc
        cases hc
      · have hlarge : 65536 ≤ e.method.parameterRegisters := Nat.le_of_not_lt hcount
        rw [Method.checkRegisters_eq_frameTooLarge hlarge] at hc
        cases hc
        exact .uncountedNop hk hlarge
  · intro hr
    cases hr with
    | noNop hk => exact .noReplaced hk
    | uncountedNop hk hlarge => exact .registers hk (Method.checkRegisters_eq_frameTooLarge hlarge ..)

theorem insertText_stops {t : Text} : exec (insertText k t).step e = (.error s, e') ↔
    e' = e ∧ Refused e (insertText k t) s := by
  rw [step, Edit.insertText, Edit.exec_check_bind]
  constructor
  · intro h
    cases hread : Instruction.readAll t with
    | error f =>
      rw [hread] at h
      cases h
      exact ⟨rfl, .unreadableBlock hread⟩
    | ok block =>
      rw [hread] at h
      obtain ⟨he, hr⟩ := insert_stops.1 h
      exact ⟨he, .readBlock hread hr⟩
  · rintro ⟨rfl, hr⟩
    cases hr with
    | unreadableBlock hread => rw [hread]
    | readBlock hread hr =>
      rw [hread]
      exact insert_stops.2 ⟨rfl, hr⟩

theorem remove_stops : exec (remove k).step e = (.error s, e') ↔ e' = e ∧ Refused e (remove k) s := by
  rw [step, Edit.remove]
  simp only [exec_bind, exec_get]
  by_cases hk : k < e.size
  · obtain ⟨p, hp⟩ := Method.exists_placeIn? hk
    rw [Method.place?, hp, List.getElem?_eq_getElem hk]
    constructor
    · rintro ⟨⟩
    · rintro ⟨-, hr⟩
      cases hr with
      | noRemoved hsize => exact absurd hk (Nat.not_lt.2 hsize)
  · have hsize : e.size ≤ k := Nat.le_of_not_lt hk
    rw [Method.place?_eq_none_iff.2 hsize, List.getElem?_eq_none hsize]
    constructor
    · rintro ⟨⟩
      exact ⟨rfl, .noRemoved hsize⟩
    · rintro ⟨rfl, hr⟩
      cases hr
      rfl

theorem makeRoom_stops (t : TypeDescriptor) : exec (Edit.makeRoom (.ofType t)) e = (.error s, e') ↔
    e' = e ∧ s = .abort .frameTooLarge ∧ e.method.TooLarge t.width := by
  rw [Edit.makeRoom, ← ReturnKind.toNat_locals]
  split
  · next h =>
    rw [h]
    constructor
    · rintro ⟨⟩
    · rintro ⟨-, -, hlt, -⟩
      exact absurd hlt (Nat.not_lt_zero _)
  · next h =>
    have hn : 0 < (ReturnKind.ofType t).locals.toNat := by
      cases hkind : ReturnKind.ofType t <;> first | exact absurd hkind h | decide
    rw [Edit.exec_ensureLocals, ← Method.withAtLeast?_eq_none_iff_tooLarge hn]
    cases e.method.withAtLeast? (ReturnKind.ofType t).locals with
    | some m => simp
    | none =>
      constructor
      · rintro ⟨⟩
        exact ⟨rfl, rfl, rfl⟩
      · rintro ⟨rfl, rfl, -⟩
        rfl

/-- The frame grows first, so what is behind it must not stop: a stub has room in the frame that grew, as far
as the frame can be counted. -/
theorem returnEarly_stops {value : Bool} : exec (returnEarly value).step e = (.error s, e') ↔
    e' = e ∧ Refused e (returnEarly value) s ∨
      s = .abort .frameTooLarge ∧ StopsGrown e (returnEarly value) e' := by
  have hobject := ReturnKind.ofType_eq_object_iff e.method.prototype.result
  rw [step, Edit.returnEarly, exec_bind, exec_get]
  simp only
  by_cases hnull : ReturnKind.ofType e.method.prototype.result = .object ∧ value
  · obtain ⟨hkind, rfl⟩ := hnull
    rw [if_pos ⟨hkind, rfl⟩]
    constructor
    · rintro ⟨⟩
      exact .inl ⟨rfl, .onlyNull (hobject.1 hkind)⟩
    · rintro (⟨rfl, hr⟩ | ⟨-, -, ⟨⟩, hfine, -⟩)
      · cases hr with
        | onlyNull => rfl
        | frameTooLarge hfine => exact absurd (hobject.1 hkind) (hfine rfl)
      · exact absurd (hobject.1 hkind) (hfine rfl)
  · rw [if_neg hnull]
    have hfine : value → ¬ e.method.prototype.result.isReference := fun hv hr => hnull ⟨hobject.2 hr, hv⟩
    obtain ⟨block, hblock⟩ := exists_isStub e.method.prototype.result value hfine
    rw [exec_bind]
    rcases Edit.exec_makeRoom e.method.prototype.result e with ⟨m', hgrown, hrun⟩ | ⟨-, hrun⟩
    · have hroom : ¬ Refused e (returnEarly value) s := fun hr => by
        cases hr with
        | onlyNull href => exact hfine rfl href
        | frameTooLarge _ hlarge =>
          rw [(makeRoom_stops _).2 ⟨rfl, rfl, hlarge⟩] at hrun
          cases hrun
      rw [hrun]
      simp only [Edit.exec_check_bind, hblock.made, hroom, and_false, false_or]
      by_cases hcount : e.method.parameterRegisters < 65536
      · obtain ⟨e₁, hdone⟩ := Edit.exists_insert_of_isStub (e := { e with method := m' }) hblock
          (hgrown.parameterRegisters ▸ hcount) (hgrown.locals ▸ Nat.le_max_right ..)
        rw [hdone]
        constructor
        · rintro ⟨⟩
        · rintro ⟨-, -, ⟨⟩, -, hlarge, -⟩
          exact absurd hcount (Nat.not_lt.2 hlarge)
      · have hlarge : 65536 ≤ e.method.parameterRegisters := Nat.le_of_not_lt hcount
        obtain ⟨i, is, rfl⟩ := List.exists_cons_of_ne_nil hblock.ne_nil
        rw [Edit.insert_uncounted (hgrown.parameterRegisters ▸ hlarge) (Nat.zero_le _)]
        constructor
        · rintro ⟨⟩
          exact ⟨rfl, value, rfl, hfine, hlarge, hrun, m', hgrown, rfl⟩
        · rintro ⟨rfl, -, ⟨⟩, -, -, hroom, -⟩
          rw [hrun] at hroom
          cases hroom
          rfl
    · obtain ⟨-, -, hlarge⟩ := (makeRoom_stops _).1 hrun
      rw [hrun]
      constructor
      · rintro ⟨⟩
        exact .inl ⟨rfl, .frameTooLarge hfine hlarge⟩
      · rintro (⟨rfl, hr⟩ | ⟨-, -, ⟨⟩, -, -, hroom, -⟩)
        · cases hr with
          | onlyNull href => exact absurd href (hfine rfl)
          | frameTooLarge => rfl
        · rw [hrun] at hroom
          cases hroom

/-! ### Any call -/

/-- A call stops exactly if it is refused, for the cause it is refused for, and then the editor has the
method it had: its items, its declaration of registers and everything else. So it is for all faults and for
all that the check of registers finds in an instruction. Only a frame that has no count can stop a call
later, when a method has got room for a stub; then it has the items it had. -/
theorem stops_iff_refused (c : EditorCall) (e e' : Editor) (s : Stop) :
    exec c.step e = (.error s, e') ↔
      e' = e ∧ Refused e c s ∨ s = .abort .frameTooLarge ∧ StopsGrown e c e' := by
  have hother : (∀ value, c ≠ returnEarly value) →
      (e' = e ∧ Refused e c s ∨ s = .abort .frameTooLarge ∧ StopsGrown e c e' ↔ e' = e ∧ Refused e c s) :=
    fun hc => or_iff_left fun h => by
      obtain ⟨-, value, heq, -⟩ := h
      exact hc value heq
  cases c with
  | instruction k => exact instruction_stops.trans (hother nofun).symm
  | findFirst what p => exact findFirst_stops.trans (hother nofun).symm
  | replace k i => exact replace_stops.trans (hother nofun).symm
  | replaceText k t => exact replaceText_stops.trans (hother nofun).symm
  | nop k => exact nop_stops.trans (hother nofun).symm
  | insert k block => exact insert_stops.trans (hother nofun).symm
  | insertText k t => exact insertText_stops.trans (hother nofun).symm
  | remove k => exact remove_stops.trans (hother nofun).symm
  | returnEarly value => exact returnEarly_stops

/-- The method has no register for the second line of the text, and the first line is not written either. -/
example : exec (insertText 1 "nop\nmove v0, v1").step ⟨"La;->a()J", Instruction.narrow⟩ =
    (.error (.abort (.outsideFrame (FrameEdit.moving (.v 0) (.v 1)) (.v 1) 1 "La;->a()J")),
      ⟨"La;->a()J", Instruction.narrow⟩) := by rfl

end EditorCall

end DalvikPatch
