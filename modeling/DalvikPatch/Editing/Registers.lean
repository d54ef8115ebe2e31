import DalvikPatch.Class.Count
import DalvikPatch.Fault

/-! Registers of an instruction in the frame of a method: each has to lie inside the frame and to
fit the format of the instruction. This is looked at while the program is debugged, and the program is
modelled as it is then; when it is released, every instruction passes. -/

namespace DalvikPatch

/-- One more than the number of the last register that the operand at place `k` reaches: the first
one of a pair reaches two. -/
def Instruction.reach (i : Instruction) (locals k : Nat) (r : Register) : Nat :=
  r.number locals + (if k = 0 ∧ i.opcode.setsPair then 1 else 0) + 1

def Instruction.encodes (i : Instruction) (locals : Nat) (r : Register) : Bool :=
  r.number locals ≤ i.opcode.format.maxRegister

/-- Checks a register that is the one at place `k` of an instruction, in a frame of which so many
registers are locals. -/
def Instruction.checkRegister (i : Instruction) (reference : Text) (locals frame : Nat) (r : Register)
    (k : Nat) : Outcome Unit :=
  if frame < i.reach locals k r then .abort (.outsideFrame i r frame reference)
  else if i.encodes locals r then .ok ()
  else .abort (.unencodable i r)

namespace Method

/-- Checks the registers of an instruction in order. The frame is counted before, also for an instruction
without registers. -/
def checkRegisters (m : Method) (reference : Text) (i : Instruction) : Outcome Unit :=
  match m.frameCounts? with
  | none => .abort .frameTooLarge
  | some (locals, frame) =>
    i.registers.zipIdx.forM fun r => i.checkRegister reference locals.toNat frame r.1 r.2

/-- Whether all registers of an instruction are inside the frame and fit its format. -/
def admits (m : Method) (i : Instruction) : Bool :=
  i.registers.zipIdx.all fun r => i.reach m.locals r.2 r.1 ≤ m.frame && i.encodes m.locals r.1

/-- Where the parameters can be counted, the counts are the numbers of registers. -/
theorem checkRegisters_eq {m : Method} (h : m.parameterRegisters < 65536) (reference : Text) (i : Instruction) :
    m.checkRegisters reference i =
      i.registers.zipIdx.forM fun r => i.checkRegister reference m.locals m.frame r.1 r.2 := by
  obtain ⟨n, hcounts, hn⟩ := exists_frameCounts? h
  rw [checkRegisters, hcounts]
  simp only [hn]

theorem checkRegisters_eq_frameTooLarge {m : Method} (h : 65536 ≤ m.parameterRegisters) (reference : Text)
    (i : Instruction) : m.checkRegisters reference i = .abort .frameTooLarge := by
  rw [checkRegisters, frameCounts?_eq_none h]

end Method

theorem Instruction.checkRegister_eq_ok_iff {i : Instruction} {reference : Text} {locals frame : Nat}
    {r : Register} {k : Nat} : i.checkRegister reference locals frame r k = .ok () ↔
      i.reach locals k r ≤ frame ∧ i.encodes locals r := by
  simp only [checkRegister, Outcome.abort]
  split
  · simp; omega
  · split <;> simp_all

namespace Method

theorem checkRegisters_eq_ok_iff {m : Method} {reference : Text} {i : Instruction} :
    m.checkRegisters reference i = .ok () ↔ m.parameterRegisters < 65536 ∧ m.admits i := by
  by_cases hcount : m.parameterRegisters < 65536
  · rw [checkRegisters_eq hcount, and_iff_right hcount, admits]
    induction i.registers.zipIdx with
    | nil => simp [pure, Except.pure]
    | cons r rs ih =>
      simp only [List.forM, List.all_cons]
      cases h : i.checkRegister reference m.locals m.frame r.1 r.2 with
      | error s =>
        have : ¬ (i.reach m.locals r.2 r.1 ≤ m.frame ∧ i.encodes m.locals r.1) := fun hr => by
          simp [Instruction.checkRegister_eq_ok_iff.2 hr] at h
        simp [bind, Except.bind, this]
      | ok u =>
        have := Instruction.checkRegister_eq_ok_iff.1 h
        simpa [bind, Except.bind, this] using ih
  · rw [checkRegisters_eq_frameTooLarge (Nat.le_of_not_lt hcount)]
    simp [hcount, Outcome.abort]

end Method

end DalvikPatch
