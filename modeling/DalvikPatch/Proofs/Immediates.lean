import Mathlib.Data.Int.ModEq
import DalvikPatch.Proofs.Instructions

/-! Literals and the fields that they are kept in. A field is signed and may be shifted to the left when
it is loaded. A format takes every literal that some field loads; the only one that takes more is the one
with 32 bits, where a literal may also be written without a sign. An opcode for one register loads the
same bits for it, but an opcode for a pair loads another number. -/

namespace DalvikPatch

/-- A signed field, and by how many places it is shifted to the left when it is loaded. -/
structure Immediate where
  bits : Nat
  shift : Nat
  deriving DecidableEq

namespace Immediate

variable {m : Immediate} {n : Int}

/-- What a field loads. -/
def value (m : Immediate) (field : BitVec m.bits) : Int := field.toInt * 2 ^ m.shift

/-- Some field loads that number. -/
def Loads (m : Immediate) (n : Int) : Prop := ∃ field, m.value field = n

theorem loads_iff_exists : m.Loads n ↔ ∃ k : Int, k * 2 ^ m.shift = n ∧ -2 ^ m.bits ≤ 2 * k ∧
    2 * k < 2 ^ m.bits := by
  constructor
  · rintro ⟨field, hfield⟩
    exact ⟨field.toInt, hfield, BitVec.le_two_mul_toInt, BitVec.two_mul_toInt_lt⟩
  · rintro ⟨k, hk, hlow, hhigh⟩
    have hword : (BitVec.ofInt m.bits k).toInt = k := by
      rw [BitVec.toInt_ofInt]
      apply Int.bmod_eq_of_le_mul_two <;> push_cast <;> omega
    exact ⟨BitVec.ofInt m.bits k, by rw [value, hword, hk]⟩

/-- The numbers are the multiples that are small enough. -/
theorem loads_iff : m.Loads n ↔ n % 2 ^ m.shift = 0 ∧ -2 ^ (m.bits + m.shift) ≤ 2 * n ∧
    2 * n < 2 ^ (m.bits + m.shift) := by
  have hpos : (0 : Int) < 2 ^ m.shift := Int.pow_pos (by decide)
  rw [loads_iff_exists, pow_add]
  constructor
  · rintro ⟨k, rfl, hlow, hhigh⟩
    refine ⟨Int.mul_emod_left .., ?_, ?_⟩
    · calc -(2 ^ m.bits * 2 ^ m.shift) = -2 ^ m.bits * 2 ^ m.shift := (Int.neg_mul ..).symm
        _ ≤ 2 * k * 2 ^ m.shift := Int.mul_le_mul_of_nonneg_right hlow (Int.le_of_lt hpos)
        _ = 2 * (k * 2 ^ m.shift) := Int.mul_assoc ..
    · calc 2 * (k * 2 ^ m.shift) = 2 * k * 2 ^ m.shift := (Int.mul_assoc ..).symm
        _ < 2 ^ m.bits * 2 ^ m.shift := Int.mul_lt_mul_of_pos_right hhigh hpos
  · rintro ⟨hdvd, hlow, hhigh⟩
    have hn : n / 2 ^ m.shift * 2 ^ m.shift = n := Int.ediv_mul_cancel (Int.dvd_of_emod_eq_zero hdvd)
    rw [← hn, ← Int.mul_assoc] at hlow hhigh
    rw [← Int.neg_mul] at hlow
    exact ⟨_, hn, Int.le_of_mul_le_mul_right hlow hpos, Int.lt_of_mul_lt_mul_right hhigh (Int.le_of_lt hpos)⟩

theorem Loads.bounds (h : m.Loads n) (hbits : m.bits + m.shift ≤ 32) : -2147483648 ≤ n ∧ n < 2147483648 := by
  obtain ⟨-, hlow, hhigh⟩ := loads_iff.1 h
  have hpow : (2 : Int) ^ (m.bits + m.shift) ≤ 2 ^ 32 := by
    exact_mod_cast Nat.pow_le_pow_right (by decide) hbits
  omega

end Immediate

namespace Format

variable {f : Format} {m : Immediate}

/-- The field that a format keeps its literal in. -/
def immediate? : Format → Option Immediate
  | f11n => some ⟨4, 0⟩
  | f22b => some ⟨8, 0⟩
  | f21s | f22s => some ⟨16, 0⟩
  | f21ih => some ⟨16, 16⟩
  | f21lh => some ⟨16, 48⟩
  | f31i => some ⟨32, 0⟩
  | f51l => some ⟨64, 0⟩
  | _ => none

/-- The literal stands behind the registers, and nothing else stands with it. -/
theorem operands_of_literal {f : Format} (h : .literal ∈ f.operands) :
    f.operands = f.operands.dropLast ++ [.literal] ∧ ∀ k ∈ f.operands.dropLast, k = .register := by
  cases f <;> revert h <;> decide

theorem exists_immediate {f : Format} (h : .literal ∈ f.operands) : ∃ m, f.immediate? = some m := by
  rw [← Option.isSome_iff_exists]
  cases f <;> revert h <;> decide

/-- A number that takes 32 bits without a sign and more with one, in a format that takes it. -/
def TakesUnsigned (f : Format) (n : Int) : Prop := f = .f31i ∧ 2147483648 ≤ n ∧ n < 4294967296

theorem fitsLiteral_iff (hm : f.immediate? = some m) (n : Int64) :
    f.fitsLiteral n ↔ m.Loads n.toInt ∨ f.TakesUnsigned n.toInt := by
  have hlow := n.le_toInt
  have hhigh := n.toInt_lt
  rw [Immediate.loads_iff]
  cases f <;> cases hm <;> simp [fitsLiteral, TakesUnsigned] <;> omega

/-- No field loads a number that is taken without a sign, but one loads the same bits. -/
theorem TakesUnsigned.loads {n : Int} (h : f.TakesUnsigned n) (hm : f.immediate? = some m) :
    ¬ m.Loads n ∧ m.Loads (n - 4294967296) := by
  obtain ⟨rfl, hlow, hhigh⟩ := h
  cases hm
  simp only [Immediate.loads_iff]
  omega

end Format

namespace Opcode

/-- What loads more than 32 bits loads them into a pair, and one opcode loads a field of 32 bits into one. -/
theorem immediate_facts : ∀ o ∈ table, (∀ m ∈ o.format.immediate?, o.setsPair ∨ m.bits + m.shift ≤ 32) ∧
    (o.name = "const-wide/32" ↔ o.setsPair ∧ o.format = .f31i) := by
  decide +kernel

end Opcode

namespace Instruction

variable {o : Opcode} {ops : List Operand} {v : Int64}

theorem checkOperands_append {rs : List Operand} (h : ∀ op ∈ rs, op.kind = .register) (k : Nat) :
    checkOperands o k (rs ++ ops) = checkOperands o k ops := by
  induction rs with
  | nil => rfl
  | cons op rs ih =>
    obtain ⟨hop, hrs⟩ := List.forall_mem_cons.1 h
    cases op <;> first | exact ih hrs | cases hop

/-- Of operands of the right kinds, nothing but the literal is checked. -/
theorem checkOperands_of_literal (hv : .literal v ∈ ops) (hkinds : ops.map Operand.kind = o.format.operands) :
    checkOperands o 0 ops = .ok () ↔ o.format.fitsLiteral v := by
  have hmem : .literal ∈ o.format.operands := hkinds ▸ List.mem_map_of_mem hv
  obtain ⟨hlast, hregisters⟩ := Format.operands_of_literal hmem
  rw [hlast, List.map_eq_append_iff] at hkinds
  obtain ⟨rs, ls, rfl, hrs, hls⟩ := hkinds
  have hkind : ∀ op ∈ rs, op.kind = .register := fun op hop =>
    hregisters _ (hrs ▸ List.mem_map_of_mem hop)
  obtain ⟨op, rfl, hop⟩ := List.map_eq_singleton_iff.1 hls
  obtain rfl : .literal v = op := by
    rcases List.mem_append.1 hv with hv | hv
    · cases hkind _ hv
    · exact List.mem_singleton.1 hv
  rw [checkOperands_append hkind, checkOperands_cons_iff]
  exact and_iff_left rfl

/-- Which literals are taken, and what is loaded for them. -/
theorem loads_literal {name : Text} (ho : Opcode.ofName? name = some o) (hv : .literal v ∈ ops)
    (i : Instruction) :
    (ofName name ops = .ok i ↔ i = ⟨o, ops⟩ ∧ ops.map Operand.kind = o.format.operands ∧
      ∃ m, o.format.immediate? = some m ∧ (m.Loads v.toInt ∨ o.format.TakesUnsigned v.toInt)) ∧
    (ofName name ops = .ok i → ∃ m, o.format.immediate? = some m ∧
      if o.setsPair then
        (m.Loads v.toInt ↔ ¬ (name = "const-wide/32" ∧ 2147483648 ≤ v.toInt)) ∧
          (m.Loads v.toInt ∨ m.Loads (v.toInt - 4294967296))
      else
        -2147483648 ≤ v.toInt ∧ v.toInt < 4294967296 ∧
          ∃ x, m.Loads x ∧ x ≡ v.toInt [ZMOD 4294967296]) := by
  have hmake : ofName name ops = .ok i ↔ i = ⟨o, ops⟩ ∧ ops.map Operand.kind = o.format.operands ∧
      ∃ m, o.format.immediate? = some m ∧ (m.Loads v.toInt ∨ o.format.TakesUnsigned v.toInt) := by
    simp only [ofName_eq_ok_iff, ho, Option.some.injEq, exists_eq_left', make_eq_ok_iff]
    refine and_congr_right fun _ => and_congr_right fun hkinds => ?_
    rw [checkOperands_of_literal hv hkinds]
    obtain ⟨m, hm⟩ := Format.exists_immediate (hkinds ▸ List.mem_map_of_mem hv)
    simp [hm, Format.fitsLiteral_iff hm]
  refine ⟨hmake, fun hi => ?_⟩
  obtain ⟨-, -, m, hm, hloads⟩ := hmake.1 hi
  obtain ⟨hmem, rfl⟩ := Opcode.mem_table_of_ofName? ho
  obtain ⟨hbits, hwide⟩ := Opcode.immediate_facts o hmem
  refine ⟨m, hm, ?_⟩
  rcases hloads with hloads | hunsigned
  -- what a field loads is too small to be one of the numbers without a sign
  · split
    · refine ⟨iff_of_true hloads fun ⟨hname, hlarge⟩ => ?_, .inl hloads⟩
      rw [(hwide.1 hname).2] at hm
      cases hm
      have := hloads.bounds (by decide)
      omega
    · next hsingle =>
      have := hloads.bounds ((hbits m hm).resolve_left hsingle)
      exact ⟨this.1, by omega, _, hloads, rfl⟩
  · obtain ⟨hnot, hrest⟩ := hunsigned.loads hm
    obtain ⟨hformat, hlow, hhigh⟩ := hunsigned
    split
    · next hpair =>
      exact ⟨iff_of_false hnot fun h => h ⟨hwide.2 ⟨hpair, hformat⟩, hlow⟩, .inr hrest⟩
    · exact ⟨by omega, hhigh, _, hrest, Int.sub_emod_right ..⟩

theorem loads_literal_single :
    let o := Opcode.plain 0x14 "const" .f31i Opcode.sets
    let ops := [Operand.register (.v 0), .literal 4294967295]
    Opcode.ofName? "const" = some o ∧ .literal 4294967295 ∈ ops ∧ ofName "const" ops = .ok ⟨o, ops⟩ ∧
      ∃ x, Immediate.Loads ⟨32, 0⟩ x ∧ x ≡ 4294967295 [ZMOD 4294967296] := by
  intro o ops
  have ho : Opcode.ofName? "const" = some o := by decide +kernel
  have hv : .literal 4294967295 ∈ ops := by decide
  obtain ⟨haccepts, hloads⟩ := loads_literal ho hv ⟨o, ops⟩
  have hmade := haccepts.2 ⟨rfl, rfl, ⟨32, 0⟩, rfl, .inr ⟨rfl, by decide, by decide⟩⟩
  obtain ⟨m, hm, hsingle⟩ := hloads hmade
  cases hm
  rw [if_neg (by decide)] at hsingle
  exact ⟨ho, hv, hmade, hsingle.2.2⟩

/-- The same number is taken for a pair, and no field loads it. -/
theorem literal_not_loaded :
    let o := Opcode.plain 0x17 "const-wide/32" .f31i Opcode.setsBoth
    let ops := [Operand.register (.v 0), .literal 4294967295]
    ofName "const-wide/32" ops = .ok ⟨o, ops⟩ ∧ o.setsPair ∧ o.format.immediate? = some ⟨32, 0⟩ ∧
      ∀ field, Immediate.value ⟨32, 0⟩ field ≠ 4294967295 := by
  refine ⟨by rfl, by decide, rfl, fun field hfield => ?_⟩
  have := Immediate.Loads.bounds ⟨field, hfield⟩ (by decide)
  omega

end Instruction

end DalvikPatch
