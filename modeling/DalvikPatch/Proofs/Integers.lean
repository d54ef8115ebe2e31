import DalvikPatch.Instruction.Operand
import DalvikPatch.Proofs.Numerals
import Mathlib.Data.Nat.Digits.Defs

/-! Integer literals as numbers. What is read is the literal that a text starts with, with as many digits as
there are and at most one letter behind them, and its number is the one of mathematics: it is found through
words of 64 bits, each step of which fails where it has no room, and it is never another one. -/

namespace DalvikPatch.Numeral

open Text

/-! ### The parts of a literal -/

structure Parts where
  negative : Bool
  mark : Text
  digits : Text
  width : Text

namespace Parts

def base (p : Parts) : Nat := if p.mark = [] then 10 else 16

def text (p : Parts) : Text :=
  (if p.negative then ['-'] else []) ++ (p.mark ++ (p.digits ++ p.width))

/-- The number of the digits, the last of which counts ones. -/
def magnitude (p : Parts) : Nat :=
  Nat.ofDigits p.base (p.digits.reverse.map fun c => (digitValue? c).getD 0)

def number (p : Parts) : Int := if p.negative then -(p.magnitude : Int) else p.magnitude

/-- A text starts with the parts, and no digit, letter or mark that belongs to them is in what is left of it. -/
structure Lead (p : Parts) (s r : Text) : Prop where
  split : s = p.text ++ r
  some_digit : p.digits ≠ []
  digits : ∀ c ∈ p.digits, isDigitOf p.base c
  longest : ∀ c ∈ (p.width ++ r).head?, ¬ isDigitOf p.base c
  mark : p.mark = ['0', 'x'] ∨ p.mark = ['0', 'X'] ∨
    p.mark = [] ∧ ∀ x t, p.digits ++ (p.width ++ r) = '0' :: x :: t → x ≠ 'x' ∧ x ≠ 'X'
  width : (∃ c, isWidth c ∧ p.width = [c]) ∨ p.width = [] ∧ ∀ c ∈ r.head?, ¬ isWidth c

end Parts

variable {s r : Text} {lo hi n : Int} {base : Nat} {digits : Text} {c : Char}

theorem value_eq_ofDigits (base : Nat) (digits : Text) :
    value base digits = Nat.ofDigits base (digits.reverse.map fun c => (digitValue? c).getD 0) := by
  induction digits using List.reverseRecOn with
  | nil => rfl
  | append_singleton digits c ih =>
    rw [value_append_singleton, List.reverse_concat, List.map_cons, Nat.ofDigits_cons, ih]
    simp [Nat.add_comm]

theorem Parts.number_eq (p : Parts) : p.number = signed p.negative p.base p.digits := by
  rw [number, magnitude, ← value_eq_ofDigits, signed]

theorem readSign_split (s : Text) :
    s = (if (readSign s).1 then ['-'] else []) ++ (readSign s).2 := by
  unfold readSign
  split <;> rfl

theorem readBase_split (s : Text) : ∃ mark, s = mark ++ (readBase s).2 ∧
    (readBase s).1 = (if mark = [] then 10 else 16) ∧
    (mark = ['0', 'x'] ∨ mark = ['0', 'X'] ∨ mark = [] ∧ ∀ x t, s = '0' :: x :: t → x ≠ 'x' ∧ x ≠ 'X') := by
  unfold readBase
  split
  · exact ⟨['0', 'x'], rfl, rfl, .inl rfl⟩
  · exact ⟨['0', 'X'], rfl, rfl, .inr (.inl rfl)⟩
  · next hx hX =>
    refine ⟨[], rfl, rfl, .inr (.inr ⟨rfl, fun x t hs => ⟨?_, ?_⟩⟩)⟩
    · rintro rfl
      exact hx t hs
    · rintro rfl
      exact hX t hs

theorem skipWidth_split (s : Text) : ∃ width, s = width ++ skipWidth s ∧
    ((∃ c, isWidth c ∧ width = [c]) ∨ width = [] ∧ ∀ c ∈ (skipWidth s).head?, ¬ isWidth c) := by
  cases s with
  | nil => exact ⟨[], rfl, .inr ⟨rfl, by simp [skipWidth]⟩⟩
  | cons c s =>
    rw [skipWidth]
    split
    · next hc => exact ⟨[c], rfl, .inl ⟨c, hc, rfl⟩⟩
    · next hc => exact ⟨[], rfl, .inr ⟨rfl, by simpa using hc⟩⟩

namespace Parts

variable {p : Parts}

/-- Behind the sign a literal goes on with the mark. -/
theorem Lead.readSign_eq (h : p.Lead s r) :
    readSign s = (p.negative, p.mark ++ (p.digits ++ (p.width ++ r))) := by
  have hs : s = (if p.negative then ['-'] else []) ++ (p.mark ++ (p.digits ++ (p.width ++ r))) := by
    rw [h.split, text]
    simp only [List.append_assoc]
  cases hneg : p.negative with
  | true =>
    rw [hneg] at hs
    rw [hs]
    rfl
  | false =>
    rw [hneg, if_neg (by decide), List.nil_append] at hs
    rw [← hs]
    apply Numeral.readSign_eq
    intro c hc
    rw [hs] at hc
    rcases h.mark with hmark | hmark | ⟨hmark, -⟩
    · rw [hmark] at hc
      cases hc
      decide
    · rw [hmark] at hc
      cases hc
      decide
    · obtain ⟨d, ds, hd⟩ := List.exists_cons_of_ne_nil h.some_digit
      rw [hmark, hd] at hc
      cases hc
      have hdigit : isDigitOf 10 c := by simpa [base, hmark] using h.digits c (by simp [hd])
      exact (ne_of_isDigitOf_ten hdigit).1

theorem Lead.readBase_eq (h : p.Lead s r) :
    readBase (p.mark ++ (p.digits ++ (p.width ++ r))) = (p.base, p.digits ++ (p.width ++ r)) := by
  rcases h.mark with hmark | hmark | ⟨hmark, hno⟩
  · rw [base, hmark]
    rfl
  · rw [base, hmark]
    rfl
  · rw [base, hmark, if_pos rfl, List.nil_append]
    unfold readBase
    split
    · next ht => exact absurd rfl (hno _ _ ht).1
    · next ht => exact absurd rfl (hno _ _ ht).2
    · rfl

theorem Lead.skipWidth_eq (h : p.Lead s r) : skipWidth (p.width ++ r) = r := by
  rcases h.width with ⟨c, hc, hwidth⟩ | ⟨hwidth, hno⟩
  · rw [hwidth, List.singleton_append, skipWidth, if_pos hc]
  · rw [hwidth, List.nil_append]
    cases r with
    | nil => rfl
    | cons c r => rw [skipWidth, if_neg (hno c rfl)]

end Parts

/-- A literal stands where digits do, behind a sign and a mark that may be there. -/
theorem exists_lead (hne : (readBase (readSign s).2).2.takeWhile (isDigitOf (readBase (readSign s).2).1) ≠ []) :
    ∃ p : Parts, p.negative = (readSign s).1 ∧ p.base = (readBase (readSign s).2).1 ∧
      p.digits = (readBase (readSign s).2).2.takeWhile (isDigitOf (readBase (readSign s).2).1) ∧
      p.Lead s (skipWidth ((readBase (readSign s).2).2.dropWhile (isDigitOf (readBase (readSign s).2).1))) := by
  have hsign := readSign_split s
  obtain ⟨mark, hbase, hten, hmark⟩ := readBase_split (readSign s).2
  generalize readSign s = sign at *
  generalize readBase sign.2 = base at *
  obtain ⟨width, hskip, hwidth⟩ := skipWidth_split (base.2.dropWhile (isDigitOf base.1))
  have hall : base.2.takeWhile (isDigitOf base.1) ++ base.2.dropWhile (isDigitOf base.1) = base.2 :=
    List.takeWhile_append_dropWhile
  rw [hskip] at hall
  refine ⟨⟨sign.1, mark, base.2.takeWhile (isDigitOf base.1), width⟩, rfl, hten.symm, rfl, ?_⟩
  refine ⟨?_, hne, ?_, ?_, ?_, hwidth⟩
  · simp only [Parts.text, List.append_assoc]
    rw [hall, ← hbase, ← hsign]
  · intro c hc
    rw [Parts.base, ← hten]
    exact List.mem_takeWhile_imp hc
  · intro c hc
    rw [Parts.base, ← hten]
    dsimp only at hc
    rw [← hskip] at hc
    have := List.head?_dropWhile_not (isDigitOf base.1) base.2
    rw [hc] at this
    simpa using this
  · dsimp only
    rw [hall]
    rcases hmark with hmark | hmark | ⟨hmark, hno⟩
    · exact .inl hmark
    · exact .inr (.inl hmark)
    · refine .inr (.inr ⟨hmark, ?_⟩)
      rwa [hbase, hmark, List.nil_append] at hno

/-- What is read is the literal that stands at the start, if its number is in the range. -/
theorem read?_eq_some_iff : read? lo hi s = some (n, r) ↔
    ∃ p : Parts, p.Lead s r ∧ p.number = n ∧ lo ≤ n ∧ n ≤ hi := by
  constructor
  · intro h
    simp only [read?] at h
    split at h
    · next hfits =>
      obtain ⟨p, hneg, hbase, hdigits, hlead⟩ := exists_lead hfits.1
      simp only [Option.some.injEq, Prod.mk.injEq] at h
      obtain ⟨rfl, rfl⟩ := h
      exact ⟨p, hlead, by rw [p.number_eq, hneg, hbase, hdigits], hfits.2⟩
    · cases h
  · rintro ⟨p, hlead, rfl, hlo, hhi⟩
    rw [p.number_eq] at hlo hhi ⊢
    rw [read?_eq hlead.readSign_eq hlead.readBase_eq hlead.some_digit hlead.digits hlead.longest hlo hhi,
      hlead.skipWidth_eq]

/-! ### By way of words -/

/-- The number of digits in a word of 64 bits, which fails at the first digit that it has no room for. -/
def magnitude? (base : Nat) (digits : Text) : Option UInt64 :=
  digits.foldlM (fun m c =>
    let next := base * m.toNat + (digitValue? c).getD 0
    if next < UInt64.size then some (UInt64.ofNat next) else none) 0

/-- A magnitude with its sign in a word of 64 bits; the least such word has a magnitude of its own. -/
def signedWord? (negative : Bool) (m : UInt64) : Option Int64 :=
  if negative ∧ m = 9223372036854775808 then some Int64.minValue
  else if m < 9223372036854775808 then some (if negative then -m.toInt64 else m.toInt64)
  else none

/-- Reads an integer as `read?` does, but computes with words only. -/
def readThroughWords? (lo hi : Int64) (s : Text) : Option (Int64 × Text) :=
  let sign := readSign s
  let base := readBase sign.2
  let digits := base.2.takeWhile (isDigitOf base.1)
  if digits = [] then none
  else do
    let w ← (magnitude? base.1 digits).bind (signedWord? sign.1)
    if lo ≤ w ∧ w ≤ hi then some (w, skipWidth (base.2.dropWhile (isDigitOf base.1))) else none

theorem magnitude?_eq (hbase : 0 < base) (digits : Text) :
    magnitude? base digits =
      if value base digits < UInt64.size then some (UInt64.ofNat (value base digits)) else none := by
  induction digits using List.reverseRecOn with
  | nil => rfl
  | append_singleton digits c ih =>
    rw [magnitude?, List.foldlM_append, ← magnitude?, ih, value_append_singleton]
    split
    · next hroom =>
      have htoNat : (UInt64.ofNat (value base digits)).toNat = value base digits := UInt64.toNat_ofNat_of_lt' hroom
      simp only [Option.bind_eq_bind, Option.bind_some, List.foldlM_cons, List.foldlM_nil, htoNat]
      split <;> rfl
    · next hfull =>
      have hgrow : value base digits ≤ base * value base digits := Nat.le_mul_of_pos_left _ hbase
      rw [if_neg (by omega)]
      rfl

theorem toInt_toInt64 {m : UInt64} (h : m.toNat < 9223372036854775808) : m.toInt64.toInt = m.toNat := by
  have hroom : 2 * m.toBitVec.toNat < 2 ^ 64 := by
    rw [UInt64.toNat_toBitVec]
    omega
  rw [← Int64.toInt_toBitVec, UInt64.toBitVec_toInt64, BitVec.toInt_eq_toNat_of_lt hroom, UInt64.toNat_toBitVec]

/-- A word stands for its number, and there is one for each number that words have. -/
theorem signedWord?_eq_some_iff {negative : Bool} {m : UInt64} {w : Int64} :
    signedWord? negative m = some w ↔ (if negative then -(m.toNat : Int) else m.toNat) = w.toInt := by
  have hlow := w.le_toInt
  have hhigh := w.toInt_lt
  have hless : m < 9223372036854775808 ↔ m.toNat < 9223372036854775808 := UInt64.lt_iff_toNat_lt
  have hleast : m = 9223372036854775808 ↔ m.toNat = 9223372036854775808 := UInt64.toNat_inj.symm
  simp only [signedWord?, hless, hleast]
  split
  · next hmin =>
    rw [if_pos hmin.1, hmin.2, Option.some_inj, ← Int64.toInt_inj, Int64.toInt_minValue]
    rfl
  · next hmin =>
    split
    · next hroom =>
      rw [Option.some_inj, ← Int64.toInt_inj]
      cases negative with
      | false => rw [if_neg (by decide), if_neg (by decide), toInt_toInt64 hroom]
      | true =>
        have hneg : (-m.toInt64).toInt = -(m.toNat : Int) := by
          rw [Int64.toInt_neg, toInt_toInt64 hroom]
          apply Int.bmod_eq_of_le_mul_two <;> omega
        rw [if_pos rfl, if_pos rfl, hneg]
    · next hroom =>
      constructor
      · intro h
        cases h
      · intro h
        split at h
        · next hneg => exact absurd ⟨hneg, by omega⟩ hmin
        · omega

theorem word_eq_some_iff (hbase : 0 < base) {negative : Bool} {w : Int64} :
    (magnitude? base digits).bind (signedWord? negative) = some w ↔ signed negative base digits = w.toInt := by
  rw [magnitude?_eq hbase, signed]
  split
  · next hroom =>
    rw [Option.bind_some, signedWord?_eq_some_iff, UInt64.toNat_ofNat_of_lt' hroom]
  · next hfull =>
    have hlow := w.le_toInt
    have hhigh := w.toInt_lt
    have hsize : UInt64.size = 18446744073709551616 := rfl
    rw [Option.bind_none]
    constructor
    · intro h
      cases h
    · intro h
      split at h <;> omega

theorem readBase_pos (s : Text) : 0 < (readBase s).1 := by
  unfold readBase
  split <;> simp

/-- Through words the same is read as without them, in every range that words have. -/
theorem readThroughWords?_eq_some_iff {lo hi w : Int64} :
    readThroughWords? lo hi s = some (w, r) ↔ read? lo.toInt hi.toInt s = some (w.toInt, r) := by
  have hbase := readBase_pos (readSign s).2
  simp only [readThroughWords?, read?]
  generalize readBase (readSign s).2 = base at *
  split
  · next hnil => simp [hnil]
  · next hne =>
    simp only [Option.bind_eq_bind, Option.bind_eq_some_iff, word_eq_some_iff hbase, Int64.le_iff_toInt_le]
    constructor
    · rintro ⟨v, hv, h⟩
      rw [← hv] at h
      split at h
      · next hrange =>
        simp only [Option.some.injEq, Prod.mk.injEq] at h
        obtain ⟨rfl, rfl⟩ := h
        rw [if_pos ⟨hne, hrange⟩, hv]
      · cases h
    · intro h
      split at h
      · next hrange =>
        simp only [Option.some.injEq, Prod.mk.injEq] at h
        obtain ⟨hw, rfl⟩ := h
        refine ⟨w, hw, ?_⟩
        rw [← hw, if_pos hrange.2]
      · cases h

/-! ### Results -/

theorem isSome_read?_iff : (read? lo hi s).isSome ↔
    ∃ (p : Parts) (r : Text), p.Lead s r ∧ lo ≤ p.number ∧ p.number ≤ hi := by
  rw [Option.isSome_iff_exists]
  constructor
  · rintro ⟨⟨n, r⟩, h⟩
    obtain ⟨p, hlead, rfl, hrange⟩ := read?_eq_some_iff.1 h
    exact ⟨p, r, hlead, hrange⟩
  · rintro ⟨p, r, hlead, hrange⟩
    exact ⟨(p.number, r), read?_eq_some_iff.2 ⟨p, hlead, rfl, hrange⟩⟩

/-- A type whose values stand for the integers of a range, one for each. -/
structure Represents {α : Type} (lo hi : Int) (ofInt : Int → α) (toInt : α → Int) : Prop where
  range : ∀ a, lo ≤ toInt a ∧ toInt a ≤ hi
  toInt_ofInt : ∀ n, lo ≤ n → n ≤ hi → toInt (ofInt n) = n
  ofInt_toInt : ∀ a, ofInt (toInt a) = a

theorem represents_uInt16 : Represents 0 65535 (fun n => n.toNat.toUInt16) fun n => n.toNat where
  range n := by
    have := n.toNat_lt
    omega
  toInt_ofInt n hlo hhi := by
    have : (n.toNat.toUInt16).toNat = n.toNat := UInt16.toNat_ofNat_of_lt' (by simp [UInt16.size]; omega)
    omega
  ofInt_toInt n := by simp

theorem represents_uInt32 : Represents 0 4294967295 (fun n => n.toNat.toUInt32) fun n => n.toNat where
  range n := by
    have := n.toNat_lt
    omega
  toInt_ofInt n hlo hhi := by
    have : (n.toNat.toUInt32).toNat = n.toNat := UInt32.toNat_ofNat_of_lt' (by simp [UInt32.size]; omega)
    omega
  ofInt_toInt n := by simp

theorem represents_int64 :
    Represents (-9223372036854775808) 9223372036854775807 Int64.ofInt Int64.toInt where
  range n := by
    have := n.le_toInt
    have := n.toInt_lt
    omega
  toInt_ofInt n hlo hhi := Int64.toInt_ofInt_of_le (by omega) (by omega)
  ofInt_toInt n := by simp

/-- Read for such a type, a literal gives the value that stands for its number. -/
theorem Represents.read_eq_some_iff {α : Type} {ofInt : Int → α} {toInt : α → Int}
    (h : Represents lo hi ofInt toInt) {a : α} :
    (read? lo hi s).map (fun p => (ofInt p.1, p.2)) = some (a, r) ↔
      ∃ p : Parts, p.Lead s r ∧ p.number = toInt a := by
  rw [Option.map_eq_some_iff]
  constructor
  · rintro ⟨⟨n, r'⟩, hread, heq⟩
    cases heq
    obtain ⟨p, hlead, hn, hlo, hhi⟩ := read?_eq_some_iff.1 hread
    exact ⟨p, hlead, by rw [hn, h.toInt_ofInt n hlo hhi]⟩
  · rintro ⟨p, hlead, hnumber⟩
    refine ⟨(toInt a, r), read?_eq_some_iff.2 ⟨p, hlead, hnumber, h.range a⟩, ?_⟩
    rw [h.ofInt_toInt a]

theorem exists_text_literal (f : Format) (n : Int64) :
    ∃ width, (width = [] ∨ width = ['L']) ∧ (Operand.literal n).text f = hex n ++ width := by
  rw [Operand.text]
  split
  · exact ⟨['L'], .inr rfl, rfl⟩
  · exact ⟨[], .inl rfl, rfl⟩

/-- Integers are read exactly or not at all, for each of the types that are read: a value is read exactly if it
stands for the number of the literal at the start of the text, and there is one exactly if that number
is in the range of the type. No step of the way through words of 64 bits gives another number. And a
literal that is written, in whatever format, is read back as a whole. -/
theorem integers_read_exactly (s : Text) :
    (∀ n r, readUInt16? s = some (n, r) ↔ ∃ p : Parts, p.Lead s r ∧ p.number = n.toNat) ∧
    ((readUInt16? s).isSome ↔ ∃ (p : Parts) (r : Text), p.Lead s r ∧ 0 ≤ p.number ∧ p.number ≤ 65535) ∧
    (∀ n r, readUInt32? s = some (n, r) ↔ ∃ p : Parts, p.Lead s r ∧ p.number = n.toNat) ∧
    ((readUInt32? s).isSome ↔ ∃ (p : Parts) (r : Text), p.Lead s r ∧ 0 ≤ p.number ∧ p.number ≤ 4294967295) ∧
    (∀ n r, readInt64? s = some (n, r) ↔ ∃ p : Parts, p.Lead s r ∧ p.number = n.toInt) ∧
    ((readInt64? s).isSome ↔ ∃ (p : Parts) (r : Text), p.Lead s r ∧
      -9223372036854775808 ≤ p.number ∧ p.number ≤ 9223372036854775807) ∧
    (∀ lo hi w r, readThroughWords? lo hi s = some (w, r) ↔ read? lo.toInt hi.toInt s = some (w.toInt, r)) ∧
    ∀ f n, readInt64? ((Operand.literal n).text f) = some (n, []) := by
  refine ⟨fun n r => ?_, ?_, fun n r => ?_, ?_, fun n r => ?_, ?_, fun lo hi w r => ?_, fun f n => ?_⟩
  · exact represents_uInt16.read_eq_some_iff
  · rw [readUInt16?, Option.isSome_map, isSome_read?_iff]
  · exact represents_uInt32.read_eq_some_iff
  · rw [readUInt32?, Option.isSome_map, isSome_read?_iff]
  · exact represents_int64.read_eq_some_iff
  · rw [readInt64?, Option.isSome_map, isSome_read?_iff]
  · exact readThroughWords?_eq_some_iff
  · obtain ⟨width, hwidth, htext⟩ := exists_text_literal f n
    rw [htext, ← List.append_nil (hex n ++ width)]
    exact readInt64?_hex n hwidth separated_nil

end DalvikPatch.Numeral
