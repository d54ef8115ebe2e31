import DalvikPatch.Numeral
import DalvikPatch.Proofs.Blanks
import Mathlib.Algebra.Group.Nat.Defs

/-! Numbers that are written are read back, with whatever may follow an operand behind them. -/

namespace DalvikPatch

namespace Text

/-- What may follow an operand: nothing, or what separates it from the next one. -/
def Separated (r : Text) : Prop := ∀ c ∈ r.head?, c = ',' ∨ c = ' ' ∨ c = '}'

theorem separated_nil : Separated [] := by simp [Separated]

theorem separated_cons {c : Char} (h : c = ',' ∨ c = ' ' ∨ c = '}') (r : Text) :
    Separated (c :: r) := by
  intro d hd
  cases hd
  exact h

/-- Characters that neither open nor close a string, nor start a comment. -/
def IsPlain (c : Char) : Prop := c ≠ '"' ∧ c ≠ '\\' ∧ c ≠ '#'

instance (c : Char) : Decidable (IsPlain c) := inferInstanceAs (Decidable (_ ∧ _ ∧ _))

end Text

namespace Numeral

open Text

/-! ### Digits -/

theorem digitValue?_digitChar {d : Nat} (h : d < 16) : digitValue? (Nat.digitChar d) = some d := by
  have : ∀ d : Fin 16, digitValue? (Nat.digitChar d) = some d.val := by decide
  exact this ⟨d, h⟩

theorem isDigitOf_digitChar {base d : Nat} (hb : base ≤ 16) (h : d < base) :
    isDigitOf base (Nat.digitChar d) := by
  rw [isDigitOf, digitValue?_digitChar (by omega)]
  exact decide_eq_true h

theorem isDigitOf_of_mem_toDigits {base n : Nat} (h1 : 1 < base) (h16 : base ≤ 16) {c : Char}
    (hc : c ∈ Nat.toDigits base n) : isDigitOf base c := by
  induction n using Nat.strongRecOn with
  | ind n ih =>
    rw [Nat.toDigits_eq_if h1] at hc
    split at hc
    · next hn =>
      rw [List.mem_singleton.1 hc]
      exact isDigitOf_digitChar h16 hn
    · next hn =>
      rcases List.mem_append.1 hc with hc | hc
      · exact ih (n / base) (Nat.div_lt_self (by omega) h1) hc
      · rw [List.mem_singleton.1 hc]
        exact isDigitOf_digitChar h16 (Nat.mod_lt n (by omega))

theorem value_toDigits {base : Nat} (h1 : 1 < base) (h16 : base ≤ 16) (n : Nat) :
    value base (Nat.toDigits base n) = n := by
  induction n using Nat.strongRecOn with
  | ind n ih =>
    rw [Nat.toDigits_eq_if h1]
    split
    · next hn =>
      have := value_append_singleton base [] (Nat.digitChar n)
      rw [digitValue?_digitChar (by omega)] at this
      simpa [value] using this
    · next hn =>
      have hmod : n % base < 16 := by
        have := Nat.mod_lt n (show 0 < base by omega)
        omega
      rw [value_append_singleton, ih (n / base) (Nat.div_lt_self (by omega) h1),
        digitValue?_digitChar hmod]
      exact Nat.div_add_mod n base

/-- Digits stand for less than one more digit does. -/
theorem value_lt {base : Nat} {digits : Text} (h : ∀ c ∈ digits, isDigitOf base c) :
    value base digits < base ^ digits.length := by
  induction digits using List.reverseRecOn with
  | nil => exact Nat.one_pos
  | append_singleton digits c ih =>
    have hrest := ih fun d hd => h d (List.mem_append_left _ hd)
    have hc : (digitValue? c).getD 0 < base := by
      obtain ⟨n, hn, hlt⟩ := (Option.any_eq_true _ _).1 (h c (by simp))
      rw [hn]
      exact of_decide_eq_true hlt
    calc value base (digits ++ [c]) = base * value base digits + (digitValue? c).getD 0 :=
          value_append_singleton base digits c
      _ < base * (value base digits + 1) := by rw [Nat.mul_succ]; omega
      _ ≤ base * base ^ digits.length := Nat.mul_le_mul_left _ hrest
      _ = base ^ (digits ++ [c]).length := by rw [List.length_append]; exact (Nat.pow_succ').symm

/-- Digits are printed characters of ASCII. -/
theorem printed_of_isDigitOf {base : Nat} {c : Char} (h : isDigitOf base c) : ' ' ≤ c ∧ c ≤ '~' := by
  obtain ⟨n, hn, -⟩ := (Option.any_eq_true _ _).1 h
  simp only [digitValue?, Char.le_def, UInt32.le_iff_toNat_le] at hn ⊢
  split_ifs at hn with h1 h2 h3 <;> simp at * <;> omega

theorem utf8Size_of_isDigitOf {base : Nat} {c : Char} (h : isDigitOf base c) : c.utf8Size = 1 :=
  Char.utf8Size_eq_one_iff.2 (Nat.le_trans (printed_of_isDigitOf h).2 (by decide))

/-- Digits are letters of the first half of ASCII, and none of those with another meaning. -/
theorem not_isDigitOf {c : Char} (hc : digitValue? c = none) (base : Nat) : ¬ isDigitOf base c := by
  rw [isDigitOf, hc]
  simp

theorem not_isBlank_of_isDigitOf {base : Nat} {c : Char} (h : isDigitOf base c) : ¬ isBlank c := by
  intro hb
  have : digitValue? c = none := of_isBlank (q := fun c => digitValue? c = none) (by decide) hb
  exact not_isDigitOf this base h

theorem isPlain_of_isDigitOf {base : Nat} {c : Char} (h : isDigitOf base c) : IsPlain c := by
  refine ⟨?_, ?_, ?_⟩ <;> rintro rfl <;> exact not_isDigitOf (by decide) base h

theorem ne_of_isDigitOf_ten {c : Char} (h : isDigitOf 10 c) : c ≠ '-' ∧ c ≠ 'x' ∧ c ≠ 'X' := by
  refine ⟨?_, ?_, ?_⟩ <;> rintro rfl <;> exact absurd h (by decide)

theorem not_isDigitOf_of_separated {r : Text} (hr : Separated r) (base : Nat) :
    ∀ c ∈ r.head?, ¬ isDigitOf base c := by
  intro c hc
  rcases hr c hc with rfl | rfl | rfl <;> exact not_isDigitOf (by decide) base

/-! ### Reading what is written -/

theorem skipWidth_of_separated {r : Text} (hr : Separated r) : skipWidth r = r := by
  cases r with
  | nil => rfl
  | cons c r =>
    have hc : isWidth c = false := by
      rcases hr c rfl with rfl | rfl | rfl <;> decide
    rw [skipWidth, hc]
    rfl

/-- Reading behind the sign and the mark of the base. -/
theorem read?_eq {lo hi : Int} {s t digits r : Text} {negative : Bool} {base : Nat}
    (hs : readSign s = (negative, t)) (ht : readBase t = (base, digits ++ r)) (hd : digits ≠ [])
    (hdigits : ∀ c ∈ digits, isDigitOf base c) (hr : ∀ c ∈ r.head?, ¬ isDigitOf base c)
    (hlo : lo ≤ signed negative base digits) (hhi : signed negative base digits ≤ hi) :
    read? lo hi s = some (signed negative base digits, skipWidth r) := by
  have hr' : r.takeWhile (isDigitOf base) = [] ∧ r.dropWhile (isDigitOf base) = r := by
    cases r with
    | nil => exact ⟨rfl, rfl⟩
    | cons c r =>
      have hc := hr c rfl
      exact ⟨List.takeWhile_cons_of_neg hc, List.dropWhile_cons_of_neg hc⟩
  have htake : (digits ++ r).takeWhile (isDigitOf base) = digits := by
    rw [List.takeWhile_append_of_pos hdigits, hr'.1, List.append_nil]
  have hdrop : (digits ++ r).dropWhile (isDigitOf base) = r := by
    rw [List.dropWhile_append_of_pos hdigits, hr'.2]
  simp only [read?, hs, ht, htake, hdrop]
  rw [if_pos ⟨hd, hlo, hhi⟩]

theorem readSign_eq {s : Text} (h : ∀ c ∈ s.head?, c ≠ '-') : readSign s = (false, s) := by
  unfold readSign
  split
  · exact absurd rfl (h '-' rfl)
  · rfl

theorem readBase_eq {s : Text} (h : ∀ c ∈ s.tail.head?, c ≠ 'x' ∧ c ≠ 'X') :
    readBase s = (10, s) := by
  unfold readBase
  split
  · exact absurd rfl (h 'x' rfl).1
  · exact absurd rfl (h 'X' rfl).2
  · rfl

/-- A number in base ten is read back. -/
theorem read?_decimal {n : Nat} {hi : Int} (hn : n ≤ hi) {r : Text} (hr : Separated r) :
    read? 0 hi (decimal n ++ r) = some ((n : Int), r) := by
  have hdigits : ∀ c ∈ decimal n, isDigitOf 10 c :=
    fun c hc => isDigitOf_of_mem_toDigits (by omega) (by omega) hc
  have hne : decimal n ≠ [] := Nat.toDigits_ne_nil
  have hsep : ∀ c ∈ r.head?, c ≠ 'x' ∧ c ≠ 'X' := by
    intro c hc
    rcases hr c hc with rfl | rfl | rfl <;> decide
  obtain ⟨d, ds, hd⟩ := List.exists_cons_of_ne_nil hne
  have hsign : readSign (decimal n ++ r) = (false, decimal n ++ r) := by
    apply readSign_eq
    intro c hc
    rw [hd] at hc
    cases hc
    exact (ne_of_isDigitOf_ten (hdigits d (by simp [hd]))).1
  have hbase : readBase (decimal n ++ r) = (10, decimal n ++ r) := by
    apply readBase_eq
    intro c hc
    rw [hd, List.cons_append, List.tail_cons, List.head?_append] at hc
    cases ds with
    | nil => exact hsep c hc
    | cons e ds =>
      obtain rfl : e = c := Option.some.inj hc
      exact (ne_of_isDigitOf_ten (hdigits e (by simp [hd]))).2
  have hvalue : signed false 10 (decimal n) = n := by
    rw [signed, if_neg (by decide), decimal, value_toDigits (by omega) (by omega)]
  have h : read? 0 hi _ = _ := read?_eq hsign hbase hne hdigits
    (not_isDigitOf_of_separated hr 10) (by omega) (by omega)
  rw [hvalue, skipWidth_of_separated hr] at h
  exact h

theorem readUInt16?_decimal (n : UInt16) {r : Text} (hr : Separated r) :
    readUInt16? (decimal n.toNat ++ r) = some (n, r) := by
  have hn := n.toNat_lt
  rw [readUInt16?, read?_decimal (by omega) hr]
  simp

theorem readUInt32?_decimal (n : UInt32) {r : Text} (hr : Separated r) :
    readUInt32? (decimal n.toNat ++ r) = some (n, r) := by
  have hn := n.toNat_lt
  rw [readUInt32?, read?_decimal (by omega) hr]
  simp

/-- A literal is read back, with or without the letter of its width. -/
theorem readInt64?_hex (n : Int64) {width r : Text} (hw : width = [] ∨ width = ['L'])
    (hr : Separated r) : readInt64? (hex n ++ width ++ r) = some (n, r) := by
  have hlo := n.le_toInt
  have hhi := n.toInt_lt
  have hdigits : ∀ c ∈ Nat.toDigits 16 n.toInt.natAbs, isDigitOf 16 c :=
    fun c hc => isDigitOf_of_mem_toDigits (by omega) (by omega) hc
  have hne : Nat.toDigits 16 n.toInt.natAbs ≠ [] := Nat.toDigits_ne_nil
  have hstop : ∀ c ∈ (width ++ r).head?, ¬ isDigitOf 16 c := by
    rcases hw with rfl | rfl
    · exact not_isDigitOf_of_separated hr 16
    · intro c hc
      cases hc
      decide
  have hskip : skipWidth (width ++ r) = r := by
    rcases hw with rfl | rfl
    · exact skipWidth_of_separated hr
    · rfl
  have hvalue : value 16 (Nat.toDigits 16 n.toInt.natAbs) = n.toInt.natAbs :=
    value_toDigits (by omega) (by omega) _
  have hneg : n < 0 ↔ n.toInt < 0 := by rw [Int64.lt_iff_toInt_lt, Int64.toInt_zero]
  have hsigned : signed (decide (n < 0)) 16 (Nat.toDigits 16 n.toInt.natAbs) = n.toInt := by
    rw [signed, hvalue]
    split
    · next h =>
      have := hneg.1 (of_decide_eq_true h)
      omega
    · next h =>
      have := mt hneg.2 (by simpa using h)
      omega
  have hsign : readSign (hex n ++ width ++ r) =
      (decide (n < 0), "0x" ++ Nat.toDigits 16 n.toInt.natAbs ++ (width ++ r)) := by
    by_cases h : n < 0
    · rw [hex, if_pos h, decide_eq_true h]
      simp [readSign]
    · rw [hex, if_neg h, decide_eq_false h]
      simp [readSign]
  have hbase : readBase ("0x" ++ Nat.toDigits 16 n.toInt.natAbs ++ (width ++ r)) =
      (16, Nat.toDigits 16 n.toInt.natAbs ++ (width ++ r)) := by
    simp [readBase]
  rw [readInt64?, read?_eq hsign hbase hne hdigits hstop (by omega) (by omega), hsigned, hskip]
  simp

/-! ### What reading passes over -/

/-- A character that may stand in a number. -/
def Counts (c : Char) : Prop := IsPlain c ∧ ¬ isBlank c

theorem counts_of_isDigitOf {base : Nat} {c : Char} (h : isDigitOf base c) : Counts c :=
  ⟨isPlain_of_isDigitOf h, not_isBlank_of_isDigitOf h⟩

/-- The letters of a width are no digits. -/
theorem counts_of_isWidth {c : Char} (h : isWidth c) : Counts c ∧ digitValue? c = none := by
  simp only [isWidth, Bool.or_eq_true, beq_iff_eq] at h
  rcases h with ((((rfl | rfl) | rfl) | rfl) | rfl) | rfl <;>
    exact ⟨⟨by simp [IsPlain], by decide⟩, by decide⟩

/-- Text that no number in front of it goes on into. -/
def Stops (o : Text) : Prop := ∀ c ∈ o.head?, ¬ Counts c

theorem readSign_front (s : Text) : ∃ u, s = u ++ (readSign s).2 ∧ (∀ c ∈ u, Counts c) ∧
    ∀ t r o, (readSign s).2 = t ++ r → Stops o → readSign (u ++ (t ++ o)) = ((readSign s).1, t ++ o) := by
  have hminus : Counts '-' := ⟨by simp [IsPlain], by decide⟩
  unfold readSign
  split
  · exact ⟨['-'], rfl, by simpa using hminus, fun _ _ _ _ _ => rfl⟩
  · next hs =>
    refine ⟨[], rfl, by simp, ?_⟩
    rintro t r o rfl ho
    split
    · next rest ht =>
      cases t with
      | nil => exact absurd hminus (ho '-' (congrArg List.head? ht))
      | cons c t =>
        obtain ⟨rfl, -⟩ := List.cons.inj ht
        exact absurd rfl (hs (t ++ r))
    · rfl

theorem readBase_front (s : Text) : ∃ u, s = u ++ (readBase s).2 ∧ (∀ c ∈ u, Counts c) ∧
    ∀ t r o, (readBase s).2 = t ++ r → Stops o → readBase (u ++ (t ++ o)) = ((readBase s).1, t ++ o) := by
  have hcounts : ∀ x, x = '0' ∨ x = 'x' ∨ x = 'X' → Counts x := by
    rintro x (rfl | rfl | rfl) <;> exact ⟨by simp [IsPlain], by decide⟩
  have hmark : ∀ x, x = 'x' ∨ x = 'X' → ∀ c ∈ (['0', x] : Text), Counts c := by
    intro x hx c hc
    rcases List.mem_cons.1 hc with rfl | hc
    · exact hcounts _ (.inl rfl)
    · exact List.mem_singleton.1 hc ▸ hcounts _ (.inr hx)
  -- what stops no number is no rest of the mark of a base either
  have hother : ∀ x, x = 'x' ∨ x = 'X' → ∀ {t r o rest : Text}, (∀ rest', t ++ r ≠ '0' :: x :: rest') →
      Stops o → t ++ o ≠ '0' :: x :: rest := by
    intro x hx t r o rest hs ho ht
    rcases t with _ | ⟨c, _ | ⟨d, t⟩⟩
    · exact ho '0' (congrArg List.head? ht) (hcounts _ (.inl rfl))
    · exact ho x (congrArg List.head? (List.cons.inj ht).2) (hcounts _ (.inr hx))
    · obtain ⟨rfl, hrest⟩ := List.cons.inj ht
      obtain ⟨rfl, -⟩ := List.cons.inj hrest
      exact hs (t ++ r) rfl
  unfold readBase
  split
  · exact ⟨['0', 'x'], rfl, hmark _ (.inl rfl), fun _ _ _ _ _ => rfl⟩
  · exact ⟨['0', 'X'], rfl, hmark _ (.inr rfl), fun _ _ _ _ _ => rfl⟩
  · next hx hX =>
    refine ⟨[], rfl, by simp, ?_⟩
    rintro t r o rfl ho
    split
    · next ht => exact absurd ht (hother _ (.inl rfl) (t := t) hx ho)
    · next ht => exact absurd ht (hother _ (.inr rfl) (t := t) hX ho)
    · rfl

theorem skipWidth_front (s : Text) : ∃ u, s = u ++ skipWidth s ∧ (∀ c ∈ u, isWidth c) ∧
    ∀ o, Stops o → skipWidth (u ++ o) = o := by
  have hstop : ∀ o, Stops o → skipWidth o = o := by
    intro o ho
    cases o with
    | nil => rfl
    | cons c o => rw [skipWidth, if_neg fun hc => ho c rfl (counts_of_isWidth hc).1]
  cases s with
  | nil => exact ⟨[], rfl, by simp, hstop⟩
  | cons c s =>
    rw [skipWidth]
    split
    · next hc =>
      refine ⟨[c], rfl, by simpa using hc, fun o _ => ?_⟩
      rw [List.singleton_append, skipWidth, if_pos hc]
    · exact ⟨[], rfl, by simp, hstop⟩

/-- A number is read from plain characters, and reads the same in front of any text that stops it. -/
theorem front_of_read? {lo hi : Int} {s r : Text} {n : Int} (h : read? lo hi s = some (n, r)) :
    ∃ u, s = u ++ r ∧ u ≠ [] ∧ (∀ c ∈ u, Counts c) ∧
      ∀ o, Stops o → read? lo hi (u ++ o) = some (n, o) := by
  obtain ⟨a, hs, ha, hsign⟩ := readSign_front s
  obtain ⟨b, ht, hb, hbase⟩ := readBase_front (readSign s).2
  simp only [read?] at h
  generalize readSign s = sign at *
  generalize readBase sign.2 = base at *
  obtain ⟨w, hw, hwidth, hskip⟩ := skipWidth_front (base.2.dropWhile (isDigitOf base.1))
  split at h
  · next hfits =>
    simp only [Option.some.injEq, Prod.mk.injEq] at h
    obtain ⟨rfl, rfl⟩ := h
    obtain ⟨hne, hlo, hhi⟩ := hfits
    have hdigits : ∀ c ∈ base.2.takeWhile (isDigitOf base.1), isDigitOf base.1 c :=
      fun c hc => List.mem_takeWhile_imp hc
    have hsplit : base.2 = (base.2.takeWhile (isDigitOf base.1) ++ w) ++
        skipWidth (base.2.dropWhile (isDigitOf base.1)) := by
      rw [List.append_assoc, ← hw, List.takeWhile_append_dropWhile]
    refine ⟨a ++ (b ++ (base.2.takeWhile (isDigitOf base.1) ++ w)), ?_, ?_, ?_, fun o ho => ?_⟩
    · rw [List.append_assoc, List.append_assoc, ← hsplit, ← ht, ← hs]
    · simp [hne]
    · intro c hc
      simp only [List.mem_append] at hc
      rcases hc with hc | hc | hc | hc
      · exact ha c hc
      · exact hb c hc
      · exact counts_of_isDigitOf (hdigits c hc)
      · exact (counts_of_isWidth (hwidth c hc)).1
    · have hstop : ∀ c ∈ (w ++ o).head?, ¬ isDigitOf base.1 c := by
        intro c hc hdigit
        cases w with
        | nil => exact ho c hc (counts_of_isDigitOf hdigit)
        | cons x w =>
          obtain rfl : x = c := Option.some.inj hc
          exact not_isDigitOf (counts_of_isWidth (hwidth x (List.mem_cons_self ..))).2 _ hdigit
      have hsign' := hsign (b ++ (base.2.takeWhile (isDigitOf base.1) ++ w)) _ o
        (by rw [List.append_assoc, ← hsplit, ← ht]) ho
      have hbase' := hbase _ _ o hsplit ho
      rw [List.append_assoc b, List.append_assoc (List.takeWhile ..)] at hsign'
      rw [List.append_assoc (List.takeWhile ..)] at hbase'
      rw [List.append_assoc a, List.append_assoc b, List.append_assoc (List.takeWhile ..),
        read?_eq hsign' hbase' hne hdigits hstop hlo hhi, hskip o ho]
  · cases h

/-- The same of a number that is read for another one that it stands for. -/
theorem front_of_map {α : Type} {lo hi : Int} {g : Int → α} {s r : Text} {a : α}
    (h : (read? lo hi s).map (fun p => (g p.1, p.2)) = some (a, r)) :
    ∃ u, s = u ++ r ∧ IsWord u ∧
      ∀ o, Stops o → (read? lo hi (u ++ o)).map (fun p => (g p.1, p.2)) = some (a, o) := by
  obtain ⟨⟨n, r'⟩, hn, heq⟩ := Option.map_eq_some_iff.1 h
  cases heq
  obtain ⟨u, hs, hne, hu, halone⟩ := front_of_read? hn
  refine ⟨u, hs, ⟨hne, fun c hc => (hu c hc).2⟩, fun o ho => ?_⟩
  rw [halone o ho]
  rfl

theorem exists_of_read? {lo hi : Int} {s r : Text} {n : Int} (h : read? lo hi s = some (n, r)) :
    ∃ u, s = u ++ r ∧ ∀ c ∈ u, IsPlain c := by
  obtain ⟨u, hs, -, hu, -⟩ := front_of_read? h
  exact ⟨u, hs, fun c hc => (hu c hc).1⟩

/-! ### What is written is plain -/

theorem isPlain_of_mem_decimal {n : Nat} {c : Char} (h : c ∈ decimal n) : IsPlain c :=
  isPlain_of_isDigitOf (isDigitOf_of_mem_toDigits (by omega) (by omega) h)

theorem not_isBlank_of_mem_decimal {n : Nat} {c : Char} (h : c ∈ decimal n) : ¬ isBlank c :=
  not_isBlank_of_isDigitOf (isDigitOf_of_mem_toDigits (by omega) (by omega) h)

theorem isPlain_of_mem_hex {n : Int64} {c : Char} (h : c ∈ hex n) : IsPlain c := by
  rcases List.mem_append.1 h with h | h
  · have hsign : ∀ s : Text, s = "-0x" ∨ s = "0x" → ∀ c ∈ s, IsPlain c := by
      rintro s (rfl | rfl) <;> decide
    exact hsign _ (by split <;> simp) c h
  · exact isPlain_of_isDigitOf (isDigitOf_of_mem_toDigits (by omega) (by omega) h)

theorem not_isBlank_of_mem_hex {n : Int64} {c : Char} (h : c ∈ hex n) : ¬ isBlank c := by
  rcases List.mem_append.1 h with h | h
  · have hsign : ∀ s : Text, s = "-0x" ∨ s = "0x" → ∀ c ∈ s, ¬ isBlank c := by
      rintro s (rfl | rfl) <;> decide
    exact hsign _ (by split <;> simp) c h
  · exact not_isBlank_of_isDigitOf (isDigitOf_of_mem_toDigits (by omega) (by omega) h)

end Numeral

end DalvikPatch
