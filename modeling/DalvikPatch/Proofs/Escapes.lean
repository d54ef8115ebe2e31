import DalvikPatch.Proofs.Comments
import DalvikPatch.Text.Escape

/-! String literals. What is escaped is read back unit by unit, any text and any units that are no
text, and between its quotes an escaped text neither ends the literal nor starts a comment. -/

namespace DalvikPatch.Text

/-! ### Code units -/

/-- A character is no surrogate. -/
theorem toNat_cases (c : Char) :
    c.toNat < 0xd800 ∨ (0xdfff < c.toNat ∧ c.toNat < 0x10000) ∨
      (0x10000 ≤ c.toNat ∧ c.toNat < 0x110000) := by
  have h : c.toNat < 0xd800 ∨ 0xdfff < c.toNat ∧ c.toNat < 0x110000 := c.valid
  omega

theorem isHigh_iff {u : UInt16} : isHigh u = true ↔ 0xd800 ≤ u.toNat ∧ u.toNat < 0xdc00 := by
  simp [isHigh, UInt16.le_iff_toNat_le, UInt16.lt_iff_toNat_lt]

theorem isLow_iff {u : UInt16} : isLow u = true ↔ 0xdc00 ≤ u.toNat ∧ u.toNat < 0xe000 := by
  simp [isLow, UInt16.le_iff_toNat_le, UInt16.lt_iff_toNat_lt]

theorem toNat_toUInt16 {n : Nat} (h : n < 65536) : n.toUInt16.toNat = n := by
  simp; omega

theorem toNat_ofNat {n : Nat} (h : n < 0xd800 ∨ 0xdfff < n ∧ n < 0x110000) :
    (Char.ofNat n).toNat = n := by
  have hv : n.isValidChar := h
  rw [Char.ofNat, dif_pos hv]
  rfl

theorem charUnits_of_lt {c : Char} (h : c.toNat < 0x10000) : charUnits c = [c.toNat.toUInt16] :=
  if_pos h

theorem charUnits_of_le {c : Char} (h : 0x10000 ≤ c.toNat) :
    charUnits c = [(0xd800 + (c.toNat - 0x10000) / 0x400).toUInt16,
      (0xdc00 + (c.toNat - 0x10000) % 0x400).toUInt16] :=
  if_neg (Nat.not_lt.2 h)

/-- The units of a character pair up to it. -/
theorem scalars_charUnits_append (c : Char) (us : List UInt16) :
    scalars (charUnits c ++ us) = .inl c :: scalars us := by
  rcases Nat.lt_or_ge c.toNat 0x10000 with hc | hc
  · have hn : c.toNat.toUInt16.toNat = c.toNat := toNat_toUInt16 hc
    have hhigh : isHigh c.toNat.toUInt16 = false := by
      rw [Bool.eq_false_iff, ne_eq, isHigh_iff, hn]
      rcases toNat_cases c with h | h | h <;> omega
    have hlow : isLow c.toNat.toUInt16 = false := by
      rw [Bool.eq_false_iff, ne_eq, isLow_iff, hn]
      rcases toNat_cases c with h | h | h <;> omega
    rw [charUnits_of_lt hc]
    cases us with
    | nil => simp [scalars, hhigh, hlow, hn, Char.ofNat_toNat]
    | cons v us => simp [scalars, hhigh, hlow, hn, Char.ofNat_toNat]
  · have hlt : c.toNat < 0x110000 := by
      rcases toNat_cases c with h | h | h <;> omega
    have hu : (0xd800 + (c.toNat - 0x10000) / 0x400).toUInt16.toNat =
        0xd800 + (c.toNat - 0x10000) / 0x400 := toNat_toUInt16 (by omega)
    have hv : (0xdc00 + (c.toNat - 0x10000) % 0x400).toUInt16.toNat =
        0xdc00 + (c.toNat - 0x10000) % 0x400 := toNat_toUInt16 (by omega)
    have hhigh := isHigh_iff.2 (show 0xd800 ≤ _ ∧ _ < 0xdc00 by rw [hu]; omega)
    have hlow := isLow_iff.2 (show 0xdc00 ≤ _ ∧ _ < 0xe000 by rw [hv]; omega)
    have hpair : 0x10000 + (0xd800 + (c.toNat - 0x10000) / 0x400 - 0xd800) * 0x400 +
        (0xdc00 + (c.toNat - 0x10000) % 0x400 - 0xdc00) = c.toNat := by omega
    rw [charUnits_of_le hc, List.cons_append, List.singleton_append, scalars, if_pos hhigh,
      if_pos hlow, pair, hu, hv, hpair, Char.ofNat_toNat]

theorem scalars_units (s : Text) : scalars (units s) = s.map .inl := by
  induction s with
  | nil => rfl
  | cons c s ih =>
    have : units (c :: s) = charUnits c ++ units s := List.flatMap_cons
    rw [this, scalars_charUnits_append, ih, List.map_cons]

/-- The units of a text are that text. -/
theorem ofUnits?_units (s : Text) : ofUnits? (units s) = some s := by
  rw [ofUnits?, scalars_units]
  induction s with
  | nil => rfl
  | cons c s ih => simp [ih]

theorem charUnits_pair {u v : UInt16} (hu : isHigh u = true) (hv : isLow v = true) :
    charUnits (pair u v) = [u, v] := by
  rw [isHigh_iff] at hu
  rw [isLow_iff] at hv
  have hn : (pair u v).toNat = 0x10000 + (u.toNat - 0xd800) * 0x400 + (v.toNat - 0xdc00) :=
    toNat_ofNat (.inr (by omega))
  have h1 : 0xd800 + ((pair u v).toNat - 0x10000) / 0x400 = u.toNat := by omega
  have h2 : 0xdc00 + ((pair u v).toNat - 0x10000) % 0x400 = v.toNat := by omega
  rw [charUnits_of_le (by omega), h1, h2]
  simp

theorem charUnits_ofNat {u : UInt16} (hu : ¬ isHigh u = true) (hv : ¬ isLow u = true) :
    charUnits (Char.ofNat u.toNat) = [u] := by
  rw [isHigh_iff] at hu
  rw [isLow_iff] at hv
  have hlt : u.toNat < 65536 := u.toNat_lt
  have hn : (Char.ofNat u.toNat).toNat = u.toNat := toNat_ofNat (by omega)
  have hc : (Char.ofNat u.toNat).toNat < 0x10000 := by rw [hn]; exact hlt
  rw [charUnits_of_lt hc, hn]
  simp

/-- No unit is lost when units are told into characters and unpaired surrogates. -/
theorem flatMap_scalars (us : List UInt16) :
    (scalars us).flatMap (Sum.elim charUnits fun u => [u]) = us := by
  fun_induction scalars us with
  | case1 => rfl
  | case2 u h => rfl
  | case3 u h =>
    rw [Bool.or_eq_true, not_or] at h
    rw [List.flatMap_singleton, Sum.elim_inl, charUnits_ofNat h.1 h.2]
  | case4 u v us hu hv ih => rw [List.flatMap_cons, Sum.elim_inl, charUnits_pair hu hv, ih]; rfl
  | case5 u v us hu hv ih => rw [List.flatMap_cons, Sum.elim_inr, ih]; rfl
  | case6 u v us hu hv ih => rw [List.flatMap_cons, Sum.elim_inr, ih]; rfl
  | case7 u v us hu hv ih =>
    rw [List.flatMap_cons, Sum.elim_inl, charUnits_ofNat hu hv, ih]
    rfl

/-! ### Numbered escapes -/

theorem isPlain_digitChar {d : Nat} (h : d < 16) : IsPlain (Nat.digitChar d) :=
  Numeral.isPlain_of_isDigitOf (Numeral.isDigitOf_digitChar (by omega) h)

/-- Four digits that each are less than sixteen. -/
theorem hex4_digits (u : UInt16) : ∃ a b c d : Nat, a < 16 ∧ b < 16 ∧ c < 16 ∧ d < 16 ∧
    16 * (16 * (16 * a + b) + c) + d = u.toNat ∧
    Numeral.hex4 u = [Nat.digitChar a, Nat.digitChar b, Nat.digitChar c, Nat.digitChar d] := by
  have hu := u.toNat_lt
  exact ⟨u.toNat / 4096, u.toNat / 256 % 16, u.toNat / 16 % 16, u.toNat % 16, by omega, by omega,
    by omega, by omega, by omega, rfl⟩

theorem isDigitOf_of_mem_hex4 {u : UInt16} {d : Char} (h : d ∈ Numeral.hex4 u) :
    Numeral.isDigitOf 16 d := by
  obtain ⟨i, j, k, l, hi, hj, hk, hl, -, hhex⟩ := hex4_digits u
  have hdigit : ∀ {n : Nat}, n < 16 → Numeral.isDigitOf 16 (Nat.digitChar n) :=
    fun hn => Numeral.isDigitOf_digitChar (by omega) hn
  simp only [hhex, List.mem_cons, List.not_mem_nil, or_false] at h
  rcases h with rfl | rfl | rfl | rfl
  · exact hdigit hi
  · exact hdigit hj
  · exact hdigit hk
  · exact hdigit hl

theorem value_hex4 (u : UInt16) : Numeral.value 16 (Numeral.hex4 u) = u.toNat := by
  obtain ⟨i, j, k, l, hi, hj, hk, hl, hsum, hhex⟩ := hex4_digits u
  simp only [hhex, Numeral.value, List.foldl_cons, List.foldl_nil, Numeral.digitValue?_digitChar hi,
    Numeral.digitValue?_digitChar hj, Numeral.digitValue?_digitChar hk,
    Numeral.digitValue?_digitChar hl, Option.getD_some]
  omega

theorem byteSize_of_isDigitOf {digits : Text} (h : ∀ d ∈ digits, Numeral.isDigitOf 16 d) :
    byteSize digits = digits.length := by
  rw [byteSize_of_width fun d hd => Numeral.utf8Size_of_isDigitOf (h d hd), Nat.one_mul]

theorem numberedUnit?_eq_some_iff {s : Text} {u : UInt16} : numberedUnit? s = some u ↔
    ∃ digits, (s = digits ∨ s = '+' :: digits) ∧ digits ≠ [] ∧
      (∀ d ∈ digits, Numeral.isDigitOf 16 d) ∧ (Numeral.value 16 digits).toUInt16 = u := by
  have hbody : ∀ body : Text, (if body ≠ [] ∧ body.all (Numeral.isDigitOf 16) then
      some (Numeral.value 16 body).toUInt16 else none) = some u ↔ body ≠ [] ∧
        (∀ d ∈ body, Numeral.isDigitOf 16 d) ∧ (Numeral.value 16 body).toUInt16 = u := by
    intro body
    rw [Option.ite_none_right_eq_some, List.all_eq_true, Option.some_inj, and_assoc]
  by_cases hs : ∃ digits, s = '+' :: digits
  · obtain ⟨digits, rfl⟩ := hs
    refine (hbody digits).trans ⟨fun h => ⟨digits, .inr rfl, h⟩, ?_⟩
    rintro ⟨ds, rfl | hds, hne, hall, hu⟩
    · exact absurd (hall '+' (List.mem_cons_self ..)) (by decide)
    · cases hds
      exact ⟨hne, hall, hu⟩
  · have hplain : numberedUnit? s = if s ≠ [] ∧ s.all (Numeral.isDigitOf 16) then
        some (Numeral.value 16 s).toUInt16 else none := by
      rw [numberedUnit?]
      exact fun ds hds => hs ⟨ds, hds⟩
    rw [hplain, hbody]
    refine ⟨fun h => ⟨s, .inl rfl, h⟩, ?_⟩
    rintro ⟨ds, rfl | rfl, h⟩
    · exact h
    · exact absurd ⟨ds, rfl⟩ hs

theorem unescapeUnits_numbered {digits : Text} {u : UInt16} (hlength : digits.length = 4)
    (hsize : byteSize digits = 4) (hu : numberedUnit? digits = some u) (s : Text) :
    unescapeUnits ("\\u" ++ digits ++ s) = (unescapeUnits s).map (u :: ·) := by
  match digits, hlength with
  | [a, b, c, d], _ =>
    have hs : "\\u" ++ [a, b, c, d] ++ s = '\\' :: 'u' :: a :: b :: c :: d :: s := rfl
    rw [hs, unescapeUnits, if_pos hsize, hu]

/-! ### Parts -/

/-- The letters that may stand behind a backslash, with their units. -/
def namedUnits : List (Char × UInt16) :=
  [('n', 10), ('r', 13), ('t', 9), ('b', 8), ('f', 12), ('"', 34), ('\'', 39), ('\\', 92)]

theorem namedUnit?_eq_some_iff {c : Char} {u : UInt16} :
    namedUnit? c = some u ↔ (c, u) ∈ namedUnits := by
  constructor
  · intro h
    unfold namedUnit? at h
    split_ifs at h with hn hr ht hb hf hself
    · cases h; subst hn; decide
    · cases h; subst hr; decide
    · cases h; subst ht; decide
    · cases h; subst hb; decide
    · cases h; subst hf; decide
    · cases h
      rcases hself with rfl | rfl | rfl <;> decide
  · exact (by decide : ∀ p ∈ namedUnits, namedUnit? p.1 = some p.2) (c, u)

theorem unescapeUnits_cons {c : Char} (hc : c ≠ '\\') (s : Text) :
    unescapeUnits (c :: s) = (unescapeUnits s).map (charUnits c ++ ·) := by
  rw [unescapeUnits] <;> simp [hc]

theorem unescapeUnits_named {d : Char} {u : UInt16} (hd : namedUnit? d = some u) (s : Text) :
    unescapeUnits ('\\' :: d :: s) = (unescapeUnits s).map (u :: ·) := by
  have hu : d ≠ 'u' := by
    rintro rfl
    simp [namedUnit?] at hd
  rw [unescapeUnits, hd] <;> simp [hu]

/-- A part of an escaped text and the units that it stands for. -/
inductive IsPart : Text → List UInt16 → Prop
  | plain {c : Char} (hc : c ≠ '\\') : IsPart [c] (charUnits c)
  | named {c : Char} {u : UInt16} (hc : (c, u) ∈ namedUnits) : IsPart ['\\', c] [u]
  | numbered {digits : Text} {u : UInt16} (hlength : digits.length = 4)
      (hdigits : ∀ d ∈ digits, Numeral.isDigitOf 16 d) (hu : u.toNat = Numeral.value 16 digits) :
      IsPart ("\\u" ++ digits) [u]

theorem toUInt16_value {digits : Text} {u : UInt16} (h : u.toNat = Numeral.value 16 digits) :
    (Numeral.value 16 digits).toUInt16 = u := by
  rw [← h]
  simp

theorem IsPart.unescapeUnits_append {t : Text} {us : List UInt16} (h : IsPart t us) (s : Text) :
    unescapeUnits (t ++ s) = (unescapeUnits s).map (us ++ ·) := by
  cases h with
  | plain hc => exact unescapeUnits_cons hc s
  | named hc => exact unescapeUnits_named (namedUnit?_eq_some_iff.2 hc) s
  | @numbered digits u hlength hdigits hu =>
    have hne : digits ≠ [] := List.ne_nil_of_length_eq_add_one hlength
    exact unescapeUnits_numbered hlength ((byteSize_of_isDigitOf hdigits).trans hlength)
      (numberedUnit?_eq_some_iff.2 ⟨digits, .inl rfl, hne, hdigits, toUInt16_value hu⟩) s

/-! ### Spellings -/

/-- A text that is made of parts, and the units that they stand for one after the other. -/
inductive Spells (P : Text → List UInt16 → Prop) : Text → List UInt16 → Prop
  | nil : Spells P [] []
  | cons {t s : Text} {us vs : List UInt16} (ht : P t us) (hs : Spells P s vs) :
      Spells P (t ++ s) (us ++ vs)

namespace Spells

variable {P Q : Text → List UInt16 → Prop} {s t : Text} {us vs : List UInt16}

theorem single (h : P t us) : Spells P t us := by
  have := cons h nil
  rwa [List.append_nil, List.append_nil] at this

theorem append (ht : Spells P t us) (hs : Spells P s vs) : Spells P (t ++ s) (us ++ vs) := by
  induction ht with
  | nil => exact hs
  | cons h _ ih =>
    rw [List.append_assoc, List.append_assoc]
    exact cons h ih

theorem mono (hPQ : ∀ t us, P t us → Q t us) (h : Spells P s us) : Spells Q s us := by
  induction h with
  | nil => exact nil
  | cons ht _ ih => exact cons (hPQ _ _ ht) ih

theorem flatMap {α : Type} {f : α → Text} {g : α → List UInt16} (h : ∀ a, Spells P (f a) (g a))
    (xs : List α) : Spells P (xs.flatMap f) (xs.flatMap g) := by
  induction xs with
  | nil => exact nil
  | cons x xs ih => exact (h x).append ih

/-- What is spelled is read, if each part is read in front of anything. -/
theorem unescapeUnits_eq (hP : ∀ t us, P t us →
    ∀ s, unescapeUnits (t ++ s) = (unescapeUnits s).map (us ++ ·)) (h : Spells P s us) :
    unescapeUnits s = .ok us := by
  induction h with
  | nil => rfl
  | cons ht _ ih =>
    rw [hP _ _ ht, ih]
    rfl

end Spells

/-! ### Escaped characters -/

/-- Parts that may stand between quotes: no quote stands for itself. -/
def IsQuotable (t : Text) (us : List UInt16) : Prop := IsPart t us ∧ t ≠ ['"']

theorem isQuotable_escapeUnit (u : UInt16) : IsQuotable (escapeUnit u) [u] :=
  ⟨.numbered rfl (fun _ hd => isDigitOf_of_mem_hex4 hd) (value_hex4 u).symm, by simp [escapeUnit]⟩

/-- A character is escaped by a letter, by itself, or by the numbers of its units. -/
theorem escapeChar_cases (c : Char) :
    (∃ d u, escapeChar c = ['\\', d] ∧ namedUnit? d = some u ∧ charUnits c = [u]) ∨
    (escapeChar c = [c] ∧ (' ' ≤ c ∧ c ≤ '~') ∧ c ≠ '"' ∧ c ≠ '\\') ∨
    escapeChar c = (charUnits c).flatMap escapeUnit := by
  have named : ∀ x d : Char, ∀ u : UInt16, c = x → escapeChar x = ['\\', d] →
      namedUnit? d = some u → charUnits x = [u] →
      ∃ d u, escapeChar c = ['\\', d] ∧ namedUnit? d = some u ∧ charUnits c = [u] := by
    rintro x d u rfl h1 h2 h3
    exact ⟨d, u, h1, h2, h3⟩
  by_cases h1 : c = '"'
  · exact .inl (named '"' '"' 34 h1 rfl rfl rfl)
  by_cases h2 : c = '\''
  · exact .inl (named '\'' '\'' 39 h2 rfl rfl rfl)
  by_cases h3 : c = '\\'
  · exact .inl (named '\\' '\\' 92 h3 rfl rfl rfl)
  by_cases h4 : c = '\n'
  · exact .inl (named '\n' 'n' 10 h4 rfl rfl rfl)
  by_cases h5 : c = '\r'
  · exact .inl (named '\r' 'r' 13 h5 rfl rfl rfl)
  by_cases h6 : c = '\t'
  · exact .inl (named '\t' 't' 9 h6 rfl rfl rfl)
  rw [escapeChar, if_neg h1, if_neg h2, if_neg h3, if_neg h4, if_neg h5, if_neg h6]
  by_cases h7 : ' ' ≤ c ∧ c ≤ '~'
  · exact .inr (.inl ⟨if_pos h7, h7, h1, h3⟩)
  · exact .inr (.inr (if_neg h7))

theorem spells_escapeChar (c : Char) : Spells IsQuotable (escapeChar c) (charUnits c) := by
  rcases escapeChar_cases c with ⟨d, u, h, hd, hu⟩ | ⟨h, -, hq, hb⟩ | h
  · rw [h, hu]
    exact .single ⟨.named (namedUnit?_eq_some_iff.1 hd), by simp⟩
  · rw [h]
    exact .single ⟨.plain hb, by simpa using hq⟩
  · have := Spells.flatMap (fun u => .single (isQuotable_escapeUnit u)) (charUnits c)
    rwa [← h, List.flatMap_singleton'] at this

theorem spells_escape (s : Text) : Spells IsQuotable (escape s) (units s) :=
  Spells.flatMap spells_escapeChar s

/-- Units are spelled whether they pair up or not. -/
theorem spells_escapeUnits (us : List UInt16) : Spells IsQuotable (escapeUnits us) us := by
  have h : ∀ x : Char ⊕ UInt16, Spells IsQuotable (Sum.elim escapeChar escapeUnit x)
      (Sum.elim charUnits (fun u => [u]) x) := by
    rintro (c | u)
    · exact spells_escapeChar c
    · exact .single (isQuotable_escapeUnit u)
  have := Spells.flatMap h (scalars us)
  rwa [flatMap_scalars] at this

theorem Spells.unescapeUnits_of_isQuotable {s : Text} {us : List UInt16} (h : Spells IsQuotable s us) :
    unescapeUnits s = .ok us :=
  h.unescapeUnits_eq fun _ _ hp => hp.1.unescapeUnits_append

theorem unescapeUnits_escape (s : Text) : unescapeUnits (escape s) = .ok (units s) :=
  (spells_escape s).unescapeUnits_of_isQuotable

theorem unescape_escape (s : Text) : unescape (escape s) = .ok s := by
  rw [unescape, unescapeUnits_escape]
  simp only [bind, Except.bind, ofUnits?_units]

theorem unescapeUnits_escapeUnits (us : List UInt16) : unescapeUnits (escapeUnits us) = .ok us :=
  (spells_escapeUnits us).unescapeUnits_of_isQuotable

/-! ### Between the quotes -/

/-- Between the quotes nothing ends the literal. -/
structure Enclosed (s : Text) : Prop where
  quiet : Quiet .inside s
  after : Literal.after .inside s = .inside
  read : ∀ t, readLiteral? .inside (s ++ t) = (readLiteral? .inside t).map fun p => (s ++ p.1, p.2)

theorem enclosed_nil : Enclosed [] where
  quiet := quiet_nil _
  after := rfl
  read t := by cases h : readLiteral? .inside t <;> simp [h]

theorem Enclosed.append {s t : Text} (hs : Enclosed s) (ht : Enclosed t) : Enclosed (s ++ t) where
  quiet := quiet_append.2 ⟨hs.quiet, by rw [hs.after]; exact ht.quiet⟩
  after := by rw [Literal.after_append, hs.after, ht.after]
  read r := by
    rw [List.append_assoc, hs.read, ht.read]
    cases readLiteral? .inside r <;> simp

theorem enclosed_flatMap {α : Type} {f : α → Text} (h : ∀ a, Enclosed (f a)) (xs : List α) :
    Enclosed (xs.flatMap f) := by
  induction xs with
  | nil => exact enclosed_nil
  | cons x xs ih => exact List.flatMap_cons ▸ (h x).append ih

theorem enclosed_char {c : Char} (hq : c ≠ '"') (hb : c ≠ '\\') : Enclosed [c] := by
  have hc : Literal.next c .inside = .inside := by simp [Literal.next, hq, hb]
  refine ⟨quiet_cons.2 ⟨by simp, quiet_nil _⟩, hc, fun t => ?_⟩
  rw [List.singleton_append, readLiteral?, hc]
  rfl

theorem enclosed_guarded (d : Char) : Enclosed ['\\', d] where
  quiet := quiet_cons.2 ⟨by simp, quiet_cons.2 ⟨by simp [Literal.next], quiet_nil _⟩⟩
  after := rfl
  read t := by
    rw [List.cons_append, List.singleton_append, readLiteral?, if_neg (by simp [Literal.next]),
      readLiteral?, if_neg (by simp [Literal.next])]
    cases h : readLiteral? .inside t <;> simp [Literal.next, h]

theorem enclosed_escapeUnit (u : UInt16) : Enclosed (escapeUnit u) := by
  obtain ⟨a, b, c, d, ha, hb, hc, hd, -, hhex⟩ := hex4_digits u
  have hdigit : ∀ {k : Nat}, k < 16 → Enclosed [Nat.digitChar k] :=
    fun hk => enclosed_char (isPlain_digitChar hk).1 (isPlain_digitChar hk).2.1
  have h := (enclosed_guarded 'u').append
    ((hdigit ha).append ((hdigit hb).append ((hdigit hc).append (hdigit hd))))
  rw [escapeUnit, hhex]
  exact h

theorem enclosed_escapeChar (c : Char) : Enclosed (escapeChar c) := by
  rcases escapeChar_cases c with ⟨d, u, h, -, -⟩ | ⟨h, -, hq, hb⟩ | h
  · rw [h]
    exact enclosed_guarded d
  · rw [h]
    exact enclosed_char hq hb
  · rw [h]
    exact enclosed_flatMap enclosed_escapeUnit _

theorem enclosed_escape (s : Text) : Enclosed (escape s) :=
  enclosed_flatMap enclosed_escapeChar s

theorem enclosed_escapeUnits (us : List UInt16) : Enclosed (escapeUnits us) := by
  apply enclosed_flatMap
  rintro (c | u)
  · exact enclosed_escapeChar c
  · exact enclosed_escapeUnit u

/-- A text between quotes. -/
def quoted (s : Text) : Text := '"' :: s ++ ['"']

theorem Enclosed.quiet_quoted {s : Text} (h : Enclosed s) :
    Quiet .outside (quoted s) ∧ Literal.after .outside (quoted s) = .outside := by
  have hopen : Literal.next '"' .outside = .inside := rfl
  constructor
  · rw [quoted, List.cons_append, quiet_cons, hopen, quiet_append, h.after]
    exact ⟨by simp, h.quiet, quiet_cons.2 ⟨by simp, quiet_nil _⟩⟩
  · rw [quoted, List.cons_append, Literal.after_cons, hopen, Literal.after_append, h.after]
    rfl

theorem Enclosed.readLiteral?_append {s : Text} (h : Enclosed s) (r : Text) :
    readLiteral? .inside (s ++ '"' :: r) = some (s, r) := by
  have hclose : readLiteral? .inside ('"' :: r) = some ([], r) := by
    rw [readLiteral?, if_pos (show Literal.next '"' .inside = .outside from rfl)]
  rw [h.read, hclose]
  simp

/-- A literal that is read ends where the reader is outside again. -/
theorem exists_of_readLiteral? {p : Literal} (hp : p ≠ .outside) {s b r : Text}
    (h : readLiteral? p s = some (b, r)) : s = b ++ '"' :: r ∧ p.after (b ++ ['"']) = .outside := by
  fun_induction readLiteral? p s generalizing b with
  | case1 => cases h
  | case2 p c s hc =>
    cases h
    have hq : c = '"' := by
      cases p with
      | outside => exact absurd rfl hp
      | inside =>
        by_contra hq
        by_cases hb : c = '\\' <;> simp [Literal.next, hq, hb] at hc
      | guarded => cases hc
    subst hq
    exact ⟨rfl, hc⟩
  | case3 p c s hc ih =>
    obtain ⟨q, hq, he⟩ := Option.map_eq_some_iff.1 h
    cases he
    obtain ⟨hs, ha⟩ := ih hc hq
    exact ⟨congrArg (c :: ·) hs, ha⟩

/-! ### Escaped text is printed -/

/-- Characters of ASCII that are printed. -/
def Printed (s : Text) : Prop := ∀ c ∈ s, ' ' ≤ c ∧ c ≤ '~'

instance (s : Text) : Decidable (Printed s) :=
  inferInstanceAs (Decidable (∀ c ∈ s, ' ' ≤ c ∧ c ≤ '~'))

theorem Printed.newline_not_mem {s : Text} (h : Printed s) : '\n' ∉ s :=
  fun hn => absurd (h '\n' hn).1 (by decide)

theorem printed_append {s t : Text} : Printed (s ++ t) ↔ Printed s ∧ Printed t := List.forall_mem_append

theorem printed_flatMap {α : Type} {f : α → Text} (h : ∀ a, Printed (f a)) (xs : List α) :
    Printed (xs.flatMap f) := by
  intro c hc
  obtain ⟨x, -, hx⟩ := List.mem_flatMap.1 hc
  exact h x c hx

theorem printed_escapeUnit (u : UInt16) : Printed (escapeUnit u) :=
  printed_append.2 ⟨by decide, fun _ hd => Numeral.printed_of_isDigitOf (isDigitOf_of_mem_hex4 hd)⟩

theorem printed_escapeChar (c : Char) : Printed (escapeChar c) := by
  rcases escapeChar_cases c with ⟨d, u, h, hd, -⟩ | ⟨h, hc, -⟩ | h
  · have hletter := namedUnit?_eq_some_iff.1 hd
    rw [h]
    exact (by decide : ∀ p ∈ namedUnits, Printed ['\\', p.1]) _ hletter
  · rw [h]
    exact List.forall_mem_singleton.2 hc
  · rw [h]
    exact printed_flatMap printed_escapeUnit _

theorem printed_escape (s : Text) : Printed (escape s) := printed_flatMap printed_escapeChar s

theorem printed_escapeUnits (us : List UInt16) : Printed (escapeUnits us) := by
  apply printed_flatMap
  rintro (c | u)
  · exact printed_escapeChar c
  · exact printed_escapeUnit u

end DalvikPatch.Text
