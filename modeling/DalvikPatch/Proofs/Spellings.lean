import DalvikPatch.Descriptor.Reader
import DalvikPatch.Proofs.Initialisers

/-! The grammar of escapes. An escaped text is spelled part by part: a character that is no backslash
stands for its units, a backslash with a letter for one unit, and so does a backslash with `u` and
four digits. The number behind `u` is read by a reader of numbers that takes a plus sign, so one
more spelling is accepted. What is written is spelled by the grammar, printed, and read back. -/

namespace DalvikPatch

namespace Text

/-! ### Parts that are read -/

/-- A part with a sign for the first of its digits. -/
inductive IsSigned : Text → List UInt16 → Prop
  | numbered {digits : Text} {u : UInt16} (hlength : digits.length = 3)
      (hdigits : ∀ d ∈ digits, Numeral.isDigitOf 16 d) (hu : u.toNat = Numeral.value 16 digits) :
      IsSigned ("\\u+" ++ digits) [u]

theorem IsSigned.unescapeUnits_append {t : Text} {us : List UInt16} (h : IsSigned t us) (s : Text) :
    unescapeUnits (t ++ s) = (unescapeUnits s).map (us ++ ·) := by
  cases h with
  | @numbered digits u hlength hdigits hu =>
    have hne : digits ≠ [] := List.ne_nil_of_length_eq_add_one hlength
    have hsize : byteSize ('+' :: digits) = 4 := by
      rw [byteSize, byteSize_of_isDigitOf hdigits, hlength]
      rfl
    exact unescapeUnits_numbered (congrArg (· + 1) hlength) hsize
      (numberedUnit?_eq_some_iff.2 ⟨digits, .inr rfl, hne, hdigits, toUInt16_value hu⟩) s

/-- The parts that are read: those of the grammar and those with a sign. -/
def IsRead (t : Text) (us : List UInt16) : Prop := IsPart t us ∨ IsSigned t us

/-- Four characters that are read as a number spell a part, signed or not. -/
theorem part_of_numberedUnit? {digits : Text} {u : UInt16} (hlength : digits.length = 4)
    (h : numberedUnit? digits = some u) : IsRead ("\\u" ++ digits) [u] := by
  obtain ⟨body, hbody, -, hdigits, rfl⟩ := numberedUnit?_eq_some_iff.1 h
  have hvalue : body.length ≤ 4 → (Numeral.value 16 body).toUInt16.toNat = Numeral.value 16 body := by
    intro hle
    have hpow : 16 ^ body.length ≤ 16 ^ 4 := Nat.pow_le_pow_right (by omega) hle
    exact toNat_toUInt16 (Nat.lt_of_lt_of_le (Numeral.value_lt hdigits) hpow)
  rcases hbody with rfl | rfl
  · exact .inl (.numbered hlength hdigits (hvalue hlength.le))
  · have hthree : body.length = 3 := by simpa using hlength
    exact .inr (.numbered hthree hdigits (hvalue (by omega)))

theorem IsRead.unescapeUnits_append {t : Text} {us : List UInt16} (h : IsRead t us) (s : Text) :
    unescapeUnits (t ++ s) = (unescapeUnits s).map (us ++ ·) :=
  h.elim (fun h => h.unescapeUnits_append s) fun h => h.unescapeUnits_append s

theorem IsRead.spells_append {t s : Text} {us vs : List UInt16} (ht : IsRead t us)
    (ih : ∀ {ws}, unescapeUnits s = .ok ws → Spells IsRead s ws)
    (h : (unescapeUnits s).map (us ++ ·) = .ok vs) : Spells IsRead (t ++ s) vs := by
  cases hs : unescapeUnits s with
  | error e => rw [hs] at h; cases h
  | ok ws =>
    rw [hs] at h
    cases h
    exact .cons ht (ih hs)

/-- What is read is spelled. -/
theorem spells_of_unescapeUnits {s : Text} {us : List UInt16} (h : unescapeUnits s = .ok us) :
    Spells IsRead s us := by
  fun_induction unescapeUnits s generalizing us with
  | case1 => cases h; exact .nil
  | case2 => cases h
  | case3 a b c d s hsize u hu ih => exact (part_of_numberedUnit? rfl hu).spells_append ih h
  | case4 => cases h
  | case5 => cases h
  | case6 => cases h
  | case7 c s _ _ u hu ih =>
    exact IsRead.spells_append (.inl (.named (namedUnit?_eq_some_iff.1 hu))) ih h
  | case8 => cases h
  | case9 c s hnil _ _ hnext ih =>
    have hc : c ≠ '\\' := by
      intro hc
      cases s with
      | nil => exact hnil hc rfl
      | cons d s => exact hnext d s hc rfl
    exact IsRead.spells_append (.inl (.plain hc)) ih h

theorem unescapeUnits_eq_ok_iff {s : Text} {us : List UInt16} :
    unescapeUnits s = .ok us ↔ Spells IsRead s us :=
  ⟨spells_of_unescapeUnits, Spells.unescapeUnits_eq fun _ _ h => h.unescapeUnits_append⟩

/-! ### Signs -/

/-- How long the first part of a text is. -/
def partLength : Text → Nat
  | '\\' :: 'u' :: _ => 6
  | '\\' :: _ => 2
  | _ => 1

theorem namedUnits_ne_u : ∀ p ∈ namedUnits, p.1 ≠ 'u' := by decide

/-- A part is told from what follows. -/
theorem IsPart.partLength_append {t : Text} {us : List UInt16} (h : IsPart t us) (s : Text) :
    partLength (t ++ s) = t.length := by
  cases h with
  | plain hc => rw [List.singleton_append, partLength] <;> simp [hc]
  | named hc =>
    have hu := namedUnits_ne_u _ hc
    rw [List.cons_append, List.singleton_append, partLength] <;> simp [hu]
  | numbered hlength =>
    rw [List.length_append, hlength]
    rfl

/-- A number with a sign stands behind parts of the grammar. -/
def HasSign (s : Text) : Prop :=
  ∃ (t : Text) (us : List UInt16) (r : Text), Spells IsPart t us ∧ s = t ++ ("\\u+" ++ r)

theorem IsPart.append_ne_sign {t : Text} {us : List UInt16} (h : IsPart t us) (a r : Text) :
    t ++ a ≠ "\\u+" ++ r := by
  intro he
  cases h with
  | plain hc => exact hc (List.cons.inj he).1
  | named hc => exact namedUnits_ne_u _ hc (List.cons.inj (List.cons.inj he).2).1
  | @numbered digits u hlength hdigits hu =>
    obtain ⟨d, ds, rfl⟩ := List.exists_cons_of_length_eq_add_one hlength
    have hd : d = '+' := (List.cons.inj (List.cons.inj (List.cons.inj he).2).2).1
    have := hdigits d (List.mem_cons_self ..)
    rw [hd] at this
    exact absurd this (by decide)

theorem not_hasSign_of_spells {s : Text} {us : List UInt16} (h : Spells IsPart s us) :
    ¬ HasSign s := by
  rintro ⟨t, vs, r, ht, rfl⟩
  -- The parts of both spellings are the same one after the other, until the sign should be one.
  induction ht generalizing us with
  | nil =>
    rw [List.nil_append] at h
    generalize hs : ("\\u+" : Text) ++ r = s at h
    cases h with
    | nil => cases hs
    | cons ht _ => exact ht.append_ne_sign _ r hs.symm
  | @cons t' t us' vs ht' _ ih =>
    generalize hs : t' ++ t ++ ("\\u+" ++ r) = s at h
    rw [List.append_assoc] at hs
    cases h with
    | nil => simp at hs
    | @cons t₁ s₁ us₁ vs₁ h₁ h₂ =>
      have hlength : t'.length = t₁.length := by
        rw [← ht'.partLength_append (t ++ ("\\u+" ++ r)), hs, h₁.partLength_append]
      obtain ⟨-, hrest⟩ := List.append_inj hs hlength
      exact ih (hrest ▸ h₂)

/-- A text that is read is spelled by the grammar, or a sign is the first thing in it that is not. -/
theorem Spells.grammar_or_hasSign {s : Text} {us : List UInt16} (h : Spells IsRead s us) :
    Spells IsPart s us ∨ HasSign s := by
  induction h with
  | nil => exact .inl .nil
  | @cons t s us vs ht _ ih =>
    rcases ht with ht | ⟨hlength, hdigits, hu⟩
    · rcases ih with ih | ⟨t', us', r, ht', rfl⟩
      · exact .inl (.cons ht ih)
      · exact .inr ⟨t ++ t', us ++ us', r, .cons ht ht', (List.append_assoc ..).symm⟩
    · exact .inr ⟨[], [], _, .nil, List.append_assoc ..⟩

/-- A text is read exactly if it is a sequence of parts of the grammar and of parts with a sign, and
then as the units of its parts in order. All of them are parts of the grammar exactly if no number
has a sign. -/
theorem unitsOfEscaped_spellings (s : Text) (us : List UInt16) :
    (unitsOfEscaped s = .ok us ↔ Spells IsRead s us) ∧
    (Spells IsPart s us ↔ unitsOfEscaped s = .ok us ∧ ¬ HasSign s) := by
  have hread : unitsOfEscaped s = .ok us ↔ Spells IsRead s us := by
    rw [← unescapeUnits_eq_ok_iff, unitsOfEscaped]
    cases unescapeUnits s <;> simp [Outcome.mistaken]
  refine ⟨hread, fun h => ⟨hread.2 (h.mono fun _ _ => .inl), not_hasSign_of_spells h⟩, ?_⟩
  rintro ⟨h, hsign⟩
  exact (hread.1 h).grammar_or_hasSign.resolve_right hsign

/-- A number with a sign is read and is not spelled by the grammar. -/
theorem unitsOfEscaped_sign : unitsOfEscaped "\\u+041" = .ok [0x41] ∧
    ¬ ∃ us, Spells IsPart "\\u+041" us :=
  ⟨by rfl, fun ⟨_, h⟩ => not_hasSign_of_spells h ⟨[], [], "041", .nil, rfl⟩⟩

/-! ### Units that are text -/

theorem flatMap_of_mapM_getLeft? {xs : List (Char ⊕ UInt16)} {s : Text}
    (h : xs.mapM Sum.getLeft? = some s) :
    xs.flatMap (Sum.elim charUnits fun u => [u]) = units s := by
  induction xs generalizing s with
  | nil =>
    cases h
    rfl
  | cons x xs ih =>
    simp only [List.mapM_cons, Option.bind_eq_bind, Option.bind_eq_some_iff] at h
    obtain ⟨c, hc, cs, hcs, he⟩ := h
    cases he
    obtain rfl := Sum.getLeft?_eq_some_iff.1 hc
    rw [List.flatMap_cons, ih hcs]
    rfl

/-- Units stand for a text exactly if they are its units. -/
theorem ofUnits?_eq_some_iff {us : List UInt16} {s : Text} : ofUnits? us = some s ↔ us = units s := by
  constructor
  · intro h
    rw [← flatMap_of_mapM_getLeft? h, flatMap_scalars]
  · rintro rfl
    exact ofUnits?_units s

theorem units_injective : Function.Injective units := fun s t h =>
  Option.some_inj.1 <| by rw [← ofUnits?_units s, h, ofUnits?_units]

theorem escapeUnits_units (s : Text) : escapeUnits (units s) = escape s := by
  rw [escapeUnits, scalars_units, List.flatMap_map]
  rfl

end Text

open Text

namespace Reference

/-- The string of some units: text if they are the units of one. -/
def ofUnits (us : List UInt16) : Reference := (ofUnits? us).elim (.units us) .string

variable (us : List UInt16)

theorem ofUnits_cases : (∃ s, us = Text.units s ∧ ofUnits us = .string s) ∨
    (∀ s, us ≠ Text.units s) ∧ ofUnits us = .units us := by
  cases h : ofUnits? us with
  | some s => exact .inl ⟨s, ofUnits?_eq_some_iff.1 h, by rw [ofUnits, h]; rfl⟩
  | none =>
    refine .inr ⟨fun s hs => ?_, by rw [ofUnits, h]; rfl⟩
    rw [ofUnits?_eq_some_iff.2 hs] at h
    cases h

theorem ofUnits_eq_string_iff {s : Text} : ofUnits us = .string s ↔ us = Text.units s := by
  rcases ofUnits_cases us with ⟨t, ht, h⟩ | ⟨hne, h⟩
  · rw [h, string.injEq, ht]
    exact ⟨congrArg Text.units, fun he => units_injective he⟩
  · rw [h]
    exact ⟨nofun, fun he => absurd he (hne s)⟩

theorem ofUnits_eq_units_iff : ofUnits us = .units us ↔ ∀ s, us ≠ Text.units s := by
  rcases ofUnits_cases us with ⟨s, hs, h⟩ | ⟨hne, h⟩
  · rw [h]
    exact ⟨nofun, fun hne => absurd hs (hne s)⟩
  · exact ⟨fun _ => hne, fun _ => h⟩

theorem valid_ofUnits : (ofUnits us).Valid := by
  cases h : ofUnits? us with
  | some s => rw [ofUnits, h]; trivial
  | none => rw [ofUnits, h]; exact h

theorem suits_ofUnits : (ofUnits us).suits .string = true := by
  rcases ofUnits_cases us with ⟨s, -, h⟩ | ⟨-, h⟩ <;> rw [h] <;> rfl

theorem text_ofUnits : (ofUnits us).text = quoted (escapeUnits us) := by
  rcases ofUnits_cases us with ⟨s, rfl, h⟩ | ⟨-, h⟩
  · rw [h, text_string, escapeUnits_units]
  · rw [h, text_units]

end Reference

/-! ### Lines that load a string -/

namespace Instruction

/-- The mnemonics that load a string. -/
def loadNames : List Text := ["const-string", "const-string/jumbo"]

theorem exists_opcode_of_mem_loadNames {name : Text} (h : name ∈ loadNames) :
    ∃ o, Opcode.ofName? name = some o ∧ o.reference? = some .string := by
  have hany : ∀ name ∈ loadNames, (Opcode.ofName? name).any (·.loadsString) = true := by decide
  obtain ⟨o, ho, hloads⟩ := (Option.any_eq_true _ _).1 (hany name h)
  exact ⟨o, ho, eq_of_beq hloads⟩

/-- The line that loads a string of the given units. -/
def loadOf (name : Text) (v : Register) (us : List UInt16) : Text :=
  name ++ " " ++ v.text ++ ", " ++ quoted (escapeUnits us)

theorem text_load (o : Opcode) (v : Register) (us : List UInt16) :
    text ⟨o, [.register v, .reference (.ofUnits us)]⟩ = loadOf o.name v us := by
  have hmore : moreText o.format [.reference (.ofUnits us)] = ", " ++ quoted (escapeUnits us) := by
    rw [← Reference.text_ofUnits]
    exact List.append_nil _
  rw [text_cons, hmore, Operand.text, loadOf]
  simp

theorem endsDark_loadOf (name : Text) (v : Register) (us : List UInt16) :
    EndsDark (loadOf name v us) := by
  rw [loadOf, quoted, ← List.append_assoc]
  exact endsDark_append_singleton _ (by decide)

theorem after_loadOf {o : Opcode} (h : o ∈ Opcode.table) (v : Register) (us : List UInt16) :
    Literal.after .outside (loadOf o.name v us) = .outside := by
  have hplain : ∀ c ∈ o.name ++ " " ++ v.text ++ ", ", IsPlain c := by
    simp only [List.forall_mem_append]
    exact ⟨⟨⟨Opcode.isPlain_of_mem_name h, by decide⟩, fun c hc => Register.isPlain_of_mem_text hc⟩,
      by decide⟩
  rw [loadOf, Literal.after_append, (quiet_of_isPlain (by simp) hplain).2]
  exact (enclosed_escapeUnits us).quiet_quoted.2

/-- A valid instruction that ends outside of a literal is read among blanks and in front of a
comment. -/
theorem Valid.read_append {i : Instruction} (h : i.Valid) (hdark : EndsDark i.text)
    (hafter : Literal.after .outside i.text = .outside) {b r : Text} (hb : Blanks b) (hr : Idle r) :
    read (b ++ i.text ++ r) = .ok i := by
  obtain ⟨hne, hstart, -⟩ := h.startsDark_text
  have htrim : trim (cutComment (i.text ++ r)) = i.text :=
    (trim_cutComment_append_iff hne hstart hdark hr).2 ⟨h.quiet, .inl hafter⟩
  have hread := h.readText_trim
  rw [trim_eq_self hstart hdark] at hread
  rw [read, List.append_assoc, trim_cutComment_blanks_append hb, htrim, hread]

theorem exists_read_loadOf {name : Text} (hname : name ∈ loadNames) (v : Register)
    (us : List UInt16) {b r : Text} (hb : Blanks b) (hr : Idle r) :
    ∃ o, read (b ++ loadOf name v us ++ r) = .ok ⟨o, [.register v, .reference (.ofUnits us)]⟩ ∧
      text ⟨o, [.register v, .reference (.ofUnits us)]⟩ = loadOf name v us := by
  obtain ⟨o, ho, hstring⟩ := exists_opcode_of_mem_loadNames hname
  obtain ⟨hmem, rfl⟩ := Opcode.mem_table_of_ofName? ho
  have hvalid := valid_load hmem ho hstring v (Reference.valid_ofUnits us)
    (Reference.suits_ofUnits us)
  have htext := text_load o v us
  refine ⟨o, ?_, htext⟩
  rw [← htext]
  exact hvalid.read_append (htext ▸ endsDark_loadOf o.name v us)
    (htext ▸ after_loadOf hmem v us) hb hr

end Instruction

/-- Escaping loses nothing. What is written for units is printed, is spelled by the grammar with no
quote for itself, and is read as those units; what is written for a text is what is written for its
units, and is read as that text. A line that loads the units loads a text exactly if they are the
units of that text, and the units themselves if they are those of none, and it is printed as it was,
without the blanks and the comment around it. -/
theorem escapes_keep_units :
    (∀ us : List UInt16, Printed (escapeUnits us) ∧ Spells IsQuotable (escapeUnits us) us ∧
      unitsOfEscaped (escapeUnits us) = .ok us) ∧
    (∀ s : Text, escape s = escapeUnits (Text.units s) ∧ ofEscaped (escape s) = .ok s) ∧
    ∀ name ∈ Instruction.loadNames, ∀ (v : Register) (us : List UInt16) (b r : Text), Blanks b →
      Idle r → ∃ i, Instruction.read (b ++ Instruction.loadOf name v us ++ r) = .ok i ∧
        i.registers = [v] ∧ (∀ s, i.reference? = some (.string s) ↔ us = Text.units s) ∧
        (i.reference? = some (.units us) ↔ ∀ s, us ≠ Text.units s) ∧
        i.text = Instruction.loadOf name v us := by
  refine ⟨fun us => ⟨printed_escapeUnits us, spells_escapeUnits us, ?_⟩, fun s => ?_, ?_⟩
  · rw [unitsOfEscaped, unescapeUnits_escapeUnits]
  · rw [ofEscaped, unescape_escape]
    exact ⟨(escapeUnits_units s).symm, rfl⟩
  · intro name hname v us b r hb hr
    obtain ⟨o, hread, htext⟩ := Instruction.exists_read_loadOf hname v us hb hr
    refine ⟨_, hread, rfl, fun s => ?_, ?_, htext⟩
    · exact Option.some_inj.trans (Reference.ofUnits_eq_string_iff us)
    · exact Option.some_inj.trans (Reference.ofUnits_eq_units_iff us)

/-- Half of a pair and a quote are loaded as units. -/
theorem escapes_keep_units_unpaired :
    ("const-string/jumbo" : Text) ∈ Instruction.loadNames ∧ Blanks "\t" ∧ Idle " # \"c" ∧
    (∀ s, [0xd83d, 0x22] ≠ Text.units s) ∧
    ∃ i, Instruction.read "\tconst-string/jumbo p0, \"\\ud83d\\\"\" # \"c" = .ok i ∧
      i.reference? = some (.units [0xd83d, 0x22]) ∧
      i.text = "const-string/jumbo p0, \"\\ud83d\\\"\"" := by
  have hname : ("const-string/jumbo" : Text) ∈ Instruction.loadNames := by decide
  have hblanks : Blanks "\t" := by decide
  have hidle : Idle " # \"c" := ⟨" ", "# \"c", by decide, rfl, by decide⟩
  have hunits : ∀ s, [0xd83d, 0x22] ≠ Text.units s := by
    intro s hs
    have := ofUnits?_eq_some_iff.2 hs
    cases this
  obtain ⟨i, hread, -, -, hreference, htext⟩ := escapes_keep_units.2.2 _ hname (.p 0)
    [0xd83d, 0x22] _ _ hblanks hidle
  exact ⟨hname, hblanks, hidle, hunits, i, hread, hreference.2 hunits, htext⟩

end DalvikPatch
