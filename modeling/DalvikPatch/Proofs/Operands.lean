import DalvikPatch.Proofs.References

/-! Operands that are read. Each is read back from what is written for it, as long as its kind is
asked for and what follows separates it from the next one. -/

namespace DalvikPatch

open Text

/-! ### Labels -/

namespace Label

structure Valid (l : Label) : Prop where
  ne_nil : l.name ≠ []
  chars : ∀ c ∈ l.name, isLabelChar c

theorem not_isBlank_of_isLabelChar {c : Char} (h : isLabelChar c) : ¬ isBlank c := by
  intro hb
  have : isLabelChar c = false :=
    of_isBlank (q := fun c => isLabelChar c = false) (by decide +kernel) hb
  rw [h] at this
  cases this

theorem isPlain_of_isLabelChar {c : Char} (h : isLabelChar c) : IsPlain c := by
  refine ⟨?_, ?_, ?_⟩ <;> rintro rfl <;> exact absurd h (by decide)

theorem not_isLabelChar_of_separated {r : Text} (hr : Separated r) :
    ∀ c ∈ r.head?, ¬ isLabelChar c := by
  intro c hc
  rcases hr c hc with rfl | rfl | rfl <;> decide

theorem read?_text_append {l : Label} (h : l.Valid) {r : Text} (hr : ∀ c ∈ r.head?, ¬ isLabelChar c) :
    read? (l.text ++ r) = some (l, r) := by
  have htake : (l.name ++ r).takeWhile isLabelChar = l.name ∧
      (l.name ++ r).dropWhile isLabelChar = r := by
    rw [List.takeWhile_append_of_pos h.chars, List.dropWhile_append_of_pos h.chars]
    cases r with
    | nil => exact ⟨List.append_nil _, rfl⟩
    | cons c r =>
      have hc := hr c rfl
      rw [List.takeWhile_cons_of_neg hc, List.dropWhile_cons_of_neg hc]
      exact ⟨List.append_nil _, rfl⟩
  have hopen : after? [':'] (l.text ++ r) = some (l.name ++ r) := rfl
  have hne : l.name.isEmpty = false := by simpa using h.ne_nil
  rw [read?, hopen]
  simp only [Option.bind_eq_bind, Option.bind_some, htake, hne, Bool.false_eq_true, if_false]

theorem read?_text {l : Label} (h : l.Valid) {r : Text} (hr : Separated r) :
    read? (l.text ++ r) = some (l, r) :=
  read?_text_append h (not_isLabelChar_of_separated hr)

theorem valid_of_read? {s r : Text} {l : Label} (h : read? s = some (l, r)) :
    l.Valid ∧ s = l.text ++ r := by
  simp only [read?, Option.bind_eq_bind, Option.bind_eq_some_iff] at h
  obtain ⟨a, ha, h⟩ := h
  split at h
  · cases h
  · next hne =>
    cases h
    refine ⟨⟨by simpa using hne, fun c hc => List.mem_takeWhile_imp hc⟩, ?_⟩
    rw [eq_append_of_after? ha, text, List.append_assoc, List.takeWhile_append_dropWhile]
    rfl

theorem isWord_text {l : Label} (h : l.Valid) : IsWord l.text where
  ne_nil := by simp [text]
  dark c hc := by
    rcases List.mem_append.1 hc with hc | hc
    · rw [List.mem_singleton.1 hc]; decide
    · exact not_isBlank_of_isLabelChar (h.chars c hc)

theorem isPlain_of_mem_text {l : Label} (h : l.Valid) {c : Char} (hc : c ∈ l.text) : IsPlain c := by
  rcases List.mem_append.1 hc with hc | hc
  · rw [List.mem_singleton.1 hc]; decide
  · exact isPlain_of_isLabelChar (h.chars c hc)

end Label

/-! ### References -/

namespace Reference

def Valid : Reference → Prop
  | string _ => True
  | units us => ofUnits? us = none
  | type d => ∃ t : TypeDescriptor, t.Valid ∧ d = t.jni
  | field f => f.Valid
  | method m => m.Valid
  | prototype d => ∃ p : Prototype, p.Valid ∧ d = p.jni
  | other s => EndsDark s ∧ Unspaced s ∧ '\n' ∉ s

theorem text_string (s : Text) : (string s).text = quoted (escape s) := rfl

theorem text_units (us : List UInt16) : (units us).text = quoted (escapeUnits us) := rfl

/-- A reference to a string starts no comment, and its literal ends with it. -/
theorem quiet_text {r : Reference} (h : r.suits .string = true) :
    Quiet .outside r.text ∧ Literal.after .outside r.text = .outside := by
  cases r with
  | string s => exact (enclosed_escape s).quiet_quoted
  | units us => exact (enclosed_escapeUnits us).quiet_quoted
  | _ => cases h

theorem readString?_quoted {s r : Text} (h : Enclosed s) :
    readString? (quoted s ++ r) = (unescapeUnits s).toOption.bind fun us =>
      match ofUnits? us with
      | some t => some (string t, r)
      | none => some (units us, r) := by
  have hopen : after? ['"'] (quoted s ++ r) = some (s ++ '"' :: r) := by
    have : quoted s ++ r = '"' :: (s ++ '"' :: r) := by simp [quoted]
    rw [this]
    rfl
  rewrite [readString?, hopen]
  simp only [Option.bind_eq_bind, Option.bind_some]
  rewrite [h.readLiteral?_append]
  rfl

/-- A reference that suits a kind is read back as one of that kind. -/
theorem read?_text {r : Reference} (h : r.Valid) {k : ReferenceKind} (hk : r.suits k = true)
    {s : Text} (hs : ∀ t, r = other t → s = []) : read? (some k) (r.text ++ s) = some (r, s) := by
  cases r with
  | string t =>
    obtain rfl : k = .string := by cases k <;> first | rfl | cases hk
    rw [read?, text_string, readString?_quoted (enclosed_escape t), unescapeUnits_escape]
    simp [Except.toOption, ofUnits?_units]
  | units us =>
    obtain rfl : k = .string := by cases k <;> first | rfl | cases hk
    have hus : ofUnits? us = none := h
    rw [read?, text_units, readString?_quoted (enclosed_escapeUnits us), unescapeUnits_escapeUnits]
    simp [Except.toOption, hus]
  | type d =>
    obtain rfl : k = .type := by cases k <;> first | rfl | cases hk
    obtain ⟨t, ht, rfl⟩ := h
    rw [read?, text, TypeDescriptor.read?_jni ht]
    rfl
  | field f =>
    obtain rfl : k = .field := by cases k <;> first | rfl | cases hk
    rw [read?, text, FieldRef.read?_text h]
    rfl
  | method m =>
    obtain rfl : k = .method := by cases k <;> first | rfl | cases hk
    rw [read?, text, MethodRef.read?_text h]
    rfl
  | prototype d =>
    obtain rfl : k = .prototype := by cases k <;> first | rfl | cases hk
    obtain ⟨p, hp, rfl⟩ := h
    rw [read?, text, Prototype.read?_jni hp]
    rfl
  | other t =>
    rw [hs t rfl, List.append_nil]
    have ht : trimRight t = t := trimRight_eq_self h.1
    cases k <;> first
      | (cases hk; done)
      | rw [read?, text, ht]

/-- A string is read from a whole literal, and what follows the literal is left. -/
theorem exists_of_readString? {s t : Text} {r : Reference} (h : readString? s = some (r, t)) :
    (∃ b, s = quoted b ++ t ∧ Literal.after .outside (quoted b) = .outside) ∧
      r.Valid ∧ r.suits .string = true := by
  simp only [readString?, Option.bind_eq_bind, Option.bind_eq_some_iff] at h
  obtain ⟨a, ha, ⟨b, x⟩, hb, us, -, h⟩ := h
  obtain ⟨rfl, hafter⟩ := exists_of_readLiteral? (by simp) hb
  have hs : s = quoted b ++ x := by simp [eq_append_of_after? ha, quoted]
  have hplace : Literal.after .outside (quoted b) = .outside := hafter
  split at h
  · cases h
    exact ⟨⟨b, hs, hplace⟩, trivial, rfl⟩
  · next hu =>
    cases h
    exact ⟨⟨b, hs, hplace⟩, hu, rfl⟩

theorem valid_of_read? {k : Option ReferenceKind} {s t : Text} {r : Reference}
    (h : read? k s = some (r, t)) (hs : Unspaced s) (hn : '\n' ∉ s) : r.Valid := by
  unfold read? at h
  split at h
  · exact (exists_of_readString? h).2.1
  · obtain ⟨⟨d, x⟩, hd, he⟩ := Option.map_eq_some_iff.1 h
    cases he
    exact ⟨d, (TypeDescriptor.eq_of_read? hd).2, rfl⟩
  · obtain ⟨⟨f, x⟩, hf, he⟩ := Option.map_eq_some_iff.1 h
    cases he
    exact FieldRef.valid_of_read? hf hn
  · obtain ⟨⟨m, x⟩, hm, he⟩ := Option.map_eq_some_iff.1 h
    cases he
    exact MethodRef.valid_of_read? hm hn
  · obtain ⟨⟨p, x⟩, hp, he⟩ := Option.map_eq_some_iff.1 h
    cases he
    exact ⟨p, (Prototype.eq_of_read? hp).2, rfl⟩
  all_goals
    cases h
    refine ⟨endsDark_trimRight s, ?_, fun hm => hn (mem_of_mem_trimRight hm)⟩
    obtain ⟨b, -, hb⟩ := exists_trimRight s
    intro c hc
    apply hs c
    rw [hb, List.head?_append, hc]
    rfl

/-- What a reference is read from holds no comment, and neither does what is written for it, in
front of the same text. The place behind it is not guarded, unless nothing follows. -/
theorem quiet_of_read? {k : Option ReferenceKind} {s t : Text} {r : Reference}
    (h : read? k s = some (r, t)) {p : Literal} (hp : p ≠ .guarded)
    (hk : k = some .string → p = .outside) (hq : Quiet p s) :
    Quiet p (r.text ++ t) ∧ (p.after r.text ≠ .guarded ∨ t = []) := by
  unfold read? at h
  split at h
  · obtain rfl := hk rfl
    obtain ⟨⟨b, rfl, hplace⟩, -, hsuits⟩ := exists_of_readString? h
    obtain ⟨hr, hafter⟩ := quiet_text hsuits
    have ht : Quiet .outside t := by
      rw [← hplace]
      exact hq.right
    rw [hafter]
    exact ⟨quiet_append.2 ⟨hr, by rw [hafter]; exact ht⟩, .inl (by simp)⟩
  · obtain ⟨⟨d, x⟩, hd, he⟩ := Option.map_eq_some_iff.1 h
    cases he
    obtain ⟨rfl, -⟩ := TypeDescriptor.eq_of_read? hd
    exact ⟨hq, .inl (p.after_ne_guarded d.jni_ne_nil d.getLast?_jni)⟩
  · obtain ⟨⟨f, x⟩, hf, he⟩ := Option.map_eq_some_iff.1 h
    cases he
    obtain ⟨-, -, -, -, -, -, -, d, -, hd⟩ := FieldRef.exists_of_read? hf
    refine ⟨FieldRef.quiet_of_read? hf hp hq, .inl (p.after_ne_guarded ?_ ?_)⟩
    · simp [text, FieldRef.text]
    · rw [text, FieldRef.text, hd, List.getLast?_append_of_ne_nil _ d.jni_ne_nil]
      exact d.getLast?_jni
  · obtain ⟨⟨m, x⟩, hm, he⟩ := Option.map_eq_some_iff.1 h
    cases he
    obtain ⟨-, -, -, -, -, -, -, d, hv, hd⟩ := MethodRef.exists_of_read? hm
    refine ⟨MethodRef.quiet_of_read? hm hp hq, .inl (p.after_ne_guarded ?_ ?_)⟩
    · simp [text, MethodRef.text]
    · rw [text, MethodRef.text, hd,
        List.getLast?_append_of_ne_nil _ (Prototype.isWord_jni hv).ne_nil]
      exact d.getLast?_jni
  · obtain ⟨⟨d, x⟩, hd, he⟩ := Option.map_eq_some_iff.1 h
    cases he
    obtain ⟨rfl, hv⟩ := Prototype.eq_of_read? hd
    exact ⟨hq, .inl (p.after_ne_guarded (Prototype.isWord_jni hv).ne_nil d.getLast?_jni)⟩
  all_goals
    cases h
    obtain ⟨b, -, hb⟩ := exists_trimRight s
    rw [hb] at hq
    exact ⟨by rw [List.append_nil]; exact hq.left, .inr rfl⟩

theorem endsDark_text {r : Reference} (h : r.Valid) : EndsDark r.text := by
  have quote : ∀ s : Text, EndsDark (quoted s) := by
    intro s
    rw [quoted]
    apply EndsDark.append _ (by simp)
    intro c hc
    cases hc
    decide
  cases r with
  | string s => exact quote _
  | units us => exact quote _
  | type d =>
    obtain ⟨t, ht, rfl⟩ := h
    exact (TypeDescriptor.isWord_jni ht).endsDark
  | field f =>
    obtain ⟨t, ht, hd⟩ := h.descriptor
    rw [text, FieldRef.text, hd]
    exact (TypeDescriptor.isWord_jni ht).endsDark.append _ t.jni_ne_nil
  | method m =>
    obtain ⟨p, hp, hd⟩ := h.descriptor
    rw [text, MethodRef.text, hd]
    exact (Prototype.isWord_jni hp).endsDark.append _ (Prototype.isWord_jni hp).ne_nil
  | prototype d =>
    obtain ⟨p, hp, rfl⟩ := h
    exact (Prototype.isWord_jni hp).endsDark
  | other s => exact h.1

theorem unspaced_text_append {r : Reference} (h : r.Valid) (s : Text)
    (hs : ∀ t, r = other t → s = []) : Unspaced (r.text ++ s) := by
  have word : ∀ w : Text, IsWord w → Unspaced (w ++ s) :=
    fun w hw => (hw.startsDark.append s hw.ne_nil).unspaced
  have member : ∀ a t : Text, Neat a → Unspaced (a ++ "->" ++ t) := by
    intro a t ha
    rw [List.append_assoc]
    cases a with
    | nil => intro c hc; cases hc; decide
    | cons c a => exact (ha.startsDark.append _ (by simp)).unspaced
  cases r with
  | string t => intro c hc; cases hc; decide
  | units us => intro c hc; cases hc; decide
  | type d =>
    obtain ⟨t, ht, rfl⟩ := h
    exact word _ (TypeDescriptor.isWord_jni ht)
  | field f =>
    have : (field f).text ++ s = f.owner ++ "->" ++ (f.name ++ ":" ++ f.descriptor ++ s) := by
      simp [text, FieldRef.text]
    rw [this]
    exact member _ _ h.owner
  | method m =>
    have : (method m).text ++ s = m.owner ++ "->" ++ (m.name ++ m.descriptor ++ s) := by
      simp [text, MethodRef.text]
    rw [this]
    exact member _ _ h.owner
  | prototype d =>
    obtain ⟨p, hp, rfl⟩ := h
    exact word _ (Prototype.isWord_jni hp)
  | other t =>
    rw [hs t rfl, List.append_nil]
    exact h.2.1

theorem newline_not_mem_text {r : Reference} (h : r.Valid) : '\n' ∉ r.text := by
  have word : ∀ w : Text, IsWord w → '\n' ∉ w := fun w hw hc => hw.dark _ hc (by decide)
  have quote : ∀ s : Text, '\n' ∉ s → '\n' ∉ quoted s := by
    intro s hs
    simpa [quoted] using hs
  cases r with
  | string s => exact quote _ (printed_escape s).newline_not_mem
  | units us => exact quote _ (printed_escapeUnits us).newline_not_mem
  | type d =>
    obtain ⟨t, ht, rfl⟩ := h
    exact word _ (TypeDescriptor.isWord_jni ht)
  | field f =>
    obtain ⟨t, ht, hd⟩ := h.descriptor
    have := word _ (TypeDescriptor.isWord_jni ht)
    simp [text, FieldRef.text, h.owner.newline, h.name.newline, hd, this]
  | method m =>
    obtain ⟨p, hp, hd⟩ := h.descriptor
    have := word _ (Prototype.isWord_jni hp)
    simp [text, MethodRef.text, h.owner.newline, h.name.newline, hd, this]
  | prototype d =>
    obtain ⟨p, hp, rfl⟩ := h
    exact word _ (Prototype.isWord_jni hp)
  | other s => exact h.2.2

/-- What follows a reference that was read. -/
theorem suffix_of_read? {k : Option ReferenceKind} {s t : Text} {r : Reference}
    (h : read? k s = some (r, t)) : t <:+ s := by
  unfold read? at h
  split at h
  · obtain ⟨⟨b, hs, -⟩, -⟩ := exists_of_readString? h
    exact ⟨quoted b, hs.symm⟩
  · obtain ⟨⟨d, x⟩, hd, he⟩ := Option.map_eq_some_iff.1 h
    cases he
    exact ⟨_, (TypeDescriptor.eq_of_read? hd).1.symm⟩
  · obtain ⟨⟨f, x⟩, hf, he⟩ := Option.map_eq_some_iff.1 h
    cases he
    obtain ⟨a, n, rfl, -⟩ := FieldRef.exists_of_read? hf
    exact ⟨a ++ ("->" ++ (n ++ ':' :: f.descriptor)), by simp⟩
  · obtain ⟨⟨m, x⟩, hm, he⟩ := Option.map_eq_some_iff.1 h
    cases he
    obtain ⟨a, n, rfl, -⟩ := MethodRef.exists_of_read? hm
    exact ⟨a ++ ("->" ++ (n ++ m.descriptor)), by simp⟩
  · obtain ⟨⟨d, x⟩, hd, he⟩ := Option.map_eq_some_iff.1 h
    cases he
    exact ⟨_, (Prototype.eq_of_read? hd).1.symm⟩
  all_goals
    cases h
    exact List.nil_suffix

end Reference

/-! ### Operands -/

namespace Operand

def Valid : Operand → Prop
  | label l => l.Valid
  | reference r => r.Valid
  | _ => True

/-- Call sites and method handles, which run to the end of their line. -/
def isOther : Operand → Bool
  | reference (.other _) => true
  | _ => false

/-- Operands without strings, names or descriptors. -/
def isSimple : Operand → Bool
  | reference _ => false
  | _ => true

theorem text_list (f : Format) (rs : List Register) : (list rs).text f = Register.listText rs := rfl

/-- An operand is read back as one of its kind. -/
theorem read?_text {op : Operand} (h : op.Valid) {target : Option ReferenceKind}
    (ht : ∀ r, op = reference r → target.any r.suits) (f : Format) {s : Text} (hs : Separated s)
    (ho : op.isOther → s = []) : read? op.kind target (op.text f ++ s) = some (op, s) := by
  cases op with
  | register r => rw [kind, read?, text, Register.read?_text r hs]; rfl
  | list rs => rw [kind, read?, text_list, Register.readList?_listText rs s]; rfl
  | range r => rw [kind, read?, text, RegisterRange.read?_text r s]; rfl
  | literal n =>
    have hwidth : ∀ q : Prop, [Decidable q] → ((if q then "L" else "" : String) : Text) = [] ∨
        ((if q then "L" else "" : String) : Text) = ['L'] := by
      intro q _
      by_cases hq : q
      · rw [if_pos hq]
        exact .inr rfl
      · rw [if_neg hq]
        exact .inl rfl
    rw [kind, read?, text, Numeral.readInt64?_hex n (hwidth _) hs]
    rfl
  | label l => rw [kind, read?, text, Label.read?_text h hs]; rfl
  | reference r =>
    obtain ⟨k, rfl, hk⟩ := Option.any_eq_true _ _ |>.1 (ht r rfl)
    have : ∀ t, r = .other t → s = [] := by
      rintro t rfl
      exact ho rfl
    rw [kind, read?, text, Reference.read?_text h hk this]
    rfl

theorem valid_of_read? {k : OperandKind} {target : Option ReferenceKind} {s t : Text} {op : Operand}
    (h : read? k target s = some (op, t)) (hs : Unspaced s) (hn : '\n' ∉ s) :
    op.Valid ∧ op.kind = k := by
  unfold read? at h
  split at h
  case h_5 =>
    obtain ⟨⟨l, x⟩, hl, he⟩ := Option.map_eq_some_iff.1 h
    cases he
    exact ⟨(Label.valid_of_read? hl).1, rfl⟩
  case h_6 =>
    obtain ⟨⟨r, x⟩, hr, he⟩ := Option.map_eq_some_iff.1 h
    cases he
    exact ⟨Reference.valid_of_read? hr hs hn, rfl⟩
  all_goals
    obtain ⟨x, -, he⟩ := Option.map_eq_some_iff.1 h
    cases he
    exact ⟨trivial, rfl⟩

theorem isPlain_of_mem_text {op : Operand} (h : op.Valid) (hs : op.isSimple) (f : Format) {c : Char}
    (hc : c ∈ op.text f) : IsPlain c := by
  cases op with
  | register r => exact Register.isPlain_of_mem_text hc
  | list rs => exact Register.isPlain_of_mem_listText hc
  | range r => exact RegisterRange.isPlain_of_mem_text hc
  | literal n =>
    rcases List.mem_append.1 hc with hc | hc
    · exact Numeral.isPlain_of_mem_hex hc
    · split at hc
      · rw [List.mem_singleton.1 hc]; decide
      · cases hc
  | label l => exact Label.isPlain_of_mem_text h hc
  | reference r => cases hs

/-- A simple operand is passed over without opening a string. -/
theorem passes_of_read? {k : OperandKind} {target : Option ReferenceKind} {s t : Text} {op : Operand}
    (h : read? k target s = some (op, t)) (hs : op.isSimple) : Passes s t := by
  unfold read? at h
  split at h <;> obtain ⟨⟨x, r⟩, hx, he⟩ := Option.map_eq_some_iff.1 h <;> cases he
  · exact Register.passes_of_read? hx
  · exact Register.passes_of_readList? hx
  · exact RegisterRange.passes_of_read? hx
  · obtain ⟨⟨n, y⟩, hn, he⟩ := Option.map_eq_some_iff.1 hx
    cases he
    exact Numeral.exists_of_read? hn
  · obtain ⟨hv, rfl⟩ := Label.valid_of_read? hx
    exact ⟨_, rfl, fun c hc => Label.isPlain_of_mem_text hv hc⟩
  · cases hs

theorem suffix_of_read? {k : OperandKind} {target : Option ReferenceKind} {s t : Text} {op : Operand}
    (h : read? k target s = some (op, t)) : t <:+ s := by
  by_cases hs : op.isSimple
  · obtain ⟨u, rfl, -⟩ := passes_of_read? h hs
    exact List.suffix_append u t
  · unfold read? at h
    split at h <;> obtain ⟨⟨x, r⟩, hx, he⟩ := Option.map_eq_some_iff.1 h <;> cases he
    case h_6 => exact Reference.suffix_of_read? hx
    all_goals exact absurd rfl hs

/-! ### Operands on a line -/

theorem endsDark_text {op : Operand} (h : op.Valid) (f : Format) : EndsDark (op.text f) := by
  have number : ∀ (c : Char) (n : Nat), EndsDark (c :: Numeral.decimal n) := by
    intro c n
    apply EndsDark.append [c] Nat.toDigits_ne_nil
    exact fun d hd => Numeral.not_isBlank_of_mem_decimal (List.mem_of_mem_getLast? hd)
  have close : ∀ s : Text, EndsDark (braced s) := by
    intro s
    apply EndsDark.append _ (by simp)
    intro c hc
    cases hc
    decide
  cases op with
  | register r => cases r <;> exact number _ _
  | list rs => exact close _
  | range r => exact close _
  | literal n =>
    rw [text]
    split
    · apply EndsDark.append _ (by simp)
      intro c hc
      cases hc
      decide
    · have : Numeral.hex n ++ ("" : Text) = Numeral.hex n := List.append_nil _
      rw [this]
      exact fun d hd => Numeral.not_isBlank_of_mem_hex (List.mem_of_mem_getLast? hd)
  | label l => exact (Label.isWord_text h).endsDark
  | reference r => exact Reference.endsDark_text h

theorem text_ne_nil {op : Operand} (h : op.Valid) (ho : ¬ op.isOther) (f : Format) :
    op.text f ≠ [] := by
  cases op with
  | register r => cases r <;> simp [text, Register.text]
  | list rs => simp [text]
  | range r => simp [text, RegisterRange.text]
  | literal n => simp [text, Numeral.hex]
  | label l => simp [text, Label.text]
  | reference r =>
    cases r with
    | string s => simp [text, Reference.text]
    | units us => simp [text, Reference.text]
    | type d =>
      obtain ⟨t, ht, rfl⟩ := h
      exact t.jni_ne_nil
    | field d => simp [text, Reference.text, FieldRef.text]
    | method m => simp [text, Reference.text, MethodRef.text]
    | prototype d =>
      obtain ⟨p, hp, rfl⟩ := h
      exact (Prototype.isWord_jni hp).ne_nil
    | other s => exact absurd rfl ho

theorem startsDark_text {op : Operand} (h : op.Valid) (hs : op.isSimple) (f : Format) :
    StartsDark (op.text f) := by
  cases op with
  | register r => cases r <;> intro c hc <;> cases hc <;> decide
  | list rs => intro c hc; cases hc; decide
  | range r => intro c hc; cases hc; decide
  | literal n =>
    have : StartsDark (Numeral.hex n) :=
      fun d hd => Numeral.not_isBlank_of_mem_hex (List.mem_of_mem_head? hd)
    exact this.append _ (by simp [Numeral.hex])
  | label l => exact (Label.isWord_text h).startsDark
  | reference r => cases hs

theorem unspaced_text_append {op : Operand} (h : op.Valid) (f : Format) {s : Text}
    (ho : op.isOther → s = []) : Unspaced (op.text f ++ s) := by
  by_cases hs : op.isSimple
  · have hno : ¬ op.isOther := by cases op <;> simp_all [isSimple, isOther]
    exact ((startsDark_text h hs f).append s (text_ne_nil h hno f)).unspaced
  · cases op with
    | reference r =>
      apply Reference.unspaced_text_append h
      rintro t rfl
      exact ho rfl
    | _ => exact absurd rfl hs

theorem newline_not_mem_text {op : Operand} (h : op.Valid) (f : Format) : '\n' ∉ op.text f := by
  have number : ∀ n : Nat, '\n' ∉ Numeral.decimal n :=
    fun n hn => Numeral.not_isBlank_of_mem_decimal hn (by decide)
  have register : ∀ r : Register, '\n' ∉ r.text := by
    intro r
    cases r with
    | v n => simp [Register.text, number n.toNat]
    | p n => simp [Register.text, number n.toNat]
  cases op with
  | register r => exact register r
  | list rs =>
    have : '\n' ∉ join ", " (rs.map Register.text) := by
      cases rs with
      | nil => simp [join]
      | cons r rs =>
        rw [List.map_cons, join_cons, List.mem_append, not_or, List.mem_flatMap]
        refine ⟨register r, ?_⟩
        rintro ⟨w, hw, hn⟩
        obtain ⟨q, -, rfl⟩ := List.mem_map.1 hw
        simp [further, register q] at hn
    simpa [text] using this
  | range r => simp [text, RegisterRange.text, register]
  | literal n =>
    have : '\n' ∉ Numeral.hex n := fun hn => Numeral.not_isBlank_of_mem_hex hn (by decide)
    rw [text]
    split <;> simpa using this
  | label l => exact fun hn => (Label.isWord_text h).dark _ hn (by decide)
  | reference r => exact Reference.newline_not_mem_text h

end Operand

end DalvikPatch
