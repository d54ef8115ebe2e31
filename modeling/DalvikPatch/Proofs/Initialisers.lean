import DalvikPatch.Proofs.Listings
import DalvikPatch.Proofs.Visits

/-! The values of fields. Behind the equals sign stands a constant, and behind that perhaps a comment. The
comment is cut off before the constant is looked at, by a reader that knows the quotes of strings and not
those of characters. So every string, number and word is kept, and a character if it is not the sign of a
comment, nor the quote of a string in front of a comment. -/

namespace DalvikPatch

open Text Line

/-! ### Constants in front of comments -/

namespace Text

/-- What starts a comment is not kept whole. -/
theorem length_cutCommentFrom_lt {p : Literal} {s : Text} (h : ¬ Quiet p s) (t : Text) :
    (cutCommentFrom p (s ++ t)).length < s.length := by
  induction s generalizing p with
  | nil => exact absurd (quiet_nil p) h
  | cons c s ih =>
    rw [List.cons_append, cutCommentFrom]
    split
    · exact Nat.succ_pos _
    · next hc => exact Nat.succ_lt_succ (ih fun hs => h (quiet_cons.2 ⟨hc, hs⟩))

theorem Blanks.quiet {b : Text} (hb : Blanks b) (p : Literal) : Quiet p b :=
  quiet_of_not_mem fun h => (hb.isPlain _ h).2.2 rfl

theorem quiet_outside {s : Text} (h : ∀ c ∈ s, c ≠ '"' ∧ c ≠ '#') :
    Quiet .outside s ∧ Literal.after .outside s = .outside := by
  refine ⟨quiet_of_not_mem fun hm => (h _ hm).2 rfl, ?_⟩
  induction s with
  | nil => rfl
  | cons c s ih =>
    have hc : Literal.outside.next c = .outside := if_neg (h c (List.mem_cons_self ..)).1
    rw [Literal.after_cons, hc]
    exact ih fun d hd => h d (List.mem_cons_of_mem _ hd)

/-- Inside of a literal a comment is kept. -/
theorem exists_cutCommentFrom_comment {p : Literal} (hp : p ≠ .outside) {b : Text} (hb : Blanks b)
    (c : Text) : ∃ r, cutCommentFrom p (b ++ '#' :: c) = b ++ '#' :: r := by
  have hafter : p.after b ≠ .outside := by
    cases b with
    | nil => exact hp
    | cons x b =>
      have hx := hb.isPlain x (List.mem_cons_self ..)
      have hplace : p.next x = .inside := by
        cases p with
        | outside => exact absurd rfl hp
        | inside => exact Literal.next_of_isPlain (by simp) hx
        | guarded => rfl
      have hrest : ∀ y ∈ b, IsPlain y := fun y hy => hb.isPlain y (List.mem_cons_of_mem _ hy)
      rw [Literal.after_cons, hplace, (quiet_of_isPlain (by simp) hrest).2]
      simp
  refine ⟨cutCommentFrom ((p.after b).next '#') c, ?_⟩
  rw [cutCommentFrom_append (hb.quiet p), cutCommentFrom, if_neg fun h => hafter h.1]

/-- Blanks at the end of a line make no difference to what is read. -/
theorem trim_cutComment_append_blanks (s : Text) {b : Text} (hb : Blanks b) :
    trim (cutComment (s ++ b)) = trim (cutComment s) := by
  have h : ∀ p, ∃ b', Blanks b' ∧ cutCommentFrom p (s ++ b) = cutCommentFrom p s ++ b' := by
    induction s with
    | nil => exact fun p => ⟨b, hb, hb.quiet p⟩
    | cons c s ih =>
      intro p
      rw [List.cons_append, cutCommentFrom, cutCommentFrom]
      split
      · exact ⟨[], blanks_nil, rfl⟩
      · obtain ⟨b', hb', hs⟩ := ih (p.next c)
        exact ⟨b', hb', congrArg (c :: ·) hs⟩
  obtain ⟨b', hb', hs⟩ := h .outside
  rw [cutComment, hs, trim_append_blanks _ hb', cutComment]

theorem trim_cutComment_blanks_append {b : Text} (hb : Blanks b) (s : Text) :
    trim (cutComment (b ++ s)) = trim (cutComment s) := by
  rw [cutComment, cutCommentFrom_append (hb.quiet _), (quiet_of_isPlain (by simp) hb.isPlain).2,
    trim_blanks_append hb, cutComment]

theorem endsDark_append_singleton (s : Text) {c : Char} (hc : ¬ isBlank c) : EndsDark (s ++ [c]) := by
  simpa [EndsDark] using hc

/-- A text in front of a comment is kept exactly if no comment starts in it, and the reader is outside of a
literal behind it unless nothing but blanks follows. -/
theorem trim_cutComment_append_iff {s t : Text} (hne : s ≠ []) (hs : StartsDark s) (he : EndsDark s)
    (ht : Idle t) :
    trim (cutComment (s ++ t)) = s ↔ Quiet .outside s ∧ (Literal.after .outside s = .outside ∨ Blanks t) := by
  constructor
  · intro h
    have hquiet : Quiet .outside s := by
      by_contra hnot
      have hlt := length_cutCommentFrom_lt hnot t
      have hle : s.length ≤ (cutComment (s ++ t)).length := by
        conv => lhs; rw [← h]
        exact List.IsInfix.length_le <| trim_infix _
      exact absurd hlt (Nat.not_lt.2 hle)
    refine ⟨hquiet, ?_⟩
    by_contra hnot
    obtain ⟨hplace, hblanks⟩ := not_or.1 hnot
    obtain ⟨b, c, hb, rfl, hc⟩ := ht
    cases c with
    | nil => exact hblanks (by rwa [List.append_nil])
    | cons x c =>
      obtain rfl := hc x rfl
      obtain ⟨r, hr⟩ := exists_cutCommentFrom_comment hplace hb c
      have hcomment : trimRight (b ++ '#' :: r) ≠ [] := by
        intro hnil
        obtain ⟨blanks, hall, hsplit⟩ := exists_trimRight (b ++ '#' :: r)
        rw [hnil, List.nil_append] at hsplit
        exact absurd (hall '#' (hsplit ▸ by simp)) (by decide)
      rw [cutComment, cutCommentFrom_append hquiet, hr, trim_eq_trimRight (hs.append _ hne),
        trimRight_append s hcomment] at h
      exact hcomment (List.append_right_eq_self.1 h)
  · rintro ⟨hquiet, hafter⟩
    have hcut : Blanks (cutCommentFrom (Literal.after .outside s) t) := by
      rcases hafter with hafter | hblanks
      · rw [hafter]
        exact ht.blanks_cutComment
      · rw [hblanks.quiet]
        exact hblanks
    rw [cutComment, cutCommentFrom_append hquiet, trim_append_blanks s hcut, trim_eq_self hs he]

/-! ### Constants -/

/-- What may stand between the quotes of a string: a backslash guards what follows it, and no quote stands
unguarded. -/
inductive Escaped : Text → Prop
  | nil : Escaped []
  | char {c : Char} {s : Text} : c ≠ '"' → c ≠ '\\' → Escaped s → Escaped (c :: s)
  | guarded {c : Char} {s : Text} : Escaped s → Escaped ('\\' :: c :: s)

theorem Escaped.enclosed {s : Text} (h : Escaped s) : Enclosed s := by
  induction h with
  | nil => exact enclosed_nil
  | char hq hb _ ih => exact (enclosed_char hq hb).append ih
  | guarded _ ih => exact (enclosed_guarded _).append ih

/-- A string between its quotes. -/
def IsString (s : Text) : Prop := ∃ b, Escaped b ∧ s = quoted b

/-- A character between its quotes: by itself, or behind a backslash and perhaps by the digits of its code. -/
inductive IsCharacter : Text → Prop
  | char {c : Char} : c ≠ '\'' → c ≠ '\\' → IsCharacter ['\'', c, '\'']
  | guarded {c : Char} {digits : Text} : (∀ d ∈ digits, Numeral.isDigitOf 16 d) →
      IsCharacter ('\'' :: '\\' :: c :: (digits ++ ['\'']))

/-- A number, or a word such as true or null. -/
structure IsSimple (s : Text) : Prop where
  word : IsWord s
  plain : ∀ c ∈ s, IsPlain c

variable {s t : Text}

theorem trim_cutComment_string (h : IsString s) (ht : Idle t) : trim (cutComment (s ++ t)) = s := by
  obtain ⟨b, hb, rfl⟩ := h
  obtain ⟨hquiet, hafter⟩ := hb.enclosed.quiet_quoted
  have hstart : StartsDark (quoted b) := by
    simp [quoted, StartsDark]
    decide
  have hend : EndsDark (quoted b) := endsDark_append_singleton _ (by decide)
  exact (trim_cutComment_append_iff (by simp [quoted]) hstart hend ht).2 ⟨hquiet, .inl hafter⟩

theorem trim_cutComment_simple (h : IsSimple s) (ht : Idle t) : trim (cutComment (s ++ t)) = s := by
  obtain ⟨hquiet, hafter⟩ := quiet_of_isPlain (p := .outside) (by simp) h.plain
  exact (trim_cutComment_append_iff h.word.ne_nil h.word.startsDark h.word.endsDark ht).2
    ⟨hquiet, .inl hafter⟩

namespace IsCharacter

theorem dark (h : IsCharacter s) : s ≠ [] ∧ StartsDark s ∧ EndsDark s := by
  have hquote : ∀ r : Text, StartsDark ('\'' :: r) := fun r => by
    simp [StartsDark]
    decide
  cases h with
  | @char c => exact ⟨by simp, hquote _, endsDark_append_singleton ['\'', c] (by decide)⟩
  | @guarded c digits =>
    exact ⟨by simp, hquote _, endsDark_append_singleton ('\'' :: '\\' :: c :: digits) (by decide)⟩

/-- The sign of a comment starts one between the quotes of a character too. -/
theorem quiet_iff (h : IsCharacter s) : Quiet .outside s ↔ '#' ∉ s := by
  refine ⟨fun hquiet hmem => ?_, quiet_of_not_mem⟩
  cases h with
  | char =>
    obtain rfl : '#' = _ := by simpa using hmem
    exact (quiet_cons.1 (quiet_cons.1 hquiet).2).1 ⟨rfl, rfl⟩
  | @guarded c digits hdigits =>
    have hdigit : '#' ∉ digits := fun hm => absurd (hdigits _ hm) (by decide)
    obtain rfl : '#' = c := by simpa [hdigit] using hmem
    exact (quiet_cons.1 (quiet_cons.1 (quiet_cons.1 hquiet).2).2).1 ⟨rfl, rfl⟩

/-- The quote of a string opens one between the quotes of a character too. -/
theorem after_iff (h : IsCharacter s) : Literal.after .outside s = .outside ↔ '"' ∉ s := by
  cases h with
  | @char c =>
    by_cases hc : c = '"'
    · subst hc
      decide
    · have hc' : '"' ≠ c := fun h => hc h.symm
      simp [Literal.next, hc, hc']
  | @guarded c digits hdigits =>
    have hplain : ∀ d ∈ digits, IsPlain d := fun d hd => Numeral.isPlain_of_isDigitOf (hdigits d hd)
    have hquote : '"' ∉ digits := fun hm => (hplain _ hm).1 rfl
    by_cases hc : c = '"'
    · subst hc
      simp [Literal.next, (quiet_of_isPlain (p := .inside) (by simp) hplain).2]
    · have hc' : '"' ≠ c := fun h => hc h.symm
      simp [Literal.next, hc, hc', hquote, (quiet_of_isPlain (p := .outside) (by simp) hplain).2]

end IsCharacter

theorem trim_cutComment_character_iff (h : IsCharacter s) (ht : Idle t) :
    trim (cutComment (s ++ t)) = s ↔ '#' ∉ s ∧ ('"' ∉ s ∨ Blanks t) := by
  obtain ⟨hne, hstart, hend⟩ := h.dark
  rw [trim_cutComment_append_iff hne hstart hend ht, h.quiet_iff, h.after_iff]

/-- The comment stays with the character. -/
example : trim (cutComment "'\"' # c") = "'\"' # c" := by decide

end Text

/-! ### Lines with a value -/

namespace AccessFlags

/-- No modifier has a colon in it. -/
theorem ofKeyword?_colon {w : Text} (h : ':' ∈ w) (c : Carrier) : ofKeyword? w c = none := by
  have hwords : ':' ∉ ("strict" : Text) ∧ ∀ m ∈ modifiers, ':' ∉ m.word := by decide
  by_contra hsome
  obtain ⟨f, hf⟩ := Option.ne_none_iff_exists'.1 hsome
  obtain ⟨m, hm, -⟩ := Option.map_eq_some_iff.1 hf
  have hfound := List.find?_some hm
  rw [Bool.and_eq_true, beq_iff_eq] at hfound
  by_cases hw : w = "strict"
  · exact hwords.1 (hw ▸ h)
  · rw [if_neg hw] at hfound
    exact hwords.2 m (List.mem_of_find?_eq_some hm) (hfound.1 ▸ h)

theorem ofModifiers_unknown {n : Nat} {c : Carrier} {ws : List Text} {f : AccessFlags} {w : Text}
    (h : ofModifiers n c ws = .ok f) (hw : ofKeyword? w c = none) :
    ofModifiers n c (ws ++ [w]) = .mistake n (.unknownModifier w) := by
  induction ws generalizing f with
  | nil => rw [List.nil_append, ofModifiers, hw]
  | cons v ws ih =>
    rw [ofModifiers] at h
    rw [List.cons_append, ofModifiers]
    cases hv : ofKeyword? v c with
    | none =>
      rw [hv] at h
      cases h
    | some g =>
      rw [hv] at h
      obtain ⟨g', hg', -⟩ := exists_of_map h
      simp only [ih hg']
      rfl

end AccessFlags

namespace Field

variable {f : Field} {body indent w : Text}

/-- What stands behind the keyword of a field and declares it: modifiers, and the name with the type. -/
structure Announces (f : Field) (body : Text) : Prop where
  starts : StartsBlank body
  modifiers : ∃ ms : List Modifier, (∀ m ∈ ms, m ∈ AccessFlags.modifiers ∧ m.suits .field) ∧
    f.flags = AccessFlags.all ms ∧ words body = ms.map Modifier.word ++ [f.declared]
  colon : ':' ∉ f.name
  type : f.type.Valid
  unquoted : ∀ c ∈ f.declared, c ≠ '"' ∧ c ≠ '#'

/-- The line of a field with what stands behind its equals sign. -/
def initialised (body w : Text) : Text := ".field" ++ (body ++ (" = " ++ w))

theorem initialised_eq (body w : Text) : initialised body w = ".field" ++ (body ++ (" = " ++ w)) := rfl

theorem startsDark_field (s : Text) : StartsDark (".field" ++ s) :=
  StartsDark.append s (by simp) (by decide)

theorem startsWith_initialised (hi : Blanks indent) (body w : Text) :
    startsWith ".field" (trim (indent ++ initialised body w)) = true := by
  have hend : EndsDark ".field" := by decide
  rw [trim_blanks_append hi, initialised_eq, trim_eq_trimRight (startsDark_field _),
    trimRight_append_of_endsDark hend]
  exact startsWith_append ".field" _

theorem colon_mem_declared (f : Field) : ':' ∈ f.declared := by simp [declared]

namespace Announces

theorem isWord (h : f.Announces body) : IsWord f.declared := by
  obtain ⟨ms, -, -, hwords⟩ := h.modifiers
  exact isWord_of_mem_words (s := body) (by rw [hwords]; simp)

theorem exists_flags (h : f.Announces body) :
    ∃ ws, words body = ws ++ [f.declared] ∧ (∀ v ∈ ws, v ≠ "=" ∧ ∀ c ∈ v, IsPlain c) ∧
      ∀ n, AccessFlags.ofModifiers n .field ws = .ok f.flags := by
  obtain ⟨ms, hms, hflags, hwords⟩ := h.modifiers
  refine ⟨ms.map Modifier.word, hwords, fun v hv => ?_, hflags ▸ AccessFlags.ofModifiers_map hms⟩
  obtain ⟨m, hm, rfl⟩ := List.mem_map.1 hv
  obtain ⟨-, -, hne, hchars⟩ := AccessFlags.modifier_facts m (hms m hm).1
  exact ⟨hne, fun c hc => (hchars c hc).1⟩

/-- No comment starts in a declaration, and no literal is open behind it. -/
theorem quiet (h : f.Announces body) : Quiet .outside (".field" ++ (body ++ " = ")) ∧
    Literal.after .outside (".field" ++ (body ++ " = ")) = .outside := by
  obtain ⟨ws, hwords, hws, -⟩ := h.exists_flags
  obtain ⟨pre, b, rfl, hb, hpre, -⟩ := exists_of_words_eq_append hwords
  have hplain : ∀ {c : Char}, IsPlain c → c ≠ '"' ∧ c ≠ '#' := fun hc => ⟨hc.1, hc.2.2⟩
  have hkeyword : ∀ c ∈ (".field" : Text), IsPlain c := by decide
  have hsign : ∀ c ∈ (" = " : Text), IsPlain c := by decide
  refine quiet_outside fun c hc => ?_
  simp only [List.mem_append] at hc
  rcases hc with hc | ((hc | hc) | hc) | hc
  · exact hplain (hkeyword c hc)
  · rcases hpre c hc with hc | ⟨v, hv, hc⟩
    · exact hplain (isPlain_of_isBlank hc)
    · exact hplain ((hws v hv).2 c hc)
  · exact h.unquoted c hc
  · exact hplain (hb.isPlain c hc)
  · exact hplain (hsign c hc)

theorem not_infix (h : f.Announces body) : ¬ [' ', '=', ' '] <:+: (".field" ++ body) ++ [' '] := by
  obtain ⟨ws, hwords, hws, -⟩ := h.exists_flags
  have hfield : words (".field" ++ body) = (".field" : Text) :: (ws ++ [f.declared]) := by
    rw [← hwords]
    exact words_word_append ⟨by simp, by decide⟩ h.starts
  apply not_infix_equals
  rw [hfield]
  simp only [List.mem_cons, List.mem_append, List.not_mem_nil, or_false, not_or]
  refine ⟨by decide, fun hm => (hws _ hm).1 rfl, fun heq => ?_⟩
  have hcolon := f.colon_mem_declared
  rw [← heq] at hcolon
  exact absurd hcolon (by decide)

theorem readHeader_field (h : f.Announces body) (n : Nat) :
    readHeader ".field" .field n (".field" ++ body) = .ok (f.flags, f.declared) := by
  obtain ⟨ws, hwords, -, hflags⟩ := h.exists_flags
  obtain ⟨pre, b, rfl, hb, -, hother⟩ := exists_of_words_eq_append hwords
  have htrim : trim (".field" ++ (pre ++ f.declared ++ b)) = ".field" ++ (pre ++ f.declared) := by
    rw [← List.append_assoc, trim_append_blanks _ hb, trim_eq_self (startsDark_field _)]
    rw [← List.append_assoc]
    exact h.isWord.endsDark.append _ h.isWord.ne_nil
  rw [readHeader, htrim, after?_append]
  simp only [hother _ h.isWord, List.getLast?_append, List.getLast?_singleton, Option.some_or,
    List.dropLast_concat, hflags n]
  rfl

/-- The value is what stands behind the equals sign, up to a comment and between blanks. -/
theorem readLine_value (h : f.Announces body) (hi : Blanks indent) (hw : ¬ Blanks w) (n : Nat) :
    readLine n (trim (indent ++ initialised body w)) =
      .ok { f with value? := some (trim (cutComment w)), annotations := [] } := by
  obtain ⟨b, hb, hsplit⟩ := exists_trimRight w
  have hne : trimRight w ≠ [] := fun hnil => hw (by rw [hsplit, hnil]; exact hb)
  have htrim : trim (indent ++ initialised body w) = ".field" ++ (body ++ " = ") ++ trimRight w := by
    have hassoc : initialised body w = ".field" ++ (body ++ " = ") ++ w := by
      rw [initialised_eq, List.append_assoc, List.append_assoc]
    rw [trim_blanks_append hi, hassoc, trim_eq_trimRight ?_, trimRight_append _ hne]
    rw [List.append_assoc]
    exact startsDark_field _
  have hcut : cutComment (".field" ++ (body ++ " = ") ++ trimRight w) =
      ".field" ++ body ++ (" = " ++ cutComment (trimRight w)) := by
    rw [cutComment, cutCommentFrom_append h.quiet.1, h.quiet.2, ← cutComment]
    simp only [List.append_assoc]
  have hvalue : trim (cutComment w) = trim (cutComment (trimRight w)) := by
    conv => lhs; rw [hsplit, trim_cutComment_append_blanks _ hb]
  have hcolon : cut? ":" f.declared = some (f.name, f.type.jni) := cut?_char h.colon f.type.jni
  rw [htrim, hvalue]
  simp only [readLine, hcut, cut?_equals h.not_infix, bind, Except.bind, h.readHeader_field, hcolon,
    TypeDescriptor.ofJni?_jni h.type]

/-- Without a value the equals sign is taken for the name, and the name for a modifier. -/
theorem readLine_blanks (h : f.Announces body) (hi : Blanks indent) (hw : Blanks w) (n : Nat) :
    readLine n (trim (indent ++ initialised body w)) = .mistake n (.unknownModifier f.declared) := by
  obtain ⟨ws, hwords, -, hflags⟩ := h.exists_flags
  have htrim : trim (indent ++ initialised body w) = ".field" ++ (body ++ " =") := by
    have hend : EndsDark (".field" ++ (body ++ (" =" : Text))) := by
      rw [← List.append_assoc]
      exact EndsDark.append _ (by simp) (by decide)
    have hsplit : initialised body w = ".field" ++ (body ++ (" =" : Text)) ++ (' ' :: w) := by
      simp [initialised_eq]
    have hblank : Blanks (' ' :: w) := Blanks.append (a := [' ']) (by decide) hw
    rw [trim_blanks_append hi, hsplit, trim_append_blanks _ hblank, trim_eq_self (startsDark_field _) hend]
  have hbody : words (body ++ (" =" : Text)) = ws ++ [f.declared] ++ [("=" : Text)] := by
    have hsign : words ("=" : Text) = [("=" : Text)] := words_of_isWord ⟨by simp, by decide⟩
    rw [← hwords, ← hsign]
    exact words_append_cons_blank body (by decide) ("=" : Text)
  have hcut : cutComment (".field" ++ (body ++ (" =" : Text))) = ".field" ++ (body ++ (" =" : Text)) := by
    have hquiet := h.quiet.1
    have hsplit : ".field" ++ (body ++ (" = " : Text)) =
        ".field" ++ (body ++ (" =" : Text)) ++ (" " : Text) := by simp
    rw [hsplit] at hquiet
    exact hquiet.left
  have hsign : cut? " = " (".field" ++ (body ++ (" =" : Text))) = none := by
    rw [← List.append_assoc]
    exact cut?_equals_of_sign h.not_infix
  have hheader : readHeader ".field" .field n (".field" ++ (body ++ (" =" : Text))) =
      .mistake n (.unknownModifier f.declared) := by
    rw [readHeader, ← htrim, trim_trim, htrim, after?_append]
    simp only [hbody, List.getLast?_append, List.getLast?_singleton, Option.some_or, List.dropLast_concat,
      AccessFlags.ofModifiers_unknown (hflags n) (AccessFlags.ofKeyword?_colon f.colon_mem_declared _)]
    rfl
  rw [htrim]
  simp only [readLine, hcut, hsign, bind, Except.bind, hheader]
  rfl

/-- The line that is written for a field announces it. -/
theorem written (h : f.Announces body) : f.Announces (' ' :: (f.flags.text .field ++ f.declared)) where
  starts := by
    simp [StartsBlank]
    decide
  modifiers := by
    obtain ⟨ms, hms, hflags, -⟩ := h.modifiers
    refine ⟨AccessFlags.modifiers.filter fun m => m.suits .field && f.flags.contains m.flag, fun m hm => ?_,
      (AccessFlags.all_filter ⟨ms, hms, hflags⟩).symm, ?_⟩
    · have hfound := List.mem_filter.1 hm
      rw [Bool.and_eq_true] at hfound
      exact ⟨hfound.1, hfound.2.1⟩
    · rw [words_cons_blank (by decide), words_text_append _ _ h.isWord]
      rfl
  colon := h.colon
  type := h.type
  unquoted := h.unquoted

/-- What is written for a field is read back, unless its value is empty. -/
theorem read_written_iff (h : f.Announces body) (hvalid : f.value? ≠ some [] → f.Valid) {x : Line}
    {xs ys : List Line} (hx : x.text = f.header) (hxs : xs.map Line.text = f.writtenAnnotations)
    (hys : isAnnotated ys = false) : Field.read x (xs ++ ys) = .ok (f, ys) ↔ f.value? ≠ some [] := by
  refine ⟨fun hread hnone => ?_, fun hne => read_written (hvalid hne) hx hxs hys⟩
  obtain ⟨g, hg, -⟩ := exists_of_bind hread
  have hheader : f.header = [] ++ initialised (' ' :: (f.flags.text .field ++ f.declared)) [] := by
    rw [header, valueText_of_some hnone, headerText, initialised_eq]
    simp
  rw [Line.trimmed, hx, hheader, h.written.readLine_blanks blanks_nil blanks_nil] at hg
  cases hg

end Announces

end Field

/-! ### Documents with a value -/

namespace Class

/-- A line of a document that gives a field a value, and what stands behind its equals sign. -/
structure GivesValue (s : Text) (l : Line) (ls : List Line) (f : Field) (w : Text) : Prop where
  reads : ReadsMember s l ls
  line : ∃ indent body, Blanks indent ∧ f.Announces body ∧ l.text = indent ++ Field.initialised body w

variable {s : Text} {c : Class} {l : Line} {ls : List Line} {f : Field} {w : Text}

theorem GivesValue.readLine_eq (hl : GivesValue s l ls f w) :
    Field.readLine l.number l.trimmed = if Blanks w then .mistake l.number (.unknownModifier f.declared)
      else .ok { f with value? := some (trim (cutComment w)), annotations := [] } := by
  obtain ⟨indent, body, hi, hbody, hline⟩ := hl.line
  rw [Line.trimmed, hline]
  split
  · next hw => exact hbody.readLine_blanks hi hw _
  · next hw => exact hbody.readLine_value hi hw _

/-- In a document that is read, the line is one of a field of its class. -/
theorem exists_of_givesValue (h : read s = .ok c) (hl : GivesValue s l ls f w) :
    ∃ g rest, Member.read l ls = .ok (.field g, rest) ∧ g ∈ c.fields ∧
      Field.readLine l.number l.trimmed = .ok { g with annotations := [] } ∧
      (g.value? ≠ some [] → g.Valid) := by
  obtain ⟨indent, body, hi, -, hline⟩ := hl.line
  have hn : ∀ k ∈ l :: ls, '\n' ∉ k.text := fun k hk =>
    newline_not_mem_ofText (hl.reads.suffix.subset hk)
  have hstart : startsWith ".field" l.trimmed = true := by
    rw [Line.trimmed, hline]
    exact Field.startsWith_initialised hi body w
  obtain ⟨m, more, hm, hfields⟩ := exists_of_readsMember h hl.reads
  have hfield := hm
  rw [Member.read_field hstart] at hfield
  obtain ⟨⟨g, rest⟩, hread, heq⟩ := exists_of_map hfield
  cases heq
  exact ⟨g, rest, hm, hfields g rfl, (Field.exists_of_read hread hn).1, Field.valid_of_read hread hn⟩

/-- Where nothing stands behind the equals sign the document is not read, and where only a comment does the
value is empty. A string, a number or a word there is the value; so is a character, unless a comment is
cut into it or kept behind it. What is written for the field is read back unless its value is empty. -/
theorem reads_value {s : Text} {l : Line} {ls : List Line} {f : Field} {gap v tail : Text}
    (hl : GivesValue s l ls f (gap ++ (v ++ tail))) (hgap : Blanks gap) (htail : Idle tail) :
    (Blanks (v ++ tail) → ∃ e, read s = .error e) ∧
    (¬ Blanks (v ++ tail) → ∃ value,
      Field.readLine l.number l.trimmed = .ok { f with value? := some value, annotations := [] } ∧
      (v = [] → value = []) ∧ (IsString v ∨ IsSimple v → value = v) ∧
      (IsCharacter v → (value = v ↔ '#' ∉ v ∧ ('"' ∉ v ∨ Blanks tail))) ∧
      ∀ c, read s = .ok c → ∃ g rest, Member.read l ls = .ok (.field g, rest) ∧ g ∈ c.fields ∧
        g = { f with value? := some value, annotations := g.annotations } ∧
        ∀ x xs ys, x.text = g.header → xs.map Line.text = g.writtenAnnotations →
          Field.isAnnotated ys = false → (Field.read x (xs ++ ys) = .ok (g, ys) ↔ value ≠ [])) := by
  have hline := hl.readLine_eq
  constructor
  · intro hblanks
    rw [if_pos (hgap.append hblanks)] at hline
    cases hread : read s with
    | error e => exact ⟨e, rfl⟩
    | ok c =>
      obtain ⟨g, -, -, -, hg, -⟩ := exists_of_givesValue hread hl
      rw [hline] at hg
      cases hg
  · intro hdark
    have hw : ¬ Blanks (gap ++ (v ++ tail)) := fun h => hdark fun c hc => h c (List.mem_append_right _ hc)
    rw [if_neg hw, trim_cutComment_blanks_append hgap] at hline
    refine ⟨trim (cutComment (v ++ tail)), hline, ?_, ?_, fun hv => trim_cutComment_character_iff hv htail,
      fun c hread => ?_⟩
    · rintro rfl
      exact htail.trim_cutComment
    · rintro (hv | hv)
      · exact trim_cutComment_string hv htail
      · exact trim_cutComment_simple hv htail
    · obtain ⟨g, rest, hm, hg, hgline, hvalid⟩ := exists_of_givesValue hread hl
      rw [hline] at hgline
      have hsame : g = { f with
          value? := some (trim (cutComment (v ++ tail))), annotations := g.annotations } :=
        congrArg (fun k : Field => { k with annotations := g.annotations }) (Except.ok.inj hgline.symm)
      have hvalue : g.value? = some (trim (cutComment (v ++ tail))) := by rw [hsame]
      obtain ⟨indent, body, -, hbody, -⟩ := hl.line
      have hannounced : g.Announces body := by
        rw [hsame]
        exact ⟨hbody.starts, hbody.modifiers, hbody.colon, hbody.type, hbody.unquoted⟩
      refine ⟨g, rest, hm, hg, hsame, fun x xs ys hx hxs hys => ?_⟩
      rw [hannounced.read_written_iff hvalid hx hxs hys, hvalue, Ne, Option.some.injEq]

/-- A string with the sign of a comment and a guarded quote in it, and a comment behind it. -/
def stringDocument : Text := ".class La;\n  .field public static a:Lb; =  \"#\\\"\" # \"\n"

theorem reads_value_string :
    GivesValue stringDocument ⟨2, "  .field public static a:Lb; =  \"#\\\"\" # \""⟩ []
      ⟨"a", ⟨0x9⟩, .object ⟨"b"⟩, none, []⟩ (" " ++ ("\"#\\\"\"" ++ " # \"")) ∧
    Blanks " " ∧ IsString "\"#\\\"\"" ∧ Idle " # \"" ∧
    ∃ c, Class.read stringDocument = .ok c ∧ ∃ g ∈ c.fields,
      (g.name = "a" ∧ g.flags = ⟨0x9⟩ ∧ g.type = .object ⟨"b"⟩) ∧ g.value? = some ("\"#\\\"\"" : Text) := by
  have hreads : ReadsMember stringDocument ⟨2, "  .field public static a:Lb; =  \"#\\\"\" # \""⟩ [] :=
    ⟨_, _, [], _, rfl, .here _, rfl⟩
  have hbody : Field.Announces ⟨"a", ⟨0x9⟩, .object ⟨"b"⟩, none, []⟩ " public static a:Lb;" := by
    refine ⟨by decide, ⟨[⟨"public", ⟨0x1⟩, none⟩, ⟨"static", ⟨0x8⟩, none⟩], ?_, rfl, by decide⟩, by decide,
      ⟨by decide, by decide⟩, by decide⟩
    simp [AccessFlags.modifiers, Modifier.suits]
  have hl : GivesValue stringDocument ⟨2, "  .field public static a:Lb; =  \"#\\\"\" # \""⟩ []
      ⟨"a", ⟨0x9⟩, .object ⟨"b"⟩, none, []⟩ (" " ++ ("\"#\\\"\"" ++ " # \"")) :=
    ⟨hreads, "  ", " public static a:Lb;", by decide, hbody, rfl⟩
  have hgap : Blanks " " := by decide
  have hstring : IsString "\"#\\\"\"" :=
    ⟨"#\\\"", .char (by decide) (by decide) (.guarded .nil), rfl⟩
  have htail : Idle " # \"" := ⟨" ", "# \"", hgap, rfl, by decide⟩
  have hread : Class.read stringDocument = .ok ⟨⟨"a"⟩, .empty, none, none, [], [],
      [⟨"a", ⟨0x9⟩, .object ⟨"b"⟩, some "\"#\\\"\"", []⟩], [], none⟩ := by decide +kernel
  have hdark : ¬ Blanks ("\"#\\\"\"" ++ " # \"") := by decide
  obtain ⟨value, -, -, hvalue, -, hfield⟩ := (reads_value hl hgap htail).2 hdark
  obtain ⟨g, -, -, hg, hsame, -⟩ := hfield _ hread
  obtain rfl := hvalue (.inl hstring)
  have hdeclared : g.name = "a" ∧ g.flags = ⟨0x9⟩ ∧ g.type = .object ⟨"b"⟩ := by
    rw [hsame]
    exact ⟨rfl, rfl, rfl⟩
  exact ⟨hl, hgap, hstring, htail, _, hread, g, hg, hdeclared, by rw [hsame]⟩

/-- The sign of a comment as a character. -/
def signDocument : Text := ".class La;\n.field a:C = '#'\n"

/-- The character is cut at its start, and the value is the quote in front of it. -/
theorem sign_cut_off_character :
    Class.read signDocument = .ok ⟨⟨"a"⟩, .empty, none, none, [], [],
      [⟨"a", .empty, .char, some "'", []⟩], [], none⟩ ∧
    GivesValue signDocument ⟨2, ".field a:C = '#'"⟩ [] ⟨"a", .empty, .char, none, []⟩ "'#'" ∧
    IsCharacter "'#'" := by
  have hreads : ReadsMember signDocument ⟨2, ".field a:C = '#'"⟩ [] := ⟨_, _, [], _, rfl, .here _, rfl⟩
  have hbody : Field.Announces ⟨"a", .empty, .char, none, []⟩ " a:C" :=
    ⟨by decide, ⟨[], by simp, rfl, by decide⟩, by decide, trivial, by decide⟩
  exact ⟨by decide +kernel, ⟨hreads, [], " a:C", blanks_nil, hbody, rfl⟩, .char (by decide) (by decide)⟩

end Class

end DalvikPatch
