import DalvikPatch.Proofs.Headers

/-! The lines that declare a class, what it extends and where it is from, its fields and its methods.
What is read from such a line is valid, and a valid declaration is read back from its line. -/

namespace DalvikPatch

open Text

/-! ### Classes -/

/-- A class name that a header may hold: no comment starts inside of it. -/
structure ClassName.Declared (n : ClassName) : Prop where
  valid : n.Valid
  quiet : Quiet .outside n.jni

namespace ClassName

theorem isWord_jni {n : ClassName} (h : n.Valid) : IsWord n.jni :=
  TypeDescriptor.isWord_jni (t := .object n) h

theorem readAt_of_trim_eq {n : ClassName} (h : n.Valid) {s : Text} (hs : trim s = n.jni) (k : Nat) :
    readAt k s = .ok n := by
  have := TypeDescriptor.ofJni?_jni (t := .object n) h
  rw [TypeDescriptor.jni] at this
  rw [readAt, hs, this]

theorem eq_of_readAt {k : Nat} {s : Text} {n : ClassName} (h : readAt k s = .ok n) :
    trim s = n.jni ∧ n.Valid := by
  rw [readAt] at h
  split at h
  · next m hm =>
    cases h
    exact TypeDescriptor.eq_of_ofJni? hm
  · cases h

/-- A name behind a keyword is read back. -/
theorem readAt_keyword {n : ClassName} (h : n.Declared) (k : Nat) :
    readAt k (cutComment (' ' :: n.jni)) = .ok n := by
  have hquiet : cutComment (' ' :: n.jni) = ' ' :: n.jni :=
    (quiet_plain_append (u := [' ']) (by simp) (by decide) n.jni).2 h.quiet
  apply readAt_of_trim_eq h.valid
  rw [hquiet]
  exact (trim_blanks_append (b := [' ']) (by decide) n.jni).trans
    (trim_of_isWord (isWord_jni h.valid))

theorem declared_of_readAt {k : Nat} {s : Text} {n : ClassName} (h : readAt k (cutComment s) = .ok n) :
    n.Declared := by
  obtain ⟨hs, hv⟩ := eq_of_readAt h
  obtain ⟨a, b, ha, -, heq⟩ := exists_trim (cutComment s)
  have hq := quiet_cutComment s
  rw [heq, hs, List.append_assoc, quiet_plain_append (by simp) ha.isPlain] at hq
  exact ⟨hv, hq.left⟩

end ClassName

namespace Class

/-- The line that declares a class. -/
def header (f : AccessFlags) (n : ClassName) : Text := headerText ".class" f .type n.jni

theorem readHeader_header {f : AccessFlags} {n : ClassName} (hf : f.Carried .type) (hn : n.Declared)
    (k : Nat) : readHeader ⟨k, header f n⟩ = .ok (f, n) := by
  have hquiet : cutComment (header f n) = header f n := by
    have := quiet_headerText_append (k := ".class") (by decide) f .type n.jni []
    rw [List.append_nil, List.append_nil] at this
    exact this.2 hn.quiet
  have hw := ClassName.isWord_jni hn.valid
  have hread := readHeader_headerText (k := ".class") ⟨by simp, by decide⟩ hf hw k
  have hat := ClassName.readAt_of_trim_eq hn.valid (trim_of_isWord hw) k
  rw [readHeader, hquiet, header, hread]
  simp only [bind, Except.bind, hat]

theorem valid_of_readHeader {l : Line} {f : AccessFlags} {n : ClassName}
    (h : readHeader l = .ok (f, n)) : f.Carried .type ∧ n.Declared := by
  simp only [readHeader, bind, Except.bind] at h
  split at h
  · cases h
  · next header hheader =>
    split at h
    · cases h
    · next m hm =>
      cases h
      obtain ⟨hf, hw, before, after, hs, hplain, -⟩ := exists_of_readHeader (by decide) hheader
      obtain ⟨hjni, hv⟩ := ClassName.eq_of_readAt hm
      rw [trim_of_isWord hw] at hjni
      have hq := quiet_cutComment l.text
      rw [hs, List.append_assoc, quiet_plain_append (by simp) hplain, hjni] at hq
      exact ⟨hf, hv, hq.left⟩

end Class

/-- A source file is read back, whatever its name is. -/
theorem Member.readSource_escape (k : Nat) (s : Text) :
    readSource k (cutComment (".source " ++ quoted (escape s))) = .ok s := by
  have hquiet : cutComment (".source " ++ quoted (escape s)) = ".source " ++ quoted (escape s) :=
    (quiet_plain_append (by simp) (by decide) _).2 (enclosed_escape s).quiet_quoted.1
  have hdark : EndsDark (quoted (escape s)) := by
    rw [quoted]
    exact EndsDark.append _ (by simp) (by decide)
  have hne : quoted (escape s) ≠ [] := by simp [quoted]
  have htrim : trim (".source " ++ quoted (escape s)) = ".source " ++ quoted (escape s) :=
    trim_eq_self (by simp [StartsDark]; decide) (hdark.append _ hne)
  have hafter : after? ".source" (".source " ++ quoted (escape s)) = some (' ' :: quoted (escape s)) :=
    after?_append ".source" (' ' :: quoted (escape s))
  have hquoted : trim (' ' :: quoted (escape s)) = quoted (escape s) :=
    (trim_blanks_append (b := [' ']) (by decide) _).trans
      (trim_eq_self (by simp [StartsDark]; decide) hdark)
  have hopen : after? "\"" (quoted (escape s)) = some (escape s ++ ['"']) :=
    after?_append "\"" (escape s ++ ['"'])
  have hclose : after? "\"" (escape s ++ ['"']).reverse = some (escape s).reverse := by
    rw [List.reverse_append]
    exact after?_append "\"" (escape s).reverse
  simp only [readSource, hquiet, htrim, hafter, Option.map_some, hquoted, Option.bind_some, hopen,
    hclose, List.reverse_reverse, ofEscaped, unescape_escape]

/-! ### Fields -/

namespace Text

theorem equals_chars : (" = " : Text) = [' ', '=', ' '] := by decide

theorem not_infix_equals {s : Text} (h : ['='] ∉ words s) : ¬ [' ', '=', ' '] <:+: s ++ [' '] := by
  rintro ⟨a, b, hs⟩
  have hblank : isBlank ' ' = true := by decide
  have hsign : words ['='] = [['=']] := words_of_isWord ⟨by simp, by decide⟩
  have hleft : words (s ++ [' ']) = words s := by
    rw [words_append_cons_blank s hblank []]
    exact List.append_nil _
  have hright : words (a ++ [' ', '=', ' '] ++ b) = words a ++ ([['=']] ++ words b) := by
    rw [List.append_assoc, ← hsign, ← words_append_cons_blank ['='] hblank,
      ← words_append_cons_blank a hblank]
    rfl
  rw [← hleft, ← hs, hright] at h
  simp at h

/-- The value of a field stands behind the first equals sign between blanks. -/
theorem cut?_equals {s : Text} (h : ¬ [' ', '=', ' '] <:+: s ++ [' ']) (v : Text) :
    cut? " = " (s ++ (" = " ++ v)) = some (s, v) := by
  rw [equals_chars]
  apply cut?_append
  intro c b hb
  by_contra hsome
  obtain ⟨r, hr⟩ := Option.ne_none_iff_exists'.1 hsome
  obtain ⟨a, rfl⟩ := hb
  obtain ⟨rfl, htail⟩ := List.cons.inj (eq_append_of_after? hr)
  cases b with
  | nil => cases htail
  | cons d b =>
    obtain ⟨rfl, htail'⟩ := List.cons.inj htail
    cases b with
    | nil => exact h ⟨a, [], by simp⟩
    | cons e b =>
      obtain ⟨rfl, -⟩ := List.cons.inj htail'
      exact h ⟨a, b ++ [' '], by simp⟩

theorem cut?_equals_eq_none {s : Text} (h : ¬ [' ', '=', ' '] <:+: s ++ [' ']) :
    cut? " = " s = none := by
  by_contra hsome
  obtain ⟨p, hp⟩ := Option.ne_none_iff_exists'.1 hsome
  have hs := eq_of_cut? hp
  rw [equals_chars] at hs
  exact h ⟨p.1, p.2 ++ [' '], by rw [hs, ← List.append_assoc]⟩

/-- An equals sign at the end has no blank behind it. -/
theorem cut?_equals_of_sign {s : Text} (h : ¬ [' ', '=', ' '] <:+: s ++ [' ']) :
    cut? " = " (s ++ [' ', '=']) = none := by
  by_contra hsome
  obtain ⟨p, hp⟩ := Option.ne_none_iff_exists'.1 hsome
  have hs : s ++ [' '] ++ ['='] = p.1 ++ [' ', '=', ' '] ++ p.2 := by
    have hcut := eq_of_cut? hp
    rw [equals_chars] at hcut
    rw [← hcut, List.append_assoc]
    rfl
  rcases List.eq_nil_or_concat p.2 with hnil | ⟨q, x, hq⟩
  · have hlast : s ++ [' '] ++ ['='] = p.1 ++ [' ', '='] ++ [' '] := by
      rw [hs, hnil, List.append_nil, List.append_assoc]
      rfl
    cases List.append_inj_right' hlast rfl
  · rw [hq, List.concat_eq_append, ← List.append_assoc] at hs
    exact h ⟨p.1, q, (List.append_inj_left' hs rfl).symm⟩

end Text

namespace Field

/-- The name with the type. -/
def declared (f : Field) : Text := f.name ++ ':' :: f.type.jni

def valueText (f : Field) : Text :=
  match f.value? with
  | some v => " = " ++ v
  | none => []

/-- The line that declares a field. -/
def header (f : Field) : Text := headerText ".field" f.flags .field f.declared ++ f.valueText

structure Declared (f : Field) : Prop where
  flags : f.flags.Carried .field
  name : ∀ c ∈ f.name, ¬ isBlank c
  colon : ':' ∉ f.name
  type : f.type.Valid
  value : ∀ v, f.value? = some v → v ≠ [] ∧ Neat v
  quiet : Quiet .outside (f.declared ++ f.valueText)

variable {f : Field}

theorem Declared.isWord (h : f.Declared) : IsWord f.declared where
  ne_nil := by simp [declared]
  dark c hc := by
    rcases List.mem_append.1 hc with hc | hc
    · exact h.name c hc
    · rcases List.mem_cons.1 hc with rfl | hc
      · decide
      · exact (TypeDescriptor.isWord_jni h.type).dark c hc

theorem Declared.newline_not_mem_header (h : f.Declared) : '\n' ∉ f.header := by
  have hvalue : '\n' ∉ f.valueText := by
    rw [valueText]
    split
    · next v hv =>
      have := (h.value v hv).2.newline
      simpa using this
    · simp
  have hword : '\n' ∉ f.declared := fun hn => h.isWord.dark _ hn (by decide)
  intro hn
  rcases List.mem_append.1 hn with hn | hn
  · exact newline_not_mem_headerText (by decide) _ _ hword hn
  · exact hvalue hn

theorem startsWith_header (f : Field) : startsWith ".field" f.header = true :=
  startsWith_append ".field" _

theorem Declared.trim_header (h : f.Declared) : trim f.header = f.header := by
  have hne : headerText ".field" f.flags .field f.declared ≠ [] := by simp [headerText]
  have hend : EndsDark f.header := by
    unfold header valueText
    split
    · next v hv =>
      rw [← List.append_assoc]
      exact (h.value v hv).2.endsDark.append _ (h.value v hv).1
    · rw [List.append_nil]
      exact endsDark_headerText _ _ _ h.isWord
  refine trim_eq_self (StartsDark.append _ hne ?_) hend
  exact StartsDark.append _ (by simp) (by decide)

theorem valueText_of_some {v : Text} (h : f.value? = some v) : f.valueText = " = " ++ v := by
  rw [valueText, h]

theorem valueText_of_none (h : f.value? = none) : f.valueText = [] := by
  rw [valueText, h]

theorem Declared.not_infix (h : f.Declared) :
    ¬ [' ', '=', ' '] <:+: headerText ".field" f.flags .field f.declared ++ [' '] := by
  apply not_infix_equals
  have hwords := words_append_cons_blank ".field" (c := ' ') (by decide)
    (f.flags.text .field ++ f.declared)
  have hkeyword : words ".field" = [".field"] := words_of_isWord ⟨by simp, by decide⟩
  rw [words_text_append _ _ h.isWord, hkeyword] at hwords
  rw [headerText, hwords]
  simp only [List.mem_append, List.mem_singleton, not_or]
  refine ⟨by decide, fun hm => (AccessFlags.isWord_of_mem_keywords hm).2.1 rfl, fun hm => ?_⟩
  have hcolon : ':' ∈ f.declared := by simp [declared]
  rw [← hm] at hcolon
  exact absurd hcolon (by decide)

theorem readLine_header (h : f.Declared) (k : Nat) :
    readLine k f.header = .ok { f with annotations := [] } := by
  have hquiet : cutComment f.header = f.header :=
    (quiet_headerText_append (by decide) _ _ _ _).2 h.quiet
  have hread := readHeader_headerText (k := ".field") ⟨by simp, by decide⟩ h.flags h.isWord k
  have hcolon : cut? ":" f.declared = some (f.name, f.type.jni) := cut?_char h.colon f.type.jni
  cases hv : f.value? with
  | none =>
    have hheader : f.header = headerText ".field" f.flags .field f.declared := by
      unfold header
      rw [valueText_of_none hv, List.append_nil]
    have hcut : cut? " = " f.header = none := hheader ▸ cut?_equals_eq_none h.not_infix
    simp only [readLine, hquiet, hcut, bind, Except.bind]
    simp only [hheader, hread, hcolon, TypeDescriptor.ofJni?_jni h.type]
  | some v =>
    have hcut : cut? " = " f.header = some (headerText ".field" f.flags .field f.declared, v) := by
      unfold header
      rw [valueText_of_some hv]
      exact cut?_equals h.not_infix v
    simp only [readLine, hquiet, hcut, bind, Except.bind, hread, hcolon,
      TypeDescriptor.ofJni?_jni h.type, (h.value v hv).2.trim_eq]

/-- A field whose name and type were read stands behind plain characters and in front of blanks. -/
theorem declared_of_readHeader {k : Nat} {s name type : Text} {header : AccessFlags × Text}
    {t : TypeDescriptor} {value? : Option Text}
    (hheader : readHeader ".field" .field k s = .ok header)
    (hcut : cut? ":" header.2 = some (name, type)) (ht : TypeDescriptor.ofJni? type = some t)
    (hf : f = ⟨name, header.1, t, value?, []⟩) :
    (f.flags.Carried .field ∧ IsWord f.declared ∧ ':' ∉ f.name ∧ f.type.Valid ∧ f.annotations = []) ∧
    ∃ before after, s = before ++ (f.declared ++ after) ∧ (∀ x ∈ before, IsPlain x) ∧ Blanks after := by
  obtain ⟨hflags, hword, before, after, hs, hplain, hafter, -⟩ := exists_of_readHeader (by decide) hheader
  obtain ⟨rfl, htype⟩ := TypeDescriptor.eq_of_ofJni? ht
  have hdeclared : f.declared = header.2 := by
    have := eq_of_cut? hcut
    rw [hf, declared, this]
    simp
  rw [hdeclared, hf]
  exact ⟨⟨hflags, hword, not_mem_of_cut? hcut, htype, rfl⟩, before, after,
    by rw [hs, List.append_assoc], hplain, hafter⟩

/-- What a line that declares a field holds: its name and type behind plain characters, and then a
value or nothing. -/
theorem exists_of_readLine {k : Nat} {line : Text} (h : readLine k line = .ok f) :
    (f.flags.Carried .field ∧ IsWord f.declared ∧ ':' ∉ f.name ∧ f.type.Valid ∧ f.annotations = []) ∧
    ∃ before after rest, cutComment line = before ++ (f.declared ++ (after ++ rest)) ∧
      (∀ x ∈ before, IsPlain x) ∧ Blanks after ∧
      (f.value? = none ∧ rest = [] ∨ ∃ v, f.value? = some (trim v) ∧ rest = " = " ++ v) := by
  obtain ⟨header, hheader, h⟩ := exists_of_bind h
  split at h
  · cases h
  next name type hcut =>
  split at h
  · cases h
  next t ht =>
  obtain ⟨hf, before, after, hs, hplain, hafter⟩ :=
    declared_of_readHeader hheader hcut ht (Except.ok.inj h).symm
  cases h
  refine ⟨hf, before, after, ?_⟩
  cases hc : cut? " = " (cutComment line) with
  | none =>
    simp only [hc] at hs
    exact ⟨[], by rw [hs, List.append_nil], hplain, hafter, .inl ⟨rfl, rfl⟩⟩
  | some p =>
    simp only [hc] at hs
    refine ⟨" = " ++ p.2, ?_, hplain, hafter, .inr ⟨p.2, rfl, rfl⟩⟩
    have := eq_of_cut? hc
    rw [hs] at this
    simpa using this

/-- A field that is read may be written again, if its value is not an empty one. -/
theorem declared_of_readLine {k : Nat} {line : Text} (h : readLine k line = .ok f)
    (hn : '\n' ∉ line) (hne : f.value? ≠ some []) : f.Declared := by
  obtain ⟨⟨hflags, hword, hcolon, htype, -⟩, before, after, rest, hs, hplain, hafter, hvalue⟩ :=
    exists_of_readLine h
  have hnewline : '\n' ∉ cutComment line := fun hm => hn (mem_of_mem_cutComment hm)
  have hquiet := quiet_cutComment line
  rw [hs] at hnewline hquiet
  rw [quiet_plain_append (by simp) hplain] at hquiet
  have hname : ∀ c ∈ f.name, ¬ isBlank c := fun c hc => hword.dark c (List.mem_append_left _ hc)
  rcases hvalue with ⟨hnone, rfl⟩ | ⟨v, hsome, rfl⟩
  · refine ⟨hflags, hname, hcolon, htype, by simp [hnone], ?_⟩
    rw [valueText_of_none hnone, List.append_nil]
    exact hquiet.left
  · have hneat : trim v ≠ [] ∧ Neat (trim v) := by
      refine ⟨fun he => hne (by rw [hsome, he]), neat_trim fun hm => hnewline ?_⟩
      simp [hm]
    refine ⟨hflags, hname, hcolon, htype, fun w hw => ?_, ?_⟩
    · rw [hsome] at hw
      cases hw
      exact hneat
    · obtain ⟨a, b, ha, -, hv⟩ := exists_trim v
      -- the blanks before the equals sign and behind it may go
      have hequals : Quiet .outside (f.declared ++ (" = " ++ v)) :=
        quiet_append.2 ⟨hquiet.left, quiet_of_blanks_append hafter (c := ' ') (by decide) hquiet.right⟩
      rw [hv, ← List.append_assoc, List.append_assoc a] at hequals
      have hplace : Literal.after .outside (f.declared ++ (" = " : Text)) ≠ .guarded := by
        apply Literal.after_ne_guarded
        · simp
        · rw [List.getLast?_append_of_ne_nil _ (by simp)]
          decide
      have hv' := (quiet_plain_append hplace ha.isPlain _).1 hequals.right
      rw [valueText_of_some hsome, ← List.append_assoc]
      exact quiet_append.2 ⟨hequals.left, hv'.left⟩

end Field

/-! ### Methods -/

namespace Method

/-- The line that declares a method. -/
def header (m : Method) : Text := headerText ".method" m.flags .method m.descriptor

structure Declared (m : Method) : Prop where
  flags : m.flags.Carried .method
  name : ∀ c ∈ m.name, ¬ isBlank c
  parenthesis : '(' ∉ m.name
  prototype : m.prototype.Valid
  quiet : Quiet .outside m.descriptor

variable {m : Method}

theorem Declared.isWord (h : m.Declared) : IsWord m.descriptor where
  ne_nil := by simp [descriptor, Prototype.jni]
  dark c hc := by
    rcases List.mem_append.1 hc with hc | hc
    · exact h.name c hc
    · exact (Prototype.isWord_jni h.prototype).dark c hc

theorem Declared.newline_not_mem_header (h : m.Declared) : '\n' ∉ m.header :=
  newline_not_mem_headerText (by decide) _ _ fun hn => h.isWord.dark _ hn (by decide)

theorem startsWith_header (m : Method) : startsWith ".method" m.header = true :=
  startsWith_append ".method" _

theorem Declared.trim_header (h : m.Declared) : trim m.header = m.header :=
  trim_eq_self (StartsDark.append _ (by simp) (by decide))
    (endsDark_headerText _ _ _ h.isWord)

theorem Declared.startsWith_trimmed (h : m.Declared) {l : Line} (hl : l.text = m.header) :
    startsWith ".method" l.trimmed = true := by
  rw [Line.trimmed, hl, h.trim_header]
  exact m.startsWith_header

theorem readName?_descriptor_append (h : m.Declared) (r : Text) :
    readName? (m.descriptor ++ r) = some (m.name, m.prototype) := by
  have hname : ∀ c ∈ m.name, (c != '(') = true := by
    intro c hc
    rw [bne_iff_ne]
    rintro rfl
    exact h.parenthesis hc
  obtain ⟨d, hd⟩ : ∃ d, m.prototype.jni ++ r = '(' :: d := ⟨_, rfl⟩
  have htake : (m.descriptor ++ r).takeWhile (· != '(') = m.name := by
    rw [descriptor, List.append_assoc, List.takeWhile_append_of_pos hname, hd,
      List.takeWhile_cons_of_neg (by simp), List.append_nil]
  have hdrop : (m.descriptor ++ r).dropWhile (· != '(') = m.prototype.jni ++ r := by
    rw [descriptor, List.append_assoc, List.dropWhile_append_of_pos hname, hd,
      List.dropWhile_cons_of_neg (by simp)]
  rw [readName?, htake, hdrop, Prototype.read?_jni h.prototype]
  rfl

theorem readName?_descriptor (h : m.Declared) : readName? m.descriptor = some (m.name, m.prototype) := by
  have hread := readName?_descriptor_append h []
  rwa [List.append_nil] at hread

theorem readLine_header (h : m.Declared) (k : Nat) :
    readLine k m.header = .ok (m.flags, m.name, m.prototype) := by
  have hquiet : cutComment m.header = m.header := by
    have := quiet_headerText_append (k := ".method") (by decide) m.flags .method m.descriptor []
    rw [List.append_nil, List.append_nil] at this
    exact this.2 h.quiet
  have hread := readHeader_headerText (k := ".method") ⟨by simp, by decide⟩ h.flags h.isWord k
  unfold readLine
  rw [hquiet, header, hread]
  simp only [bind, Except.bind, readName?_descriptor h]

/-- What stands behind the prototype of a method is not read, and may go. -/
theorem declared_of_readLine {k : Nat} {line : Text}
    (h : readLine k line = .ok (m.flags, m.name, m.prototype)) : m.Declared := by
  obtain ⟨name, flags, prototype, frame?, items⟩ := m
  obtain ⟨header, hheader, h⟩ := exists_of_bind h
  obtain ⟨hflags, hword, before, after, hs, hplain, -⟩ :=
    exists_of_readHeader (by decide) hheader
  split at h
  · cases h
  · next p hp =>
    obtain ⟨⟨q, r⟩, hq, rfl⟩ := Option.map_eq_some_iff.1 hp
    cases h
    obtain ⟨hr, hproto⟩ := Prototype.eq_of_read? hq
    have hdescriptor : header.2 = header.2.takeWhile (· != '(') ++ prototype.jni ++ r := by
      rw [List.append_assoc, ← hr, List.takeWhile_append_dropWhile]
    have hquiet := quiet_cutComment line
    rw [hs, List.append_assoc, quiet_plain_append (by simp) hplain, hdescriptor] at hquiet
    refine ⟨hflags, fun c hc => ?_, fun hc => ?_, hproto, hquiet.left.left⟩
    · exact hword.dark c (hdescriptor ▸ List.mem_append_left _ (List.mem_append_left _ hc))
    · have := List.mem_takeWhile_imp hc
      simp at this

end Method

end DalvikPatch
