import DalvikPatch.Proofs.Members

/-! A class as the lines that are written for it. None of them holds the end of a line, so the lines of
its text are these again. -/

namespace DalvikPatch

open Text

namespace Text

/-- A text that is one line again when it is written with an end behind it. -/
structure OneLine (l : Text) : Prop where
  newline : '\n' ∉ l
  ending : l.getLast? ≠ some '\r'

theorem EndsDark.oneLine {l : Text} (h : EndsDark l) (hn : '\n' ∉ l) : OneLine l :=
  ⟨hn, fun hl => h '\r' hl (by decide)⟩

theorem oneLine_nil : OneLine [] := ⟨by simp, by simp⟩

theorem OneLine.append {s t : Text} (hs : OneLine s) (ht : OneLine t) : OneLine (s ++ t) where
  newline := by simp [hs.newline, ht.newline]
  ending := by
    rw [List.getLast?_append]
    cases h : t.getLast? with
    | none => simpa using hs.ending
    | some c =>
      have := ht.ending
      rw [h] at this
      simpa using this

theorem lines_flatMap_lineText {ls : List Text} (h : ∀ l ∈ ls, OneLine l) :
    lines (ls.flatMap lineText) = ls := by
  induction ls with
  | nil => rfl
  | cons l ls ih =>
    have hl := h l (List.mem_cons_self ..)
    have hs : (l :: ls).flatMap lineText = l ++ '\n' :: ls.flatMap lineText := by
      simp [lineText]
    rw [hs, lines_append_newline hl.newline hl.ending, ih fun k hk => h k (List.mem_cons_of_mem _ hk)]

end Text

theorem oneLine_margin : OneLine margin := ⟨by decide, by decide⟩

/-! ### Items -/

namespace Instruction

theorem oneLine_moreText {f : Format} {ops : List Operand} (h : ∀ op ∈ ops, OneLine (op.text f)) :
    OneLine (moreText f ops) := by
  induction ops with
  | nil => exact oneLine_nil
  | cons op ops ih =>
    have hcomma : OneLine ", " := ⟨by decide, by decide⟩
    rw [moreText, List.flatMap_cons]
    exact (hcomma.append (h op (List.mem_cons_self ..))).append
      (ih fun op' hop' => h op' (List.mem_cons_of_mem _ hop'))

theorem Valid.oneLine_text {i : Instruction} (h : i.Valid) : OneLine i.text := by
  have hops : ∀ op ∈ i.operands, OneLine (op.text i.opcode.format) := fun op hop =>
    (Operand.endsDark_text (h.operands op hop) _).oneLine
      (Operand.newline_not_mem_text (h.operands op hop) _)
  have hname : OneLine i.name := by
    have hw := Opcode.isWord_name h.mem_table
    exact hw.endsDark.oneLine fun hn => hw.dark _ hn (by decide)
  obtain ⟨o, ops⟩ := i
  cases ops with
  | nil => simpa [text] using hname
  | cons op ops =>
    have hblank : OneLine [' '] := ⟨by decide, by decide⟩
    have hmore := oneLine_moreText fun op' hop' => hops op' (List.mem_cons_of_mem _ hop')
    rw [text_cons]
    exact hname.append (hblank.append ((hops op (List.mem_cons_self ..)).append hmore))

end Instruction

/-- The lines of a directive that stay lines. -/
theorem Directive.oneLine_of_mem_written {d : Directive} (h : ∀ l ∈ d.lines, EndsDark l ∧ '\n' ∉ l)
    {indent : Text} (hi : OneLine indent) : ∀ l ∈ d.written indent, OneLine l := by
  intro l hl
  obtain ⟨k, hk, rfl⟩ := List.mem_map.1 hl
  rw [indented]
  split
  · exact oneLine_nil
  · exact hi.append ((h k hk).1.oneLine (h k hk).2)

theorem Directive.IsBlock.kept {d : Directive} {opening closing : Text}
    (h : d.IsBlock opening closing) : ∀ l ∈ d.lines, EndsDark l ∧ '\n' ∉ l := by
  obtain ⟨l, ls, hlines, hl, -, hkept, -⟩ := h.exists_lines
  intro k hk
  rw [hlines] at hk
  rcases List.mem_cons.1 hk with rfl | hk
  · exact ⟨hl.endsDark, hl.newline⟩
  · exact ⟨(hkept k hk).endsDark, (hkept k hk).newline⟩

theorem Directive.InBody.kept {d : Directive} (h : d.InBody) :
    ∀ l ∈ d.lines, EndsDark l ∧ '\n' ∉ l := by
  cases h with
  | line _ hd =>
    obtain ⟨l, hlines, hl, -⟩ := hd.exists_line
    intro k hk
    rw [hlines, List.mem_singleton] at hk
    exact hk ▸ ⟨hl.endsDark, hl.newline⟩
  | block _ hd => exact hd.kept

namespace BodyItem

/-- The lines that are written for an item. -/
def written : BodyItem → List Text
  | line n => [[], margin ++ (".line " ++ Numeral.decimal n.toNat)]
  | label l => [margin ++ l.text]
  | instruction i => [margin ++ i.text]
  | directive d => d.written margin

theorem text_eq (i : BodyItem) : i.text = i.written.flatMap lineText := by
  cases i with
  | directive d => exact d.text_eq margin
  | line n => simp [text, written]
  | label l => simp [text, written]
  | instruction i => simp [text, written]

theorem Valid.oneLine {i : BodyItem} (h : i.Valid) : ∀ l ∈ i.written, OneLine l := by
  cases i with
  | directive d => exact Directive.oneLine_of_mem_written h.kept oneLine_margin
  | line n =>
    have hdecimal : OneLine (Numeral.decimal n.toNat) := by
      refine EndsDark.oneLine (fun c hc => ?_) fun hn => ?_
      · exact Numeral.not_isBlank_of_mem_decimal (List.mem_of_getLast? hc)
      · exact Numeral.not_isBlank_of_mem_decimal hn (by decide)
    have hkeyword : OneLine ".line " := ⟨by decide, by decide⟩
    simpa [written] using ⟨oneLine_nil, oneLine_margin.append (hkeyword.append hdecimal)⟩
  | label l =>
    have hw := Label.isWord_text h
    have hlabel : OneLine l.text := hw.endsDark.oneLine fun hn => hw.dark _ hn (by decide)
    simpa [written] using oneLine_margin.append hlabel
  | instruction i => simpa [written] using oneLine_margin.append h.oneLine_text

end BodyItem

/-! ### Members -/

theorem flatMap_flatMap_lineText {α : Type} (xs : List α) {text : α → Text} {written : α → List Text}
    (h : ∀ x, text x = (written x).flatMap lineText) :
    xs.flatMap text = (xs.flatMap written).flatMap lineText := by
  rw [List.flatMap_assoc]
  exact congrArg (xs.flatMap ·) (funext h)

namespace Field

/-- The annotations of a field and its end, if it has any. -/
def writtenAnnotations (f : Field) : List Text :=
  if f.annotations = [] then [] else f.annotations.flatMap (·.written margin) ++ [(".end field" : Text)]

/-- The lines that are written for a field. -/
def written (f : Field) : List Text := f.header :: (f.writtenAnnotations ++ [[]])

theorem text_eq (f : Field) : f.text = f.written.flatMap lineText := by
  have hheader : f.header = ".field " ++ f.flags.text .field ++ f.name ++ ":" ++ f.type.jni ++
      f.valueText := by
    unfold header headerText declared
    simp
  have hannotations : f.writtenAnnotations.flatMap lineText =
      if f.annotations = [] then [] else f.annotations.flatMap (·.text margin) ++ lineText ".end field" := by
    rw [writtenAnnotations]
    split
    · rfl
    · rw [List.flatMap_append, ← flatMap_flatMap_lineText _ fun d => Directive.text_eq d margin]
      rfl
  rw [written, List.flatMap_cons, List.flatMap_append, hannotations, hheader, ← List.append_assoc]
  rfl

theorem Valid.oneLine {f : Field} (h : f.Valid) : ∀ l ∈ f.written, OneLine l := by
  have hheader : OneLine f.header := by
    refine EndsDark.oneLine ?_ h.declared.newline_not_mem_header
    rw [← h.declared.trim_header]
    exact endsDark_trim _
  have hannotations : ∀ l ∈ f.writtenAnnotations, OneLine l := by
    rw [writtenAnnotations]
    split
    · simp
    · intro l hl
      rcases List.mem_append.1 hl with hl | hl
      · obtain ⟨d, hd, hl⟩ := List.mem_flatMap.1 hl
        exact Directive.oneLine_of_mem_written (h.annotations d hd).kept oneLine_margin l hl
      · rw [List.mem_singleton.1 hl]
        exact ⟨by decide, by decide⟩
  intro l hl
  rcases List.mem_cons.1 hl with rfl | hl
  · exact hheader
  · rcases List.mem_append.1 hl with hl | hl
    · exact hannotations l hl
    · rw [List.mem_singleton.1 hl]
      exact oneLine_nil

end Field

/-- The line that declares a frame. -/
def FrameSize.written : FrameSize → Text
  | locals n => margin ++ (".locals " ++ Numeral.decimal n.toNat)
  | registers n => margin ++ (".registers " ++ Numeral.decimal n.toNat)

theorem FrameSize.oneLine_written (f : FrameSize) : OneLine f.written := by
  have hdecimal : ∀ n, OneLine (Numeral.decimal n) := by
    intro n
    refine EndsDark.oneLine (fun c hc => ?_) fun hn => ?_
    · exact Numeral.not_isBlank_of_mem_decimal (List.mem_of_getLast? hc)
    · exact Numeral.not_isBlank_of_mem_decimal hn (by decide)
  cases f with
  | locals n => exact oneLine_margin.append (OneLine.append ⟨by decide, by decide⟩ (hdecimal _))
  | registers n => exact oneLine_margin.append (OneLine.append ⟨by decide, by decide⟩ (hdecimal _))

namespace Method

/-- The lines of a body up to the end of its method. -/
def writtenBody (m : Method) : List Text :=
  m.frame?.toList.map FrameSize.written ++ (m.items.flatMap BodyItem.written ++ [(".end method" : Text)])

/-- The lines that are written for a method. -/
def written (m : Method) : List Text := m.header :: (m.writtenBody ++ [[]])

theorem text_eq (m : Method) : m.text = m.written.flatMap lineText := by
  have hheader : m.header = ".method " ++ m.flags.text .method ++ m.descriptor := by
    unfold header headerText
    simp
  have hframe : (m.frame?.toList.map FrameSize.written).flatMap lineText =
      m.frame?.elim [] FrameSize.text := by
    cases m.frame? with
    | none => rfl
    | some f => cases f <;> simp [FrameSize.written, FrameSize.text]
  rw [written, List.flatMap_cons, List.flatMap_append, writtenBody, List.flatMap_append,
    List.flatMap_append, hframe, ← flatMap_flatMap_lineText _ BodyItem.text_eq, hheader, text]
  simp

theorem Valid.oneLine {m : Method} (h : m.Valid) : ∀ l ∈ m.written, OneLine l := by
  have hheader : OneLine m.header := by
    refine EndsDark.oneLine ?_ h.declared.newline_not_mem_header
    rw [← h.declared.trim_header]
    exact endsDark_trim _
  intro l hl
  simp only [written, writtenBody, List.mem_cons, List.mem_append, List.mem_map, List.mem_flatMap,
    List.not_mem_nil, or_false] at hl
  rcases hl with rfl | (⟨f, -, rfl⟩ | ⟨i, hi, hl⟩ | rfl) | rfl
  · exact hheader
  · exact f.oneLine_written
  · exact (h.items i hi).oneLine l hl
  · exact ⟨by decide, by decide⟩
  · exact oneLine_nil

end Method

/-! ### Classes -/

/-- The lines of a section under its comment. -/
def writtenSection {α : Type} (title : Text) (written : α → List Text) (items : List α) : List Text :=
  if items.isEmpty then [] else [] :: ("# " ++ title) :: items.flatMap written

theorem sectionText_eq {α : Type} (title : Text) {text : α → Text} {written : α → List Text}
    (h : ∀ x, text x = (written x).flatMap lineText) (items : List α) :
    sectionText title text items = (writtenSection title written items).flatMap lineText := by
  rw [sectionText, writtenSection]
  split
  · rfl
  · rw [flatMap_flatMap_lineText items h, List.append_assoc]
    rfl

theorem oneLine_section {α : Type} {title : Text} (ht : OneLine title) {written : α → List Text}
    {items : List α} (h : ∀ x ∈ items, ∀ l ∈ written x, OneLine l) :
    ∀ l ∈ writtenSection title written items, OneLine l := by
  have hcomment : OneLine ("# " ++ title) := OneLine.append ⟨by decide, by decide⟩ ht
  rw [writtenSection]
  split
  · simp
  · intro l hl
    rcases List.mem_cons.1 hl with rfl | hl
    · exact oneLine_nil
    · rcases List.mem_cons.1 hl with rfl | hl
      · exact hcomment
      · obtain ⟨x, hx, hl⟩ := List.mem_flatMap.1 hl
        exact h x hx l hl

theorem ClassName.Declared.oneLine {n : ClassName} (h : n.Declared) : OneLine n.jni :=
  (isWord_jni h.valid).endsDark.oneLine fun hn => (isWord_jni h.valid).dark _ hn (by decide)

theorem oneLine_quoted (s : Text) : OneLine (quoted (escape s)) := by
  have hquote : OneLine ['"'] := ⟨by decide, by decide⟩
  refine ⟨?_, ?_⟩
  · simp [quoted, (printed_escape _).newline_not_mem]
  · rw [quoted, List.getLast?_append_of_ne_nil _ (by simp)]
    decide

namespace Class

def superLine (n : ClassName) : Text := ".super " ++ n.jni

def sourceLine (s : Text) : Text := ".source " ++ quoted (escape s)

def interfaceLine (n : ClassName) : Text := ".implements " ++ n.jni

/-- The lines behind the one that declares a class. -/
def writtenMembers (c : Class) : List Text :=
  c.super?.toList.map superLine ++ (c.source?.toList.map sourceLine ++
    (writtenSection "interfaces" (fun n => [interfaceLine n]) c.interfaces ++
    (writtenSection "annotations" (fun d => d.written [] ++ [[]]) c.annotations ++
    (writtenSection "fields" Field.written c.fields ++
      writtenSection "methods" Method.written c.methods))))

/-- The lines that are written for a class. -/
def written (c : Class) : List Text := header c.flags c.name :: c.writtenMembers

theorem text_eq (c : Class) : c.text = c.written.flatMap lineText := by
  have hheader : header c.flags c.name = ".class " ++ c.flags.text .type ++ c.name.jni := by
    unfold header headerText
    simp
  have hsuper : (c.super?.toList.map superLine).flatMap lineText =
      c.super?.elim [] fun n => lineText (".super " ++ n.jni) := by
    cases c.super? with
    | none => rfl
    | some n => exact List.append_nil (lineText (superLine n))
  have hsource : (c.source?.toList.map sourceLine).flatMap lineText =
      c.source?.elim [] fun s => lineText (".source \"" ++ escape s ++ "\"") := by
    cases c.source? with
    | none => rfl
    | some s =>
      have hs : sourceLine s = ".source \"" ++ escape s ++ "\"" := by
        unfold sourceLine quoted
        simp
      rw [Option.elim_some, ← hs]
      exact List.append_nil (lineText (sourceLine s))
  have hinterfaces : sectionText "interfaces" (fun n => lineText (".implements " ++ n.jni)) c.interfaces =
      (writtenSection "interfaces" (fun n => [interfaceLine n]) c.interfaces).flatMap lineText :=
    sectionText_eq _ (fun n => (List.append_nil _).symm) c.interfaces
  have hannotations : sectionText "annotations" (fun d => d.text [] ++ lineText []) c.annotations =
      (writtenSection "annotations" (fun d => d.written [] ++ [[]]) c.annotations).flatMap lineText :=
    sectionText_eq _ (fun d => by simp [Directive.text_eq]) c.annotations
  rw [text, hinterfaces, hannotations, sectionText_eq "fields" Field.text_eq,
    sectionText_eq "methods" Method.text_eq, written, List.flatMap_cons, writtenMembers, hheader]
  simp only [List.flatMap_append, hsuper, hsource, List.append_assoc]

theorem WellFormed.oneLine {c : Class} (h : c.WellFormed) : ∀ l ∈ c.written, OneLine l := by
  have hheader : OneLine (header c.flags c.name) := by
    have hw := ClassName.isWord_jni h.name.valid
    exact (endsDark_headerText _ _ _ hw).oneLine
      (newline_not_mem_headerText (by decide) _ _ fun hn => hw.dark _ hn (by decide))
  have hinterfaces : ∀ n ∈ c.interfaces, ∀ l ∈ [interfaceLine n], OneLine l := by
    intro n hn l hl
    rw [List.mem_singleton.1 hl]
    exact OneLine.append ⟨by decide, by decide⟩ (h.interfaces n hn).oneLine
  have hannotations : ∀ d ∈ c.annotations, ∀ l ∈ d.written [] ++ [[]], OneLine l := by
    intro d hd l hl
    rcases List.mem_append.1 hl with hl | hl
    · exact Directive.oneLine_of_mem_written (h.annotations d hd).kept oneLine_nil l hl
    · rw [List.mem_singleton.1 hl]
      exact oneLine_nil
  intro l hl
  simp only [written, writtenMembers, List.mem_cons, List.mem_append, List.mem_map,
    Option.mem_toList] at hl
  rcases hl with rfl | ⟨n, hn, rfl⟩ | ⟨s, -, rfl⟩ | hl | hl | hl | hl
  · exact hheader
  · exact OneLine.append ⟨by decide, by decide⟩ (h.super n hn).oneLine
  · exact OneLine.append ⟨by decide, by decide⟩ (oneLine_quoted s)
  · exact oneLine_section ⟨by decide, by decide⟩ hinterfaces l hl
  · exact oneLine_section ⟨by decide, by decide⟩ hannotations l hl
  · exact oneLine_section ⟨by decide, by decide⟩ (fun f hf => (h.fields f hf).oneLine) l hl
  · exact oneLine_section ⟨by decide, by decide⟩ (fun m hm => (h.methods m hm).oneLine) l hl

/-- The lines of the text of a class are those that are written. -/
theorem WellFormed.lines_text {c : Class} (h : c.WellFormed) : lines c.text = c.written := by
  rw [text_eq, lines_flatMap_lineText h.oneLine]

end Class

end DalvikPatch
