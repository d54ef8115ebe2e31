import DalvikPatch.Proofs.Rereading

/-! Reading a whole document that was written: its methods, its fields, and the class itself. -/

namespace DalvikPatch

open Text Line

/-! ### Methods -/

namespace FrameSize

/-- A line that declares a frame, behind the margin: it starts with its keyword and is read back. -/
theorem exists_line (f : FrameSize) : ∃ k l, f.written = margin ++ l ∧ k ∈ BodyEntry.keywords ∧
    k ≠ ".end method" ∧ k ≠ ".end annotation" ∧ startsWith k l = true ∧ StartsDark l ∧
    trim l = l ∧ ∀ (y : Line) (ys : List Line), y.trimmed = l →
      BodyEntry.read y ys = .ok (.frame f, ys) := by
  have hblank : ∀ n, ∀ c ∈ Numeral.decimal n, ¬ isBlank c :=
    fun n c hc => Numeral.not_isBlank_of_mem_decimal hc
  have count : ∀ (k : Text) (n : UInt16), IsWord k → StartsDark (k ++ ' ' :: Numeral.decimal n.toNat) ∧
      trim (k ++ ' ' :: Numeral.decimal n.toNat) = k ++ ' ' :: Numeral.decimal n.toNat ∧
      readCount? k Numeral.readUInt16? (k ++ ' ' :: Numeral.decimal n.toNat) = some n := by
    intro k n hk
    have hdark : StartsDark (k ++ ' ' :: Numeral.decimal n.toNat) := hk.startsDark.append _ hk.ne_nil
    have hend : EndsDark (k ++ ' ' :: Numeral.decimal n.toNat) := by
      rw [List.append_cons]
      exact EndsDark.append _ Nat.toDigits_ne_nil fun c hc => hblank _ c (List.mem_of_getLast? hc)
    have hread := Numeral.readUInt16?_decimal n separated_nil
    rw [List.append_nil] at hread
    exact ⟨hdark, trim_eq_self hdark hend,
      BodyEntry.readCount?_eq (fun c hc => hblank _ c (List.mem_of_mem_head? hc)) hread⟩
  cases f with
  | locals n =>
    obtain ⟨hdark, htrim, hcount⟩ := count ".locals" n ⟨by simp, by decide⟩
    exact ⟨".locals", ".locals" ++ ' ' :: Numeral.decimal n.toNat, rfl,
      by decide, by decide, by decide, startsWith_append _ _, hdark, htrim,
      fun y ys hy => BodyEntry.read_locals (by rw [hy, hcount])⟩
  | registers n =>
    obtain ⟨hdark, htrim, hcount⟩ := count ".registers" n ⟨by simp, by decide⟩
    exact ⟨".registers", ".registers" ++ ' ' :: Numeral.decimal n.toNat, rfl,
      by decide, by decide, by decide, startsWith_append _ _, hdark, htrim,
      fun y ys hy => BodyEntry.read_registers (by rw [hy, hcount])⟩

theorem neutral_written (f : FrameSize) : Look.Neutral f.written := by
  obtain ⟨k, l, hw, hk, -, hne, hstart, hdark, htrim, -⟩ := f.exists_line
  rw [hw]
  apply Look.neutral_margin hdark
  rw [htrim]
  exact BodyEntry.startsWith_other hk hstart (by decide) hne

theorem readBody_written (f : FrameSize) {y : Line} (hy : y.text = f.written) (n : Nat) (name : Text)
    (ys : List Line) : Method.readBody n name (y :: ys) =
      (Method.readBody n name ys).map fun p => (p.1.add (.frame f), p.2) := by
  obtain ⟨k, l, hw, hk, hne, -, hstart, -, htrim, hread⟩ := f.exists_line
  have htrimmed : y.trimmed = l := by
    rw [Line.trimmed, hy, hw, BodyItem.trim_margin_append, htrim]
  rw [← htrimmed] at hstart
  exact Method.readBody_entry (o := .ok (.frame f)) (BodyEntry.isSignificant_of_keyword hk hstart)
    (BodyEntry.startsWith_other hk hstart (by decide) hne) (hread y ys htrimmed)

end FrameSize

namespace Method

variable {m : Method}

/-- A method is read back, unless the look-ahead of a parameter in it splits a character. -/
theorem read_written (h : m.Valid) {x : Line} {xs ys : List Line}
    (hx : x.text = m.header) (hxs : xs.map Line.text = m.writtenBody) {later : List Directive}
    (hl : ∀ d ∈ later, d.InBody) (hf : Look.Follows (ys.map Line.text) (Directive.ahead later))
    (ho : Directive.Owned (m.directives ++ later)) :
    read x (xs ++ ys) = if Directive.splits m.directives later then Outcome.abort .splitCharacter
      else .ok (m, ys) := by
  have hheader : readLine x.number x.trimmed = .ok (m.flags, m.name, m.prototype) := by
    rw [Line.trimmed, hx, h.declared.trim_header]
    exact readLine_header h.declared _
  obtain ⟨as, bs, rfl, has, hbs⟩ := List.map_eq_append_iff.1 hxs
  have hitems := readBody_written h.items x.number m.name hbs hl hf ho
  have hbody : readBody x.number m.name (as ++ (bs ++ ys)) =
      if Directive.splits m.directives later then Outcome.abort .splitCharacter
      else .ok (⟨m.frame?, m.items⟩, ys) := by
    cases hframe : m.frame? with
    | none =>
      rw [hframe] at has
      obtain rfl : as = [] := List.map_eq_nil_iff.1 has
      exact hitems
    | some f =>
      rw [hframe] at has
      obtain ⟨y, rfl, hy⟩ := List.map_eq_singleton_iff.1 has
      rw [List.singleton_append, f.readBody_written hy, hitems, directives]
      split <;> rfl
  rw [read, hheader, List.append_assoc]
  simp only [hbody]
  split <;> rfl

theorem inBody_of_mem_directives (h : m.Valid) : ∀ d ∈ m.directives, d.InBody :=
  inBody_of_mem_directivesOf h.items

theorem follows_written (h : m.Valid) {later : List Directive} (hl : ∀ d ∈ later, d.InBody)
    {ws : List Text} (hf : Look.Follows ws (Directive.ahead later)) :
    Look.Follows (m.written ++ ws) (Directive.ahead (m.directives ++ later)) := by
  have hheader : Look.Neutral m.header := by
    apply Look.neutral_of_startsDark
    · rw [← h.declared.trim_header]
      exact startsDark_trim _
    · rw [h.declared.trim_header]
      exact startsWith_eq_false m.startsWith_header (by decide) (by decide)
  have hlater := Directive.not_found_ahead hl
  have hall : ∀ d ∈ m.directives ++ later, d.InBody := by
    intro d hd
    exact (List.mem_append.1 hd).elim (inBody_of_mem_directives h d) (hl d)
  have hitems := follows_items h.items hl
    ((hf.skip Look.neutral_nil hlater).skip Look.neutral_end hlater)
  have hneutral : ∀ t ∈ m.frame?.toList.map FrameSize.written, Look.Neutral t := by
    simpa using fun f _ => f.neutral_written
  have hframe := hitems.skips hneutral (Directive.not_found_ahead hall)
  have := hframe.skip hheader (Directive.not_found_ahead hall)
  rw [written, writtenBody]
  simpa using this

end Method

/-! ### Fields -/

namespace Field

theorem readAnnotations_end {l : Line} (h : startsWith ".end field" l.trimmed = true) (ls : List Line) :
    readAnnotations (l :: ls) = .ok ([], ls) := by
  have hk : IsKeyword ".end field" := by decide
  have hl := hk.isSignificant h
  rw [readAnnotations.eq_def, Line.next?_cons_of_significant hl ls]
  exact if_pos h

theorem readAnnotations_block {l : Line} (h : startsWith ".annotation" l.trimmed = true)
    {ls rest : List Line} {d : Directive}
    (hd : Directive.readBlock ".end annotation" l ls = .ok (d, rest)) :
    readAnnotations (l :: ls) = (readAnnotations rest).map fun p => (d :: p.1, p.2) := by
  have hl := BodyEntry.isSignificant_of_keyword (k := ".annotation") (by decide) h
  have hend : startsWith ".end field" l.trimmed = false :=
    startsWith_eq_false h (by decide) (by decide)
  rw [readAnnotations.eq_def, Line.next?_cons_of_significant hl ls]
  simp only [hend, h]
  rw [if_neg Bool.false_ne_true, if_pos trivial, hd]

theorem readAnnotations_written {ds : List Directive} (h : ∀ d ∈ ds, d.IsAnnotation) {xs : List Line}
    (hxs : xs.map Line.text = ds.flatMap (·.written margin) ++ [(".end field" : Text)])
    (ys : List Line) : readAnnotations (xs ++ ys) = .ok (ds, ys) := by
  induction ds generalizing xs with
  | nil =>
    obtain ⟨x, rfl, hx⟩ := List.map_eq_singleton_iff.1 hxs
    apply readAnnotations_end
    rw [Line.trimmed, hx]
    decide
  | cons d ds ih =>
    rw [List.flatMap_cons, List.append_assoc] at hxs
    obtain ⟨as, bs, rfl, has, hbs⟩ := List.map_eq_append_iff.1 hxs
    obtain ⟨a, as, rfl, hstart, hread⟩ :=
      (h d (List.mem_cons_self ..)).exists_of_written Look.blanks_margin (by simp) has
    rw [List.append_assoc, List.cons_append, readAnnotations_block hstart (hread _),
      ih (fun d' hd' => h d' (List.mem_cons_of_mem _ hd')) hbs]
    rfl

variable {f : Field}

theorem isAnnotated_skips {skipped : List Line} (h : ∀ l ∈ skipped, ¬ IsSignificant l.text)
    (ls : List Line) : isAnnotated (skipped ++ ls) = isAnnotated ls := by
  rw [isAnnotated, isAnnotated, Line.next?_append_of_not h]

theorem isAnnotated_of_significant {l : Line} (hl : IsSignificant l.text) (ls : List Line) :
    isAnnotated (l :: ls) = startsWith ".annotation" l.trimmed := by
  rw [isAnnotated, Line.next?_cons_of_significant hl]
  rfl

theorem isAnnotated_of_next? {l : Line} {ls rest : List Line} (hnext : Line.next? ls = some (l, rest)) :
    isAnnotated ls = startsWith ".annotation" l.trimmed := by
  rw [isAnnotated, hnext]
  rfl

theorem read_of_isAnnotated {l : Line} {ls : List Line} (h : isAnnotated ls = true) :
    read l ls = (readLine l.number l.trimmed).bind fun f =>
      (readAnnotations ls).map fun p => ({ f with annotations := p.1 }, p.2) := by
  rw [read]
  cases readLine l.number l.trimmed with
  | error e => rfl
  | ok f =>
    simp only [bind, Except.bind, h, if_true]
    cases readAnnotations ls <;> rfl

theorem read_of_not_isAnnotated {l : Line} {ls : List Line} (h : isAnnotated ls = false) :
    read l ls = (readLine l.number l.trimmed).map fun f => (f, ls) := by
  rw [read]
  cases readLine l.number l.trimmed with
  | error e => rfl
  | ok f =>
    simp only [bind, Except.bind, h]
    rfl

theorem readAnnotations_of_next? {l : Line} {ls rest : List Line} (hnext : Line.next? ls = some (l, rest))
    (ha : startsWith ".annotation" l.trimmed = true) :
    readAnnotations ls = (Directive.readBlock ".end annotation" l rest).bind fun p =>
      (readAnnotations p.2).map fun q => (p.1 :: q.1, q.2) := by
  have hend : startsWith ".end field" l.trimmed = false :=
    startsWith_eq_false ha (by decide) (by decide)
  rw [readAnnotations.eq_def, hnext]
  simp only [hend, ha, if_true]
  rw [if_neg Bool.false_ne_true]
  cases Directive.readBlock ".end annotation" l rest <;> rfl

/-- A field is read back, if no annotation follows it. -/
theorem read_written (h : f.Valid) {x : Line} {xs ys : List Line} (hx : x.text = f.header)
    (hxs : xs.map Line.text = f.writtenAnnotations) (hys : isAnnotated ys = false) :
    read x (xs ++ ys) = .ok (f, ys) := by
  have hheader : readLine x.number x.trimmed = .ok { f with annotations := [] } := by
    rw [Line.trimmed, hx, h.declared.trim_header]
    exact readLine_header h.declared _
  rw [writtenAnnotations] at hxs
  split at hxs
  · next hnone =>
    obtain rfl : xs = [] := List.map_eq_nil_iff.1 hxs
    simp only [read, bind, Except.bind, hheader, List.nil_append, hys, ← hnone]
    rfl
  · next hsome =>
    have hannotated : isAnnotated (xs ++ ys) = true := by
      obtain ⟨d, ds, hds⟩ := List.exists_cons_of_ne_nil hsome
      have hd := h.annotations d (hds ▸ List.mem_cons_self ..)
      rw [hds, List.flatMap_cons, List.append_assoc] at hxs
      obtain ⟨as, bs, rfl, has, -⟩ := List.map_eq_append_iff.1 hxs
      obtain ⟨a, as, rfl, hstart, -⟩ := hd.exists_of_written Look.blanks_margin (by simp) has
      rw [List.cons_append, List.cons_append, isAnnotated_of_significant
        (BodyEntry.isSignificant_of_keyword (k := ".annotation") (by decide) hstart), hstart]
    have hread := readAnnotations_written h.annotations hxs ys
    simp only [read, bind, Except.bind, hheader, hannotated, if_true, hread]

end Field

/-! ### Members -/

namespace Member

theorem readAll_nil : readAll [] = .ok [] := by
  rw [readAll.eq_def]
  rfl

theorem readAll_skips {skipped : List Line} (h : ∀ l ∈ skipped, ¬ IsSignificant l.text)
    (ls : List Line) : readAll (skipped ++ ls) = readAll ls := by
  rw [readAll.eq_def (skipped ++ ls), Line.next?_append_of_not h, ← readAll.eq_def]

theorem readAll_member {l : Line} (hl : IsSignificant l.text) {ls rest : List Line}
    {o : Outcome Member} (ho : read l ls = o.map fun m => (m, rest)) :
    readAll (l :: ls) = o.bind fun m => (readAll rest).map (m :: ·) := by
  rw [readAll.eq_def, Line.next?_cons_of_significant hl ls]
  simp only
  rw [ho]
  cases o <;> rfl

/-- The words that a member may start with. -/
def keywords : List Text := [".super", ".implements", ".source", ".annotation", ".field", ".method"]

theorem areKeywords : AreKeywords keywords := by
  decide

theorem isSignificant_of_keyword {k l : Text} (hk : k ∈ keywords) (h : startsWith k (trim l) = true) :
    IsSignificant l :=
  (areKeywords k hk).1.isSignificant h

theorem after?_other {v w s : Text} (hv : v ∈ keywords) (h : startsWith v s = true)
    (hw : w ∈ keywords) (hne : v ≠ w) : after? w s = none :=
  after?_eq_none_of_startsWith h ((areKeywords v hv).2 w hw hne) ((areKeywords w hw).2 v hv hne.symm)

theorem startsWith_other {v w s : Text} (hv : v ∈ keywords) (h : startsWith v s = true)
    (hw : w ∈ keywords) (hne : v ≠ w) : ¬ startsWith w s = true := by
  rw [startsWith, after?_other hv h hw hne]
  simp

variable {l : Line} {ls : List Line}

theorem read_super {n : ClassName} (hn : n.Declared) (hl : l.trimmed = Class.superLine n) :
    read l ls = .ok (super n, ls) := by
  have hafter : after? ".super" l.trimmed = some (' ' :: n.jni) := by
    rw [hl]
    exact after?_append ".super" (' ' :: n.jni)
  rw [read, hafter]
  simp only [ClassName.readAt_keyword hn]
  rfl

theorem read_interface {n : ClassName} (hn : n.Declared) (hl : l.trimmed = Class.interfaceLine n) :
    read l ls = .ok (interface n, ls) := by
  have hafter : after? ".implements" l.trimmed = some (' ' :: n.jni) := by
    rw [hl]
    exact after?_append ".implements" (' ' :: n.jni)
  have hstart : startsWith ".implements" l.trimmed = true := by
    rw [startsWith, hafter]
    rfl
  rw [read, after?_other (w := ".super") (by decide) hstart (by decide) (by decide), hafter]
  simp only [ClassName.readAt_keyword hn]
  rfl

theorem read_source {s : Text} (hl : l.trimmed = Class.sourceLine s) :
    read l ls = .ok (source s, ls) := by
  have hstart : startsWith ".source" l.trimmed = true := by
    rw [hl]
    exact startsWith_append ".source" (' ' :: quoted (escape s))
  have hread : readSource l.number (cutComment l.trimmed) = .ok s := by
    rw [hl]
    exact readSource_escape _ s
  rw [read, after?_other (w := ".super") (by decide) hstart (by decide) (by decide),
    after?_other (w := ".implements") (by decide) hstart (by decide) (by decide)]
  simp only [hstart, hread]
  rfl

theorem read_annotated (h : startsWith ".annotation" l.trimmed = true) :
    read l ls = (Directive.readBlock ".end annotation" l ls).map fun p => (annotated p.1, p.2) := by
  rw [read, after?_other (w := ".super") (by decide) h (by decide) (by decide),
    after?_other (w := ".implements") (by decide) h (by decide) (by decide),
    if_neg (startsWith_other (w := ".source") (by decide) h (by decide) (by decide)), if_pos h]

theorem read_field (h : startsWith ".field" l.trimmed = true) :
    read l ls = (Field.read l ls).map fun p => (field p.1, p.2) := by
  rw [read, after?_other (w := ".super") (by decide) h (by decide) (by decide),
    after?_other (w := ".implements") (by decide) h (by decide) (by decide),
    if_neg (startsWith_other (w := ".source") (by decide) h (by decide) (by decide)),
    if_neg (startsWith_other (w := ".annotation") (by decide) h (by decide) (by decide)), if_pos h]

theorem read_method (h : startsWith ".method" l.trimmed = true) :
    read l ls = (Method.read l ls).map fun p => (method p.1, p.2) := by
  rw [read, after?_other (w := ".super") (by decide) h (by decide) (by decide),
    after?_other (w := ".implements") (by decide) h (by decide) (by decide),
    if_neg (startsWith_other (w := ".source") (by decide) h (by decide) (by decide)),
    if_neg (startsWith_other (w := ".annotation") (by decide) h (by decide) (by decide)),
    if_neg (startsWith_other (w := ".field") (by decide) h (by decide) (by decide)), if_pos h]

end Member

end DalvikPatch
