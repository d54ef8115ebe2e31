import DalvikPatch.Proofs.Visits

/-! Where a document is refused. Readers of lines blame a line that they were given and that says something,
whatever they find wrong on it. Only the escapes in the name of a source file are refused as a text, without
the line that they stand on. -/

namespace DalvikPatch

open Text Line

/-! ### Blame -/

namespace Outcome

/-- What goes wrong is a mistake on a line whose number satisfies `p`, or a character that would be split;
the latter only if `q` holds. -/
structure Blames {α : Type} (q : Prop) (p : Nat → Prop) (o : Outcome α) : Prop where
  of_error : ∀ e, o = .error e →
    q ∧ e = .abort .splitCharacter ∨ ∃ n m, p n ∧ e = .fault (.parse (.line n) m)

variable {α β : Type} {q : Prop} {p p' : Nat → Prop} {o : Outcome α}

theorem blames_ok (a : α) : Blames q p (.ok a : Outcome α) := ⟨fun e he => by cases he⟩

theorem blames_split (hq : q) : Blames q p (.error (.abort .splitCharacter) : Outcome α) :=
  ⟨fun e he => by cases he; exact .inl ⟨hq, rfl⟩⟩

theorem blames_mistake {n : Nat} (hn : p n) (m : Mistake) : Blames q p (mistake n m : Outcome α) :=
  ⟨fun e he => by cases he; exact .inr ⟨n, m, hn, rfl⟩⟩

theorem blames_here (n : Nat) (m : Mistake) : Blames q (· = n) (mistake n m : Outcome α) :=
  blames_mistake (p := (· = n)) rfl m

theorem Blames.mono (h : o.Blames q p) (hp : ∀ n, p n → p' n) : o.Blames q p' := by
  refine ⟨fun e he => ?_⟩
  rcases h.of_error e he with hsplit | ⟨n, m, hn, hm⟩
  · exact .inl hsplit
  · exact .inr ⟨n, m, hp n hn, hm⟩

/-- What is passed on is blamed on the same. -/
theorem Blames.error (h : o.Blames q p) {e : Stop} (he : o = .error e) :
    Blames q p (.error e : Outcome β) :=
  ⟨fun e' he' => by cases he'; exact h.of_error e he⟩

theorem Blames.bind (h : o.Blames q p) {g : α → Outcome β} (hg : ∀ a, (g a).Blames q p) :
    Blames q p (Except.bind o g) := by
  cases o with
  | error e => exact h.error rfl
  | ok a => exact hg a

theorem Blames.map (h : o.Blames q p) (g : α → β) : Blames q p (Except.map g o) := by
  cases o with
  | error e => exact h.error rfl
  | ok a => exact blames_ok _

end Outcome

open Outcome

/-- The numbers of the lines that say something. -/
def Line.Numbers (ls : List Line) (n : Nat) : Prop := ∃ l ∈ ls, IsSignificant l.text ∧ l.number = n

theorem Line.Numbers.mono {ls rest : List Line} (h : rest <:+ ls) {n : Nat} (hn : Numbers rest n) :
    Numbers ls n := by
  obtain ⟨l, hl, hn⟩ := hn
  exact ⟨l, h.subset hl, hn⟩

theorem Line.numbers_of_next? {ls rest : List Line} {l : Line} (h : next? ls = some (l, rest)) :
    Numbers ls l.number := by
  obtain ⟨hl, skipped, rfl, -⟩ := exists_of_next? h
  exact ⟨l, by simp, hl, rfl⟩

/-! ### Headers -/

section

variable {q : Prop}

theorem AccessFlags.blames_ofModifiers (n : Nat) (c : Carrier) (ws : List Text) :
    (ofModifiers n c ws).Blames q (· = n) := by
  induction ws with
  | nil => exact blames_ok _
  | cons w ws ih =>
    rw [ofModifiers]
    split
    · exact blames_here _ _
    · exact ih.map _

theorem blames_readHeader (keyword : Text) (c : Carrier) (n : Nat) (s : Text) :
    (readHeader keyword c n s).Blames q (· = n) := by
  rw [readHeader]
  split
  · exact blames_here _ _
  · split
    · exact blames_here _ _
    · exact (AccessFlags.blames_ofModifiers n c _).map _

theorem ClassName.blames_readAt (n : Nat) (s : Text) : (readAt n s).Blames q (· = n) := by
  rw [readAt]
  split
  · exact blames_ok _
  · exact blames_here _ _

end

/-! ### Blocks -/

namespace Directive

theorem blames_readLines (n base : Nat) (closing : Text) (ls : List Line) :
    (readLines n base closing ls).Blames True (· = n) := by
  fun_induction readLines n base closing ls with
  | case1 => exact blames_here _ _
  | case2 => exact blames_split trivial
  | case3 => exact blames_ok _
  | case4 l ls s _ _ ih => exact ih.map _

theorem blames_readBlock (closing : Text) (first : Line) (ls : List Line) :
    (readBlock closing first ls).Blames True (· = first.number) :=
  (blames_readLines ..).map _

theorem blames_isClosed (ls : List Line) : (isClosed ls).Blames True (Numbers ls) := by
  fun_induction isClosed ls with
  | case1 => exact blames_ok _
  | case2 ls l rest hnext _ e he =>
    exact ((blames_readBlock ..).mono fun n hn => hn ▸ numbers_of_next? hnext).error he
  | case3 ls l rest hnext _ d more hd ih =>
    exact ih.mono fun n => Numbers.mono ((suffix_of_readBlock hd).trans (suffix_of_next? hnext))
  | case4 => exact blames_ok _

end Directive

/-! ### Fields -/

namespace Field

theorem blames_readAnnotations (ls : List Line) : (readAnnotations ls).Blames True (Numbers ls) := by
  fun_induction readAnnotations ls with
  | case1 | case2 => exact blames_ok _
  | case3 ls l rest hnext _ _ e he =>
    exact ((Directive.blames_readBlock ..).mono fun n hn => hn ▸ numbers_of_next? hnext).error he
  | case4 ls l rest hnext _ _ d more hd ih =>
    refine (ih.map _).mono fun n => Numbers.mono ?_
    exact (Directive.suffix_of_readBlock hd).trans (suffix_of_next? hnext)
  | case5 ls l rest hnext => exact blames_mistake (numbers_of_next? hnext) _

theorem blames_readLine {q : Prop} (n : Nat) (line : Text) : (readLine n line).Blames q (· = n) := by
  refine Blames.bind (blames_readHeader ..) fun header => ?_
  split
  · exact blames_here _ _
  · split
    · exact blames_here _ _
    · exact blames_ok _

theorem blames_read {l : Line} (hl : IsSignificant l.text) (ls : List Line) :
    (read l ls).Blames True (Numbers (l :: ls)) := by
  have hfirst : Numbers (l :: ls) l.number := ⟨l, List.mem_cons_self .., hl, rfl⟩
  refine Blames.bind ((blames_readLine ..).mono fun n hn => hn ▸ hfirst) fun f => ?_
  split
  · refine Blames.bind ((blames_readAnnotations ls).mono fun n => ?_) fun _ => blames_ok _
    exact Numbers.mono (List.suffix_cons l ls)
  · exact blames_ok _

end Field

/-! ### Methods -/

theorem BodyEntry.blames_read {l : Line} (hl : IsSignificant l.text) (ls : List Line) :
    (read l ls).Blames True (Numbers (l :: ls)) := by
  have hfirst : ∀ n, n = l.number → Numbers (l :: ls) n :=
    fun n hn => ⟨l, List.mem_cons_self .., hl, hn.symm⟩
  have hblock : ∀ c, Blames True (Numbers (l :: ls))
      ((Directive.readBlock c l ls).map fun p => (directive p.1, p.2)) :=
    fun c => ((Directive.blames_readBlock c l ls).mono hfirst).map _
  have hmistake : ∀ m, Blames True (Numbers (l :: ls)) (mistake l.number m : Outcome (BodyEntry × List Line)) :=
    fun m => blames_mistake (hfirst _ rfl) m
  rw [read]
  split
  · exact blames_ok _
  split
  · exact blames_ok _
  split
  · exact blames_ok _
  split
  · split
    · exact blames_ok _
    · exact hmistake _
  split
  · split
    · next e he =>
      exact ((Directive.blames_isClosed ls).mono fun n => Numbers.mono (List.suffix_cons l ls)).error he
    · exact hblock _
    · exact blames_ok _
  split
  · exact hblock _
  split
  · exact blames_ok _
  split
  · exact hmistake _
  · split
    · exact blames_ok _
    · exact hmistake _

namespace Method

theorem blames_readBody (n : Nat) (name : Text) (ls : List Line) :
    (readBody n name ls).Blames True fun k => k = n ∨ Numbers ls k := by
  fun_induction readBody n name ls with
  | case1 => exact blames_mistake (.inl rfl) _
  | case2 => exact blames_ok _
  | case3 ls l rest hnext _ e he =>
    obtain ⟨hl, skipped, rfl, -⟩ := exists_of_next? hnext
    exact ((BodyEntry.blames_read hl rest).mono
      fun k hk => .inr (hk.mono (List.suffix_append skipped _))).error he
  | case4 ls l rest hnext _ e more he ih =>
    refine (ih.map _).mono fun k hk => hk.imp_right (Numbers.mono ?_)
    exact (BodyEntry.leaves_read he).trans (suffix_of_next? hnext)

theorem blames_readLine {q : Prop} (n : Nat) (line : Text) : (readLine n line).Blames q (· = n) := by
  refine Blames.bind (blames_readHeader ..) fun header => ?_
  split
  · exact blames_here _ _
  · exact blames_ok _

theorem blames_read {l : Line} (hl : IsSignificant l.text) (ls : List Line) :
    (read l ls).Blames True (Numbers (l :: ls)) := by
  have hfirst : ∀ n, n = l.number → Numbers (l :: ls) n :=
    fun n hn => ⟨l, List.mem_cons_self .., hl, hn.symm⟩
  rw [read]
  split
  · next e he =>
    exact ((blames_readLine ..).mono hfirst).error he
  · refine ((blames_readBody ..).mono fun k hk => ?_).map _
    exact hk.elim (hfirst k) (Numbers.mono (List.suffix_cons l ls))

end Method

/-! ### Members -/

namespace Member

/-- A line that gives the source file, with `inner` between the quotes. -/
structure Quotes (l : Line) (inner : Text) : Prop where
  starts : startsWith ".source" l.trimmed = true
  exists_body : ∃ body, trim (cutComment l.trimmed) = ".source" ++ body ∧ trim body = quoted inner

variable {l : Line} {ls : List Line}

theorem read_of_source (h : startsWith ".source" l.trimmed = true) :
    read l ls = (readSource l.number (cutComment l.trimmed)).map fun s => (source s, ls) := by
  rw [read, after?_other (w := ".super") (by decide) h (by decide) (by decide),
    after?_other (w := ".implements") (by decide) h (by decide) (by decide), if_pos h]

theorem readSource_quoted {line body inner : Text} (hline : trim line = ".source" ++ body)
    (hbody : trim body = quoted inner) (n : Nat) : readSource n line = ofEscaped inner := by
  have hopen : after? "\"" (quoted inner) = some (inner ++ ['"']) := after?_append "\"" (inner ++ ['"'])
  have hclose : after? "\"" (inner ++ ['"']).reverse = some inner.reverse := by
    rw [List.reverse_append]
    exact after?_append "\"" inner.reverse
  simp only [readSource, hline, after?_append, Option.map_some, hbody, Option.bind_some, hopen, hclose,
    List.reverse_reverse]

theorem readSource_cases (n : Nat) (line : Text) :
    (∃ body inner, trim line = ".source" ++ body ∧ trim body = quoted inner) ∨
      readSource n line = .mistake n .invalidSource := by
  cases hbody : after? ".source" (trim line) with
  | none =>
    refine .inr ?_
    rw [readSource, hbody]
    rfl
  | some body =>
    cases hopen : after? "\"" (trim body) with
    | none =>
      refine .inr ?_
      simp only [readSource, hbody, Option.map_some, Option.bind_some, hopen, Option.bind_none,
        Option.map_none]
    | some q =>
      cases hclose : after? "\"" q.reverse with
      | none =>
        refine .inr ?_
        simp only [readSource, hbody, Option.map_some, Option.bind_some, hopen, hclose, Option.map_none]
      | some r =>
        refine .inl ⟨body, r.reverse, eq_append_of_after? hbody, ?_⟩
        have hq : q = r.reverse ++ ['"'] := by
          have := congrArg List.reverse (eq_append_of_after? hclose)
          rwa [List.reverse_reverse, List.reverse_append] at this
        rw [eq_append_of_after? hopen, hq]
        rfl

/-- The name of a source file with an escape that cannot be read is refused as the text that it is. -/
theorem read_of_quotes {inner : Text} {f : EscapeFault} (h : Quotes l inner)
    (hf : unescape inner = .error f) :
    read l ls = .error (.fault (.parse (.text inner) (.escape f))) := by
  obtain ⟨body, hline, hbody⟩ := h.exists_body
  rw [read_of_source h.starts, readSource_quoted hline hbody, ofEscaped, hf]
  rfl

/-- Any other member is refused by a line. -/
theorem blames_read (hl : IsSignificant l.text)
    (h : ∀ inner f, Quotes l inner → unescape inner ≠ .error f) :
    (read l ls).Blames True (Numbers (l :: ls)) := by
  have hfirst : ∀ n, n = l.number → Numbers (l :: ls) n :=
    fun n hn => ⟨l, List.mem_cons_self .., hl, hn.symm⟩
  rw [read]
  split
  · exact ((ClassName.blames_readAt ..).mono hfirst).map _
  split
  · exact ((ClassName.blames_readAt ..).mono hfirst).map _
  split
  · next hstart =>
    refine Blames.map ?_ _
    rcases readSource_cases l.number (cutComment l.trimmed) with ⟨body, inner, hline, hbody⟩ | hnone
    · rw [readSource_quoted hline hbody, ofEscaped]
      cases hread : unescape inner with
      | ok t => exact blames_ok _
      | error f => exact absurd hread (h inner f ⟨hstart, body, hline, hbody⟩)
    · rw [hnone]
      exact blames_mistake (hfirst _ rfl) _
  split
  · exact ((Directive.blames_readBlock ..).mono hfirst).map _
  split
  · exact (Field.blames_read hl ls).map _
  split
  · exact (Method.blames_read hl ls).map _
  · exact blames_mistake (hfirst _ rfl) _

theorem blames_readAll (ls : List Line)
    (h : ∀ ms stop l rest inner f, Comes read ls ms stop → next? stop = some (l, rest) → Quotes l inner →
      unescape inner ≠ .error f) :
    (readAll ls).Blames True (Numbers ls) := by
  fun_induction readAll ls with
  | case1 => exact blames_ok _
  | case2 ls l rest hnext e he =>
    obtain ⟨hl, skipped, rfl, -⟩ := exists_of_next? hnext
    exact ((blames_read hl fun inner f => h _ _ l rest inner f (.here _) hnext).mono
      fun n => Numbers.mono (List.suffix_append skipped _)).error he
  | case3 ls l rest hnext m more hm ih =>
    refine ((ih fun ms stop l' rest' inner f hcomes => ?_).map _).mono fun n => Numbers.mono ?_
    · exact h (m :: ms) stop l' rest' inner f (.past hnext hm hcomes)
    · exact (leaves_read hm).trans (suffix_of_next? hnext)

end Member

/-! ### Documents -/

theorem Line.getElem?_of_mem_numberFrom {k : Nat} {ts : List Text} {l : Line} (h : l ∈ numberFrom k ts) :
    k ≤ l.number ∧ ts[l.number - k]? = some l.text := by
  induction ts generalizing k with
  | nil => cases h
  | cons t ts ih =>
    rcases List.mem_cons.1 h with rfl | h
    · exact ⟨Nat.le_refl _, by simp⟩
    · obtain ⟨hk, ht⟩ := ih h
      have hsub : l.number - k = l.number - (k + 1) + 1 := by omega
      exact ⟨by omega, by rwa [hsub, List.getElem?_cons_succ]⟩

/-- Plain text stands for itself between quotes. -/
theorem Text.unescape_of_isPlain {s : Text} (h : ∀ c ∈ s, IsPlain c) : unescape s = .ok s := by
  have hunits : unescapeUnits s = .ok (units s) := by
    induction s with
    | nil => rfl
    | cons c s ih =>
      rw [unescapeUnits_cons (h c (List.mem_cons_self ..)).2.1,
        ih fun d hd => h d (List.mem_cons_of_mem _ hd)]
      rfl
  rw [unescape, hunits]
  simp only [bind, Except.bind, ofUnits?_units]

theorem Place.isPlain_of_mem_show_line {n : Nat} {c : Char} (h : c ∈ (line n).show) : IsPlain c := by
  rcases List.mem_append.1 h with h | h
  · have hword : ∀ c ∈ ("line " : Text), IsPlain c := by decide
    exact hword c h
  · exact Numeral.isPlain_of_mem_decimal h

namespace Class

/-- The number of a line that says something, or of the first line if none does. -/
def IsLocation (s : Text) (n : Nat) : Prop :=
  (0 < n ∧ ∃ t, (lines s)[n - 1]? = some t ∧ IsSignificant t) ∨ (n = 1 ∧ ∀ t ∈ lines s, ¬ IsSignificant t)

/-- Reading a document stops at the name of its source file, for an escape in it. -/
def StopsAtSource (s inner : Text) (f : EscapeFault) : Prop :=
  (∃ first rest header, next? (ofText s) = some (first, rest) ∧ readHeader first = .ok header) ∧
    ∃ l ls, ReadsMember s l ls ∧ Member.Quotes l inner ∧ unescape inner = .error f

variable {s : Text}

theorem isLocation_of_numbers {n : Nat} (h : Numbers (ofText s) n) : IsLocation s n := by
  obtain ⟨l, hl, hsignificant, rfl⟩ := h
  obtain ⟨hpos, ht⟩ := getElem?_of_mem_numberFrom hl
  exact .inl ⟨hpos, l.text, ht, hsignificant⟩

theorem StopsAtSource.read_eq {inner : Text} {f : EscapeFault} (h : StopsAtSource s inner f) :
    read s = .error (.fault (.parse (.text inner) (.escape f))) := by
  obtain ⟨⟨first, rest, header, hfirst, hheader⟩, l, ls, hl, hquotes, hf⟩ := h
  obtain ⟨first', members, ms, stop, hfirst', hcomes, hstop⟩ := hl
  rw [hfirst] at hfirst'
  cases hfirst'
  have hall : Member.readAll rest = .error (.fault (.parse (.text inner) (.escape f))) := by
    rw [Member.readAll_of_comes hcomes, Member.readAll_of_error hstop (Member.read_of_quotes hquotes hf)]
    rfl
  rw [read, hfirst]
  simp only [bind, Except.bind, hheader, hall]

/-- Whatever else is refused is refused by a line. -/
theorem blames_read (h : ∀ inner f, ¬ StopsAtSource s inner f) : (read s).Blames True (IsLocation s) := by
  rw [read]
  split
  · next hnext =>
    refine blames_mistake (.inr ⟨rfl, fun t ht => ?_⟩) _
    rw [← map_text_ofText] at ht
    obtain ⟨l, hl, rfl⟩ := List.mem_map.1 ht
    exact not_significant_of_next? hnext l hl
  · next first rest hnext =>
    have hlocation : ∀ n, Numbers (ofText s) n → IsLocation s n := fun n => isLocation_of_numbers
    have hheader : (readHeader first).Blames True (Numbers (ofText s)) := by
      have hfirst : ∀ n, n = first.number → Numbers (ofText s) n :=
        fun n hn => hn ▸ numbers_of_next? hnext
      refine Blames.mono (Blames.bind (blames_readHeader ..) fun header => ?_) hfirst
      exact (ClassName.blames_readAt ..).bind fun name => blames_ok _
    cases hread : readHeader first with
    | error e => exact (hheader.mono hlocation).error hread
    | ok header =>
      refine Blames.bind ((Member.blames_readAll rest ?_).mono fun n hn => ?_) fun ms => blames_ok _
      · intro ms stop l ls inner f hcomes hstop hquotes hf
        exact h inner f ⟨⟨first, rest, header, hnext, hread⟩, l, ls, ⟨first, rest, ms, stop, hnext, hcomes,
          hstop⟩, hquotes, hf⟩
      · exact hlocation n (hn.mono (suffix_of_next? hnext))

/-- A document is refused by one of its lines, unless reading stops at an escape in the name of the source
file: that is refused by the name. -/
theorem refused_at {f : Fault} (h : read s = .error (.fault f)) :
    ∃ place mistake, f = .parse place mistake ∧
      ((∃ n, IsLocation s n ∧ place.show = (Place.line n).show) ↔ ¬ ∃ inner g, StopsAtSource s inner g) ∧
      ∀ inner g, StopsAtSource s inner g → place = .text inner ∧ mistake = .escape g := by
  by_cases hsource : ∃ inner g, StopsAtSource s inner g
  · obtain ⟨inner, g, hstops⟩ := hsource
    have hread := hstops.read_eq
    rw [h] at hread
    cases hread
    refine ⟨_, _, rfl, ⟨fun ⟨n, _, hshow⟩ => ?_, fun hnone => absurd ⟨inner, g, hstops⟩ hnone⟩, ?_⟩
    · -- the name has an escape in it, and the location of a line has none
      obtain ⟨-, l, ls, -, -, hunescape⟩ := hstops
      have hinner : inner = (Place.line n).show := hshow
      rw [hinner, unescape_of_isPlain fun c => Place.isPlain_of_mem_show_line] at hunescape
      cases hunescape
    · intro inner' g' hstops'
      have hread' := hstops'.read_eq
      rw [h] at hread'
      cases hread'
      exact ⟨rfl, rfl⟩
  · rcases (blames_read fun inner g hstops => hsource ⟨inner, g, hstops⟩).of_error _ h with
      ⟨-, hsplit⟩ | ⟨n, m, hn, hf⟩
    · cases hsplit
    · cases hf
      exact ⟨_, m, rfl, ⟨fun _ => hsource, fun _ => ⟨n, hn, rfl⟩⟩,
        fun inner g hstops => absurd ⟨inner, g, hstops⟩ hsource⟩

/-- A directive that is none, behind lines that say nothing. -/
def strayDocument : Text := "\n# a\n.class La;\n\n.method a()V\n  .b # c\n.end method\n"

theorem refused_at_stray :
    read strayDocument = .error (.fault (.parse (.line 6) (.unknownDirective ".b # c"))) ∧
    ∃ place mistake, Fault.parse (.line 6) (.unknownDirective ".b # c") = .parse place mistake ∧
      ((∃ n, IsLocation strayDocument n ∧ place.show = (Place.line n).show) ↔
        ¬ ∃ inner g, StopsAtSource strayDocument inner g) ∧
      ∀ inner g, StopsAtSource strayDocument inner g → place = .text inner ∧ mistake = .escape g := by
  have hread : read strayDocument =
      .error (.fault (.parse (.line 6) (.unknownDirective ".b # c"))) := by decide +kernel
  exact ⟨hread, refused_at hread⟩

/-- The name of the source file has an escape that stands for nothing. -/
def escapedDocument : Text := ".class La;\n.source \"\\q\"\n"

theorem escape_not_located :
    read escapedDocument = .error (.fault (.parse (.text "\\q") (.escape (.unknown 'q')))) ∧
    ∀ n, (Place.text "\\q").show ≠ (Place.line n).show := by
  refine ⟨by decide +kernel, fun n hshow => ?_⟩
  have hplain : IsPlain '\\' := Place.isPlain_of_mem_show_line (n := n) (by rw [← hshow]; decide)
  exact hplain.2.1 rfl

end Class

end DalvikPatch
