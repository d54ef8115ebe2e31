import DalvikPatch.Proofs.Writing

/-! Reading what was written. Each item is read back from its lines; a parameter that owns annotations is
read back unless its look-ahead splits a character. -/

namespace DalvikPatch

open Text Line

/-! ### Written lines under the look-ahead -/

namespace Look

theorem neutral_nil : Neutral [] where
  cut base := by
    have : indentation [] = 0 := rfl
    rw [this, Nat.zero_min, dropBytes?_zero]
    simp
  ending := rfl

theorem neutral_of_startsDark {s : Text} (hs : StartsDark s)
    (he : startsWith ".end annotation" (trim s) = false) : Neutral s where
  cut base := by
    rw [indentation_of_startsDark hs, Nat.zero_min, dropBytes?_zero]
    simp
  ending := he

theorem neutral_end : Neutral ".end method" := by
  apply neutral_of_startsDark
  · simp [StartsDark]; decide
  · decide

theorem neutral_margin {s : Text} (hs : StartsDark s)
    (he : startsWith ".end annotation" (trim s) = false) : Neutral (margin ++ s) where
  cut base := by
    rw [indentation_blanks_append blanks_margin, indentation_of_startsDark hs, Nat.add_zero,
      Nat.min_eq_left (Nat.le_add_right _ _)]
    have := dropBytes?_append margin 0 s
    rw [Nat.add_zero, dropBytes?_zero] at this
    rw [this]
    simp
  ending := by rw [trim_blanks_append blanks_margin, he]

end Look

namespace BodyItem

/-- The line of an item that is not a directive, behind the margin, with an empty line before it or
not. -/
structure Plain (i : BodyItem) (l : Text) : Prop where
  written : ∃ skipped, i.written = skipped ++ [margin ++ l] ∧ ∀ s ∈ skipped, s = []
  directive : i.directive? = none
  startsDark : StartsDark l
  significant : IsSignificant (margin ++ l)
  endAnnotation : startsWith ".end annotation" (trim l) = false
  endMethod : startsWith ".end method" (trim l) = false
  passed : Look.between.next (margin ++ l) = .passed
  read : ∀ (y : Line) (ys : List Line), y.text = margin ++ l →
    BodyEntry.read y ys = .ok (.item i, ys)

theorem trim_margin_append (l : Text) : trim (margin ++ l) = trim l :=
  trim_blanks_append Look.blanks_margin l

/-- A line that starts with a keyword is plain. -/
theorem plain_of_keyword {i : BodyItem} {k l : Text} (hk : k ∈ BodyEntry.keywords)
    (hne : k ∉ ([".annotation", ".end param", ".end annotation", ".end method"] : List Text))
    (hwritten : ∃ skipped, i.written = skipped ++ [margin ++ l] ∧ ∀ s ∈ skipped, s = [])
    (hdirective : i.directive? = none) (hl : startsWith k l = true) (hdark : StartsDark l)
    (hend : EndsDark l) (hread : ∀ (y : Line) (ys : List Line), y.trimmed = l →
      BodyEntry.read y ys = .ok (.item i, ys)) : i.Plain l := by
  have htrim : trim l = l := trim_eq_self hdark hend
  have hmargin : startsWith k (trim (margin ++ l)) = true := by rwa [trim_margin_append, htrim]
  simp only [List.mem_cons, List.not_mem_nil, or_false, not_or] at hne
  exact {
    written := hwritten
    directive := hdirective
    startsDark := hdark
    significant := BodyEntry.isSignificant_of_keyword hk hmargin
    endAnnotation := by rw [htrim]; exact BodyEntry.startsWith_other hk hl (by decide) hne.2.2.1
    endMethod := by rw [htrim]; exact BodyEntry.startsWith_other hk hl (by decide) hne.2.2.2
    passed := BodyEntry.next_between_keyword hk hmargin hne.1 hne.2.1
    read := fun y ys hy => hread y ys (by rw [Line.trimmed, hy, trim_margin_append, htrim]) }

theorem plain_line (n : UInt32) : (line n).Plain (".line " ++ Numeral.decimal n.toNat) := by
  have hblank : ∀ c ∈ Numeral.decimal n.toNat, ¬ isBlank c :=
    fun c hc => Numeral.not_isBlank_of_mem_decimal hc
  have hread := Numeral.readUInt32?_decimal n separated_nil
  rw [List.append_nil] at hread
  have hcount := BodyEntry.readCount?_eq (k := ".line")
    (fun c hc => hblank c (List.mem_of_mem_head? hc)) hread
  have hstart : startsWith ".line" (".line " ++ Numeral.decimal n.toNat) = true :=
    startsWith_append ".line" (' ' :: Numeral.decimal n.toNat)
  apply plain_of_keyword (k := ".line") (by decide) (by decide) ⟨[[]], rfl, by simp⟩ rfl hstart
  · exact StartsDark.append _ (by simp) (by decide)
  · exact EndsDark.append _ Nat.toDigits_ne_nil fun c hc => hblank c (List.mem_of_getLast? hc)
  · intro y ys hy
    exact BodyEntry.read_line (by rw [hy]; exact hcount)

theorem plain_label {b : Label} (h : b.Valid) : (label b).Plain b.text := by
  have hw := Label.isWord_text h
  have hread := Label.read?_text h separated_nil
  rw [List.append_nil] at hread
  have hstart : startsWith ":" b.text = true := startsWith_append ":" b.name
  apply plain_of_keyword (k := ":") (by decide) (by decide) ⟨[], rfl, by simp⟩ rfl hstart
    hw.startsDark hw.endsDark
  intro y ys hy
  exact BodyEntry.read_label (hy ▸ hstart) (hy ▸ hread)

theorem plain_instruction {i : Instruction} (h : i.Valid) : (instruction i).Plain i.text := by
  obtain ⟨hne, hdark, hhead⟩ := h.startsDark_text
  have htrim := head?_trim hdark
  have other : ∀ w : Text, w.head? = some '.' ∨ w.head? = some '#' →
      startsWith w (trim i.text) = false := by
    intro w hw
    apply startsWith_eq_false_of_head
    · intro c hc he
      rw [htrim] at hc
      rcases hw with hw | hw
      · exact (hhead c hc).1 (Option.some.inj (he.trans hw))
      · exact (hhead c hc).2.2 (Option.some.inj (he.trans hw))
    · rintro rfl
      simp at hw
  have hsignificant : IsSignificant (margin ++ i.text) := by
    rw [IsSignificant, trim_margin_append]
    refine ⟨fun hnil => ?_, other "#" (.inr rfl)⟩
    rw [hnil] at htrim
    exact hne (List.head?_eq_none_iff.1 htrim.symm)
  exact {
    written := ⟨[], rfl, by simp⟩
    directive := rfl
    startsDark := hdark
    significant := hsignificant
    endAnnotation := other _ (.inl rfl)
    endMethod := other _ (.inl rfl)
    passed := Look.next_between_other hsignificant
      (by rw [trim_margin_append, other _ (.inl rfl)])
      (by rw [trim_margin_append, other _ (.inl rfl)])
    read := by
      intro y ys hy
      have hy' : y.trimmed = trim i.text := by rw [Line.trimmed, hy, trim_margin_append]
      apply BodyEntry.read_instruction
      · intro c hc
        rw [hy', htrim] at hc
        exact ⟨(hhead c hc).1, (hhead c hc).2.1⟩
      · rw [hy', h.read_trim] }

/-- An item is a directive, or has one line behind the margin. -/
theorem Valid.directive_or_plain {i : BodyItem} (h : i.Valid) :
    (∃ d, i = directive d ∧ d.InBody) ∨ ∃ l, i.Plain l := by
  cases i with
  | directive d => exact .inl ⟨d, rfl, h⟩
  | line n => exact .inr ⟨_, plain_line n⟩
  | label b => exact .inr ⟨_, plain_label h⟩
  | instruction i => exact .inr ⟨_, plain_instruction h⟩

theorem Plain.neutral {i : BodyItem} {l : Text} (h : i.Plain l) :
    ∀ w ∈ i.written, Look.Neutral w := by
  obtain ⟨skipped, hw, hs⟩ := h.written
  intro w hm
  rw [hw] at hm
  rcases List.mem_append.1 hm with hm | hm
  · rw [hs w hm]
    exact Look.neutral_nil
  · rw [List.mem_singleton.1 hm]
    exact Look.neutral_margin h.startsDark h.endAnnotation

/-- What is written for an item is followed as its directive is, if it is one. -/
theorem Valid.follows {i : BodyItem} (h : i.Valid) {later : List Directive}
    (hl : ∀ d ∈ later, d.InBody) {ws : List Text} (hf : Look.Follows ws (Directive.ahead later)) :
    Look.Follows (i.written ++ ws) (Directive.ahead (Method.directivesOf [i] ++ later)) := by
  rcases h.directive_or_plain with ⟨d, rfl, -⟩ | ⟨l, hp⟩
  · exact hf.lines d.lines
  · have hnone : Method.directivesOf [i] = [] := by
      rw [Method.directivesOf, List.filterMap_cons_none hp.directive]
      rfl
    rw [hnone]
    exact hf.skips hp.neutral (Directive.not_found_ahead hl)

/-- The look-ahead from between directives passes over annotations and stops at anything else. -/
theorem Valid.after_written {i : BodyItem} (h : i.Valid) :
    Look.between.after i.written = .between ∨ Look.between.after i.written = .passed := by
  rcases h.directive_or_plain with ⟨d, rfl, hd⟩ | ⟨l, hp⟩
  · have hshift := Look.after_indented Look.blanks_margin .between d.lines
    have hbetween : Look.between.shift (byteSize margin) = .between := rfl
    rw [hbetween] at hshift
    rw [written, Directive.written, hshift]
    rcases hd.after_between with hd | hd
    · exact .inl (by rw [hd]; rfl)
    · exact .inr (by rw [hd]; rfl)
  · obtain ⟨skipped, hw, hs⟩ := hp.written
    have hskipped : ∀ s ∈ skipped, ¬ IsSignificant s := by
      intro s hm
      rw [hs s hm]
      decide
    rw [hw, Look.after_append, Look.after_between_of_not hskipped, Look.after_cons, hp.passed]
    exact .inr rfl

end BodyItem

/-! ### Directives -/

namespace BodyEntry

variable {d : Directive} {x : Line} {xs ys : List Line}

theorem read_line_written {s : Text} (hs : s ∈ (".param" :: singles : List Text)) (hd : d.IsLine s)
    (hxs : (x :: xs).map Line.text = d.written margin)
    (hpassed : Look.between.after (ys.map Line.text) = .passed) :
    read x (xs ++ ys) = .ok (directive d, ys) := by
  obtain ⟨l, hlines, hl, hstart⟩ := hd.exists_line
  obtain ⟨y, zs, heq, hy, hzs⟩ := Directive.exists_of_written Look.blanks_margin hlines hl hxs
  obtain ⟨rfl, rfl⟩ := List.cons.inj heq
  obtain rfl : xs = [] := List.map_eq_nil_iff.1 hzs
  have hself : d = ⟨[x.trimmed]⟩ := by rw [hy, ← hlines]
  rw [← hy] at hstart
  rw [List.nil_append, hself]
  rcases List.mem_cons.1 hs with rfl | hs
  · have hclosed := Directive.isClosed_answers ys
    rw [hpassed] at hclosed
    have hfalse : Directive.isClosed ys = .ok false := hclosed
    rewrite [read_parameter hstart, hfalse]
    rfl
  · exact read_single hs hstart

theorem read_block_written {b : Text × Text} (hb : b ∈ blocks) (hd : d.IsBlock b.1 b.2)
    (hxs : (x :: xs).map Line.text = d.written margin) (ys : List Line) :
    read x (xs ++ ys) = .ok (directive d, ys) := by
  have hkey := (areKeywords b.1 (mem_keywords_of_mem_blocks b hb).1).1
  obtain ⟨y, zs, heq, hstart, hread⟩ := hd.exists_of_written Look.blanks_margin hkey.1 hxs
  obtain ⟨rfl, rfl⟩ := List.cons.inj heq
  rw [read_block hb hstart, hread]
  rfl

/-- A parameter with annotations is read back, unless its look-ahead splits a character. -/
theorem read_owner_written (hd : d.IsBlock ".param" ".end param")
    (hxs : (x :: xs).map Line.text = d.written margin) {later : List Directive}
    (hf : Look.Follows (ys.map Line.text) (Directive.ahead later)) (ho : (d.look later).Found) :
    read x (xs ++ ys) = if d.look later = .split then .abort .splitCharacter
      else .ok (directive d, ys) := by
  obtain ⟨y, zs, heq, hstart, hread⟩ := hd.exists_of_written Look.blanks_margin (by simp) hxs
  obtain ⟨rfl, rfl⟩ := List.cons.inj heq
  have htail : xs.map Line.text = d.lines.tail.map (indented margin) := by
    have := congrArg List.tail hxs
    rwa [List.map_cons, List.tail_cons, Directive.written, ← List.map_tail] at this
  have hlook : Look.between.after ((xs ++ ys).map Line.text) = d.look later := by
    have := (hf.lines d.lines.tail).after (k := .between) ho
    rw [Directive.look, ← this, List.map_append, htail]
    rfl
  have hclosed := Directive.isClosed_answers (xs ++ ys)
  rw [hlook] at hclosed
  rw [read_parameter hstart]
  rcases ho with hc | hc
  · rw [hc] at hclosed
    have htrue : Directive.isClosed (xs ++ ys) = .ok true := hclosed
    rw [htrue, hread, hc]
    rfl
  · rw [hc] at hclosed
    have habort : Directive.isClosed (xs ++ ys) = .abort .splitCharacter := hclosed
    rw [habort, hc]
    rfl

/-- A directive is read back, unless it is a parameter whose look-ahead splits a character. -/
theorem read_directive (hd : d.InBody) (hxs : (x :: xs).map Line.text = d.written margin)
    {later : List Directive} (hpassed : Look.between.after (ys.map Line.text) = .passed)
    (hf : Look.Follows (ys.map Line.text) (Directive.ahead later))
    (ho : d.isOwner = true → (d.look later).Found) :
    read x (xs ++ ys) = if Directive.splits [d] later then .abort .splitCharacter
      else .ok (directive d, ys) := by
  have hsplits : Directive.splits [d] later = (d.isOwner && d.look later == .split) := Bool.or_false _
  rw [hsplits]
  cases hd with
  | @line s hs hline =>
    rw [hline.isOwner_eq_false]
    exact read_line_written hs hline hxs hpassed
  | @block b hb hblock =>
    rcases List.mem_cons.1 hb with rfl | hb
    · have hown : d.isOwner = true := by
        rw [hblock.isOwner_eq (by decide)]
        decide
      rw [hown, read_owner_written hblock hxs hf (ho hown)]
      simp only [Bool.true_and, beq_iff_eq]
    · obtain ⟨hkey, -, hnot⟩ := mem_keywords_of_mem_blocks b hb
      have hown : d.isOwner = false := by
        rw [hblock.isOwner_eq hkey]
        exact beq_eq_false_iff_ne.2 fun he => absurd (by rw [he]; decide) hnot
      rw [hown]
      exact read_block_written hb hblock hxs ys

end BodyEntry

namespace Method

theorem directivesOf_cons (i : BodyItem) (items : List BodyItem) :
    directivesOf (i :: items) = directivesOf [i] ++ directivesOf items := by
  cases i <;> rfl

theorem follows_items {items : List BodyItem} (h : ∀ i ∈ items, i.Valid) {later : List Directive}
    (hl : ∀ d ∈ later, d.InBody) {ws : List Text} (hf : Look.Follows ws (Directive.ahead later)) :
    Look.Follows (items.flatMap BodyItem.written ++ ws)
      (Directive.ahead (directivesOf items ++ later)) := by
  induction items with
  | nil => exact hf
  | cons i items ih =>
    have hitems : ∀ i ∈ items, i.Valid := fun j hj => h j (List.mem_cons_of_mem _ hj)
    have hrest : ∀ d ∈ directivesOf items ++ later, d.InBody := by
      intro d hd
      exact (List.mem_append.1 hd).elim (inBody_of_mem_directivesOf hitems d) (hl d)
    rw [directivesOf_cons, List.append_assoc, List.flatMap_cons, List.append_assoc]
    exact (h i (List.mem_cons_self ..)).follows hrest (ih hitems)

/-- From between the items of a body the look-ahead stops at the end of the method at last. -/
theorem after_items {items : List BodyItem} (h : ∀ i ∈ items, i.Valid) (ws : List Text) :
    Look.between.after (items.flatMap BodyItem.written ++ (".end method" : Text) :: ws) = .passed := by
  induction items with
  | nil =>
    have : Look.between.next ".end method" = .passed := by decide
    rw [List.flatMap_nil, List.nil_append, Look.after_cons, this, Look.passed_after]
  | cons i items ih =>
    rw [List.flatMap_cons, List.append_assoc, Look.after_append]
    rcases (h i (List.mem_cons_self ..)).after_written with hi | hi
    · rw [hi]
      exact ih fun j hj => h j (List.mem_cons_of_mem _ hj)
    · rw [hi, Look.passed_after]

/-! ### Bodies -/

theorem readBody_skips {n : Nat} {name : Text} {skipped : List Line}
    (h : ∀ l ∈ skipped, ¬ IsSignificant l.text) (ls : List Line) :
    readBody n name (skipped ++ ls) = readBody n name ls := by
  rw [readBody.eq_def n name (skipped ++ ls), Line.next?_append_of_not h, ← readBody.eq_def]

theorem readBody_end {n : Nat} {name : Text} {l : Line} (h : startsWith ".end method" l.trimmed = true)
    (ls : List Line) : readBody n name (l :: ls) = .ok (⟨none, []⟩, ls) := by
  have hl := BodyEntry.isSignificant_of_keyword (k := ".end method") (by decide) h
  rw [readBody.eq_def, Line.next?_cons_of_significant hl ls]
  exact if_pos h

theorem readBody_entry {n : Nat} {name : Text} {l : Line} (hl : IsSignificant l.text)
    (hend : startsWith ".end method" l.trimmed = false) {ls rest : List Line} {o : Outcome BodyEntry}
    (he : BodyEntry.read l ls = o.map fun e => (e, rest)) :
    readBody n name (l :: ls) = o.bind fun e =>
      (readBody n name rest).map fun p => (p.1.add e, p.2) := by
  rw [readBody.eq_def, Line.next?_cons_of_significant hl ls]
  simp only [hend]
  rw [if_neg Bool.false_ne_true, he]
  cases o <;> rfl

/-- An item that is no directive is read back. -/
theorem readBody_plain {i : BodyItem} {l : Text} (hi : i.Plain l) (n : Nat) (name : Text)
    {xs : List Line} (hxs : xs.map Line.text = i.written) (ys : List Line) :
    readBody n name (xs ++ ys) =
      (readBody n name ys).map fun p => (p.1.add (.item i), p.2) := by
  obtain ⟨skipped, hw, hs⟩ := hi.written
  rw [hw] at hxs
  obtain ⟨as, bs, rfl, has, hbs⟩ := List.map_eq_append_iff.1 hxs
  obtain ⟨y, rfl, hy⟩ := List.map_eq_singleton_iff.1 hbs
  have hskip : ∀ a ∈ as, ¬ IsSignificant a.text := by
    intro a ha
    rw [hs a.text (has ▸ List.mem_map_of_mem ha)]
    decide
  have hend : startsWith ".end method" y.trimmed = false := by
    rw [Line.trimmed, hy, BodyItem.trim_margin_append, hi.endMethod]
  have hread : BodyEntry.read y ys = (Except.ok (.item i) : Outcome BodyEntry).map fun e => (e, ys) :=
    hi.read y ys hy
  rw [List.append_assoc, readBody_skips hskip]
  exact readBody_entry (hy ▸ hi.significant) hend hread

theorem readBody_directive {d : Directive} (hd : d.InBody) (n : Nat) (name : Text) {xs ys : List Line}
    (hxs : xs.map Line.text = d.written margin) {later : List Directive}
    (hpassed : Look.between.after (ys.map Line.text) = .passed)
    (hf : Look.Follows (ys.map Line.text) (Directive.ahead later))
    (ho : d.isOwner = true → (d.look later).Found) :
    readBody n name (xs ++ ys) = if Directive.splits [d] later then Outcome.abort .splitCharacter
      else (readBody n name ys).map fun p => (p.1.add (.item (.directive d)), p.2) := by
  obtain ⟨l, ls, hlines, hl, k, hk, hstart, hm⟩ := hd.exists_first
  obtain ⟨x, xs, rfl, hx, -⟩ := Directive.exists_of_written Look.blanks_margin hlines hl hxs
  rw [← hx] at hstart
  have hread := BodyEntry.read_directive hd hxs hpassed hf ho
  have hentry : BodyEntry.read x (xs ++ ys) = (if Directive.splits [d] later
      then Outcome.abort .splitCharacter else .ok (.directive d)).map fun e => (e, ys) := by
    rw [hread]
    split <;> rfl
  rw [List.cons_append, readBody_entry (BodyEntry.isSignificant_of_keyword hk hstart)
    (BodyEntry.startsWith_other hk hstart (by decide) hm) hentry]
  split <;> rfl

/-- A body is read back, unless the look-ahead of a parameter in it splits a character. -/
theorem readBody_written {items : List BodyItem} (hv : ∀ i ∈ items, i.Valid) (n : Nat) (name : Text)
    {xs ys : List Line}
    (hxs : xs.map Line.text = items.flatMap BodyItem.written ++ [(".end method" : Text)])
    {later : List Directive} (hl : ∀ d ∈ later, d.InBody)
    (hf : Look.Follows (ys.map Line.text) (Directive.ahead later))
    (ho : Directive.Owned (directivesOf items ++ later)) :
    readBody n name (xs ++ ys) = if Directive.splits (directivesOf items) later then
      .abort .splitCharacter else .ok (⟨none, items⟩, ys) := by
  induction items generalizing xs with
  | nil =>
    obtain ⟨x, rfl, hx⟩ := List.map_eq_singleton_iff.1 hxs
    have hend : startsWith ".end method" x.trimmed = true := by
      rw [Line.trimmed, hx]
      decide
    exact readBody_end hend ys
  | cons i items ih =>
    have hitems : ∀ i ∈ items, i.Valid := fun j hj => hv j (List.mem_cons_of_mem _ hj)
    have hi := hv i (List.mem_cons_self ..)
    rw [List.flatMap_cons, List.append_assoc] at hxs
    obtain ⟨as, bs, rfl, has, hbs⟩ := List.map_eq_append_iff.1 hxs
    have howned : Directive.Owned (directivesOf items ++ later) := by
      rw [directivesOf_cons, List.append_assoc] at ho
      exact ho.right
    have hrest := ih hitems hbs howned
    rw [directivesOf_cons, Directive.splits_append, List.append_assoc]
    rcases hi.directive_or_plain with ⟨d, rfl, hd⟩ | ⟨l, hp⟩
    · have hmap : (bs ++ ys).map Line.text = items.flatMap BodyItem.written ++
          (".end method" : Text) :: ys.map Line.text := by
        rw [List.map_append, hbs, List.append_assoc]
        rfl
      have hpassed : Look.between.after ((bs ++ ys).map Line.text) = .passed := by
        rw [hmap]
        exact after_items hitems _
      have hfollows : Look.Follows ((bs ++ ys).map Line.text)
          (Directive.ahead (directivesOf items ++ later)) := by
        rw [hmap]
        exact follows_items hitems hl (hf.skip Look.neutral_end (Directive.not_found_ahead hl))
      have hfound : d.isOwner = true → (d.look (directivesOf items ++ later)).Found := ho.1
      have hsingle : directivesOf [BodyItem.directive d] = [d] := rfl
      rw [readBody_directive hd n name has hpassed hfollows hfound, hrest, hsingle]
      cases Directive.splits [d] (directivesOf items ++ later) <;>
        cases Directive.splits (directivesOf items) later <;> rfl
    · have hnone : directivesOf [i] = [] := by
        rw [directivesOf, List.filterMap_cons_none hp.directive]
        rfl
      rw [readBody_plain hp n name has, hrest, hnone]
      cases Directive.splits (directivesOf items) later <;> rfl

end Method

end DalvikPatch
