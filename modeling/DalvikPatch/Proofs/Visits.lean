import DalvikPatch.Proofs.Documents

/-! The lines at which a document is read. Its members and the entries of its bodies start on lines that
reading comes to one after another, past lines that say nothing and past what blocks hold. What is read in
front of such a line depends on it only as far as the look-ahead of parameters and fields sees it. -/

namespace DalvikPatch

open Text Line

/-! ### What the look-ahead sees -/

namespace Look

/-- Cutting inside of the first part of a text leaves the second. -/
theorem dropBytes?_append_of_le {b : Text} {k : Nat} (hk : k ≤ byteSize b) (s : Text) :
    dropBytes? k (b ++ s) = (dropBytes? k b).map (· ++ s) := by
  induction b generalizing k with
  | nil =>
    obtain rfl : k = 0 := Nat.le_zero.1 hk
    rw [dropBytes?_zero, dropBytes?_zero]
    rfl
  | cons c b ih =>
    cases k with
    | zero =>
      rw [dropBytes?_zero, dropBytes?_zero]
      rfl
    | succ k =>
      rw [List.cons_append, dropBytes?, dropBytes?]
      split
      · next hc =>
        rw [byteSize] at hk
        exact ih (by omega)
      · rfl

/-- The look-ahead has one answer, where it has any. -/
theorem eq_of_answers {look : Look} {o : Outcome Bool} {b : Bool}
    (h : look.Answers (.ok b)) (h' : look.Answers o) : o = .ok b := by
  cases look with
  | inside base =>
    obtain ⟨n, hn⟩ := h
    cases hn
  | split => cases h
  | between | closed | passed => exact h'.trans h.symm

/-- With the same indentation, lines that start with a word that is nothing to the look-ahead are the same
to it. -/
theorem next_eq_of_apart {k lead t t' : Text} (hk : Apart k) (hlead : Blanks lead) (ht : StartsDark t)
    (ht' : StartsDark t') (h : startsWith k (trim t) = true) (h' : startsWith k (trim t') = true)
    (look : Look) : look.next (lead ++ t') = look.next (lead ++ t) := by
  rw [← trim_blanks_append hlead t] at h
  rw [← trim_blanks_append hlead t'] at h'
  cases look with
  | between => rw [next_between_of_apart hk h, next_between_of_apart hk h']
  | inside base =>
    have hindent : ∀ u, StartsDark u → indentation (lead ++ u) = byteSize lead := fun u hu => by
      rw [indentation_blanks_append hlead, indentation_of_startsDark hu, Nat.add_zero]
    have hend := hk.2 ".end annotation" (by simp)
    rw [next, next, hindent t ht, hindent t' ht',
      dropBytes?_append_of_le (Nat.min_le_left ..), dropBytes?_append_of_le (Nat.min_le_left ..),
      startsWith_eq_false h hend.1 hend.2, startsWith_eq_false h' hend.1 hend.2]
    simp only [Option.map_eq_none_iff]
  | closed | passed | split => rfl

end Look

/-! ### Coming from lines to lines -/

namespace Line

variable {α : Type} {read : Line → List Line → Outcome (α × List Line)} {ls ys ys' stop : List Line}
  {as : List α}

/-- Reading one thing after another comes from some lines to others. -/
inductive Comes (read : Line → List Line → Outcome (α × List Line)) : List Line → List α → List Line → Prop
  | here (ls : List Line) : Comes read ls [] ls
  | past {ls rest more stop : List Line} {l : Line} {a : α} {as : List α} :
      next? ls = some (l, rest) → read l rest = .ok (a, more) → Comes read more as stop →
      Comes read ls (a :: as) stop

/-- Reading one thing after another comes to a line of which something holds. -/
def Meets (read : Line → List Line → Outcome (α × List Line)) (P : Line → List Line → Prop)
    (ls : List Line) : Prop :=
  ∃ as stop l rest, Comes read ls as stop ∧ next? stop = some (l, rest) ∧ P l rest

theorem Meets.here {P : Line → List Line → Prop} {l : Line} {ls rest : List Line} (h : next? ls = some (l, rest)) (hl : P l rest) :
    Meets read P ls :=
  ⟨[], ls, l, rest, .here ls, h, hl⟩

theorem Meets.past {P : Line → List Line → Prop} {l : Line} {ls rest more : List Line} (h : next? ls = some (l, rest))
    (ha : read l rest = .ok (a, more)) (hmore : Meets read P more) : Meets read P ls := by
  obtain ⟨as, stop, k, rest', hcomes, hstop, hk⟩ := hmore
  exact ⟨a :: as, stop, k, rest', .past h ha hcomes, hstop, hk⟩

/-- What a reader leaves over are the last of the lines that it was given. -/
def Leaves (read : Line → List Line → Outcome (α × List Line)) : Prop :=
  ∀ ⦃l : Line⦄ ⦃ls rest : List Line⦄ ⦃a : α⦄, read l ls = .ok (a, rest) → rest <:+ ls

theorem suffix_of_next? {l : Line} {rest : List Line} (h : next? ls = some (l, rest)) : rest <:+ ls := by
  obtain ⟨-, skipped, rfl, -⟩ := exists_of_next? h
  exact ⟨skipped ++ [l], by simp⟩

theorem Comes.suffix (hread : Leaves read) (h : Comes read ls as stop) : stop <:+ ls := by
  induction h with
  | here ls => exact List.suffix_rfl
  | past hnext ha _ ih => exact (ih.trans (hread ha)).trans (suffix_of_next? hnext)

/-- The next significant line is the same whatever stands behind the lines after it. -/
theorem next?_append {zs rest : List Line} {l : Line} (h : next? (zs ++ ys) = some (l, rest))
    (hys : ys <:+ rest) : ∃ us, rest = us ++ ys ∧ ∀ ys', next? (zs ++ ys') = some (l, us ++ ys') := by
  obtain ⟨us, rfl⟩ := hys
  obtain ⟨hl, skipped, hsplit, hskipped⟩ := exists_of_next? h
  have hzs : zs = skipped ++ l :: us := by
    rw [← List.cons_append, ← List.append_assoc] at hsplit
    exact List.append_cancel_right hsplit
  refine ⟨us, rfl, fun ys' => ?_⟩
  rw [hzs, List.append_assoc, next?_append_of_not hskipped, List.cons_append,
    next?_cons_of_significant hl]

/-! ### Exchanging what follows -/

/-- The look-ahead sees no difference between some lines and others, wherever it starts. -/
structure Alike (ys ys' : List Line) : Prop where
  closed : ∀ xs b, Directive.isClosed (xs ++ ys) = .ok b → Directive.isClosed (xs ++ ys') = .ok b
  annotated : ∀ xs, Field.isAnnotated (xs ++ ys') = Field.isAnnotated (xs ++ ys)
  ne_nil : ys ≠ []

theorem Alike.append (h : Alike ys ys') (zs : List Line) : Alike (zs ++ ys) (zs ++ ys') where
  closed xs b hb := by
    rw [← List.append_assoc] at hb ⊢
    exact h.closed _ b hb
  annotated xs := by
    rw [← List.append_assoc, ← List.append_assoc]
    exact h.annotated _
  ne_nil := List.append_ne_nil_of_right_ne_nil _ h.ne_nil

theorem alike_of_apart {k lead t t' : Text} {l l' : Line} (hk : Look.Apart k) (hlead : Blanks lead)
    (hl : l.text = lead ++ t) (hl' : l'.text = lead ++ t') (ht : StartsDark t) (ht' : StartsDark t')
    (h : startsWith k (trim t) = true) (h' : startsWith k (trim t') = true) (ls : List Line) :
    Alike (l :: ls) (l' :: ls) where
  closed xs b hb := by
    have hlook : Look.between.after ((xs ++ l' :: ls).map Line.text) =
        Look.between.after ((xs ++ l :: ls).map Line.text) := by
      simp only [List.map_append, List.map_cons, Look.after_append, Look.after_cons, hl, hl',
        Look.next_eq_of_apart hk hlead ht ht' h h']
    have hanswers := Directive.isClosed_answers (xs ++ l :: ls)
    have hanswers' := Directive.isClosed_answers (xs ++ l' :: ls)
    rw [hlook] at hanswers'
    rw [hb] at hanswers
    exact Look.eq_of_answers hanswers hanswers'
  annotated xs := by
    have hannotation := hk.2 ".annotation" (by simp)
    rw [← trim_blanks_append hlead t, ← hl] at h
    rw [← trim_blanks_append hlead t', ← hl'] at h'
    induction xs with
    | nil =>
      rw [List.nil_append, List.nil_append, Field.isAnnotated_of_significant (hk.1.isSignificant h),
        Field.isAnnotated_of_significant (hk.1.isSignificant h'), Line.trimmed, Line.trimmed,
        startsWith_eq_false h hannotation.1 hannotation.2,
        startsWith_eq_false h' hannotation.1 hannotation.2]
    | cons x xs ih =>
      by_cases hx : IsSignificant x.text
      · rw [List.cons_append, List.cons_append, Field.isAnnotated_of_significant hx,
          Field.isAnnotated_of_significant hx]
      · have hskips : ∀ ls, Field.isAnnotated ([x] ++ ls) = Field.isAnnotated ls :=
          Field.isAnnotated_skips (by simpa using hx)
        exact (hskips _).trans (ih.trans (hskips _).symm)
  ne_nil := List.cons_ne_nil _ _

/-- What follows the lines that a reader takes may be exchanged for lines like it. -/
def Local (read : Line → List Line → Outcome (α × List Line)) : Prop :=
  ∀ ⦃l : Line⦄ ⦃zs ys ys' : List Line⦄ ⦃a : α⦄, Alike ys ys' →
    read l (zs ++ ys) = .ok (a, ys) → read l (zs ++ ys') = .ok (a, ys')

theorem Comes.exchange (hread : Leaves read) (hlocal : Local read) (h : Alike ys ys') {zs : List Line}
    (hcomes : Comes read (zs ++ ys) as ys) : Comes read (zs ++ ys') as ys' := by
  generalize hls : zs ++ ys = ls at hcomes
  induction hcomes generalizing zs with
  | here ls =>
    obtain rfl : zs = [] := List.append_left_eq_self.1 hls
    exact .here ys'
  | past hnext ha hmore ih =>
    subst hls
    obtain ⟨vs, rfl⟩ := hmore.suffix hread
    obtain ⟨us, rfl⟩ := hread ha
    obtain ⟨ws, hws, hnext'⟩ := next?_append hnext ⟨us ++ vs, List.append_assoc ..⟩
    obtain rfl : us ++ vs = ws := List.append_cancel_right ((List.append_assoc ..).trans hws)
    exact .past ((hnext' ys').trans (by rw [List.append_assoc])) (hlocal (h.append vs) ha) (ih h rfl)

/-- A reader that takes one line. -/
theorem exchange_past {β γ : Type} {o : Outcome β} {g : β → γ} {c : γ} {zs : List Line}
    (h : o.map (fun b => (g b, zs ++ ys)) = .ok (c, ys)) :
    o.map (fun b => (g b, zs ++ ys')) = .ok (c, ys') := by
  obtain ⟨b, rfl, heq⟩ := exists_of_map h
  obtain ⟨rfl, hzs⟩ := Prod.mk.inj heq
  obtain rfl : zs = [] := List.append_left_eq_self.1 hzs
  rfl

/-- A reader that passes on what another one reads. -/
theorem exchange_map {β γ : Type} {o o' : Outcome (β × List Line)} {g : β → γ} {c : γ}
    (hlocal : ∀ {b}, o = .ok (b, ys) → o' = .ok (b, ys'))
    (h : o.map (fun p => (g p.1, p.2)) = .ok (c, ys)) :
    o'.map (fun p => (g p.1, p.2)) = .ok (c, ys') := by
  obtain ⟨⟨b, rest⟩, ho, heq⟩ := exists_of_map h
  cases heq
  rw [hlocal ho]
  rfl

end Line

/-! ### Readers -/

namespace Directive

theorem readLines_exchange {n base : Nat} {closing : Text} {zs ys : List Line} {ts : List Text}
    (h : readLines n base closing (zs ++ ys) = .ok (ts, ys)) (ys' : List Line) :
    readLines n base closing (zs ++ ys') = .ok (ts, ys') := by
  induction zs generalizing ts with
  | nil => exact absurd (length_lt_of_readLines h) (Nat.lt_irrefl _)
  | cons z zs ih =>
    rw [List.cons_append, readLines] at h ⊢
    cases hcut : dropBytes? (min (indentation z.text) base) z.text with
    | none =>
      rw [hcut] at h
      cases h
    | some t =>
      simp only [hcut] at h ⊢
      by_cases hend : startsWith closing z.trimmed
      · rw [if_pos hend] at h ⊢
        obtain ⟨rfl, hzs⟩ := Prod.mk.inj (Except.ok.inj h)
        obtain rfl : zs = [] := List.append_left_eq_self.1 hzs
        rfl
      · rw [if_neg hend] at h ⊢
        obtain ⟨⟨ts', rest⟩, hrest, heq⟩ := exists_of_map h
        cases heq
        rw [ih hrest]
        rfl

theorem readBlock_exchange {closing : Text} {l : Line} {zs ys : List Line} {d : Directive}
    (h : readBlock closing l (zs ++ ys) = .ok (d, ys)) (ys' : List Line) :
    readBlock closing l (zs ++ ys') = .ok (d, ys') := by
  obtain ⟨⟨ts, rest⟩, hread, heq⟩ := exists_of_map h
  cases heq
  rw [readBlock, readLines_exchange hread]
  rfl

end Directive

namespace Field

theorem readAnnotations_exchange {zs ys : List Line} {ds : List Directive} (hys : ys ≠ [])
    (h : readAnnotations (zs ++ ys) = .ok (ds, ys)) (ys' : List Line) :
    readAnnotations (zs ++ ys') = .ok (ds, ys') := by
  generalize hls : zs ++ ys = ls at h
  fun_induction readAnnotations ls generalizing ds zs with
  | case1 ls hnext =>
    cases h
    exact absurd rfl hys
  | case2 ls l rest hnext hend =>
    subst hls
    cases h
    obtain ⟨us, hus, hnext'⟩ := next?_append hnext List.suffix_rfl
    obtain rfl : us = [] := List.append_left_eq_self.1 hus.symm
    rw [readAnnotations.eq_def, hnext' ys']
    exact if_pos hend
  | case3 => cases h
  | case4 ls l rest hnext hend ha d more hd ih =>
    subst hls
    obtain ⟨⟨ds', ys''⟩, hread, heq⟩ := exists_of_map h
    cases heq
    obtain ⟨vs, rfl⟩ := suffix_of_readAnnotations hread
    obtain ⟨us, rfl⟩ := Directive.suffix_of_readBlock hd
    obtain ⟨ws, hws, hnext'⟩ := next?_append hnext ⟨us ++ vs, List.append_assoc ..⟩
    obtain rfl : us ++ vs = ws := List.append_cancel_right ((List.append_assoc ..).trans hws)
    rw [readAnnotations.eq_def, hnext' ys', List.append_assoc]
    simp only [hend, ha, if_true]
    rw [if_neg Bool.false_ne_true]
    rw [Directive.readBlock_exchange hd]
    simp only [ih rfl hread, Except.map]
  | case5 => cases h

theorem local_read : Local read := by
  intro l zs ys ys' f halike h
  obtain ⟨g, hg, h⟩ := exists_of_bind h
  have hbind : read l (zs ++ ys') = (if isAnnotated (zs ++ ys') then do
      let p ← readAnnotations (zs ++ ys')
      .ok ({ g with annotations := p.1 }, p.2)
    else .ok (g, zs ++ ys')) := by
    rw [read, hg]
    rfl
  rw [hbind, halike.annotated]
  split at h
  · obtain ⟨p, hp, h⟩ := exists_of_bind h
    cases h
    rw [if_pos ‹_›, readAnnotations_exchange halike.ne_nil hp]
    rfl
  · obtain ⟨rfl, hzs⟩ := Prod.mk.inj (Except.ok.inj h)
    obtain rfl : zs = [] := List.append_left_eq_self.1 hzs
    rw [if_neg ‹_›]
    rfl

end Field

namespace BodyEntry

theorem leaves_read : Leaves read := fun _ _ _ _ h => (reads_of_read h).suffix

theorem local_read : Local read := by
  intro l zs ys ys' e halike h
  have hpast : ∀ {e' : BodyEntry}, (.ok (e', zs ++ ys) : Outcome _) = .ok (e, ys) →
      (.ok (e', zs ++ ys') : Outcome _) = .ok (e, ys') :=
    fun {e'} h => exchange_past (o := .ok e') (g := id) h
  rw [read] at h ⊢
  split at h
  · exact hpast h
  split at h
  · exact hpast h
  split at h
  · exact hpast h
  by_cases hlabel : startsWith ":" l.trimmed
  · rw [if_pos hlabel] at h ⊢
    split at h
    · exact hpast h
    · cases h
  rw [if_neg hlabel] at h ⊢
  by_cases hparam : startsWith ".param" l.trimmed
  · rw [if_pos hparam] at h ⊢
    split at h
    · cases h
    · next hc =>
      rw [halike.closed _ _ hc]
      exact exchange_map (fun hd => Directive.readBlock_exchange hd ys') h
    · next hc =>
      rw [halike.closed _ _ hc]
      exact hpast h
  rw [if_neg hparam] at h ⊢
  split at h
  · exact exchange_map (fun hd => Directive.readBlock_exchange hd ys') h
  by_cases hsingle : singles.any (fun d => startsWith d l.trimmed)
  · rw [if_pos hsingle] at h ⊢
    exact hpast h
  rw [if_neg hsingle] at h ⊢
  by_cases hdot : startsWith "." l.trimmed
  · rw [if_pos hdot] at h
    cases h
  rw [if_neg hdot] at h ⊢
  split at h
  · exact hpast h
  · cases h

/-- The end of a method is no entry of its body. -/
theorem Reads.not_end {l : Line} {ls rest : List Line} {e : BodyEntry} (h : Reads l ls e rest) :
    startsWith ".end method" l.trimmed = false := by
  have other : ∀ k ∈ keywords, k ≠ (".end method" : Text) → startsWith k l.trimmed = true →
      startsWith ".end method" l.trimmed = false :=
    fun k hk hne hstart => startsWith_other hk hstart (by decide) hne
  cases h with
  | frame hk hstart =>
    have hframes : ∀ k ∈ ([".locals", ".registers"] : List Text), k ∈ keywords ∧ k ≠ ".end method" := by
      decide
    obtain ⟨hk, hne⟩ := hframes _ hk
    exact other _ hk hne hstart
  | line hstart => exact other _ (by decide) (by decide) hstart
  | label hstart _ => exact other _ (by decide) (by decide) hstart
  | opened hstart _ => exact other _ (by decide) (by decide) hstart
  | owner hstart _ _ => exact other _ (by decide) (by decide) hstart
  | block hb hstart _ =>
    obtain ⟨hk, -, hne⟩ := mem_keywords_of_mem_blocks _ hb
    exact other _ hk (by simp_all) hstart
  | single hs hstart =>
    obtain ⟨hk, -, hne, -⟩ := mem_keywords_of_mem_singles _ hs
    exact other _ hk (by simp_all) hstart
  | instruction _ hdot _ =>
    rw [Bool.eq_false_iff]
    intro hend
    obtain ⟨r, hr⟩ := startsWith_iff.1 hend
    have hstart : startsWith "." l.trimmed = true := startsWith_iff.2 ⟨("end method" : Text) ++ r, hr⟩
    rw [hdot] at hstart
    cases hstart

end BodyEntry

namespace Method

section

variable {n : Nat} {name : Text} {l : Line} {ls rest : List Line}

theorem readBody_of_none (h : next? ls = none) :
    readBody n name ls = Outcome.mistake n (.unterminatedMethod name) := by
  rw [readBody.eq_def, h]

theorem readBody_of_end (hnext : next? ls = some (l, rest))
    (hend : startsWith ".end method" l.trimmed = true) : readBody n name ls = .ok (⟨none, []⟩, rest) := by
  rw [readBody.eq_def, hnext]
  exact if_pos hend

/-- A body is refused with its next entry. -/
theorem readBody_of_error (hnext : next? ls = some (l, rest))
    (hend : startsWith ".end method" l.trimmed = false) {e : Stop} (he : BodyEntry.read l rest = .error e) :
    readBody n name ls = .error e := by
  rw [readBody.eq_def, hnext]
  simp only [hend]
  rw [if_neg Bool.false_ne_true, he]

end

/-- The entries that reading came past are put in front of what the rest of the body says. -/
theorem readBody_of_comes {n : Nat} {name : Text} {ls stop : List Line} {es : List BodyEntry}
    (h : Comes BodyEntry.read ls es stop) :
    readBody n name ls = (readBody n name stop).map fun p => (es.foldr (fun e b => b.add e) p.1, p.2) := by
  induction h with
  | here ls => cases readBody n name ls <;> rfl
  | past hnext he _ ih =>
    rw [readBody.eq_def, hnext]
    simp only [(BodyEntry.reads_of_read he).not_end]
    rw [if_neg Bool.false_ne_true, he]
    simp only [ih]
    cases readBody n name _ <;> rfl

theorem readBody_exchange {n : Nat} {name : Text} {zs ys ys' : List Line} {b : Body} (halike : Alike ys ys')
    (h : readBody n name (zs ++ ys) = .ok (b, ys)) : readBody n name (zs ++ ys') = .ok (b, ys') := by
  generalize hls : zs ++ ys = ls at h
  fun_induction readBody n name ls generalizing b zs with
  | case1 => cases h
  | case2 ls l rest hnext hend =>
    subst hls
    cases h
    obtain ⟨us, hus, hnext'⟩ := next?_append hnext List.suffix_rfl
    obtain rfl : us = [] := List.append_left_eq_self.1 hus.symm
    exact readBody_of_end (hnext' ys') hend
  | case3 => cases h
  | case4 ls l rest hnext hend e more he ih =>
    subst hls
    obtain ⟨⟨b', ys''⟩, hread, heq⟩ := exists_of_map h
    cases heq
    obtain ⟨vs, rfl⟩ := suffix_of_readBody hread
    obtain ⟨us, rfl⟩ := BodyEntry.leaves_read he
    obtain ⟨ws, hws, hnext'⟩ := next?_append hnext ⟨us ++ vs, List.append_assoc ..⟩
    obtain rfl : us ++ vs = ws := List.append_cancel_right ((List.append_assoc ..).trans hws)
    rw [readBody.eq_def, hnext' ys', List.append_assoc]
    simp only
    rw [if_neg hend, BodyEntry.local_read (halike.append vs) he]
    simp only [ih rfl hread, Except.map]

theorem local_read : Local read := by
  intro l zs ys ys' m halike h
  rw [read] at h ⊢
  split at h
  · cases h
  · next flags name prototype hline =>
    obtain ⟨⟨b, rest⟩, hbody, heq⟩ := exists_of_map h
    cases heq
    rw [readBody_exchange halike hbody]
    rfl

end Method

namespace Member

theorem leaves_read : Leaves read := fun _ _ _ _ h => suffix_of_read h

theorem local_read : Local read := by
  intro l zs ys ys' m halike h
  rw [read] at h ⊢
  split at h
  · exact exchange_past h
  split at h
  · exact exchange_past h
  by_cases hsource : startsWith ".source" l.trimmed
  · rw [if_pos hsource] at h ⊢
    exact exchange_past h
  rw [if_neg hsource] at h ⊢
  by_cases hannotated : startsWith ".annotation" l.trimmed
  · rw [if_pos hannotated] at h ⊢
    exact exchange_map (fun hd => Directive.readBlock_exchange hd ys') h
  rw [if_neg hannotated] at h ⊢
  by_cases hfield : startsWith ".field" l.trimmed
  · rw [if_pos hfield] at h ⊢
    exact exchange_map (Field.local_read halike) h
  rw [if_neg hfield] at h ⊢
  by_cases hmethod : startsWith ".method" l.trimmed
  · rw [if_pos hmethod] at h ⊢
    exact exchange_map (Method.local_read halike) h
  rw [if_neg hmethod] at h
  cases h

/-- The members are refused with the next one. -/
theorem readAll_of_error {l : Line} {ls rest : List Line} (hnext : next? ls = some (l, rest)) {e : Stop}
    (he : read l rest = .error e) : readAll ls = .error e := by
  rw [readAll.eq_def, hnext]
  simp only
  rw [he]

theorem readAll_of_comes {ls stop : List Line} {ms : List Member} (h : Comes read ls ms stop) :
    readAll ls = (readAll stop).map (ms ++ ·) := by
  induction h with
  | here ls => cases readAll ls <;> rfl
  | past hnext hm _ ih =>
    rw [readAll.eq_def, hnext]
    simp only
    rw [hm]
    simp only [ih]
    cases readAll _ <;> rfl

end Member

/-! ### Lines of a document -/

namespace Class

/-- A line at which a member of a document is read, and the lines after it. -/
def ReadsMember (s : Text) (l : Line) (ls : List Line) : Prop :=
  ∃ first members ms stop, next? (ofText s) = some (first, members) ∧
    Comes Member.read members ms stop ∧ next? stop = some (l, ls)

/-- A line at which an entry of a body is read, and the lines after it. -/
def ReadsEntry (s : Text) (l : Line) (ls : List Line) : Prop :=
  ∃ opening body es stop, ReadsMember s opening body ∧ startsWith ".method" opening.trimmed = true ∧
    Comes BodyEntry.read body es stop ∧ next? stop = some (l, ls)

variable {s : Text} {c : Class} {l : Line} {ls : List Line}

theorem ReadsMember.suffix (hl : ReadsMember s l ls) : l :: ls <:+ ofText s := by
  obtain ⟨first, members, ms, stop, hfirst, hcomes, hstop⟩ := hl
  obtain ⟨-, skipped, rfl, -⟩ := exists_of_next? hstop
  have hstop : l :: ls <:+ members := (List.suffix_append skipped _).trans (hcomes.suffix Member.leaves_read)
  exact hstop.trans (suffix_of_next? hfirst)

/-- The members of a class are read, and the fields among them are its fields. -/
theorem exists_of_readsMember (h : read s = .ok c) (hl : ReadsMember s l ls) :
    ∃ m rest, Member.read l ls = .ok (m, rest) ∧ ∀ f ∈ m.field?, f ∈ c.fields := by
  obtain ⟨first, members, ms, stop, hfirst, hcomes, hstop⟩ := hl
  rw [read, hfirst] at h
  obtain ⟨header, -, h⟩ := exists_of_bind h
  obtain ⟨members, hmembers, h⟩ := exists_of_bind h
  cases h
  rw [Member.readAll_of_comes hcomes] at hmembers
  obtain ⟨later, hlater, rfl⟩ := exists_of_map hmembers
  rw [Member.readAll.eq_def, hstop] at hlater
  simp only at hlater
  cases hm : Member.read l ls with
  | error e =>
    rw [hm] at hlater
    cases hlater
  | ok p =>
    rw [hm] at hlater
    obtain ⟨more, -, rfl⟩ := exists_of_map hlater
    refine ⟨p.1, p.2, rfl, fun f hf => List.mem_filterMap.2 ⟨p.1, ?_, hf⟩⟩
    exact List.mem_append_right _ (List.mem_cons_self ..)

/-- A member may be exchanged for one that reads the same, where the look-ahead sees no difference. -/
theorem read_exchange_member (h : read s = .ok c) (hl : ReadsMember s l ls) :
    ∃ before, ofText s = before ++ l :: ls ∧
      ∀ l' ls', Alike (l :: ls) (l' :: ls') → IsSignificant l'.text →
        (∀ {m rest}, Member.read l ls = .ok (m, rest) → Member.read l' ls' = .ok (m, rest)) →
        ∀ s', ofText s' = before ++ l' :: ls' → read s' = .ok c := by
  obtain ⟨first, members, ms, stop, hfirst, hcomes, hstop⟩ := hl
  obtain ⟨hsignificant, skipped, hs, hskipped⟩ := exists_of_next? hfirst
  obtain ⟨zs, rfl⟩ := hcomes.suffix Member.leaves_read
  obtain ⟨-, skipped', rfl, hskipped'⟩ := exists_of_next? hstop
  refine ⟨skipped ++ first :: (zs ++ skipped'), by simp [hs], fun l' ls' halike hl' hread s' hs' => ?_⟩
  have hfirst' : next? (ofText s') = some (first, zs ++ (skipped' ++ l' :: ls')) := by
    rw [hs', List.append_assoc, next?_append_of_not hskipped, List.cons_append,
      next?_cons_of_significant hsignificant, List.append_assoc]
  have hcomes' := hcomes.exchange Member.leaves_read Member.local_read (halike.append skipped')
  rw [read, hfirst] at h
  obtain ⟨header, hheader, h⟩ := exists_of_bind h
  obtain ⟨members, hmembers, h⟩ := exists_of_bind h
  rw [Member.readAll_of_comes hcomes, Member.readAll_skips hskipped'] at hmembers
  obtain ⟨later, hlater, rfl⟩ := exists_of_map hmembers
  have hlater' : Member.readAll (l' :: ls') = .ok later := by
    rw [Member.readAll.eq_def, next?_cons_of_significant (exists_of_next? hstop).1] at hlater
    rw [Member.readAll.eq_def, next?_cons_of_significant hl']
    simp only at hlater ⊢
    cases hm : Member.read l ls with
    | error e =>
      rw [hm] at hlater
      cases hlater
    | ok p =>
      rw [hm] at hlater
      rw [hread hm]
      exact hlater
  have hmembers' : Member.readAll (zs ++ (skipped' ++ l' :: ls')) = .ok (ms ++ later) := by
    rw [Member.readAll_of_comes hcomes', Member.readAll_skips hskipped', hlater']
    rfl
  rw [read, hfirst']
  simp only [hheader, hmembers', bind, Except.bind]
  exact h

/-- The same of an entry of a body. -/
theorem read_exchange_entry {e : BodyEntry} {rest : List Line} (h : read s = .ok c)
    (hl : ReadsEntry s l ls) (he : BodyEntry.read l ls = .ok (e, rest)) :
    ∃ before, ofText s = before ++ l :: ls ∧
      ∀ l', Alike (l :: ls) (l' :: ls) → IsSignificant l'.text → BodyEntry.read l' ls = .ok (e, rest) →
        ∀ s', ofText s' = before ++ l' :: ls → read s' = .ok c := by
  obtain ⟨opening, body, es, stop, hopening, hmethod, hcomes, hstop⟩ := hl
  obtain ⟨zs, rfl⟩ := hcomes.suffix BodyEntry.leaves_read
  obtain ⟨hsignificant, skipped, rfl, hskipped⟩ := exists_of_next? hstop
  obtain ⟨before, hs, hexchange⟩ := read_exchange_member h hopening
  refine ⟨before ++ opening :: (zs ++ skipped), by rw [hs]; simp, fun l' halike hl' he' s' hs' => ?_⟩
  have hcomes' := hcomes.exchange BodyEntry.leaves_read BodyEntry.local_read (halike.append skipped)
  have hbody : ∀ n name, Method.readBody n name (zs ++ (skipped ++ l' :: ls)) =
      Method.readBody n name (zs ++ (skipped ++ l :: ls)) := by
    intro n name
    rw [Method.readBody_of_comes hcomes', Method.readBody_of_comes hcomes, Method.readBody_skips hskipped,
      Method.readBody_skips hskipped,
      Method.readBody_entry (o := .ok e) hl' (BodyEntry.reads_of_read he').not_end he',
      Method.readBody_entry (o := .ok e) hsignificant (BodyEntry.reads_of_read he).not_end he]
  have halike' : Alike (opening :: (zs ++ (skipped ++ l :: ls))) (opening :: (zs ++ (skipped ++ l' :: ls))) :=
    (halike.append skipped).append (opening :: zs)
  have hmember : Member.read opening (zs ++ (skipped ++ l' :: ls)) =
      Member.read opening (zs ++ (skipped ++ l :: ls)) := by
    simp only [Member.read_method hmethod, Method.read, hbody]
  refine hexchange opening _ halike' (Member.isSignificant_of_keyword (k := ".method") (by decide) hmethod)
    (fun hm => hmember.trans hm) s' ?_
  rw [hs']
  simp

end Class

end DalvikPatch
