import DalvikPatch.Proofs.Ownership
import DalvikPatch.Proofs.Initialisers

/-! Documents of one layout and another. Outside of blocks, lines that say nothing may come and go, and a line
may have any blanks around it: the document stands for the same class. Only the look-ahead of a parameter
sees such lines as if they were in a block, and there it may have to split a blank of several bytes. -/

namespace DalvikPatch

open Text Line

/-! ### The numbers of lines -/

namespace Outcome

variable {α β : Type} {o o' : Outcome α}

/-- What one reader gives the other one gives too. -/
def Entails (o o' : Outcome α) : Prop := ∀ a, o = .ok a → o' = .ok a

theorem entails_mistake (n : Nat) (m : Mistake) (o : Outcome α) : Entails (mistake n m) o := by
  intro a h
  cases h

theorem Entails.bind (h : o.Entails o') {g g' : α → Outcome β} (hg : ∀ a, (g a).Entails (g' a)) :
    Entails (Except.bind o g) (Except.bind o' g') := by
  intro b hb
  obtain ⟨a, ha, hb⟩ := exists_of_bind hb
  rw [h a ha]
  exact hg a b hb

theorem Entails.map (h : o.Entails o') (g : α → β) : Entails (Except.map g o) (Except.map g o') := by
  intro b hb
  obtain ⟨a, ha, rfl⟩ := exists_of_map hb
  rw [h a ha]
  rfl

theorem entails_self (o : Outcome α) : o.Entails o := fun _ h => h

end Outcome

open Outcome (Entails entails_mistake entails_self)

section

variable (n n' : Nat) {s s' : Text}

theorem AccessFlags.entails_ofModifiers (c : Carrier) (ws : List Text) :
    (ofModifiers n c ws).Entails (ofModifiers n' c ws) := by
  induction ws with
  | nil => exact entails_self _
  | cons w ws ih =>
    rw [ofModifiers, ofModifiers]
    cases ofKeyword? w c with
    | none => exact entails_mistake _ _ _
    | some f => exact ih.map _

theorem entails_readHeader (keyword : Text) (c : Carrier) (h : trim s = trim s') :
    (readHeader keyword c n s).Entails (readHeader keyword c n' s') := by
  rw [readHeader, readHeader, h]
  cases after? keyword (trim s') with
  | none => exact entails_mistake _ _ _
  | some body =>
    cases hw : (words body).getLast? with
    | none =>
      simp only [hw]
      exact entails_mistake _ _ _
    | some w =>
      simp only [hw]
      exact (AccessFlags.entails_ofModifiers n n' c _).map _

theorem ClassName.entails_readAt (s : Text) : (readAt n s).Entails (readAt n' s) := by
  rw [readAt, readAt]
  split
  · exact entails_self _
  · exact entails_mistake _ _ _

theorem Field.entails_readLine (s : Text) : (readLine n s).Entails (readLine n' s) := by
  refine (entails_readHeader n n' _ _ rfl).bind fun header => ?_
  cases cut? ":" header.2 with
  | none => exact entails_mistake _ _ _
  | some p =>
    cases ht : TypeDescriptor.ofJni? p.2 with
    | none =>
      simp only [ht]
      exact entails_mistake _ _ _
    | some t =>
      simp only [ht]
      exact entails_self _

theorem Method.entails_readLine (s : Text) : (readLine n s).Entails (readLine n' s) := by
  refine (entails_readHeader n n' _ _ rfl).bind fun header => ?_
  cases readName? header.2 with
  | none => exact entails_mistake _ _ _
  | some p => exact entails_self _

theorem Member.entails_readSource (s : Text) : (readSource n s).Entails (readSource n' s) := by
  rw [readSource, readSource]
  intro a h
  split at h
  · cases h
  · exact h

/-- Blanks around a line make no difference to what is read. -/
theorem trim_cutComment_trim (s : Text) : trim (cutComment (trim s)) = trim (cutComment s) := by
  obtain ⟨a, b, ha, hb, hs⟩ := exists_trim s
  conv_rhs => rw [hs]
  rw [trim_cutComment_append_blanks _ hb, trim_cutComment_blanks_append ha]

theorem Class.entails_readHeader {l l' : Line} (h : trim l.text = trim l'.text) :
    (readHeader l).Entails (readHeader l') := by
  have hcut : trim (cutComment l.text) = trim (cutComment l'.text) := by
    rw [← trim_cutComment_trim, h, trim_cutComment_trim]
  refine (DalvikPatch.entails_readHeader l.number l'.number _ _ hcut).bind fun header => ?_
  exact (ClassName.entails_readAt l.number l'.number header.2).bind fun name => entails_self _

end

/-! ### The look-ahead without blanks -/

theorem isSignificant_trim {t : Text} : IsSignificant (trim t) ↔ IsSignificant t := by
  rw [IsSignificant, IsSignificant, trim_trim]

namespace Look

/-- A line without blanks at its ends that says nothing makes no difference to the look-ahead. -/
theorem next_trim_of_not {t : Text} (h : ¬ IsSignificant t) (k : Look) : k.next (trim t) = k := by
  cases k with
  | between => exact next_between_of_not fun h' => h (isSignificant_trim.1 h')
  | inside base =>
    have hend : startsWith ".end annotation" (trim (trim t)) = false := by
      have hk : IsKeyword ".end annotation" := by decide
      exact Bool.eq_false_iff.2 fun he => h (isSignificant_trim.1 (hk.isSignificant he))
    rw [next, indentation_of_startsDark (startsDark_trim t), Nat.zero_min, dropBytes?_zero, hend]
    rfl
  | closed | passed | split => rfl

theorem after_trim_ne_split (ts : List Text) : between.after (ts.map trim) ≠ split := by
  refine after_ne_split (by simp) fun l hl c hc => ?_
  obtain ⟨t, -, rfl⟩ := List.mem_map.1 hl
  have hdark := startsDark_trim t
  cases ht : trim t with
  | nil =>
    rw [ht] at hc
    cases hc
  | cons x xs =>
    rw [ht] at hc hdark
    rw [List.takeWhile_cons_of_neg (hdark x rfl)] at hc
    cases hc

/-- Where two look-aheads differ only in the indentation, one has the answer of the other, or it splits a
character. -/
theorem Similar.answers {k k' : Look} (h : k.Similar k') {b : Bool} (hk : k.Answers (.ok b)) :
    k' = split ∨ k'.Answers (.ok b) := by
  rcases h with rfl | rfl | rfl | ⟨base, base', rfl, rfl⟩
  · cases hk
  · exact .inl rfl
  · exact .inr hk
  · obtain ⟨n, hn⟩ := hk
    cases hn

end Look

/-- The annotations at the front run into the end of a parameter, whatever blanks stand around the lines. -/
def RunsIntoEnd (ts : List Text) : Prop := Look.between.after (ts.map trim) = .closed

instance (ts : List Text) : Decidable (RunsIntoEnd ts) := inferInstanceAs (Decidable (_ = _))

namespace Directive

theorem answers_trim_of_isClosed {ls : List Line} {b : Bool} (h : isClosed ls = .ok b) :
    (Look.between.after ((ls.map Line.text).map trim)).Answers (.ok b) := by
  have hanswers := isClosed_answers ls
  rw [h] at hanswers
  have hsimilar : (Look.between.after (ls.map Line.text)).Similar
      (Look.between.after ((ls.map Line.text).map trim)) :=
    Look.Similar.after (.inr (.inr (.inl rfl))) (by simp [trim_trim])
  exact (hsimilar.answers hanswers).resolve_left (Look.after_trim_ne_split _)

theorem isClosed_of_answers_trim {ls : List Line} {b : Bool}
    (h : (Look.between.after ((ls.map Line.text).map trim)).Answers (.ok b)) :
    isClosed ls = .ok b ∨ isClosed ls = .error (.abort .splitCharacter) := by
  have hanswers := isClosed_answers ls
  have hsimilar : (Look.between.after ((ls.map Line.text).map trim)).Similar
      (Look.between.after (ls.map Line.text)) :=
    Look.Similar.after (.inr (.inr (.inl rfl))) (by simp [trim_trim])
  rcases hsimilar.answers h with hsplit | hb
  · rw [hsplit] at hanswers
    exact .inr hanswers
  · exact .inl (Look.eq_of_answers hb hanswers)

theorem runsIntoEnd_iff {ls : List Line} {b : Bool} (h : isClosed ls = .ok b) :
    RunsIntoEnd (ls.map Line.text) ↔ b = true := by
  have hanswers := answers_trim_of_isClosed h
  constructor
  · intro hends
    rw [RunsIntoEnd] at hends
    rw [hends] at hanswers
    exact Except.ok.inj hanswers
  · rintro rfl
    exact Look.eq_closed_of_answers hanswers

/-- The words that a block may start with. -/
def openings : List Text := ".param" :: BodyEntry.blocks.map Prod.fst

/-- On the line `t` a block starts that a line with the word `closing` ends; `ts` are the lines after it. -/
inductive OpensBlock (t : Text) (ts : List Text) : Text → Prop
  | block {b : Text × Text} : b ∈ BodyEntry.blocks → startsWith b.1 (trim t) = true → OpensBlock t ts b.2
  | owner : startsWith ".param" (trim t) = true → RunsIntoEnd ts → OpensBlock t ts ".end param"

variable {t : Text} {ts us : List Text} {closing : Text}

theorem OpensBlock.exists_opening (h : OpensBlock t ts closing) :
    ∃ w ∈ openings, startsWith w (trim t) = true := by
  cases h with
  | block hb hstart => exact ⟨_, List.mem_cons_of_mem _ (List.mem_map_of_mem hb), hstart⟩
  | owner hstart => exact ⟨_, List.mem_cons_self .., hstart⟩

theorem OpensBlock.isSignificant (h : OpensBlock t ts closing) : IsSignificant t := by
  have hkeywords : ∀ w ∈ openings, IsKeyword w := by decide
  obtain ⟨w, hw, hstart⟩ := h.exists_opening
  exact (hkeywords w hw).isSignificant hstart

theorem not_parameter {b : Text × Text} (hb : b ∈ BodyEntry.blocks) (h : startsWith b.1 (trim t) = true) :
    startsWith ".param" (trim t) = false := by
  have hne : ∀ b ∈ BodyEntry.blocks, b.1 ≠ (".param" : Text) := by decide
  exact BodyEntry.startsWith_other (BodyEntry.mem_keywords_of_mem_blocks b hb).1 h (by decide) (hne b hb)

theorem OpensBlock.runsIntoEnd (h : OpensBlock t ts closing) (hparam : startsWith ".param" (trim t) = true) :
    RunsIntoEnd ts := by
  cases h with
  | block hb hstart =>
    rw [not_parameter hb hstart] at hparam
    cases hparam
  | owner _ hruns => exact hruns

/-- A block has one word that closes it. -/
theorem OpensBlock.unique {closing' : Text} (h : OpensBlock t ts closing) (h' : OpensBlock t us closing') :
    closing = closing' := by
  cases h with
  | @block b hb hstart =>
    cases h' with
    | @block b' hb' hstart' =>
      by_cases hbb : b.1 = b'.1
      · rw [BodyEntry.blocks_injective b hb b' hb' hbb]
      · rw [BodyEntry.startsWith_other (BodyEntry.mem_keywords_of_mem_blocks b hb).1 hstart
          (BodyEntry.mem_keywords_of_mem_blocks b' hb').1 hbb] at hstart'
        cases hstart'
    | owner hstart' =>
      rw [not_parameter hb hstart] at hstart'
      cases hstart'
  | owner hstart =>
    cases h' with
    | block hb hstart' =>
      rw [not_parameter hb hstart'] at hstart
      cases hstart
    | owner => rfl

/-- A line that starts with another word opens no block. -/
theorem not_opensBlock {k : Text} (h : startsWith k (trim t) = true)
    (hk : ∀ w ∈ openings, startsWith k w = false ∧ startsWith w k = false) (closing : Text) :
    ¬ OpensBlock t ts closing := by
  intro hopens
  obtain ⟨w, hw, hstart⟩ := hopens.exists_opening
  rw [startsWith_eq_false h (hk w hw).1 (hk w hw).2] at hstart
  cases hstart

end Directive

open Directive (OpensBlock)

/-! ### Layouts -/

/-- The lines of two documents that differ in their layout. Outside of blocks, lines that say nothing come and
go, and other lines have other blanks around them. The lines of a block are the same, from the first one to
the one that closes it, or to the end if nothing does. -/
inductive Relaid : List Text → List Text → Prop
  | nil : Relaid [] []
  | left {t : Text} {ts us : List Text} : ¬ IsSignificant t → Relaid ts us → Relaid (t :: ts) us
  | right {u : Text} {ts us : List Text} : ¬ IsSignificant u → Relaid ts us → Relaid ts (u :: us)
  | line {t u : Text} {ts us : List Text} : trim t = trim u → (∀ closing, ¬ OpensBlock t ts closing) →
      Relaid ts us → Relaid (t :: ts) (u :: us)
  | block {t closing : Text} {bs ts us : List Text} : OpensBlock t (bs ++ ts) closing → EndsAt closing bs →
      Relaid ts us → Relaid (t :: (bs ++ ts)) (t :: (bs ++ us))
  | unclosed {t closing : Text} {ts : List Text} : OpensBlock t ts closing →
      (∀ u ∈ ts, startsWith closing (trim u) = false) → Relaid (t :: ts) (t :: ts)

namespace Relaid

variable {t u : Text} {ts us bs : List Text} {closing : Text}

/-- The look-ahead without blanks sees no difference. -/
theorem after_eq (h : Relaid ts us) (k : Look) : k.after (ts.map trim) = k.after (us.map trim) := by
  induction h generalizing k with
  | nil => rfl
  | left ht _ ih =>
    rw [List.map_cons, Look.after_cons, Look.next_trim_of_not ht]
    exact ih k
  | right hu _ ih =>
    rw [List.map_cons, Look.after_cons, Look.next_trim_of_not hu]
    exact ih k
  | line htrim _ _ ih =>
    rw [List.map_cons, List.map_cons, Look.after_cons, Look.after_cons, htrim]
    exact ih _
  | block _ _ _ ih =>
    simp only [List.map_cons, List.map_append, Look.after_cons, Look.after_append]
    exact ih _
  | unclosed => rfl

theorem runsIntoEnd_iff (h : Relaid ts us) : RunsIntoEnd ts ↔ RunsIntoEnd us := by
  rw [RunsIntoEnd, RunsIntoEnd, h.after_eq]

theorem opensBlock (hopens : OpensBlock t ts closing) (htrim : trim t = trim u)
    (hends : RunsIntoEnd ts ↔ RunsIntoEnd us) : OpensBlock u us closing := by
  cases hopens with
  | block hb hstart => exact .block hb (htrim ▸ hstart)
  | owner hstart hruns => exact .owner (htrim ▸ hstart) (hends.1 hruns)

theorem symm (h : Relaid ts us) : Relaid us ts := by
  induction h with
  | nil => exact .nil
  | left ht _ ih => exact .right ht ih
  | right hu _ ih => exact .left hu ih
  | line htrim hno hrest ih =>
    -- whether a line opens a block depends on the lines after it, but not on their layout
    exact .line htrim.symm (fun closing hopens => hno closing
      (opensBlock hopens htrim.symm hrest.runsIntoEnd_iff.symm)) ih
  | @block t closing bs ts us hopens hends hrest ih =>
    have hruns : RunsIntoEnd (bs ++ ts) ↔ RunsIntoEnd (bs ++ us) := by
      simp only [RunsIntoEnd, List.map_append, Look.after_append, hrest.after_eq]
    exact .block (opensBlock hopens rfl hruns) hends ih
  | unclosed hopens hnone => exact .unclosed hopens hnone

/-- What follows on two lines that are read. -/
inductive Heads : Text → List Text → Text → List Text → Prop
  | line {t u : Text} {ts us : List Text} : trim t = trim u → (∀ closing, ¬ OpensBlock t ts closing) →
      Relaid ts us → Heads t ts u us
  | block {t closing : Text} {bs ts us : List Text} : OpensBlock t (bs ++ ts) closing → EndsAt closing bs →
      Relaid ts us → Heads t (bs ++ ts) t (bs ++ us)
  | unclosed {t closing : Text} {ts : List Text} : OpensBlock t ts closing →
      (∀ u ∈ ts, startsWith closing (trim u) = false) → Heads t ts t ts

/-- The next significant lines stand for the same. -/
theorem exists_next {ls ls' : List Line} (h : Relaid (ls.map Line.text) (ls'.map Line.text)) :
    (next? ls = none ∧ next? ls' = none) ∨ ∃ l rest l' rest', next? ls = some (l, rest) ∧
      next? ls' = some (l', rest') ∧ Heads l.text (rest.map Line.text) l'.text (rest'.map Line.text) := by
  generalize hts : ls.map Line.text = ts at h
  generalize hus : ls'.map Line.text = us at h
  induction h generalizing ls ls' with
  | nil =>
    rw [List.map_eq_nil_iff.1 hts, List.map_eq_nil_iff.1 hus]
    exact .inl ⟨rfl, rfl⟩
  | left ht _ ih =>
    obtain ⟨l, ls, rfl, rfl, rfl⟩ := List.map_eq_cons_iff.1 hts
    rw [next?_cons_of_not ht]
    exact ih rfl hus
  | right hu _ ih =>
    obtain ⟨l, ls', rfl, rfl, rfl⟩ := List.map_eq_cons_iff.1 hus
    rw [next?_cons_of_not hu]
    exact ih hts rfl
  | line htrim hno hrest ih =>
    obtain ⟨l, ls, rfl, rfl, rfl⟩ := List.map_eq_cons_iff.1 hts
    obtain ⟨l', ls', rfl, rfl, rfl⟩ := List.map_eq_cons_iff.1 hus
    have hsignificant : IsSignificant l.text ↔ IsSignificant l'.text := by
      rw [IsSignificant, IsSignificant, htrim]
    by_cases hl : IsSignificant l.text
    · exact .inr ⟨l, ls, l', ls', next?_cons_of_significant hl _,
        next?_cons_of_significant (hsignificant.1 hl) _, .line htrim hno hrest⟩
    · rw [next?_cons_of_not hl, next?_cons_of_not fun hl' => hl (hsignificant.2 hl')]
      exact ih rfl rfl
  | block hopens hends hrest =>
    obtain ⟨l, rest, hnext, hl, hls⟩ := exists_next?_of_significant hopens.isSignificant hts
    obtain ⟨l', rest', hnext', hl', hls'⟩ := exists_next?_of_significant hopens.isSignificant hus
    refine .inr ⟨l, rest, l', rest', hnext, hnext', ?_⟩
    rw [hl, hl', hls, hls']
    exact .block hopens hends hrest
  | unclosed hopens hnone =>
    obtain ⟨l, rest, hnext, hl, hls⟩ := exists_next?_of_significant hopens.isSignificant hts
    obtain ⟨l', rest', hnext', hl', hls'⟩ := exists_next?_of_significant hopens.isSignificant hus
    refine .inr ⟨l, rest, l', rest', hnext, hnext', ?_⟩
    rw [hl, hl', hls, hls']
    exact .unclosed hopens hnone

theorem Heads.trim_eq (h : Heads t ts u us) : trim t = trim u := by
  cases h with
  | line htrim => exact htrim
  | block | unclosed => rfl

theorem next?_eq_none {ls ls' : List Line} (h : Relaid (ls.map Line.text) (ls'.map Line.text))
    (hnone : next? ls = none) : next? ls' = none := by
  rcases h.exists_next with ⟨-, hnone'⟩ | ⟨l, rest, l', rest', hl, -, -⟩
  · exact hnone'
  · rw [hl] at hnone
    cases hnone

theorem exists_next_of_next? {l : Line} {ls ls' rest : List Line}
    (h : Relaid (ls.map Line.text) (ls'.map Line.text)) (hnext : next? ls = some (l, rest)) :
    ∃ l' rest', next? ls' = some (l', rest') ∧ l'.trimmed = l.trimmed ∧
      Heads l.text (rest.map Line.text) l'.text (rest'.map Line.text) := by
  rcases h.exists_next with ⟨hnone, -⟩ | ⟨k, more, l', rest', hk, hl', hheads⟩
  · rw [hnone] at hnext
    cases hnext
  · obtain ⟨rfl, rfl⟩ := Prod.mk.inj (Option.some.inj (hk.symm.trans hnext))
    exact ⟨l', rest', hl', hheads.trim_eq.symm, hheads⟩

theorem Heads.after_eq (h : Heads t ts u us) (k : Look) : k.after (ts.map trim) = k.after (us.map trim) := by
  cases h with
  | line _ _ hrest => exact hrest.after_eq k
  | block _ _ hrest =>
    simp only [List.map_append, Look.after_append]
    exact hrest.after_eq _
  | unclosed => rfl

theorem Heads.of_not_opensBlock (h : Heads t ts u us) (hno : ∀ closing, ¬ OpensBlock t ts closing) :
    Relaid ts us := by
  cases h with
  | line _ _ hrest => exact hrest
  | block hopens => exact absurd hopens (hno _)
  | unclosed hopens => exact absurd hopens (hno _)

end Relaid

/-! ### Blocks and bodies -/

namespace Directive

variable {closing : Text} {l l' : Line} {ls ls' rest : List Line} {bs ts us : List Text}

/-- The same lines are the same lines of a block. -/
theorem readLines_relaid {n base : Nat} {xs : List Text} (hends : EndsAt closing bs)
    (hls : ls.map Line.text = bs ++ ts) (hls' : ls'.map Line.text = bs ++ us)
    (h : readLines n base closing ls = .ok (xs, rest)) (n' : Nat) :
    rest.map Line.text = ts ∧
      ∃ rest', readLines n' base closing ls' = .ok (xs, rest') ∧ rest'.map Line.text = us := by
  induction bs generalizing ls ls' xs with
  | nil => cases hends
  | cons b bs ih =>
    obtain ⟨k, ls, rfl, rfl, htail⟩ := List.map_eq_cons_iff.1 hls
    obtain ⟨k', ls', rfl, hk', htail'⟩ := List.map_eq_cons_iff.1 hls'
    have hkeep : keep base k' = keep base k := by rw [keep, keep, hk']
    have htrimmed : k'.trimmed = k.trimmed := by rw [Line.trimmed, hk', Line.trimmed]
    rw [EndsAt] at hends
    rw [readLines_cons] at h
    obtain ⟨t, ht, h⟩ := exists_of_bind h
    rw [readLines_cons, hkeep, ht, htrimmed]
    simp only [Except.bind]
    by_cases hend : startsWith closing k.trimmed = true
    · rw [if_pos hend] at h ⊢
      obtain rfl : bs = [] := (if_pos hend).mp hends
      cases h
      exact ⟨htail, ls', rfl, htail'⟩
    · rw [if_neg hend] at h ⊢
      obtain ⟨p, hp, heq⟩ := exists_of_map h
      cases heq
      obtain ⟨hrest, rest', hread, hrest'⟩ := ih ((if_neg hend).mp hends) htail htail' hp
      rw [hread]
      exact ⟨hrest, rest', rfl, hrest'⟩

theorem readBlock_relaid {d : Directive} (hends : EndsAt closing bs) (hl : l'.text = l.text)
    (hls : ls.map Line.text = bs ++ ts) (hls' : ls'.map Line.text = bs ++ us)
    (h : readBlock closing l ls = .ok (d, rest)) :
    rest.map Line.text = ts ∧
      ∃ rest', readBlock closing l' ls' = .ok (d, rest') ∧ rest'.map Line.text = us := by
  obtain ⟨p, hp, heq⟩ := exists_of_map h
  cases heq
  obtain ⟨hrest, rest', hread, hrest'⟩ := readLines_relaid hends hls hls' hp l'.number
  refine ⟨hrest, rest', ?_, hrest'⟩
  rw [readBlock, hl, hread, Line.trimmed, Line.trimmed, hl]
  rfl

/-- A block that is read goes on with what is laid out differently. -/
theorem readBlock_of_heads {d : Directive} (h : Relaid.Heads l.text (ls.map Line.text) l'.text (ls'.map Line.text))
    (hopens : OpensBlock l.text (ls.map Line.text) closing) (hd : readBlock closing l ls = .ok (d, rest)) :
    ∃ rest', readBlock closing l' ls' = .ok (d, rest') ∧ Relaid (rest.map Line.text) (rest'.map Line.text) := by
  generalize ht : l.text = t at h hopens
  generalize hts : ls.map Line.text = ts at h hopens
  generalize hu : l'.text = u at h
  generalize hus : ls'.map Line.text = us at h
  cases h with
  | line _ hno => exact absurd hopens (hno closing)
  | block hopens' hends hrest =>
    obtain rfl := hopens.unique hopens'
    obtain ⟨rfl, rest', hd', rfl⟩ := readBlock_relaid hends (hu.trans ht.symm) hts hus hd
    exact ⟨rest', hd', hrest⟩
  | unclosed hopens' hnone =>
    obtain rfl := hopens.unique hopens'
    rw [readBlock_open fun k hk => hnone k.text (hts ▸ List.mem_map_of_mem hk)] at hd
    obtain ⟨-, -, hd⟩ := exists_of_bind hd
    cases hd

end Directive

namespace BodyEntry

variable {l l' : Line} {ls ls' rest : List Line} {e : BodyEntry}

/-- The look-ahead of a parameter has to split a character. -/
def LooksSplit (l : Line) (ls : List Line) : Prop :=
  startsWith ".param" l.trimmed = true ∧ Directive.isClosed ls = .error (.abort .splitCharacter)

/-- An entry of a body is the same, unless the look-ahead of a parameter has to split a character. -/
theorem read_relaid (h : Relaid.Heads l.text (ls.map Line.text) l'.text (ls'.map Line.text))
    (he : read l ls = .ok (e, rest)) :
    (∃ rest', read l' ls' = .ok (e, rest') ∧ Relaid (rest.map Line.text) (rest'.map Line.text)) ∨
      LooksSplit l' ls' := by
  have htrim : l'.trimmed = l.trimmed := h.trim_eq.symm
  by_cases hparam : startsWith ".param" l.trimmed = true
  · have hread' := @read_parameter l' ls' (htrim ▸ hparam)
    rw [read_parameter hparam] at he
    cases hc : Directive.isClosed ls with
    | error e =>
      rw [hc] at he
      cases he
    | ok b =>
      have hlook : Directive.isClosed ls' = .ok b ∨
          Directive.isClosed ls' = .error (.abort .splitCharacter) := by
        apply Directive.isClosed_of_answers_trim
        rw [← h.after_eq]
        exact Directive.answers_trim_of_isClosed hc
      rcases hlook with hc' | hsplit
      · refine .inl ?_
        rw [hc] at he
        rw [hc'] at hread'
        cases b with
        | true =>
          obtain ⟨⟨d, rest⟩, hd, heq⟩ := exists_of_map he
          cases heq
          obtain ⟨rest', hd', hrest⟩ := Directive.readBlock_of_heads h
            (.owner hparam ((Directive.runsIntoEnd_iff hc).2 rfl)) hd
          exact ⟨rest', by rw [hread', hd']; rfl, hrest⟩
        | false =>
          cases he
          refine ⟨ls', by rw [hread', htrim], h.of_not_opensBlock fun closing hopens => ?_⟩
          cases (Directive.runsIntoEnd_iff hc).1 (hopens.runsIntoEnd hparam)
      · exact .inr ⟨htrim ▸ hparam, hsplit⟩
  by_cases hblock : ∃ b ∈ blocks, startsWith b.1 l.trimmed = true
  · obtain ⟨b, hb, hstart⟩ := hblock
    rw [read_block hb hstart] at he
    obtain ⟨⟨d, rest⟩, hd, heq⟩ := exists_of_map he
    cases heq
    obtain ⟨rest', hd', hrest⟩ := Directive.readBlock_of_heads h (.block hb hstart) hd
    exact .inl ⟨rest', by rw [read_block hb (htrim ▸ hstart), hd']; rfl, hrest⟩
  · obtain ⟨rfl, halone⟩ := read_alone (Bool.eq_false_iff.2 hparam)
      (fun b hb => Bool.eq_false_iff.2 fun hstart => hblock ⟨b, hb, hstart⟩) he
    refine .inl ⟨ls', halone l' ls' htrim, h.of_not_opensBlock fun closing hopens => ?_⟩
    cases hopens with
    | block hb hstart => exact hblock ⟨_, hb, hstart⟩
    | owner hstart => exact hparam hstart

end BodyEntry

namespace Method

variable {l l' : Line} {ls ls' rest : List Line}

/-- The end of a method opens no block. -/
theorem apart_end : ∀ w ∈ Directive.openings,
    startsWith ".end method" w = false ∧ startsWith w ".end method" = false := by
  decide

/-- A body is the same, unless the look-ahead of a parameter in it has to split a character. -/
theorem readBody_relaid {n : Nat} {name : Text} {b : Body}
    (h : Relaid (ls.map Line.text) (ls'.map Line.text)) (hb : readBody n name ls = .ok (b, rest)) (n' : Nat) :
    (∃ rest', readBody n' name ls' = .ok (b, rest') ∧ Relaid (rest.map Line.text) (rest'.map Line.text)) ∨
      Meets BodyEntry.read BodyEntry.LooksSplit ls' ∧
        readBody n' name ls' = .error (.abort .splitCharacter) := by
  fun_induction readBody n name ls generalizing b ls' with
  | case1 => cases hb
  | case2 ls l more hnext hend =>
    cases hb
    obtain ⟨l', rest', hnext', htrim, hheads⟩ := h.exists_next_of_next? hnext
    exact .inl ⟨rest', readBody_of_end hnext' (htrim ▸ hend),
      hheads.of_not_opensBlock (Directive.not_opensBlock hend apart_end)⟩
  | case3 => cases hb
  | case4 ls l more hnext hend e left he ih =>
    obtain ⟨p, hp, heq⟩ := exists_of_map hb
    cases heq
    obtain ⟨l', more', hnext', htrim, hheads⟩ := h.exists_next_of_next? hnext
    rcases BodyEntry.read_relaid hheads he with ⟨left', he', hleft⟩ | hsplit
    · have hbody := @readBody_of_comes n' name _ _ _ (.past hnext' he' (.here left'))
      rcases ih hleft hp with ⟨rest', hread, hrest⟩ | ⟨hmeets, hread⟩
      · exact .inl ⟨rest', by rw [hbody, hread]; rfl, hrest⟩
      · exact .inr ⟨.past hnext' he' hmeets, by rw [hbody, hread]; rfl⟩
    · refine .inr ⟨.here hnext' hsplit, readBody_of_error hnext' (htrim ▸ Bool.eq_false_iff.2 hend) ?_⟩
      rw [BodyEntry.read_parameter hsplit.1, hsplit.2]

theorem read_relaid {m : Method} (htrim : l'.trimmed = l.trimmed)
    (h : Relaid (ls.map Line.text) (ls'.map Line.text)) (hm : read l ls = .ok (m, rest)) :
    (∃ rest', read l' ls' = .ok (m, rest') ∧ Relaid (rest.map Line.text) (rest'.map Line.text)) ∨
      Meets BodyEntry.read BodyEntry.LooksSplit ls' ∧ read l' ls' = .error (.abort .splitCharacter) := by
  rw [read] at hm
  split at hm
  · cases hm
  · next flags name prototype hline =>
    obtain ⟨p, hp, heq⟩ := exists_of_map hm
    cases heq
    have hline' := entails_readLine l.number l'.number _ _ hline
    rw [read, htrim, hline']
    rcases readBody_relaid h hp l'.number with ⟨rest', hread, hrest⟩ | ⟨hmeets, hread⟩
    · exact .inl ⟨rest', by simp only [hread]; rfl, hrest⟩
    · exact .inr ⟨hmeets, by simp only [hread]; rfl⟩

end Method

/-! ### Fields -/

namespace Field

variable {l l' : Line} {ls ls' rest : List Line}

theorem apart_end : ∀ w ∈ Directive.openings,
    startsWith ".end field" w = false ∧ startsWith w ".end field" = false := by
  decide

theorem readAnnotations_relaid {ds : List Directive} (h : Relaid (ls.map Line.text) (ls'.map Line.text))
    (hds : readAnnotations ls = .ok (ds, rest)) :
    ∃ rest', readAnnotations ls' = .ok (ds, rest') ∧ Relaid (rest.map Line.text) (rest'.map Line.text) := by
  fun_induction readAnnotations ls generalizing ds ls' with
  | case1 ls hnext =>
    cases hds
    exact ⟨[], by rw [readAnnotations.eq_def, h.next?_eq_none hnext], .nil⟩
  | case2 ls l more hnext hend =>
    cases hds
    obtain ⟨l', rest', hnext', htrim, hheads⟩ := h.exists_next_of_next? hnext
    refine ⟨rest', ?_, hheads.of_not_opensBlock (Directive.not_opensBlock hend apart_end)⟩
    rw [readAnnotations.eq_def, hnext']
    exact if_pos (htrim ▸ hend)
  | case3 => cases hds
  | case4 ls l more hnext hend ha d left hd ih =>
    obtain ⟨p, hp, heq⟩ := exists_of_map hds
    cases heq
    obtain ⟨l', more', hnext', htrim, hheads⟩ := h.exists_next_of_next? hnext
    have hopens : OpensBlock l.text (more.map Line.text) ".end annotation" :=
      .block (b := (".annotation", ".end annotation")) (by decide) ha
    obtain ⟨left', hd', hleft⟩ := Directive.readBlock_of_heads hheads hopens hd
    obtain ⟨rest', hread, hrest⟩ := ih hleft hp
    refine ⟨rest', ?_, hrest⟩
    rw [readAnnotations_of_next? hnext' (htrim ▸ ha), hd']
    simp only [Except.bind, hread]
    rfl
  | case5 => cases hds

theorem isAnnotated_relaid (h : Relaid (ls.map Line.text) (ls'.map Line.text)) :
    isAnnotated ls' = isAnnotated ls := by
  rcases h.exists_next with ⟨hnone, hnone'⟩ | ⟨k, rest, k', rest', hk, hk', hheads⟩
  · rw [isAnnotated, isAnnotated, hnone, hnone']
  · have htrim : k'.trimmed = k.trimmed := hheads.trim_eq.symm
    rw [isAnnotated_of_next? hk, isAnnotated_of_next? hk', htrim]

theorem read_relaid {f : Field} (htrim : l'.trimmed = l.trimmed)
    (h : Relaid (ls.map Line.text) (ls'.map Line.text)) (hf : read l ls = .ok (f, rest)) :
    ∃ rest', read l' ls' = .ok (f, rest') ∧ Relaid (rest.map Line.text) (rest'.map Line.text) := by
  have hline := entails_readLine l.number l'.number l.trimmed
  by_cases ha : isAnnotated ls = true
  · rw [read_of_isAnnotated ha] at hf
    obtain ⟨g, hg, hf⟩ := exists_of_bind hf
    obtain ⟨p, hp, heq⟩ := exists_of_map hf
    cases heq
    obtain ⟨rest', hread, hrest⟩ := readAnnotations_relaid h hp
    refine ⟨rest', ?_, hrest⟩
    rw [read_of_isAnnotated ((isAnnotated_relaid h).trans ha), htrim, hline g hg, hread]
    rfl
  · rw [read_of_not_isAnnotated (Bool.eq_false_iff.2 ha)] at hf
    obtain ⟨g, hg, heq⟩ := exists_of_map hf
    cases heq
    refine ⟨ls', ?_, h⟩
    rw [read_of_not_isAnnotated ((isAnnotated_relaid h).trans (Bool.eq_false_iff.2 ha)), htrim, hline _ hg]
    rfl

end Field

/-! ### Members -/

namespace Member

variable {l l' : Line} {ls ls' rest : List Line}

/-- A member starts with one of their words. -/
theorem exists_keyword_of_read {m : Member} (h : read l ls = .ok (m, rest)) :
    ∃ k ∈ keywords, startsWith k l.trimmed = true := by
  by_contra hnone
  have hno : ∀ k ∈ keywords, startsWith k l.trimmed = false :=
    fun k hk => Bool.eq_false_iff.2 fun hstart => hnone ⟨k, hk, hstart⟩
  have hafter : ∀ k ∈ keywords, after? k l.trimmed = none := by
    intro k hk
    have hk := hno k hk
    rwa [startsWith, Option.isSome_eq_false_iff, Option.isNone_iff_eq_none] at hk
  rw [read, hafter ".super" (by decide), hafter ".implements" (by decide)] at h
  simp only [hno ".source" (by decide), hno ".annotation" (by decide), hno ".field" (by decide),
    hno ".method" (by decide)] at h
  cases h

theorem apart_of_keyword : ∀ k ∈ keywords, k ≠ (".annotation" : Text) → ∀ w ∈ Directive.openings,
    startsWith k w = false ∧ startsWith w k = false := by
  decide

/-- A method in which the look-ahead of a parameter has to split a character. -/
def LooksSplit (l : Line) (ls : List Line) : Prop :=
  startsWith ".method" l.trimmed = true ∧ Meets BodyEntry.read BodyEntry.LooksSplit ls

/-- A member is the same, unless the look-ahead of a parameter in it has to split a character. -/
theorem read_relaid {m : Member} (h : Relaid.Heads l.text (ls.map Line.text) l'.text (ls'.map Line.text))
    (hm : read l ls = .ok (m, rest)) :
    (∃ rest', read l' ls' = .ok (m, rest') ∧ Relaid (rest.map Line.text) (rest'.map Line.text)) ∨
      LooksSplit l' ls' ∧ read l' ls' = .error (.abort .splitCharacter) := by
  have htrim : l'.trimmed = l.trimmed := h.trim_eq.symm
  by_cases hannotated : startsWith ".annotation" l.trimmed = true
  · rw [read_annotated hannotated] at hm
    obtain ⟨p, hp, heq⟩ := exists_of_map hm
    cases heq
    have hopens : OpensBlock l.text (ls.map Line.text) ".end annotation" :=
      .block (b := (".annotation", ".end annotation")) (by decide) hannotated
    obtain ⟨rest', hd', hrest⟩ := Directive.readBlock_of_heads h hopens hp
    exact .inl ⟨rest', by rw [read_annotated (htrim ▸ hannotated), hd']; rfl, hrest⟩
  obtain ⟨k, hk, hstart⟩ := exists_keyword_of_read hm
  have hne : k ≠ ".annotation" := fun hk => hannotated (hk ▸ hstart)
  have hls := h.of_not_opensBlock (Directive.not_opensBlock hstart (apart_of_keyword k hk hne))
  by_cases hmethod : startsWith ".method" l.trimmed = true
  · rw [read_method hmethod] at hm
    obtain ⟨p, hp, heq⟩ := exists_of_map hm
    cases heq
    rw [read_method (htrim ▸ hmethod)]
    rcases Method.read_relaid htrim hls hp with ⟨rest', hread, hrest⟩ | ⟨hmeets, hread⟩
    · exact .inl ⟨rest', by rw [hread]; rfl, hrest⟩
    · exact .inr ⟨⟨htrim ▸ hmethod, hmeets⟩, by rw [hread]; rfl⟩
  refine .inl ?_
  by_cases hfield : startsWith ".field" l.trimmed = true
  · rw [read_field hfield] at hm
    obtain ⟨p, hp, heq⟩ := exists_of_map hm
    cases heq
    obtain ⟨rest', hread, hrest⟩ := Field.read_relaid htrim hls hp
    exact ⟨rest', by rw [read_field (htrim ▸ hfield), hread]; rfl, hrest⟩
  have alone : ∀ {β : Type} {o o' : Outcome β} {g : β → Member}, o.Entails o' →
      o.map (fun b => (g b, ls)) = .ok (m, rest) → ∃ rest', o'.map (fun b => (g b, ls')) = .ok (m, rest') ∧
        Relaid (rest.map Line.text) (rest'.map Line.text) := by
    intro β o o' g ho hread
    obtain ⟨b, hb, heq⟩ := exists_of_map hread
    cases heq
    rw [ho b hb]
    exact ⟨ls', rfl, hls⟩
  rw [read] at hm
  rw [read, htrim]
  split at hm
  · exact alone (ClassName.entails_readAt _ _ _) hm
  split at hm
  · exact alone (ClassName.entails_readAt _ _ _) hm
  by_cases hsource : startsWith ".source" l.trimmed = true
  · rw [if_pos hsource] at hm ⊢
    exact alone (entails_readSource _ _ _) hm
  rw [if_neg hsource, if_neg hannotated, if_neg hfield, if_neg hmethod] at hm
  cases hm

theorem readAll_relaid {ms : List Member} (h : Relaid (ls.map Line.text) (ls'.map Line.text))
    (hms : readAll ls = .ok ms) :
    readAll ls' = .ok ms ∨ Meets read LooksSplit ls' ∧ readAll ls' = .error (.abort .splitCharacter) := by
  fun_induction readAll ls generalizing ms ls' with
  | case1 ls hnext =>
    cases hms
    exact .inl (by rw [readAll.eq_def, h.next?_eq_none hnext])
  | case2 => cases hms
  | case3 ls l more hnext m left hm ih =>
    obtain ⟨ms', hms', rfl⟩ := exists_of_map hms
    obtain ⟨l', more', hnext', htrim, hheads⟩ := h.exists_next_of_next? hnext
    rcases read_relaid hheads hm with ⟨left', hm', hleft⟩ | ⟨hsplit, hm'⟩
    · have hall := readAll_of_comes (.past hnext' hm' (.here left'))
      rcases ih hleft hms' with hread | ⟨hmeets, hread⟩
      · exact .inl (by rw [hall, hread]; rfl)
      · exact .inr ⟨.past hnext' hm' hmeets, by rw [hall, hread]; rfl⟩
    · exact .inr ⟨.here hnext' hsplit, readAll_of_error hnext' hm'⟩

end Member

/-! ### Documents -/

namespace Class

variable {s s' : Text} {c : Class}

/-- The look-ahead of a parameter of a document has to split a character. -/
def LooksSplit (s : Text) : Prop := ∃ l ls, ReadsEntry s l ls ∧ BodyEntry.LooksSplit l ls

theorem apart_class : ∀ w ∈ Directive.openings, startsWith ".class" w = false ∧ startsWith w ".class" = false := by
  decide

theorem startsWith_of_readHeader {l : Line} {header : AccessFlags × ClassName}
    (h : readHeader l = .ok header) : startsWith ".class" l.trimmed = true := by
  obtain ⟨p, hp, -⟩ := exists_of_bind h
  have hstart := DalvikPatch.startsWith_of_readHeader hp
  rw [← trim_cutComment_trim] at hstart
  obtain ⟨more, hmore, -⟩ := exists_cutComment (trim l.text)
  obtain ⟨a, b, ha, -, hcut⟩ := exists_trim (cutComment (trim l.text))
  obtain ⟨r, hr⟩ := startsWith_iff.1 hstart
  have hline : l.trimmed = a ++ (".class" ++ (r ++ b ++ more)) := by
    rw [Line.trimmed, hmore, hcut, hr]
    simp only [List.append_assoc]
  have hdark := startsDark_trim l.text
  cases a with
  | nil =>
    rw [hline]
    exact startsWith_append ".class" _
  | cons c a => exact absurd (ha c (List.mem_cons_self ..)) (hdark c (by rw [← Line.trimmed, hline]; rfl))

/-- A document with another layout stands for the same class, unless the look-ahead of a parameter has to
split a character. -/
theorem read_relaid (h : Relaid (lines s) (lines s')) (hs : read s = .ok c) :
    read s' = .ok c ∨ LooksSplit s' ∧ read s' = Outcome.abort .splitCharacter := by
  rw [← map_text_ofText, ← map_text_ofText] at h
  rw [read] at hs
  cases hnext : next? (ofText s) with
  | none =>
    rw [hnext] at hs
    cases hs
  | some p =>
    obtain ⟨l', rest', hnext', htrim, hheads⟩ := h.exists_next_of_next? hnext
    rw [hnext] at hs
    obtain ⟨header, hheader, hs⟩ := exists_of_bind hs
    obtain ⟨ms, hms, hs⟩ := exists_of_bind hs
    cases hs
    have hrest := hheads.of_not_opensBlock
      (Directive.not_opensBlock (startsWith_of_readHeader hheader) apart_class)
    have hheader' := entails_readHeader htrim.symm header hheader
    rw [read, hnext']
    simp only [hheader', bind, Except.bind]
    rcases Member.readAll_relaid hrest hms with hread | ⟨hmeets, hread⟩
    · exact .inl (by rw [hread])
    · obtain ⟨ms', stop, opening, body, hcomes, hstop, hmethod, es, stop', k, ks, hcomes', hk, hsplit⟩ := hmeets
      refine .inr ⟨⟨k, ks, ⟨opening, body, es, stop', ?_, hmethod, hcomes', hk⟩, hsplit⟩, by rw [hread]; rfl⟩
      exact ⟨l', rest', ms', stop, hnext', hcomes, hstop⟩

/-- The blanks in front of each line have one byte. -/
def HasNarrowBlanks (s : Text) : Prop := ∀ t ∈ lines s, ∀ c ∈ t.takeWhile isBlank, c.utf8Size = 1

instance (s : Text) : Decidable (HasNarrowBlanks s) :=
  inferInstanceAs (Decidable (∀ t ∈ lines s, ∀ c ∈ t.takeWhile isBlank, c.utf8Size = 1))

theorem not_looksSplit (h : HasNarrowBlanks s) : ¬ LooksSplit s := by
  rintro ⟨l, ls, ⟨opening, body, es, stop, hopening, -, hcomes, hstop⟩, -, hsplit⟩
  have hsuffix : ls <:+ ofText s :=
    ((suffix_of_next? hstop).trans (hcomes.suffix BodyEntry.leaves_read)).trans
      ((List.suffix_cons opening body).trans hopening.suffix)
  have hblanks : ∀ t ∈ ls.map Line.text, ∀ c ∈ t.takeWhile isBlank, c.utf8Size = 1 := by
    intro t ht
    refine h t ?_
    rw [← map_text_ofText]
    exact (hsuffix.map Line.text).subset ht
  have hanswers := Directive.isClosed_answers ls
  rw [hsplit] at hanswers
  cases hlook : Look.between.after (ls.map Line.text) with
  | split => exact Look.after_ne_split (by simp) hblanks hlook
  | inside base =>
    rw [hlook] at hanswers
    obtain ⟨n, hn⟩ := hanswers
    cases hn
  | between | closed | passed =>
    rw [hlook] at hanswers
    cases hanswers

theorem accepts_relaid (h : Relaid (lines s) (lines s')) :
    (∀ c, read s = .ok c → read s' = .ok c ∨ LooksSplit s' ∧ read s' = Outcome.abort .splitCharacter) ∧
    (∀ c, read s' = .ok c → read s = .ok c ∨ LooksSplit s ∧ read s = Outcome.abort .splitCharacter) ∧
    (HasNarrowBlanks s → HasNarrowBlanks s' → ∀ c, read s = .ok c ↔ read s' = .ok c) := by
  refine ⟨fun c hc => read_relaid h hc, fun c hc => read_relaid h.symm hc, fun hs hs' c => ⟨fun hc => ?_, fun hc => ?_⟩⟩
  · exact (read_relaid h hc).resolve_right fun hsplit => not_looksSplit hs' hsplit.1
  · exact (read_relaid h.symm hc).resolve_right fun hsplit => not_looksSplit hs hsplit.1

/-- A parameter that ends inside of its annotation, so that the look-ahead goes on behind it, past the lines
`middle`. -/
def lookingDocument (middle : Text) : Text :=
  ".class La;\n.method a()V\n.param p0\n .annotation X\n.end param\n" ++ middle ++
    (".array-data 4\n.end annotation\n.end param\n.end array-data\n.end method\n" : Text)

def lookingBlock : List Text := [" .annotation X", ".end param"]

def lookingArray : List Text := [".end annotation", ".end param", ".end array-data"]

def lookingLines (middle : List Text) : List Text :=
  (".class La;" : Text) :: (".method a()V" : Text) :: (".param p0" : Text) :: (lookingBlock ++
    (middle ++ (".array-data 4" : Text) :: (lookingArray ++ [(".end method" : Text)])))

def looking : Class := ⟨⟨"a"⟩, .empty, none, none, [], [], [], [⟨"a", .empty, ⟨[], .void⟩, none,
  [.directive ⟨[".param p0", " .annotation X", ".end param"]⟩, .directive ⟨[".prologue"]⟩,
    .directive ⟨[".array-data 4", ".end annotation", ".end param", ".end array-data"]⟩]⟩], none⟩

/-- The line between the blocks may have blanks around it, and a line that says nothing before it. -/
theorem relaid_looking {skipped t : Text} (hskipped : ¬ IsSignificant skipped) (ht : trim t = ".prologue") :
    Relaid (lookingLines [".prologue"]) (lookingLines [skipped, t]) := by
  have hparam : EndsAt ".end param" lookingBlock := by
    simp only [lookingBlock, EndsAt]
    decide
  have harray : EndsAt ".end array-data" lookingArray := by
    simp only [lookingArray, EndsAt]
    decide
  have hend : Relaid [(".end method" : Text)] [(".end method" : Text)] :=
    .line rfl (Directive.not_opensBlock (k := ".end method") (by decide) (by decide)) .nil
  have htail := Relaid.block (.block (b := (".array-data", ".end array-data")) (by decide) (by decide)) harray hend
    (t := ".array-data 4")
  have hmiddle := Relaid.line (t := ".prologue") (u := t) (by rw [ht]; decide)
    (Directive.not_opensBlock (k := ".prologue") (by decide) (by decide)) htail
  have hblock := Relaid.block (t := ".param p0") (.owner (by decide) (by decide)) hparam (.right hskipped hmiddle)
  refine .line rfl (Directive.not_opensBlock (k := ".class") (by decide) (by decide)) ?_
  exact .line rfl (Directive.not_opensBlock (k := ".method") (by decide) (by decide)) hblock

theorem lines_looking : lines (lookingDocument ".prologue\n") = lookingLines [".prologue"] := by
  decide +kernel

theorem read_looking : read (lookingDocument ".prologue\n") = .ok looking := by
  decide +kernel

theorem accepts_relaid_looking :
    Relaid (lines (lookingDocument ".prologue\n")) (lines (lookingDocument "# c\n\t.prologue \n")) ∧
    HasNarrowBlanks (lookingDocument ".prologue\n") ∧ HasNarrowBlanks (lookingDocument "# c\n\t.prologue \n") ∧
    read (lookingDocument ".prologue\n") = .ok looking ∧
    read (lookingDocument "# c\n\t.prologue \n") = .ok looking := by
  have hlines : lines (lookingDocument "# c\n\t.prologue \n") = lookingLines ["# c", "\t.prologue "] := by
    decide +kernel
  have hrelaid : Relaid (lines (lookingDocument ".prologue\n"))
      (lines (lookingDocument "# c\n\t.prologue \n")) := by
    rw [lines_looking, hlines]
    exact relaid_looking (by decide) (by decide)
  have hnarrow : HasNarrowBlanks (lookingDocument ".prologue\n") := by decide +kernel
  have hnarrow' : HasNarrowBlanks (lookingDocument "# c\n\t.prologue \n") := by decide +kernel
  exact ⟨hrelaid, hnarrow, hnarrow', read_looking, ((accepts_relaid hrelaid).2.2 hnarrow hnarrow' _).1 read_looking⟩

/-- A blank of several bytes in front of the line is split, and the document is not read at all. -/
theorem wide_blank_split :
    Relaid (lines (lookingDocument ".prologue\n")) (lines (lookingDocument "\n\u3000.prologue\n")) ∧
    read (lookingDocument ".prologue\n") = .ok looking ∧
    read (lookingDocument "\n\u3000.prologue\n") = Outcome.abort .splitCharacter := by
  have hlines : lines (lookingDocument "\n\u3000.prologue\n") = lookingLines ["", "\u3000.prologue"] := by
    decide +kernel
  refine ⟨?_, read_looking, by decide +kernel⟩
  rw [lines_looking, hlines]
  exact relaid_looking (by decide) (by decide)

end Class

end DalvikPatch
