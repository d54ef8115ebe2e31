import DalvikPatch.Proofs.Ownership

/-! Documents that are cut off. A method and a block of lines are closed by a line of their own, and a
document that ends before that line is refused. The annotations of a field are closed by such a line too, but
in its place the reader takes the end of the document. -/

namespace DalvikPatch

open Text Line

/-! ### Refusals for the end of the document -/

/-- The document ends inside of a method or of a block. -/
inductive Outcome.Unended {α : Type} : Outcome α → Prop
  | method (n : Nat) (name : Text) : Unended (.mistake n (.unterminatedMethod name))
  | block (n : Nat) (closing : Text) : Unended (.mistake n (.unterminatedBlock closing))

namespace Outcome

variable {α β : Type} {o : Outcome α}

theorem Unended.exists_error (h : o.Unended) :
    ∃ e, o = .error e ∧ ∀ {β : Type}, Unended (.error e : Outcome β) := by
  cases h with
  | method n name => exact ⟨_, rfl, .method n name⟩
  | block n closing => exact ⟨_, rfl, .block n closing⟩

theorem Unended.bind (h : o.Unended) (g : α → Outcome β) : Unended (Except.bind o g) := by
  obtain ⟨e, rfl, he⟩ := h.exists_error
  exact he

theorem Unended.map (h : o.Unended) (g : α → β) : Unended (Except.map g o) := by
  obtain ⟨e, rfl, he⟩ := h.exists_error
  exact he

end Outcome

open Outcome (Unended)

namespace Line

variable {α β : Type} {a : α} {us vs ws ys : List Line} {o : Outcome (α × List Line)}

/-! ### Readers of lines that are cut off -/

/-- The next significant line may be cut off, or it is the same. -/
theorem next?_cut {l : Line} {rest : List Line} (h : next? (us ++ vs) = some (l, rest)) :
    (next? us = none ∧ rest.length < vs.length) ∨ ∃ us', rest = us' ++ vs ∧ next? us = some (l, us') := by
  induction us with
  | nil => exact .inl ⟨rfl, length_lt_of_next? h⟩
  | cons u us ih =>
    rw [List.cons_append] at h
    by_cases hu : IsSignificant u.text
    · rw [next?_cons_of_significant hu] at h
      cases h
      exact .inr ⟨us, rfl, next?_cons_of_significant hu us⟩
    · rw [next?_cons_of_not hu] at h ⊢
      exact ih h

/-- If lines at the end are cut off behind the next significant line, it is still the next one. -/
theorem exists_of_next?_append {l : Line} {ls : List Line} (h : next? ls = some (l, us ++ vs)) :
    ∃ ks, ls = ks ++ vs ∧ next? ks = some (l, us) := by
  obtain ⟨hl, skipped, rfl, hskipped⟩ := exists_of_next? h
  refine ⟨skipped ++ l :: us, by simp, ?_⟩
  rw [next?_append_of_not hskipped, next?_cons_of_significant hl]

/-- What becomes of reading `a`, with the lines `ys` left, if the lines `vs` at the end are cut off: the
reader does the same, or there is a refusal, for its end is cut off or for another reason. -/
inductive Cut (vs : List Line) (reason refused : Prop) (a : α) :
    List Line → Outcome (α × List Line) → Prop
  | behind (us : List Line) : Cut vs reason refused a (us ++ vs) (.ok (a, us))
  | inside {ys : List Line} {o : Outcome (α × List Line)} : ys.length < vs.length → refused →
      Cut vs reason refused a ys o
  | other {ys : List Line} {o : Outcome (α × List Line)} : reason → refused → Cut vs reason refused a ys o

variable {reason reason' refused refused' : Prop}

theorem Cut.imp (h : Cut vs reason refused a ys o) (hreason : reason → reason')
    (hrefused : refused → refused') : Cut vs reason' refused' a ys o := by
  cases h with
  | behind us => exact .behind us
  | inside hlength h => exact .inside hlength (hrefused h)
  | other hother h => exact .other (hreason hother) (hrefused h)

theorem Cut.map (h : Cut vs reason refused a ys o) (g : α → β) :
    Cut vs reason refused (g a) ys (o.map fun p => (g p.1, p.2)) := by
  cases h with
  | behind us => exact .behind us
  | inside hlength h => exact .inside hlength h
  | other hother h => exact .other hother h

theorem Cut.same_or (h : Cut vs reason refused a (us ++ vs) o) :
    o = .ok (a, us) ∨ reason ∧ refused := by
  generalize hys : us ++ vs = ys at h
  cases h with
  | behind us' => exact .inl (by rw [List.append_cancel_right hys])
  | inside hlength _ =>
    rw [← hys, List.length_append] at hlength
    omega
  | other hother h => exact .inr ⟨hother, h⟩

theorem Cut.refused_of_inside (h : Cut vs reason refused a ys o) (hys : ys.length < vs.length) : refused := by
  cases h with
  | behind us =>
    rw [List.length_append] at hys
    omega
  | inside _ h | other _ h => exact h

variable {read : Line → List Line → Outcome (α × List Line)} {P : Line → List Line → Prop}

/-- Reading comes to the same lines if others are cut off behind them, or it is refused before. -/
theorem Comes.cut {as : List α} {D : List Line → Prop} (hread : Leaves read)
    (hstep : ∀ {l us ys a}, read l (us ++ vs) = .ok (a, ys ++ vs) →
      read l us = .ok (a, ys) ∨ P l (us ++ vs) ∧ ∀ ks, next? ks = some (l, us) → D ks)
    (hback : ∀ {ks l us a ys}, next? ks = some (l, us) → read l us = .ok (a, ys) → D ys → D ks)
    (h : Comes read (us ++ vs) as (ws ++ vs)) :
    Comes read us as ws ∨ Meets read P (us ++ vs) ∧ D us := by
  generalize hls : us ++ vs = ls at h
  generalize hend : ws ++ vs = stop at h
  induction h generalizing us with
  | here ls =>
    obtain rfl : us = ws := List.append_cancel_right (hls.trans hend.symm)
    exact .inl (.here us)
  | @past ls rest more stop l a as hnext ha hmore ih =>
    subst hls hend
    obtain ⟨ys, rfl⟩ : ∃ ys, more = ys ++ vs := by
      obtain ⟨zs, rfl⟩ := hmore.suffix hread
      exact ⟨zs ++ ws, (List.append_assoc ..).symm⟩
    rcases next?_cut hnext with ⟨-, hlength⟩ | ⟨us', rfl, hus⟩
    · -- all of `vs` is left in the end, so the next line is not among them
      have hle := (hread ha).length_le
      rw [List.length_append] at hle
      omega
    · rcases hstep ha with hsame | ⟨hP, hunended⟩
      · rcases ih rfl rfl with hcomes | ⟨hmeets, hunended⟩
        · exact .inl (.past hus hsame hcomes)
        · exact .inr ⟨.past hnext ha hmeets, hback hus hsame hunended⟩
      · exact .inr ⟨.here hnext hP, hunended us hus⟩

end Line

/-! ### Blocks -/

namespace Directive

variable {us vs ys : List Line}

theorem readLines_cut {n base : Nat} {closing : Text} {ts : List Text}
    (h : readLines n base closing (us ++ vs) = .ok (ts, ys)) :
    Cut vs False (Unended (readLines n base closing us)) ts ys (readLines n base closing us) := by
  induction us generalizing ts with
  | nil => exact .inside (length_lt_of_readLines h) (.block n closing)
  | cons u us ih =>
    rw [List.cons_append, readLines_cons] at h
    obtain ⟨t, ht, h⟩ := exists_of_bind h
    rw [readLines_cons, ht]
    by_cases hend : startsWith closing u.trimmed = true
    · rw [if_pos hend] at h
      cases h
      simp only [Except.bind, if_pos hend]
      exact .behind us
    · rw [if_neg hend] at h
      obtain ⟨p, hp, heq⟩ := exists_of_map h
      cases heq
      simp only [Except.bind, if_neg hend]
      exact ((ih hp).map (t :: ·)).imp id fun h => h.map _

theorem readBlock_cut {closing : Text} {l : Line} {d : Directive}
    (h : readBlock closing l (us ++ vs) = .ok (d, ys)) :
    Cut vs False (Unended (readBlock closing l us)) d ys (readBlock closing l us) := by
  obtain ⟨p, hp, heq⟩ := exists_of_map h
  cases heq
  exact ((readLines_cut hp).map fun ts => (⟨l.trimmed :: ts⟩ : Directive)).imp id fun h => h.map _

/-- If the lines at the end are cut off, the look-ahead of a parameter has the same answer, or it ends inside
of an annotation, or between annotations. -/
theorem isClosed_cut {b : Bool} (h : isClosed (us ++ vs) = .ok b) :
    isClosed us = .ok b ∨ Unended (isClosed us) ∨
      isClosed us = .ok false ∧ Look.between.after (us.map Line.text) = .between := by
  have hall := isClosed_answers (us ++ vs)
  have hcut := isClosed_answers us
  rw [h, List.map_append, Look.after_append] at hall
  cases hk : Look.between.after (us.map Line.text) with
  | between =>
    rw [hk] at hcut
    exact .inr (.inr ⟨hcut, rfl⟩)
  | inside base =>
    rw [hk] at hcut
    obtain ⟨n, hn⟩ := hcut
    rw [hn]
    exact .inr (.inl (.block n _))
  | closed =>
    rw [hk] at hall hcut
    rw [Look.closed_after] at hall
    exact .inl (hcut.trans hall.symm)
  | passed =>
    rw [hk] at hall hcut
    rw [Look.passed_after] at hall
    exact .inl (hcut.trans hall.symm)
  | split =>
    rw [hk, Look.split_after] at hall
    cases hall

end Directive

/-- Where the look-ahead ends between annotations, the next one is whole. -/
theorem Look.exists_of_between {ls rest : List Line} {l : Line}
    (h : between.after (ls.map Line.text) = between) (hnext : next? ls = some (l, rest)) :
    startsWith ".annotation" l.trimmed = true ∧ ∃ d more,
      Directive.readBlock ".end annotation" l rest = .ok (d, more) ∧
        between.after (more.map Line.text) = between := by
  obtain ⟨hl, hafter⟩ := after_of_next? hnext
  rw [hafter] at h
  by_cases ha : startsWith ".annotation" l.trimmed = true
  · rw [next_between_annotated ha] at h
    have hlines := readLines_answers l.number (indentation l.text) rest
    refine ⟨ha, ?_⟩
    rw [Directive.readBlock]
    cases hread : Directive.readLines l.number (indentation l.text) ".end annotation" rest with
    | error e =>
      rw [hread] at hlines
      rcases hlines with ⟨-, hlines⟩ | ⟨-, hlines⟩ <;> simp [hlines] at h
    | ok p =>
      rw [hread] at hlines
      exact ⟨_, p.2, rfl, hlines ▸ h⟩
  · by_cases he : startsWith ".end param" l.trimmed = true
    · have hclosed : between.next l.text = closed := by
        rw [next, if_neg (not_not.2 hl)]
        exact (if_neg ha).trans (if_pos he)
      rw [hclosed, closed_after] at h
      cases h
    · rw [next_between_other hl (Bool.eq_false_iff.2 ha) (Bool.eq_false_iff.2 he), passed_after] at h
      cases h

/-! ### Bodies -/

namespace BodyEntry

/-- A parameter whose look-ahead goes into the lines `vs` at the end. -/
def LooksInto (vs : List Line) (l : Line) (ls : List Line) : Prop :=
  startsWith ".param" l.trimmed = true ∧ ∃ us, ls = us ++ vs ∧ Directive.isClosed us ≠ Directive.isClosed ls

end BodyEntry

namespace Method

variable {n : Nat} {name : Text} {us vs ys : List Line} {l : Line}

/-- A body that ends between annotations is refused. -/
theorem unended_of_between (h : Look.between.after (us.map Line.text) = .between) :
    Unended (readBody n name us) := by
  fun_induction readBody n name us with
  | case1 => exact .method n name
  | case2 us l rest hnext hend =>
    have ha := (Look.exists_of_between h hnext).1
    rw [BodyEntry.startsWith_other (w := ".end method") (by decide) ha (by decide) (by decide)] at hend
    cases hend
  | case3 us l rest hnext hend e he =>
    obtain ⟨ha, d, more, hd, -⟩ := Look.exists_of_between h hnext
    rw [BodyEntry.read_block (b := (".annotation", ".end annotation")) (by decide) ha, hd] at he
    cases he
  | case4 us l rest hnext hend e more he ih =>
    obtain ⟨ha, d, more', hd, hmore⟩ := Look.exists_of_between h hnext
    rw [BodyEntry.read_block (b := (".annotation", ".end annotation")) (by decide) ha, hd] at he
    cases he
    exact (ih hmore).map _

/-- A body is refused with its next entry. -/
theorem unended_of_entry (hnext : next? us = some (l, ys))
    (hend : startsWith ".end method" l.trimmed = false) (h : Unended (BodyEntry.read l ys)) :
    Unended (readBody n name us) := by
  obtain ⟨e, he, hunended⟩ := h.exists_error
  rw [readBody_of_error hnext hend he]
  exact hunended

/-- A body is refused that goes on with the line `l` and the lines `ls`. -/
def Refuses (l : Line) (ls : List Line) : Prop :=
  ∀ n name ks, next? ks = some (l, ls) → Unended (readBody n name ks)

/-- A block in a body is the same if lines are cut off behind it, or the body is refused. -/
theorem cut_block {closing : Text} {d : Directive} {reason : Prop}
    (hend : startsWith ".end method" l.trimmed = false)
    (hread : BodyEntry.read l us =
      (Directive.readBlock closing l us).map fun p => (BodyEntry.directive p.1, p.2))
    (hd : Directive.readBlock closing l (us ++ vs) = .ok (d, ys)) :
    Cut vs reason (Refuses l us) (BodyEntry.directive d) ys (BodyEntry.read l us) := by
  have hcut := (Directive.readBlock_cut hd).map BodyEntry.directive
  rw [← hread] at hcut
  exact hcut.imp False.elim fun hunended n name ks hks => unended_of_entry hks hend (hread ▸ hunended.map _)

/-- A parameter is the same if lines are cut off behind it. If the look-ahead has another answer without
them, it ends inside of an annotation, or between annotations, and so does the body. -/
theorem cut_parameter {e : BodyEntry} (hparam : startsWith ".param" l.trimmed = true)
    (h : BodyEntry.read l (us ++ vs) = .ok (e, ys)) :
    Cut vs (BodyEntry.LooksInto vs l (us ++ vs)) (Refuses l us) e ys (BodyEntry.read l us) := by
  have hend := (BodyEntry.reads_of_read h).not_end
  have hread := @BodyEntry.read_parameter l us hparam
  rw [BodyEntry.read_parameter hparam] at h
  cases hc : Directive.isClosed (us ++ vs) with
  | error e =>
    rw [hc] at h
    cases h
  | ok b =>
    by_cases hsame : Directive.isClosed us = .ok b
    · rw [hc] at h
      rw [hsame] at hread
      cases b with
      | true =>
        obtain ⟨p, hp, heq⟩ := exists_of_map h
        cases heq
        exact cut_block hend hread hp
      | false =>
        cases h
        rw [hread]
        exact .behind us
    · refine .other ⟨hparam, us, rfl, hc ▸ hsame⟩ fun n name ks hks => ?_
      rcases (Directive.isClosed_cut hc).resolve_left hsame with hunended | ⟨hopen, hbetween⟩
      · obtain ⟨e', he', hunended⟩ := hunended.exists_error
        rw [he'] at hread
        exact unended_of_entry hks hend (hread ▸ hunended)
      · rw [hopen] at hread
        rw [readBody_of_comes (.past hks hread (.here us))]
        exact (unended_of_between hbetween).map _

/-- An entry of a body is the same if lines are cut off behind it, or the body is refused: the entry is cut
itself, or the look-ahead of a parameter went on to what is cut off. -/
theorem cut_entry {e : BodyEntry} (h : BodyEntry.read l (us ++ vs) = .ok (e, ys)) :
    Cut vs (BodyEntry.LooksInto vs l (us ++ vs)) (Refuses l us) e ys (BodyEntry.read l us) := by
  by_cases hparam : startsWith ".param" l.trimmed = true
  · exact cut_parameter hparam h
  by_cases hblock : ∃ b ∈ BodyEntry.blocks, startsWith b.1 l.trimmed = true
  · obtain ⟨b, hb, hstart⟩ := hblock
    have hend := (BodyEntry.reads_of_read h).not_end
    rw [BodyEntry.read_block hb hstart] at h
    obtain ⟨p, hp, heq⟩ := exists_of_map h
    cases heq
    exact cut_block hend (BodyEntry.read_block hb hstart) hp
  · obtain ⟨rfl, halone⟩ := BodyEntry.read_alone (Bool.eq_false_iff.2 hparam)
      (fun b hb => Bool.eq_false_iff.2 fun hstart => hblock ⟨b, hb, hstart⟩) h
    rw [halone l us rfl]
    exact .behind us

/-- Reading comes to the same entries if lines are cut off behind them, or the body is refused before. -/
theorem comes_cut {ws : List Line} {es : List BodyEntry} (h : Comes BodyEntry.read (us ++ vs) es (ws ++ vs)) :
    Comes BodyEntry.read us es ws ∨ Meets BodyEntry.read (BodyEntry.LooksInto vs) (us ++ vs) ∧
      ∀ n name, Unended (readBody n name us) := by
  refine h.cut (P := BodyEntry.LooksInto vs) (D := fun ks => ∀ n name, Unended (readBody n name ks))
    BodyEntry.leaves_read (fun {l us ys e} he => ?_) fun {ks l us e ys} hks he h n name => ?_
  · exact (cut_entry he).same_or.imp_right fun ⟨hlooks, h⟩ =>
      ⟨hlooks, fun ks hks n name => h n name ks hks⟩
  · rw [readBody_of_comes (.past hks he (.here ys))]
    exact (h n name).map _

/-- A body is the same if lines are cut off behind it, or it is refused. -/
theorem readBody_cut {b : Body} (h : readBody n name (us ++ vs) = .ok (b, ys)) :
    Cut vs (Meets BodyEntry.read (BodyEntry.LooksInto vs) (us ++ vs)) (Unended (readBody n name us)) b ys
      (readBody n name us) := by
  generalize hls : us ++ vs = ls at h
  fun_induction readBody n name ls generalizing b us with
  | case1 => cases h
  | case2 ls l rest hnext hend =>
    subst hls
    cases h
    rcases next?_cut hnext with ⟨hnone, hlength⟩ | ⟨us', rfl, hus⟩
    · rw [readBody_of_none hnone]
      exact .inside hlength (.method n name)
    · rw [readBody_of_end hus hend]
      exact .behind us'
  | case3 => cases h
  | case4 ls l rest hnext hend e more he ih =>
    subst hls
    obtain ⟨p, hp, heq⟩ := exists_of_map h
    cases heq
    have hlength : p.2.length ≤ more.length := (suffix_of_readBody hp).length_le
    rcases next?_cut hnext with ⟨hnone, hlt⟩ | ⟨us', rfl, hus⟩
    · have hle := (BodyEntry.leaves_read he).length_le
      rw [readBody_of_none hnone]
      exact .inside (by omega) (.method n name)
    · generalize hread : BodyEntry.read l us' = o at *
      have hcut := cut_entry he
      rw [hread] at hcut
      cases hcut with
      | behind us'' =>
        have hcut := (ih rfl hp).map fun b => b.add e
        rw [readBody_of_comes (.past hus hread (.here us''))]
        exact hcut.imp (.past hnext he) fun h => h.map _
      | inside hlt h => exact .inside (by omega) (h n name us hus)
      | other hlooks h => exact .other (.here hnext hlooks) (h n name us hus)

theorem read_cut {m : Method} (h : read l (us ++ vs) = .ok (m, ys)) :
    Cut vs (Meets BodyEntry.read (BodyEntry.LooksInto vs) (us ++ vs)) (Unended (read l us)) m ys
      (read l us) := by
  rw [read] at h ⊢
  split at h
  · cases h
  · next flags name prototype hline =>
    obtain ⟨p, hbody, heq⟩ := exists_of_map h
    cases heq
    exact ((readBody_cut hbody).map fun b => Method.mk name flags prototype b.frame? b.items).imp id
      fun h => h.map _

/-- A body ends with the line that closes it. -/
theorem exists_last_of_readBody {ls : List Line} {b : Body} (h : readBody n name ls = .ok (b, ys)) :
    ∃ inner last, ls = inner ++ last :: ys ∧ startsWith ".end method" last.trimmed = true := by
  fun_induction readBody n name ls generalizing b with
  | case1 => cases h
  | case2 ls l rest hnext hend =>
    cases h
    obtain ⟨-, skipped, rfl, -⟩ := exists_of_next? hnext
    exact ⟨skipped, l, rfl, hend⟩
  | case3 => cases h
  | case4 ls l rest hnext hend e more he ih =>
    obtain ⟨p, hp, heq⟩ := exists_of_map h
    cases heq
    obtain ⟨inner, last, rfl, hlast⟩ := ih hp
    obtain ⟨-, skipped, rfl, -⟩ := exists_of_next? hnext
    obtain ⟨taken, rfl⟩ := BodyEntry.leaves_read he
    exact ⟨skipped ++ l :: (taken ++ inner), last, by simp, hlast⟩

theorem exists_last_of_read {ls : List Line} {m : Method} (h : read l ls = .ok (m, ys)) :
    ∃ inner last, ls = inner ++ last :: ys ∧ startsWith ".end method" last.trimmed = true := by
  rw [read] at h
  split at h
  · cases h
  · obtain ⟨p, hp, heq⟩ := exists_of_map h
    cases heq
    exact exists_last_of_readBody hp

end Method

/-! ### Fields -/

namespace Directive

variable {us vs ws stop : List Line} {bs : List (Line × List Line)}

theorem Annotations.append (h : Annotations us bs ws) (vs : List Line) :
    Annotations (us ++ vs) bs (ws ++ vs) := by
  induction h with
  | here ls => exact .here _
  | @past ls inner more stop first last bs hnext hfirst hinner hlast _ ih =>
    have hnext' := next?_append_of_next? hnext vs
    rw [List.append_assoc, List.cons_append] at hnext'
    exact .past hnext' hfirst hinner hlast ih

/-- Annotations are whole whatever is cut off behind them. -/
theorem Annotations.cut (h : Annotations (us ++ vs) bs (ws ++ vs)) : Annotations us bs ws := by
  generalize hls : us ++ vs = ls at h
  generalize hend : ws ++ vs = stop at h
  induction h generalizing us with
  | here ls =>
    obtain rfl : us = ws := List.append_cancel_right (hls.trans hend.symm)
    exact .here us
  | @past ls inner more stop first last bs hnext hfirst hinner hlast hmore ih =>
    subst hls hend
    obtain ⟨taken, rfl, -⟩ := hmore.exists_taken
    obtain ⟨us', hus, hnext'⟩ := next?_append hnext ⟨inner ++ last :: (taken ++ ws), by simp⟩
    obtain rfl : inner ++ last :: (taken ++ ws) = us' := by
      have happend : (inner ++ last :: (taken ++ ws)) ++ vs = us' ++ vs := by
        rw [← hus]
        simp
      exact List.append_cancel_right happend
    have hus := hnext' []
    rw [List.append_nil, List.append_nil] at hus
    exact .past hus hfirst hinner hlast (ih (List.append_assoc ..) rfl)

end Directive

namespace Field

variable {us vs ys ls stop : List Line} {l : Line} {f : Field} {bs : List (Line × List Line)}

/-- Whole annotations behind a field are its annotations. -/
theorem readAnnotations_annotations (h : Directive.Annotations ls bs stop) :
    readAnnotations ls = (Directive.ofBlocks bs).bind fun ds =>
      (readAnnotations stop).map fun p => (ds ++ p.1, p.2) := by
  induction h with
  | here ls => cases readAnnotations ls <;> rfl
  | @past ls inner more stop first last bs hnext hfirst hinner hlast _ ih =>
    have hend : startsWith ".end field" first.trimmed = false :=
      startsWith_eq_false hfirst (by decide) (by decide)
    rw [readAnnotations.eq_def, hnext, Directive.ofBlocks_cons]
    simp only [hend, hfirst, if_true]
    rw [if_neg Bool.false_ne_true, Directive.readBlock_closed hinner hlast]
    cases Directive.ofLines first (inner ++ [last]) with
    | error e => rfl
    | ok d =>
      simp only [Except.map, ih, Except.bind]
      cases Directive.ofBlocks bs with
      | error e => rfl
      | ok ds => cases readAnnotations stop <;> rfl

theorem isAnnotated_of_annotations (h : Directive.Annotations ls bs stop)
    (hstop : bs = [] → isAnnotated stop = true) : isAnnotated ls = true := by
  cases h with
  | here ls => exact hstop rfl
  | past hnext hfirst _ _ _ => exact (isAnnotated_of_next? hnext).trans hfirst

/-- A field is the same if lines are cut off behind it. -/
theorem read_behind (hvs : vs ≠ []) (h : read l (us ++ vs) = .ok (f, ys ++ vs)) :
    read l us = .ok (f, ys) := by
  by_cases ha : isAnnotated (us ++ vs) = true
  · rw [read_of_isAnnotated ha] at h
    obtain ⟨g, hg, h⟩ := exists_of_bind h
    obtain ⟨⟨ds, rest⟩, hds, heq⟩ := exists_of_map h
    obtain ⟨rfl, rfl⟩ := Prod.mk.inj heq
    obtain ⟨⟨k, rest⟩, hnext, hk⟩ := (Option.any_eq_true ..).1 ha
    rcases next?_cut hnext with ⟨-, hlength⟩ | ⟨us', rfl, hus⟩
    · rw [readAnnotations_of_next? hnext hk] at hds
      obtain ⟨p, hp, hds⟩ := exists_of_bind hds
      obtain ⟨q, hq, heq⟩ := exists_of_map hds
      obtain ⟨-, hys⟩ := Prod.mk.inj heq
      have hle := ((suffix_of_readAnnotations hq).trans (Directive.suffix_of_readBlock hp)).length_le
      rw [hys, List.length_append] at hle
      omega
    · obtain ⟨zs, hzs⟩ := suffix_of_readAnnotations hds
      obtain rfl : zs ++ ys = us := List.append_cancel_right ((List.append_assoc ..).trans hzs)
      rw [List.append_assoc] at hds
      have hread := readAnnotations_exchange (List.append_ne_nil_of_right_ne_nil _ hvs) hds ys
      rw [read_of_isAnnotated ((isAnnotated_of_next? hus).trans hk), hg, hread]
      rfl
  · rw [read_of_not_isAnnotated (Bool.eq_false_iff.2 ha)] at h
    obtain ⟨g, hg, heq⟩ := exists_of_map h
    obtain ⟨rfl, hus⟩ := Prod.mk.inj heq
    obtain rfl : us = ys := List.append_cancel_right hus
    have hus : isAnnotated us = false := by
      cases hnext : next? us with
      | none =>
        rw [isAnnotated, hnext]
        rfl
      | some p =>
        rw [isAnnotated_of_next? hnext, ← isAnnotated_of_next? (next?_append_of_next? hnext vs)]
        exact Bool.eq_false_iff.2 ha
    rw [read_of_not_isAnnotated hus, hg]
    rfl

/-- What the reader of a field that is followed by whole annotations did. -/
theorem exists_of_annotations (hbs : Directive.Annotations ls bs stop)
    (hstop : bs = [] → isAnnotated stop = true) (h : read l ls = .ok (f, ys)) :
    ∃ g ds more, readLine l.number l.trimmed = .ok g ∧ Directive.ofBlocks bs = .ok ds ∧
      readAnnotations stop = .ok (more, ys) ∧ f = { g with annotations := ds ++ more } := by
  rw [read_of_isAnnotated (isAnnotated_of_annotations hbs hstop), readAnnotations_annotations hbs] at h
  obtain ⟨g, hg, h⟩ := exists_of_bind h
  obtain ⟨p, hp, heq⟩ := exists_of_map h
  obtain ⟨ds, hds, hp⟩ := exists_of_bind hp
  obtain ⟨q, hq, rfl⟩ := exists_of_map hp
  cases heq
  exact ⟨g, ds, q.1, hg, hds, hq, rfl⟩

/-- A field that is cut inside of an annotation is refused. -/
theorem unended_of_annotations {k : Line} {rest : List Line} {g : Field} {ds : List Directive}
    (hbs : Directive.Annotations us bs stop) (hnext : next? stop = some (k, rest))
    (hk : startsWith ".annotation" k.trimmed = true) (hg : readLine l.number l.trimmed = .ok g)
    (hds : Directive.ofBlocks bs = .ok ds)
    (h : Unended (Directive.readBlock ".end annotation" k rest)) : Unended (read l us) := by
  have hstop : Unended (readAnnotations stop) := by
    rw [readAnnotations_of_next? hnext hk]
    exact h.bind _
  rw [read_of_isAnnotated (isAnnotated_of_annotations hbs fun _ => (isAnnotated_of_next? hnext).trans hk),
    readAnnotations_annotations hbs, hg, hds]
  exact (hstop.map _).map _

/-- A field that is cut behind whole annotations has these. -/
theorem read_cut (hbs : Directive.Annotations us bs stop) (hne : bs ≠ []) (hstop : next? stop = none)
    (h : read l (us ++ vs) = .ok (f, ys)) :
    ∃ ds, Directive.ofBlocks bs = .ok ds ∧ ds <+: f.annotations ∧
      read l us = .ok ({ f with annotations := ds }, []) := by
  obtain ⟨g, ds, more, hg, hds, -, rfl⟩ := exists_of_annotations (hbs.append vs) (fun h => absurd h hne) h
  refine ⟨ds, hds, List.prefix_append ds more, ?_⟩
  have hread : readAnnotations stop = .ok ([], []) := by
    rw [readAnnotations.eq_def, hstop]
  rw [read_of_isAnnotated (isAnnotated_of_annotations hbs fun h => absurd h hne),
    readAnnotations_annotations hbs, hg, hds, hread]
  simp only [Except.bind, Except.map, List.append_nil]

end Field

/-! ### Members -/

namespace Member

variable {us vs ys : List Line} {l : Line}

/-- A method with a parameter whose look-ahead goes into the lines `vs` at the end. -/
def LooksInto (vs : List Line) (l : Line) (ls : List Line) : Prop :=
  startsWith ".method" l.trimmed = true ∧ Meets BodyEntry.read (BodyEntry.LooksInto vs) ls

/-- A member is the same if lines are cut off behind it, or it is refused for a look-ahead that went on to
what is cut off. -/
theorem read_behind {m : Member} (hvs : vs ≠ []) (h : read l (us ++ vs) = .ok (m, ys ++ vs)) :
    read l us = .ok (m, ys) ∨ LooksInto vs l (us ++ vs) ∧ Unended (read l us) := by
  by_cases hmethod : startsWith ".method" l.trimmed = true
  · rw [read_method hmethod] at h ⊢
    obtain ⟨⟨m', rest⟩, hm, heq⟩ := exists_of_map h
    obtain ⟨rfl, rfl⟩ := Prod.mk.inj heq
    rcases (Method.read_cut hm).same_or with hsame | ⟨hmeets, hunended⟩
    · exact .inl (by rw [hsame]; rfl)
    · exact .inr ⟨⟨hmethod, hmeets⟩, hunended.map _⟩
  refine .inl ?_
  obtain ⟨zs, hzs⟩ := leaves_read h
  obtain rfl : zs ++ ys = us := List.append_cancel_right ((List.append_assoc ..).trans hzs)
  rw [List.append_assoc, read] at h
  rw [read]
  split at h
  · exact exchange_past h
  split at h
  · exact exchange_past h
  by_cases hsource : startsWith ".source" l.trimmed = true
  · rw [if_pos hsource] at h ⊢
    exact exchange_past h
  rw [if_neg hsource] at h ⊢
  by_cases hannotated : startsWith ".annotation" l.trimmed = true
  · rw [if_pos hannotated] at h ⊢
    exact exchange_map (fun hd => Directive.readBlock_exchange hd ys) h
  rw [if_neg hannotated] at h ⊢
  by_cases hfield : startsWith ".field" l.trimmed = true
  · rw [if_pos hfield] at h ⊢
    refine exchange_map (fun hf => ?_) h
    rw [← List.append_assoc] at hf
    exact Field.read_behind hvs hf
  rw [if_neg hfield, if_neg hmethod] at h
  cases h

theorem unended_of_next {ls : List Line} (hnext : next? ls = some (l, us)) (h : Unended (read l us)) :
    Unended (readAll ls) := by
  obtain ⟨e, he, hunended⟩ := h.exists_error
  rw [readAll_of_error hnext he]
  exact hunended

/-- Reading comes to the same members if lines are cut off behind them, or it is refused before. -/
theorem comes_cut {ws : List Line} {ms : List Member} (hvs : vs ≠ [])
    (h : Comes read (us ++ vs) ms (ws ++ vs)) :
    Comes read us ms ws ∨ Meets read (LooksInto vs) (us ++ vs) ∧ Unended (readAll us) := by
  refine h.cut (P := LooksInto vs) (D := fun ks => Unended (readAll ks)) leaves_read
    (fun {l us ys m} hm => ?_) fun {ks l us m ys} hks hm hunended => ?_
  · exact (read_behind hvs hm).imp_right fun ⟨hlooks, hunended⟩ =>
      ⟨hlooks, fun ks hks => unended_of_next hks hunended⟩
  · rw [readAll_of_comes (.past hks hm (.here ys))]
    exact hunended.map _

end Member

/-! ### Documents -/

namespace Class

variable {s s' : Text} {c : Class} {l : Line} {ls tail : List Line}

/-- A parameter of a document whose look-ahead goes into the lines `tail` at its end. -/
def LooksInto (tail : List Line) (s : Text) : Prop :=
  ∃ l ls, ReadsEntry s l ls ∧ BodyEntry.LooksInto tail l ls

/-- A document without the lines at its end has the header, and the members that are read of the others. -/
theorem read_of_cut (h : read s = .ok c) (hs : ofText s = ofText s' ++ tail) {first : Line}
    {us : List Line} (hfirst : next? (ofText s') = some (first, us)) :
    ∃ header : AccessFlags × ClassName,
      read s = (Member.readAll (us ++ tail)).map (ofMembers header.2 header.1) ∧
      read s' = (Member.readAll us).map (ofMembers header.2 header.1) := by
  have hfirst' := next?_append_of_next? hfirst tail
  rw [← hs] at hfirst'
  rw [read, hfirst'] at h
  obtain ⟨header, hheader, -⟩ := exists_of_bind h
  refine ⟨header, ?_, ?_⟩
  · rw [read, hfirst']
    simp only [hheader, bind, Except.bind]
    cases Member.readAll (us ++ tail) <;> rfl
  · rw [read, hfirst]
    simp only [hheader, bind, Except.bind]
    cases Member.readAll us <;> rfl

/-- A cut document is read up to the member that is cut, or it is refused before. -/
theorem ReadsMember.cut (hl : ReadsMember s l (ls ++ tail)) (h : read s = .ok c)
    (hs : ofText s = ofText s' ++ tail) (htail : tail ≠ []) :
    ReadsMember s' l ls ∨ LooksInto tail s ∧ Unended (read s') := by
  obtain ⟨first, members, ms, stop, hfirst, hcomes, hstop⟩ := hl
  obtain ⟨stop, rfl, hstop'⟩ := exists_of_next?_append hstop
  rw [hs] at hfirst
  rcases next?_cut hfirst with ⟨-, hlength⟩ | ⟨us, rfl, hus⟩
  · have hle := (hcomes.suffix Member.leaves_read).length_le
    rw [List.length_append] at hle
    omega
  · rcases Member.comes_cut htail hcomes with hcomes' | ⟨hmeets, hunended⟩
    · exact .inl ⟨first, us, ms, _, hus, hcomes', hstop'⟩
    · obtain ⟨ms', stop', opening, body, hcomes', hstop', hmethod, es, stop'', k, ks, hcomes'', hk, hlooks⟩ :=
        hmeets
      rw [← hs] at hfirst
      refine .inr ⟨⟨k, ks, ?_, hlooks⟩, ?_⟩
      · exact ⟨opening, body, es, stop'', ⟨first, _, ms', stop', hfirst, hcomes', hstop'⟩, hmethod, hcomes'', hk⟩
      · obtain ⟨header, -, hread⟩ := read_of_cut h hs hus
        rw [hread]
        exact hunended.map _

/-- A document is refused with one of its members. -/
theorem unended_of_member (h : read s = .ok c) (hs : ofText s = ofText s' ++ tail)
    (hl : ReadsMember s' l ls) (hm : Unended (Member.read l ls)) : Unended (read s') := by
  obtain ⟨first, members, ms, stop, hfirst, hcomes, hstop⟩ := hl
  obtain ⟨header, -, hread⟩ := read_of_cut h hs hfirst
  rw [hread, Member.readAll_of_comes hcomes]
  exact ((Member.unended_of_next hstop hm).map _).map _

/-- A document that is cut inside of a member is refused if the member is. -/
theorem unended_of_readsMember (h : read s = .ok c) (hs : ofText s = ofText s' ++ tail) (htail : tail ≠ [])
    (hl : ReadsMember s l (ls ++ tail)) (hm : Unended (Member.read l ls)) : Unended (read s') := by
  rcases hl.cut h hs htail with hl' | ⟨-, hunended⟩
  · exact unended_of_member h hs hl' hm
  · exact hunended

/-- The same of an entry of a body. -/
theorem unended_of_readsEntry (h : read s = .ok c) (hs : ofText s = ofText s' ++ tail) (htail : tail ≠ [])
    (hl : ReadsEntry s l (ls ++ tail)) (hentry : Method.Refuses l ls) : Unended (read s') := by
  obtain ⟨opening, body, es, stop, hopening, hmethod, hcomes, hstop⟩ := hl
  obtain ⟨stop, rfl, hstop'⟩ := exists_of_next?_append hstop
  obtain ⟨taken, rfl⟩ := hcomes.suffix BodyEntry.leaves_read
  rw [← List.append_assoc] at hopening hcomes
  obtain ⟨m, rest, hm, -⟩ := exists_of_readsMember h hopening
  refine unended_of_readsMember h hs htail hopening ?_
  rw [Member.read_method hmethod] at hm ⊢
  obtain ⟨p, hp, -⟩ := exists_of_map hm
  refine Unended.map ?_ _
  rw [Method.read] at hp ⊢
  split at hp
  · cases hp
  · next flags name prototype hline =>
    refine Unended.map ?_ _
    rcases Method.comes_cut hcomes with hcomes' | ⟨-, hunended⟩
    · rw [Method.readBody_of_comes hcomes']
      exact (hentry _ _ _ hstop').map _
    · exact hunended _ _

/-- The entries of a method that was read are read. -/
theorem exists_of_readsEntry (h : read s = .ok c) (hl : ReadsEntry s l ls)
    (hend : startsWith ".end method" l.trimmed = false) : ∃ e rest, BodyEntry.read l ls = .ok (e, rest) := by
  obtain ⟨opening, body, es, stop, hopening, hmethod, hcomes, hstop⟩ := hl
  obtain ⟨m, rest, hm, -⟩ := exists_of_readsMember h hopening
  rw [Member.read_method hmethod] at hm
  obtain ⟨p, hp, -⟩ := exists_of_map hm
  rw [Method.read] at hp
  split at hp
  · cases hp
  · obtain ⟨q, hq, -⟩ := exists_of_map hp
    rw [Method.readBody_of_comes hcomes] at hq
    obtain ⟨r, hr, -⟩ := exists_of_map hq
    rw [Method.readBody.eq_def, hstop] at hr
    simp only [hend] at hr
    rw [if_neg Bool.false_ne_true] at hr
    cases he : BodyEntry.read l ls with
    | error e =>
      rw [he] at hr
      cases hr
    | ok p => exact ⟨p.1, p.2, rfl⟩

/-- In a document something opens on the line `l` that a line which starts with `closing` ends. Behind `l`
stand the lines `ls`; reading what was opened leaves some of them, or is refused. -/
inductive Opens (s : Text) : Line → List Line → Text → Outcome (List Line) → Prop
  | method {l : Line} {ls : List Line} : ReadsMember s l ls → startsWith ".method" l.trimmed = true →
      Opens s l ls ".end method" ((Method.read l ls).map Prod.snd)
  | annotation {l : Line} {ls : List Line} : ReadsMember s l ls → startsWith ".annotation" l.trimmed = true →
      Opens s l ls ".end annotation" ((Directive.readBlock ".end annotation" l ls).map Prod.snd)
  | onField {f l : Line} {fs ls stop : List Line} {bs : List (Line × List Line)} : ReadsMember s f fs →
      startsWith ".field" f.trimmed = true → Directive.Annotations fs bs stop →
      next? stop = some (l, ls) → startsWith ".annotation" l.trimmed = true →
      Opens s l ls ".end annotation" ((Directive.readBlock ".end annotation" l ls).map Prod.snd)
  | block {l : Line} {ls : List Line} {b : Text × Text} : ReadsEntry s l ls → b ∈ BodyEntry.blocks →
      startsWith b.1 l.trimmed = true → Opens s l ls b.2 ((Directive.readBlock b.2 l ls).map Prod.snd)
  | owner {l : Line} {ls : List Line} : ReadsEntry s l ls → startsWith ".param" l.trimmed = true →
      Directive.isClosed ls = .ok true →
      Opens s l ls ".end param" ((Directive.readBlock ".end param" l ls).map Prod.snd)

/-- What was opened is closed, and a document that is cut off before is refused. -/
def Closes (s : Text) (ls : List Line) (closing : Text) (left : Outcome (List Line)) : Prop :=
  ∃ inner last rest, left = .ok rest ∧ ls = inner ++ last :: rest ∧ startsWith closing last.trimmed = true ∧
    ∀ s' us tail, ofText s = ofText s' ++ tail → ls = us ++ tail → rest.length < tail.length →
      Unended (read s')

theorem closes_block {closing : Text} {d : Directive} {rest : List Line}
    (hd : Directive.readBlock closing l ls = .ok (d, rest))
    (hcut : ∀ s' us tail, ofText s = ofText s' ++ tail → ls = us ++ tail → tail ≠ [] →
      Unended (Directive.readBlock closing l us) → Unended (read s')) :
    Closes s ls closing ((Directive.readBlock closing l ls).map Prod.snd) := by
  obtain ⟨inner, last, hls, -, hlast⟩ := Directive.exists_lines_of_readBlock hd
  refine ⟨inner, last, rest, by rw [hd]; rfl, hls, hlast, fun s' us tail hs hus hlength => ?_⟩
  rw [hus] at hd
  exact hcut s' us tail hs hus (List.ne_nil_of_length_pos (Nat.zero_lt_of_lt hlength))
    ((Directive.readBlock_cut hd).refused_of_inside hlength)

theorem closes_method (h : read s = .ok c) (hmember : ReadsMember s l ls)
    (hmethod : startsWith ".method" l.trimmed = true) :
    Closes s ls ".end method" ((Method.read l ls).map Prod.snd) := by
  obtain ⟨m, rest, hm, -⟩ := exists_of_readsMember h hmember
  rw [Member.read_method hmethod] at hm
  obtain ⟨⟨m', rest'⟩, hm, -⟩ := exists_of_map hm
  obtain ⟨inner, last, hls, hlast⟩ := Method.exists_last_of_read hm
  refine ⟨inner, last, rest', by rw [hm]; rfl, hls, hlast, fun s' us tail hs hus hlength => ?_⟩
  subst hus
  have htail : tail ≠ [] := List.ne_nil_of_length_pos (Nat.zero_lt_of_lt hlength)
  refine unended_of_readsMember h hs htail hmember ?_
  rw [Member.read_method hmethod]
  exact ((Method.read_cut hm).refused_of_inside hlength).map _

theorem closes_annotation (h : read s = .ok c) (hmember : ReadsMember s l ls)
    (ha : startsWith ".annotation" l.trimmed = true) :
    Closes s ls ".end annotation" ((Directive.readBlock ".end annotation" l ls).map Prod.snd) := by
  obtain ⟨m, rest, hm, -⟩ := exists_of_readsMember h hmember
  rw [Member.read_annotated ha] at hm
  obtain ⟨⟨d, rest'⟩, hd, -⟩ := exists_of_map hm
  refine closes_block hd fun s' us tail hs hus htail hunended => ?_
  subst hus
  refine unended_of_readsMember h hs htail hmember ?_
  rw [Member.read_annotated ha]
  exact hunended.map _

theorem closes_onField {f : Line} {fs stop : List Line} {bs : List (Line × List Line)} (h : read s = .ok c)
    (hmember : ReadsMember s f fs) (hfield : startsWith ".field" f.trimmed = true)
    (hbs : Directive.Annotations fs bs stop) (hnext : next? stop = some (l, ls))
    (ha : startsWith ".annotation" l.trimmed = true) :
    Closes s ls ".end annotation" ((Directive.readBlock ".end annotation" l ls).map Prod.snd) := by
  obtain ⟨m, rest, hm, -⟩ := exists_of_readsMember h hmember
  rw [Member.read_field hfield] at hm
  obtain ⟨⟨g, rest'⟩, hg, -⟩ := exists_of_map hm
  obtain ⟨g', ds, more, hline, hds, hmore, -⟩ := Field.exists_of_annotations hbs
    (fun _ => (Field.isAnnotated_of_next? hnext).trans ha) hg
  rw [Field.readAnnotations_of_next? hnext ha] at hmore
  obtain ⟨⟨d, rest⟩, hd, -⟩ := exists_of_bind hmore
  refine closes_block hd fun s' us tail hs hus htail hunended => ?_
  subst hus
  obtain ⟨stop, rfl, hstop⟩ := exists_of_next?_append hnext
  obtain ⟨taken, rfl, -⟩ := hbs.exists_taken
  rw [← List.append_assoc] at hmember hbs
  refine unended_of_readsMember h hs htail hmember ?_
  rw [Member.read_field hfield]
  exact (Field.unended_of_annotations hbs.cut hstop ha hline hds hunended).map _

theorem closes_entry {b : Text × Text} (h : read s = .ok c) (hentry : ReadsEntry s l ls)
    (hb : b ∈ BodyEntry.blocks) (hstart : startsWith b.1 l.trimmed = true) :
    Closes s ls b.2 ((Directive.readBlock b.2 l ls).map Prod.snd) := by
  obtain ⟨hk, -, hne⟩ := BodyEntry.mem_keywords_of_mem_blocks b hb
  have hend : startsWith ".end method" l.trimmed = false :=
    BodyEntry.startsWith_other hk hstart (by decide) (by simp_all)
  obtain ⟨e, rest, he⟩ := exists_of_readsEntry h hentry hend
  rw [BodyEntry.read_block hb hstart] at he
  obtain ⟨⟨d, rest'⟩, hd, -⟩ := exists_of_map he
  refine closes_block hd fun s' us tail hs hus htail hunended => ?_
  subst hus
  refine unended_of_readsEntry h hs htail hentry fun n name ks hks => Method.unended_of_entry hks hend ?_
  rw [BodyEntry.read_block hb hstart]
  exact hunended.map _

theorem closes_owner (h : read s = .ok c) (hentry : ReadsEntry s l ls)
    (hparam : startsWith ".param" l.trimmed = true) (hclosed : Directive.isClosed ls = .ok true) :
    Closes s ls ".end param" ((Directive.readBlock ".end param" l ls).map Prod.snd) := by
  have hend : startsWith ".end method" l.trimmed = false :=
    BodyEntry.startsWith_other (by decide) hparam (by decide) (by decide)
  obtain ⟨e, rest, he⟩ := exists_of_readsEntry h hentry hend
  have he' := he
  rw [BodyEntry.read_parameter hparam, hclosed] at he'
  obtain ⟨⟨d, rest'⟩, hd, heq⟩ := exists_of_map he'
  obtain ⟨-, rfl⟩ := Prod.mk.inj heq
  obtain ⟨inner, last, hls, -, hlast⟩ := Directive.exists_lines_of_readBlock hd
  refine ⟨inner, last, rest', by rw [hd]; rfl, hls, hlast, fun s' us tail hs hus hlength => ?_⟩
  subst hus
  have htail : tail ≠ [] := List.ne_nil_of_length_pos (Nat.zero_lt_of_lt hlength)
  refine unended_of_readsEntry h hs htail hentry ?_
  -- the look-ahead may have another answer without the lines that are cut off
  exact (Method.cut_entry he).refused_of_inside hlength

/-- Whatever a document that is read opens is closed, and a document cut off before is refused. -/
theorem closes_of_opens {closing : Text} {left : Outcome (List Line)} (h : read s = .ok c)
    (hl : Opens s l ls closing left) : Closes s ls closing left := by
  cases hl with
  | method hmember hmethod => exact closes_method h hmember hmethod
  | annotation hmember ha => exact closes_annotation h hmember ha
  | onField hmember hfield hbs hnext ha => exact closes_onField h hmember hfield hbs hnext ha
  | block hentry hb hstart => exact closes_entry h hentry hb hstart
  | owner hentry hparam hclosed => exact closes_owner h hentry hparam hclosed

/-- The lines `tail` are cut off from a document behind whole annotations of a field. -/
inductive CutsField (s s' : Text) (tail : List Line) (bs : List (Line × List Line)) : Prop
  | behind {f : Line} {us skipped : List Line} : ofText s = ofText s' ++ tail → tail ≠ [] →
      ReadsMember s f (us ++ tail) → startsWith ".field" f.trimmed = true →
      Directive.Annotations us bs skipped → bs ≠ [] → next? skipped = none → CutsField s s' tail bs

/-- The last field of the document is one of the class `c`, of whose annotations it has the first ones, the
blocks `bs`. -/
def EndsInField (c : Class) (s : Text) (bs : List (Line × List Line)) : Prop :=
  ∃ c' f ds, read s = .ok c' ∧ f ∈ c.fields ∧ Directive.ofBlocks bs = .ok ds ∧ ds <+: f.annotations ∧
    c'.fields.getLast? = some { f with annotations := ds }

/-- A document that is cut off behind whole annotations of a field is accepted, unless the look-ahead of a
parameter went on to what is cut off. -/
theorem accepts_of_cutsField {bs : List (Line × List Line)} (h : read s = .ok c)
    (hcut : CutsField s s' tail bs) : EndsInField c s' bs ∨ LooksInto tail s ∧ Unended (read s') := by
  obtain ⟨hs, htail, hl, hfield, hbs, hne, hskipped⟩ := hcut
  refine (hl.cut h hs htail).imp_left fun hl' => ?_
  obtain ⟨m, rest, hm, hmem⟩ := exists_of_readsMember h hl
  rw [Member.read_field hfield] at hm
  obtain ⟨⟨f, rest'⟩, hf, heq⟩ := exists_of_map hm
  obtain ⟨rfl, rfl⟩ := Prod.mk.inj heq
  obtain ⟨ds, hds, hprefix, hread⟩ := Field.read_cut hbs hne hskipped hf
  obtain ⟨first, members, ms, stop, hfirst, hcomes, hstop⟩ := hl'
  obtain ⟨header, -, hclass⟩ := read_of_cut h hs hfirst
  have hlast : Member.readAll stop = .ok [.field { f with annotations := ds }] := by
    rw [Member.readAll.eq_def, hstop]
    simp only
    rw [Member.read_field hfield, hread]
    simp only [Except.map, Member.readAll_nil]
  rw [Member.readAll_of_comes hcomes, hlast] at hclass
  refine ⟨_, f, ds, hclass, hmem f rfl, hds, hprefix, ?_⟩
  simp only [ofMembers, List.filterMap_append]
  exact List.getLast?_concat ..

/-- A document that is read closes what it opens. Cut off inside of a method, or inside of an annotation or
another block of lines, it is refused for the end that is missing. Cut off between the annotations of a field
it is accepted, unless the look-ahead of a parameter went on to what is cut off. -/
theorem read_truncated (h : read s = .ok c) :
    (∀ l ls closing left, Opens s l ls closing left → Closes s ls closing left) ∧
    ∀ s' tail bs, CutsField s s' tail bs → EndsInField c s' bs ∨ LooksInto tail s ∧ Unended (read s') :=
  ⟨fun _ _ _ _ hl => closes_of_opens h hl, fun _ _ _ hcut => accepts_of_cutsField h hcut⟩

/-- A field with two annotations. -/
def annotatedDocument : Text := ".class La;\n.field a:I\n.annotation X\n.end annotation\n" ++
  (".annotation Y\n.end annotation\n.end field\n" : Text)

def annotated (ds : List Directive) : Class :=
  ⟨⟨"a"⟩, .empty, none, none, [], [], [⟨"a", .empty, .int, none, ds⟩], [], none⟩

/-- The same up to the end of the first annotation. -/
def betweenDocument : Text := ".class La;\n.field a:I\n.annotation X\n.end annotation\n"

def firstBlock : Line × List Line := (⟨3, ".annotation X"⟩, [⟨4, ".end annotation"⟩])

def betweenTail : List Line := [⟨5, ".annotation Y"⟩, ⟨6, ".end annotation"⟩, ⟨7, ".end field"⟩]

theorem annotations_between (tail : List Line) :
    Directive.Annotations (firstBlock.1 :: (firstBlock.2 ++ tail)) [firstBlock] tail :=
  @Directive.Annotations.past _ [] _ _ _ _ _ (next?_cons_of_significant (by decide) _) (by decide) (by simp)
    (by decide) (.here _)

theorem readsMember_annotated : ReadsMember annotatedDocument ⟨2, ".field a:I"⟩
    (firstBlock.1 :: (firstBlock.2 ++ betweenTail)) :=
  ⟨_, _, [], _, rfl, .here _, rfl⟩

theorem cutsField_between : CutsField annotatedDocument betweenDocument betweenTail [firstBlock] :=
  .behind (by decide) (by decide) readsMember_annotated (by decide) (annotations_between [])
    (by decide) rfl

theorem read_truncated_annotated :
    read annotatedDocument =
      .ok (annotated [⟨[".annotation X", ".end annotation"]⟩, ⟨[".annotation Y", ".end annotation"]⟩]) ∧
    (∃ left, Opens annotatedDocument ⟨5, ".annotation Y"⟩ betweenTail.tail ".end annotation" left ∧
      Closes annotatedDocument betweenTail.tail ".end annotation" left) ∧
    CutsField annotatedDocument betweenDocument betweenTail [firstBlock] ∧
    (EndsInField (annotated [⟨[".annotation X", ".end annotation"]⟩, ⟨[".annotation Y", ".end annotation"]⟩])
      betweenDocument [firstBlock] ∨
        LooksInto betweenTail annotatedDocument ∧ Unended (read betweenDocument)) := by
  have hread : read annotatedDocument =
      .ok (annotated [⟨[".annotation X", ".end annotation"]⟩, ⟨[".annotation Y", ".end annotation"]⟩]) := by
    decide +kernel
  have hopens := Opens.onField (s := annotatedDocument) readsMember_annotated (by decide)
    (annotations_between betweenTail) (l := ⟨5, ".annotation Y"⟩) rfl (by decide)
  exact ⟨hread, ⟨_, hopens, (read_truncated hread).1 _ _ _ _ hopens⟩, cutsField_between,
    (read_truncated hread).2 _ _ _ cutsField_between⟩

/-- A document that is cut off between the annotations of a field is accepted. -/
theorem between_annotations_accepted :
    read annotatedDocument =
      .ok (annotated [⟨[".annotation X", ".end annotation"]⟩, ⟨[".annotation Y", ".end annotation"]⟩]) ∧
    CutsField annotatedDocument betweenDocument betweenTail [firstBlock] ∧
    read betweenDocument = .ok (annotated [⟨[".annotation X", ".end annotation"]⟩]) :=
  ⟨by decide +kernel, cutsField_between, by decide +kernel⟩

end Class

end DalvikPatch
