import DalvikPatch.Proofs.Cuts
import DalvikPatch.Proofs.Locations

/-! Where the reader gives no answer. The lines of a block lose the indentation of its first line, which
is counted in bytes: in a line that is indented with other blanks these bytes may end inside of one. -/

namespace DalvikPatch

open Text Line

/-! ### Lines that reading comes to -/

namespace Line

variable {α : Type} {read : Line → List Line → Outcome (α × List Line)} {l : Line} {ls rest : List Line}

theorem cons_suffix_of_next? (h : next? ls = some (l, rest)) : l :: rest <:+ ls := by
  obtain ⟨-, skipped, rfl, -⟩ := exists_of_next? h
  exact List.suffix_append skipped _

theorem Meets.exists_suffix {P : Line → List Line → Prop} (hread : Leaves read) (h : Meets read P ls) :
    ∃ l rest, P l rest ∧ l :: rest <:+ ls := by
  obtain ⟨as, stop, l, rest, hcomes, hstop, hl⟩ := h
  exact ⟨l, rest, hl, (cons_suffix_of_next? hstop).trans (hcomes.suffix hread)⟩

end Line

/-! ### Outcomes that split -/

namespace Outcome

variable {α β : Type} {o : Outcome α}

/-- A result, or a mistake that the text has. -/
def Answers (o : Outcome α) : Prop := (∃ a, o = .ok a) ∨ ∃ place m, o = .error (.fault (.parse place m))

/-- A character would be split. -/
def Splits (o : Outcome α) : Prop := o = .abort .splitCharacter

theorem not_splits_ok (a : α) : ¬ Splits (.ok a : Outcome α) := nofun

theorem not_splits_mistake (n : Nat) (m : Mistake) : ¬ Splits (mistake n m : Outcome α) := nofun

theorem splits_error {e : Stop} : Splits (.error e : Outcome α) ↔ Splits (.error e : Outcome β) := by
  simp [Splits, Outcome.abort]

theorem splits_bind {g : α → Outcome β} :
    Splits (Except.bind o g) ↔ Splits o ∨ ∃ a, o = .ok a ∧ Splits (g a) := by
  cases o with
  | error e =>
    refine splits_error.trans ⟨.inl, fun h => h.resolve_right ?_⟩
    rintro ⟨a, ha, -⟩
    cases ha
  | ok a =>
    refine ⟨fun h => .inr ⟨a, rfl, h⟩, ?_⟩
    rintro (h | ⟨b, hb, h⟩)
    · cases h
    · cases hb
      exact h

theorem splits_map {g : α → β} : Splits (Except.map g o) ↔ Splits o := by
  cases o with
  | error e => exact splits_error
  | ok a => exact ⟨nofun, nofun⟩

theorem Blames.not_splits {p : Nat → Prop} (h : o.Blames False p) : ¬ o.Splits := by
  intro hsplits
  rcases h.of_error _ hsplits with ⟨hfalse, -⟩ | ⟨n, m, -, hm⟩
  · exact hfalse
  · cases hm

end Outcome

open Outcome

/-! ### Blocks -/

namespace Directive

variable {closing : Text} {first : Line} {ls : List Line}

theorem splits_keep {base : Nat} {l : Line} : (keep base l).Splits ↔ SplitsBlank base l.text := by
  rw [← dropBytes?_min_eq_none_iff, keep]
  cases dropBytes? (min (indentation l.text) base) l.text with
  | none => exact ⟨fun _ => rfl, fun _ => rfl⟩
  | some t =>
    refine ⟨fun h => absurd h (not_splits_ok _), fun h => ?_⟩
    cases h

theorem splits_or_keep (base : Nat) (l : Line) : (keep base l).Splits ∨ ∃ t, keep base l = .ok t := by
  rw [keep]
  split
  · exact .inl rfl
  · exact .inr ⟨_, rfl⟩

/-- Lines are cut, or a character of one would be split. -/
theorem splits_or_ofLines (first : Line) (ls : List Line) :
    (ofLines first ls).Splits ∨ ∃ d, ofLines first ls = .ok d := by
  have hlines : (ls.mapM (keep (indentation first.text))).Splits ∨
      ∃ ts, ls.mapM (keep (indentation first.text)) = .ok ts := by
    induction ls with
    | nil => exact .inr ⟨[], rfl⟩
    | cons l ls ih =>
      rw [mapM_keep_cons]
      rcases splits_or_keep (indentation first.text) l with hl | ⟨t, ht⟩
      · exact .inl (splits_bind.2 (.inl hl))
      · rw [ht]
        refine ih.imp (fun hls => splits_map.2 hls) ?_
        rintro ⟨ts, hts⟩
        exact ⟨t :: ts, by rw [hts]; rfl⟩
  refine hlines.imp (fun hls => splits_map.2 hls) ?_
  rintro ⟨ts, hts⟩
  exact ⟨⟨first.trimmed :: ts⟩, by rw [ofLines, hts]; rfl⟩

/-- The bytes of the indentation of the first line end inside of a blank of a line of its block, which goes
up to the first line that starts with `closing`. -/
def SplitsIn (closing : Text) (first : Line) (ls : List Line) : Prop :=
  ∃ inner k after, ls = inner ++ k :: after ∧ (∀ x ∈ inner, startsWith closing x.trimmed = false) ∧
    SplitsBlank (indentation first.text) k.text

theorem splits_readLines {n base : Nat} : (readLines n base closing ls).Splits ↔
    ∃ inner k after, ls = inner ++ k :: after ∧ (∀ x ∈ inner, startsWith closing x.trimmed = false) ∧
      SplitsBlank base k.text := by
  induction ls with
  | nil =>
    refine ⟨fun h => absurd h (not_splits_mistake _ _), ?_⟩
    rintro ⟨inner, k, after, hls, -⟩
    exact absurd hls (by simp)
  | cons l ls ih =>
    rw [readLines_cons, splits_bind, splits_keep]
    constructor
    · rintro (hl | ⟨t, -, hrest⟩)
      · exact ⟨[], l, ls, rfl, by simp, hl⟩
      · split at hrest
        · cases hrest
        · next hopen =>
          obtain ⟨inner, k, after, rfl, hinner, hk⟩ := ih.1 (splits_map.1 hrest)
          refine ⟨l :: inner, k, after, rfl, fun x hx => ?_, hk⟩
          rcases List.mem_cons.1 hx with rfl | hx
          · exact Bool.eq_false_iff.2 hopen
          · exact hinner x hx
    · rintro ⟨inner, k, after, hls, hinner, hk⟩
      cases inner with
      | nil =>
        cases hls
        exact .inl hk
      | cons x inner =>
        cases hls
        refine (splits_or_keep base l).imp splits_keep.1 ?_
        rintro ⟨t, ht⟩
        refine ⟨t, ht, ?_⟩
        rw [hinner l (List.mem_cons_self ..)]
        refine splits_map.2 (ih.2 ⟨inner, k, after, rfl, fun y hy => ?_, hk⟩)
        exact hinner y (List.mem_cons_of_mem _ hy)

theorem splits_readBlock : (readBlock closing first ls).Splits ↔ SplitsIn closing first ls :=
  splits_map.trans splits_readLines

/-- Reading goes past whole annotations to the one that starts with `l`. -/
def ReachesAnnotation (ls : List Line) (l : Line) (rest : List Line) : Prop :=
  ∃ bs stop, Annotations ls bs stop ∧ next? stop = some (l, rest) ∧ startsWith ".annotation" l.trimmed = true

theorem ReachesAnnotation.suffix {l : Line} {rest : List Line} (h : ReachesAnnotation ls l rest) :
    l :: rest <:+ ls := by
  obtain ⟨bs, stop, hbs, hstop, -⟩ := h
  obtain ⟨taken, rfl, -⟩ := hbs.exists_taken
  exact (cons_suffix_of_next? hstop).trans (List.suffix_append taken stop)

/-- What goes past whole annotations splits exactly in one of them. -/
theorem splits_annotations {α : Type} {f : List Line → Outcome α}
    (hopen : ∀ {ls rest l}, next? ls = some (l, rest) → startsWith ".annotation" l.trimmed = true →
      ((f ls).Splits ↔ (readBlock ".end annotation" l rest).Splits ∨
        ∃ p, readBlock ".end annotation" l rest = .ok p ∧ (f p.2).Splits))
    (hother : ∀ {ls}, (∀ l rest, next? ls = some (l, rest) → startsWith ".annotation" l.trimmed = false) →
      ¬ (f ls).Splits) (ls : List Line) :
    (f ls).Splits ↔ ∃ l rest, ReachesAnnotation ls l rest ∧ SplitsIn ".end annotation" l rest := by
  constructor
  · intro h
    -- Behind a whole annotation there are fewer lines, and reading them splits as before.
    induction hn : ls.length using Nat.strongRecOn generalizing ls with
    | ind n ih =>
      obtain ⟨l, rest, hnext, ha⟩ : ∃ l rest, next? ls = some (l, rest) ∧
          startsWith ".annotation" l.trimmed = true := by
        by_contra hnone
        refine hother (fun l rest hnext => Bool.eq_false_iff.2 fun ha => hnone ⟨l, rest, hnext, ha⟩) h
      rcases (hopen hnext ha).1 h with hblock | ⟨⟨d, more⟩, hd, hmore⟩
      · exact ⟨l, rest, ⟨[], ls, .here ls, hnext, ha⟩, splits_readBlock.1 hblock⟩
      · have hlt : more.length < n :=
          hn ▸ Nat.lt_trans (length_lt_of_readBlock hd) (length_lt_of_next? hnext)
        obtain ⟨inner, last, rfl, hinner, hlast⟩ := exists_lines_of_readBlock hd
        obtain ⟨l', rest', ⟨bs, stop, hbs, hstop, ha'⟩, hsplits⟩ := ih more.length hlt more hmore rfl
        exact ⟨l', rest', ⟨_, stop, .past hnext ha hinner hlast hbs, hstop, ha'⟩, hsplits⟩
  · rintro ⟨l, rest, ⟨bs, stop, hbs, hstop, ha⟩, hsplits⟩
    induction hbs with
    | here ls => exact (hopen hstop ha).2 (.inl (splits_readBlock.2 hsplits))
    | @past ls inner more stop first last bs hnext hfirst hinner hlast _ ih =>
      rw [hopen hnext hfirst, readBlock_closed hinner hlast, splits_map]
      refine (splits_or_ofLines first (inner ++ [last])).imp_right ?_
      rintro ⟨d, hd⟩
      exact ⟨(d, more), by rw [hd]; rfl, ih hstop⟩

theorem splits_isClosed (ls : List Line) : (isClosed ls).Splits ↔
    ∃ l rest, ReachesAnnotation ls l rest ∧ SplitsIn ".end annotation" l rest := by
  refine splits_annotations (fun {ls rest l} hnext ha => ?_) (fun {ls} hnone => ?_) ls
  · rw [isClosed_of_annotated hnext ha, splits_bind]
  · cases hnext : next? ls with
    | none =>
      rw [isClosed.eq_def, hnext]
      exact not_splits_ok _
    | some p =>
      rw [isClosed_of_other hnext (hnone _ _ hnext)]
      exact not_splits_ok _

end Directive

/-! ### Fields -/

namespace Field

theorem splits_readAnnotations (ls : List Line) : (readAnnotations ls).Splits ↔
    ∃ l rest, Directive.ReachesAnnotation ls l rest ∧ Directive.SplitsIn ".end annotation" l rest := by
  refine Directive.splits_annotations (fun {ls rest l} hnext ha => ?_) (fun {ls} hnone => ?_) ls
  · rw [readAnnotations_of_next? hnext ha, splits_bind]
    simp only [splits_map]
  · rw [readAnnotations.eq_def]
    split
    · exact not_splits_ok _
    · next l rest hnext =>
      split
      · exact not_splits_ok _
      · rw [if_neg (Bool.eq_false_iff.1 (hnone l rest hnext))]
        exact not_splits_mistake _ _

theorem splits_read {l : Line} {ls : List Line} : (read l ls).Splits ↔
    ∃ f k ks, readLine l.number l.trimmed = .ok f ∧ Directive.ReachesAnnotation ls k ks ∧
      Directive.SplitsIn ".end annotation" k ks := by
  have hline : ¬ (readLine l.number l.trimmed).Splits := (blames_readLine ..).not_splits
  by_cases ha : isAnnotated ls = true
  · rw [read_of_isAnnotated ha, splits_bind]
    simp only [hline, false_or, splits_map, splits_readAnnotations]
    exact ⟨fun ⟨f, hf, k, ks, hk⟩ => ⟨f, k, ks, hf, hk⟩, fun ⟨f, k, ks, hf, hk⟩ => ⟨f, hf, k, ks, hk⟩⟩
  · rw [read_of_not_isAnnotated (Bool.eq_false_iff.2 ha), splits_map]
    refine ⟨fun h => absurd h hline, ?_⟩
    rintro ⟨f, k, ks, -, ⟨bs, stop, hbs, hstop, hk⟩, -⟩
    exact absurd (isAnnotated_of_annotations hbs fun _ => (isAnnotated_of_next? hstop).trans hk) ha

end Field

/-! ### Bodies -/

namespace BodyEntry

/-- Reading an entry on the line `l`, with the lines `ls` behind it, comes to a block. It starts with a line
that has some lines behind it, and a line that starts with a given word ends it. -/
inductive TriesBlock (l : Line) (ls : List Line) : Line → Text → List Line → Prop
  | block {b : Text × Text} : b ∈ blocks → startsWith b.1 l.trimmed = true → TriesBlock l ls l b.2 ls
  | ahead {k : Line} {ks : List Line} : startsWith ".param" l.trimmed = true →
      Directive.ReachesAnnotation ls k ks → TriesBlock l ls k ".end annotation" ks
  | owner : startsWith ".param" l.trimmed = true → Directive.isClosed ls = .ok true →
      TriesBlock l ls l ".end param" ls

variable {l : Line} {ls : List Line}

theorem TriesBlock.suffix {first : Line} {closing : Text} {rest : List Line}
    (h : TriesBlock l ls first closing rest) : first :: rest <:+ l :: ls := by
  cases h with
  | block | owner => exact List.suffix_rfl
  | ahead _ hk => exact hk.suffix.trans (List.suffix_cons l ls)

/-- An entry that is neither a parameter nor a block reads no line but its own. -/
theorem not_splits_read (hparam : startsWith ".param" l.trimmed = false)
    (hblock : ∀ b ∈ blocks, startsWith b.1 l.trimmed = false) : ¬ (read l ls).Splits := by
  have hfind : blocks.find? (fun b => startsWith b.1 l.trimmed) = none :=
    List.find?_eq_none.2 fun b hb => Bool.eq_false_iff.1 (hblock b hb)
  rw [read, if_neg (Bool.eq_false_iff.1 hparam), hfind]
  repeat' split
  all_goals first | exact not_splits_ok _ | exact not_splits_mistake _ _ | contradiction

theorem splits_read : (read l ls).Splits ↔
    ∃ first closing rest, TriesBlock l ls first closing rest ∧ Directive.SplitsIn closing first rest := by
  constructor
  · intro h
    by_cases hparam : startsWith ".param" l.trimmed = true
    · rw [read_parameter hparam] at h
      split at h
      · next e hclosed =>
        have hlook : (Directive.isClosed ls).Splits := by
          rw [hclosed]
          exact splits_error.1 h
        obtain ⟨k, ks, hk, hsplits⟩ := (Directive.splits_isClosed ls).1 hlook
        exact ⟨k, _, ks, .ahead hparam hk, hsplits⟩
      · next hclosed =>
        exact ⟨l, _, ls, .owner hparam hclosed, Directive.splits_readBlock.1 (splits_map.1 h)⟩
      · exact absurd h (not_splits_ok _)
    by_cases hblock : ∃ b ∈ blocks, startsWith b.1 l.trimmed = true
    · obtain ⟨b, hb, hstart⟩ := hblock
      rw [read_block hb hstart, splits_map, Directive.splits_readBlock] at h
      exact ⟨l, b.2, ls, .block hb hstart, h⟩
    · refine absurd h (not_splits_read (Bool.eq_false_iff.2 hparam) fun b hb => ?_)
      exact Bool.eq_false_iff.2 fun hstart => hblock ⟨b, hb, hstart⟩
  · rintro ⟨first, closing, rest, htries, hsplits⟩
    cases htries with
    | block hb hstart =>
      rw [read_block hb hstart, splits_map, Directive.splits_readBlock]
      exact hsplits
    | ahead hparam hk =>
      have hlook : Directive.isClosed ls = .abort .splitCharacter :=
        (Directive.splits_isClosed ls).2 ⟨first, rest, hk, hsplits⟩
      rw [read_parameter hparam, hlook]
      rfl
    | owner hparam hclosed =>
      rw [read_parameter hparam, hclosed]
      exact splits_map.2 (Directive.splits_readBlock.2 hsplits)

/-- An entry in which a character would be split is no end of its method. -/
theorem not_end_of_splits (h : (read l ls).Splits) : startsWith ".end method" l.trimmed = false := by
  obtain ⟨first, closing, rest, htries, -⟩ := splits_read.1 h
  cases htries with
  | @block b hb hstart =>
    obtain ⟨hk, -, hne⟩ := mem_keywords_of_mem_blocks b hb
    exact startsWith_other hk hstart (by decide) (by simp_all)
  | ahead hparam | owner hparam => exact startsWith_other (by decide) hparam (by decide) (by decide)

end BodyEntry

namespace Method

theorem splits_readBody {n : Nat} {name : Text} {ls : List Line} : (readBody n name ls).Splits ↔
    Meets BodyEntry.read (fun l rest => (BodyEntry.read l rest).Splits) ls := by
  constructor
  · intro h
    fun_induction readBody n name ls with
    | case1 => exact absurd h (not_splits_mistake _ _)
    | case2 => exact absurd h (not_splits_ok _)
    | case3 ls l rest hnext _ e he =>
      refine .here hnext ?_
      rw [he]
      exact splits_error.1 h
    | case4 ls l rest hnext _ e more he ih => exact .past hnext he (ih (splits_map.1 h))
  · rintro ⟨es, stop, l, rest, hcomes, hstop, hl⟩
    rw [readBody_of_comes hcomes, splits_map, readBody_of_error hstop (BodyEntry.not_end_of_splits hl) hl]
    rfl

theorem splits_read {l : Line} {ls : List Line} : (read l ls).Splits ↔
    ∃ p, readLine l.number l.trimmed = .ok p ∧
      Meets BodyEntry.read (fun l rest => (BodyEntry.read l rest).Splits) ls := by
  rw [read]
  cases hline : readLine l.number l.trimmed with
  | error e =>
    have hnot := (blames_readLine (q := False) l.number l.trimmed).not_splits
    rw [hline] at hnot
    refine ⟨fun h => absurd (splits_error.1 h) hnot, ?_⟩
    rintro ⟨p, hp, -⟩
    cases hp
  | ok p =>
    refine splits_map.trans (splits_readBody.trans ⟨fun h => ⟨p, rfl, h⟩, ?_⟩)
    rintro ⟨-, -, h⟩
    exact h

end Method

/-! ### Members -/

namespace Member

/-- Reading a member on the line `l`, with the lines `ls` behind it, comes to a block. -/
inductive TriesBlock (l : Line) (ls : List Line) : Line → Text → List Line → Prop
  | annotated : startsWith ".annotation" l.trimmed = true → TriesBlock l ls l ".end annotation" ls
  | onField {f : Field} {k : Line} {ks : List Line} : startsWith ".field" l.trimmed = true →
      Field.readLine l.number l.trimmed = .ok f → Directive.ReachesAnnotation ls k ks →
      TriesBlock l ls k ".end annotation" ks
  | inMethod {p : AccessFlags × Text × Prototype} {first : Line} {closing : Text} {rest : List Line} :
      startsWith ".method" l.trimmed = true → Method.readLine l.number l.trimmed = .ok p →
      Meets BodyEntry.read (fun k ks => BodyEntry.TriesBlock k ks first closing rest) ls →
      TriesBlock l ls first closing rest

variable {l : Line} {ls : List Line}

theorem TriesBlock.suffix {first : Line} {closing : Text} {rest : List Line}
    (h : TriesBlock l ls first closing rest) : first :: rest <:+ l :: ls := by
  cases h with
  | annotated => exact List.suffix_rfl
  | onField _ _ hk => exact hk.suffix.trans (List.suffix_cons l ls)
  | inMethod _ _ hmeets =>
    obtain ⟨k, ks, htries, hsuffix⟩ := hmeets.exists_suffix BodyEntry.leaves_read
    exact (htries.suffix.trans hsuffix).trans (List.suffix_cons l ls)

theorem not_splits_readSource (n : Nat) (line : Text) : ¬ (readSource n line).Splits := by
  rcases readSource_cases n line with ⟨body, inner, hline, hbody⟩ | hnone
  · rw [readSource_quoted hline hbody, ofEscaped]
    intro h
    cases hread : unescape inner with
    | ok t =>
      rw [hread] at h
      cases h
    | error f =>
      rw [hread] at h
      cases h
  · rw [hnone]
    exact not_splits_mistake _ _

/-- A member that is neither an annotation nor a field nor a method reads no line but its own. -/
theorem not_splits_read (hannotated : startsWith ".annotation" l.trimmed = false)
    (hfield : startsWith ".field" l.trimmed = false) (hmethod : startsWith ".method" l.trimmed = false) :
    ¬ (read l ls).Splits := by
  rw [read, if_neg (Bool.eq_false_iff.1 hannotated), if_neg (Bool.eq_false_iff.1 hfield),
    if_neg (Bool.eq_false_iff.1 hmethod)]
  split
  · exact fun h => (ClassName.blames_readAt ..).not_splits (splits_map.1 h)
  split
  · exact fun h => (ClassName.blames_readAt ..).not_splits (splits_map.1 h)
  split
  · exact fun h => not_splits_readSource _ _ (splits_map.1 h)
  · exact not_splits_mistake _ _

theorem splits_read : (read l ls).Splits ↔
    ∃ first closing rest, TriesBlock l ls first closing rest ∧ Directive.SplitsIn closing first rest := by
  constructor
  · intro h
    by_cases hannotated : startsWith ".annotation" l.trimmed = true
    · rw [read_annotated hannotated, splits_map, Directive.splits_readBlock] at h
      exact ⟨l, _, ls, .annotated hannotated, h⟩
    by_cases hfield : startsWith ".field" l.trimmed = true
    · rw [read_field hfield, splits_map, Field.splits_read] at h
      obtain ⟨f, k, ks, hf, hk, hsplits⟩ := h
      exact ⟨k, _, ks, .onField hfield hf hk, hsplits⟩
    by_cases hmethod : startsWith ".method" l.trimmed = true
    · rw [read_method hmethod, splits_map, Method.splits_read] at h
      obtain ⟨p, hp, es, stop, k, ks, hcomes, hstop, hk⟩ := h
      obtain ⟨first, closing, rest, htries, hsplits⟩ := BodyEntry.splits_read.1 hk
      exact ⟨first, closing, rest, .inMethod hmethod hp ⟨es, stop, k, ks, hcomes, hstop, htries⟩, hsplits⟩
    · exact absurd h (not_splits_read (Bool.eq_false_iff.2 hannotated) (Bool.eq_false_iff.2 hfield)
        (Bool.eq_false_iff.2 hmethod))
  · rintro ⟨first, closing, rest, htries, hsplits⟩
    cases htries with
    | annotated hannotated =>
      rw [read_annotated hannotated, splits_map, Directive.splits_readBlock]
      exact hsplits
    | onField hfield hf hk =>
      rw [read_field hfield, splits_map, Field.splits_read]
      exact ⟨_, first, rest, hf, hk, hsplits⟩
    | inMethod hmethod hp hmeets =>
      obtain ⟨es, stop, k, ks, hcomes, hstop, htries⟩ := hmeets
      rw [read_method hmethod, splits_map, Method.splits_read]
      exact ⟨_, hp, es, stop, k, ks, hcomes, hstop,
        BodyEntry.splits_read.2 ⟨first, closing, rest, htries, hsplits⟩⟩

theorem splits_readAll : (readAll ls).Splits ↔ Meets read (fun l rest => (read l rest).Splits) ls := by
  constructor
  · intro h
    fun_induction readAll ls with
    | case1 => exact absurd h (not_splits_ok _)
    | case2 ls l rest hnext e he =>
      refine .here hnext ?_
      rw [he]
      exact splits_error.1 h
    | case3 ls l rest hnext m more hm ih => exact .past hnext hm (ih (splits_map.1 h))
  · rintro ⟨ms, stop, l, rest, hcomes, hstop, hl⟩
    rw [readAll_of_comes hcomes, splits_map, readAll_of_error hstop hl]
    rfl

end Member

/-! ### Documents -/

namespace Class

/-- Reading a document comes to a block. It starts with a line that has some lines behind it, and a line that
starts with a given word ends it. -/
inductive TriesBlock (s : Text) : Line → Text → List Line → Prop
  | member {head first : Line} {ls rest : List Line} {header : AccessFlags × ClassName} {closing : Text} :
      next? (ofText s) = some (head, ls) → readHeader head = .ok header →
      Meets Member.read (fun l ks => Member.TriesBlock l ks first closing rest) ls →
      TriesBlock s first closing rest

variable {s : Text}

theorem TriesBlock.mem_lines {first : Line} {closing : Text} {rest : List Line}
    (h : TriesBlock s first closing rest) {k : Line} (hk : k ∈ first :: rest) : k.text ∈ lines s := by
  obtain ⟨hhead, -, hmeets⟩ := h
  obtain ⟨l, ks, htries, hsuffix⟩ := hmeets.exists_suffix Member.leaves_read
  have hall := (htries.suffix.trans hsuffix).trans (suffix_of_next? hhead)
  rw [← map_text_ofText]
  exact List.mem_map_of_mem (hall.subset hk)

theorem not_splits_readHeader (l : Line) : ¬ (readHeader l).Splits := by
  refine Blames.not_splits (p := (· = l.number)) ?_
  refine (blames_readHeader ..).bind fun header => ?_
  exact (ClassName.blames_readAt ..).bind fun name => blames_ok _

theorem splits_read : (read s).Splits ↔
    ∃ first closing rest, TriesBlock s first closing rest ∧ Directive.SplitsIn closing first rest := by
  constructor
  · intro h
    rw [read] at h
    split at h
    · exact absurd h (not_splits_mistake _ _)
    · next head ls hhead =>
      rcases splits_bind.1 h with hheader | ⟨header, hheader, h⟩
      · exact absurd hheader (not_splits_readHeader head)
      rcases splits_bind.1 h with hall | ⟨ms, -, h⟩
      · obtain ⟨ms, stop, l, ks, hcomes, hstop, hl⟩ := Member.splits_readAll.1 hall
        obtain ⟨first, closing, rest, htries, hsplits⟩ := Member.splits_read.1 hl
        exact ⟨first, closing, rest, .member hhead hheader ⟨ms, stop, l, ks, hcomes, hstop, htries⟩, hsplits⟩
      · exact absurd h (not_splits_ok _)
  · rintro ⟨first, closing, rest, ⟨hhead, hheader, hmeets⟩, hsplits⟩
    obtain ⟨ms, stop, l, ks, hcomes, hstop, htries⟩ := hmeets
    have hl := Member.splits_read.2 ⟨first, closing, rest, htries, hsplits⟩
    have hall := Member.splits_readAll.2 ⟨ms, stop, l, ks, hcomes, hstop, hl⟩
    rw [read, hhead]
    exact splits_bind.2 (.inr ⟨_, hheader, splits_bind.2 (.inl hall)⟩)

theorem answers_of_not_splits (h : ¬ (read s).Splits) : (read s).Answers := by
  cases hread : read s with
  | ok c => exact .inl ⟨c, rfl⟩
  | error e =>
    by_cases hsource : ∃ inner f, StopsAtSource s inner f
    · obtain ⟨inner, f, hstops⟩ := hsource
      exact .inr ⟨_, _, by rw [← hread, hstops.read_eq]⟩
    · have hblames := blames_read fun inner f hstops => hsource ⟨inner, f, hstops⟩
      rcases hblames.of_error e hread with ⟨-, rfl⟩ | ⟨n, m, -, rfl⟩
      · exact absurd hread h
      · exact .inr ⟨_, _, rfl⟩

/-- Every text is answered with a class or a mistake, unless reading it comes to a block with a line in whose
blanks the indentation of the first line, counted in bytes, ends inside of one. Then there is no answer.
Where all blanks in front of lines have the same number of bytes there always is one. -/
theorem answers_iff_not_splits (s : Text) :
    (read s = .abort .splitCharacter ↔
      ∃ first closing rest, TriesBlock s first closing rest ∧ Directive.SplitsIn closing first rest) ∧
    ((read s).Answers ↔
      ¬ ∃ first closing rest, TriesBlock s first closing rest ∧ Directive.SplitsIn closing first rest) ∧
    ∀ w, (∀ t ∈ lines s, HasBlanksOf w t) → (read s).Answers := by
  have hanswers : (read s).Answers ↔
      ¬ ∃ first closing rest, TriesBlock s first closing rest ∧ Directive.SplitsIn closing first rest := by
    rw [← splits_read]
    refine ⟨?_, answers_of_not_splits⟩
    rintro (⟨c, hc⟩ | ⟨place, m, hm⟩) hsplits
    · rw [hc] at hsplits
      cases hsplits
    · rw [hm] at hsplits
      cases hsplits
  refine ⟨splits_read, hanswers, fun w hw => hanswers.2 ?_⟩
  rintro ⟨first, closing, rest, htries, inner, k, after, rfl, -, hk⟩
  have hfirst := hw first.text (htries.mem_lines (List.mem_cons_self ..))
  have hline := hw k.text (htries.mem_lines (by simp))
  exact hline.not_splitsBlank hfirst.dvd_indentation hk

/-- An annotation that is indented with ideographic spaces only. -/
def wideDocument : Text := ".class La;\n\u3000.annotation X\n\u3000\u3000b = c\n\u3000.end annotation\n"

theorem answers_iff_not_splits_wide : (∀ t ∈ lines wideDocument, HasBlanksOf 3 t) ∧
    (read wideDocument).Answers ∧
    ¬ ∃ first closing rest, TriesBlock wideDocument first closing rest ∧
      Directive.SplitsIn closing first rest := by
  have hblanks : ∀ t ∈ lines wideDocument, HasBlanksOf 3 t := by decide +kernel
  obtain ⟨-, hanswers, hequal⟩ := answers_iff_not_splits wideDocument
  exact ⟨hblanks, hequal 3 hblanks, hanswers.1 (hequal 3 hblanks)⟩

/-- An annotation that starts behind a space and ends behind an ideographic space. -/
def mixedDocument : Text := ".class La;\n .annotation X\n\u3000.end annotation\n"

theorem mixed_blanks_split : read mixedDocument = .abort .splitCharacter ∧ ¬ (read mixedDocument).Answers ∧
    TriesBlock mixedDocument ⟨2, " .annotation X"⟩ ".end annotation" [⟨3, "\u3000.end annotation"⟩] ∧
    Directive.SplitsIn ".end annotation" ⟨2, " .annotation X"⟩ [⟨3, "\u3000.end annotation"⟩] := by
  have hread : read mixedDocument = .abort .splitCharacter := by decide +kernel
  have hhead : next? (ofText mixedDocument) = some (⟨1, ".class La;"⟩,
      [⟨2, " .annotation X"⟩, ⟨3, "\u3000.end annotation"⟩]) := by decide +kernel
  have hheader : readHeader ⟨1, ".class La;"⟩ = .ok (.empty, ⟨"a"⟩) := by decide +kernel
  refine ⟨hread, ?_, .member hhead hheader (.here rfl (.annotated (by decide))), ?_⟩
  · rw [hread]
    rintro (⟨c, hc⟩ | ⟨place, m, hm⟩)
    · cases hc
    · cases hm
  · refine ⟨[], ⟨3, "\u3000.end annotation"⟩, [], rfl, by simp, [], '\u3000', ".end annotation", rfl,
      blanks_nil, by decide, by decide, by decide⟩

end Class

end DalvikPatch
