import DalvikPatch.Proofs.Visits

/-! What a parameter owns. The annotations behind a parameter belong to it if they run into its end, and to
the method if they do not. The look-ahead that decides so goes past whole annotations, but the block that is
read then ends at the first line that looks like its end, be it inside of an annotation. -/

namespace DalvikPatch

open Text Line

/-! ### Blocks by their lines -/

namespace Directive

/-- A line of a block without the indentation of its first line. -/
def keep (base : Nat) (l : Line) : Outcome Text :=
  match dropBytes? (min (indentation l.text) base) l.text with
  | none => .abort .splitCharacter
  | some t => .ok (trimRight t)

/-- The directive of a first line and the lines after it; none if a character would be split. -/
def ofLines (first : Line) (ls : List Line) : Outcome Directive :=
  (ls.mapM (keep (indentation first.text))).map fun ts => ⟨first.trimmed :: ts⟩

theorem mapM_keep_cons (base : Nat) (l : Line) (ls : List Line) : (l :: ls).mapM (keep base) =
    (keep base l).bind fun t => (ls.mapM (keep base)).map (t :: ·) := by
  rw [List.mapM_cons]
  rfl

theorem readLines_cons (n base : Nat) (closing : Text) (l : Line) (ls : List Line) :
    readLines n base closing (l :: ls) = (keep base l).bind fun t =>
      if startsWith closing l.trimmed then .ok ([t], ls)
      else (readLines n base closing ls).map fun p => (t :: p.1, p.2) := by
  rw [readLines, keep]
  cases dropBytes? (min (indentation l.text) base) l.text <;> rfl

variable {closing : Text} {inner : List Line} {last : Line}

/-- A block has the lines up to the first one that closes it. -/
theorem readLines_closed (hinner : ∀ k ∈ inner, startsWith closing k.trimmed = false)
    (hlast : startsWith closing last.trimmed = true) (n base : Nat) (rest : List Line) :
    readLines n base closing (inner ++ last :: rest) =
      ((inner ++ [last]).mapM (keep base)).map fun ts => (ts, rest) := by
  induction inner with
  | nil =>
    rw [List.nil_append, List.nil_append, readLines_cons, mapM_keep_cons]
    simp only [hlast, if_true]
    cases keep base last <;> rfl
  | cons k inner ih =>
    rw [List.cons_append, List.cons_append, readLines_cons, mapM_keep_cons,
      hinner k (List.mem_cons_self ..), ih fun k' hk' => hinner k' (List.mem_cons_of_mem _ hk')]
    cases keep base k with
    | error e => rfl
    | ok t => cases (inner ++ [last]).mapM (keep base) <;> rfl

theorem readBlock_closed (hinner : ∀ k ∈ inner, startsWith closing k.trimmed = false)
    (hlast : startsWith closing last.trimmed = true) (first : Line) (rest : List Line) :
    readBlock closing first (inner ++ last :: rest) =
      (ofLines first (inner ++ [last])).map fun d => (d, rest) := by
  rw [readBlock, readLines_closed hinner hlast, ofLines]
  cases (inner ++ [last]).mapM (keep (indentation first.text)) <;> rfl

/-- A block that nothing closes is refused at its first line. -/
theorem readLines_open {ls : List Line} (h : ∀ k ∈ ls, startsWith closing k.trimmed = false) (n base : Nat) :
    readLines n base closing ls =
      (ls.mapM (keep base)).bind fun _ => Outcome.mistake n (.unterminatedBlock closing) := by
  induction ls with
  | nil => rfl
  | cons k ls ih =>
    rw [readLines_cons, mapM_keep_cons, h k (List.mem_cons_self ..),
      ih fun k' hk' => h k' (List.mem_cons_of_mem _ hk')]
    cases keep base k with
    | error e => rfl
    | ok t => cases ls.mapM (keep base) <;> rfl

theorem readBlock_open {ls : List Line} (h : ∀ k ∈ ls, startsWith closing k.trimmed = false)
    (first : Line) : readBlock closing first ls =
      (ofLines first ls).bind fun _ => Outcome.mistake first.number (.unterminatedBlock closing) := by
  rw [readBlock, readLines_open h, ofLines]
  cases ls.mapM (keep (indentation first.text)) <;> rfl

/-- What a block that is read consists of. -/
theorem exists_lines_of_readBlock {first : Line} {ls rest : List Line} {d : Directive}
    (h : readBlock closing first ls = .ok (d, rest)) :
    ∃ inner last, ls = inner ++ last :: rest ∧ (∀ k ∈ inner, startsWith closing k.trimmed = false) ∧
      startsWith closing last.trimmed = true := by
  cases hfind : ls.find? fun k => startsWith closing k.trimmed with
  | none =>
    rw [readBlock_open (by simpa using hfind)] at h
    obtain ⟨-, -, h⟩ := exists_of_bind h
    cases h
  | some last =>
    obtain ⟨hlast, inner, rest, rfl, hopen⟩ := List.find?_eq_some_iff_append.1 hfind
    have hinner : ∀ k ∈ inner, startsWith closing k.trimmed = false := by simpa using hopen
    rw [readBlock_closed hinner hlast] at h
    obtain ⟨d', -, heq⟩ := exists_of_map h
    cases heq
    exact ⟨inner, last, rfl, hinner, hlast⟩

/-! ### Annotations one after the other -/

/-- Whole annotations, each with its first line and the others, and lines that say nothing before each. -/
inductive Annotations : List Line → List (Line × List Line) → List Line → Prop
  | here (ls : List Line) : Annotations ls [] ls
  | past {ls inner more stop : List Line} {first last : Line} {bs : List (Line × List Line)} :
      next? ls = some (first, inner ++ last :: more) → startsWith ".annotation" first.trimmed = true →
      (∀ k ∈ inner, startsWith ".end annotation" k.trimmed = false) →
      startsWith ".end annotation" last.trimmed = true → Annotations more bs stop →
      Annotations ls ((first, inner ++ [last]) :: bs) stop

/-- The directives of some blocks. -/
def ofBlocks (bs : List (Line × List Line)) : Outcome (List Directive) := bs.mapM fun b => ofLines b.1 b.2

theorem ofBlocks_cons (b : Line × List Line) (bs : List (Line × List Line)) :
    ofBlocks (b :: bs) = (ofLines b.1 b.2).bind fun d => (ofBlocks bs).map (d :: ·) := by
  rw [ofBlocks, List.mapM_cons]
  rfl

theorem isClosed_of_annotated {ls rest : List Line} {l : Line} (hl : next? ls = some (l, rest))
    (h : startsWith ".annotation" l.trimmed = true) :
    isClosed ls = (readBlock ".end annotation" l rest).bind fun p => isClosed p.2 := by
  rw [isClosed.eq_def, hl]
  simp only [h, if_true]
  cases readBlock ".end annotation" l rest <;> rfl

/-- The look-ahead goes past whole annotations. -/
theorem isClosed_annotations {ls stop : List Line} {bs : List (Line × List Line)}
    (h : Annotations ls bs stop) : isClosed ls = (ofBlocks bs).bind fun _ => isClosed stop := by
  induction h with
  | here ls => rfl
  | @past ls inner more stop first last bs hnext hfirst hinner hlast _ ih =>
    rw [isClosed_of_annotated hnext hfirst, ofBlocks_cons, readBlock_closed hinner hlast]
    cases ofLines first (inner ++ [last]) with
    | error e => rfl
    | ok d =>
      simp only [Except.map, ih, Except.bind]
      cases ofBlocks bs <;> rfl

theorem isClosed_of_other {ls rest : List Line} {l : Line} (hl : next? ls = some (l, rest))
    (h : startsWith ".annotation" l.trimmed = false) :
    isClosed ls = .ok (startsWith ".end param" l.trimmed) := by
  rw [isClosed.eq_def, hl]
  simp only [h]
  rw [if_neg Bool.false_ne_true]

/-- The lines of whole annotations; of these only lines of the annotations can look like the end of a
parameter. -/
theorem Annotations.exists_taken {ls stop : List Line} {bs : List (Line × List Line)}
    (h : Annotations ls bs stop) : ∃ taken, ls = taken ++ stop ∧ (∀ b ∈ bs, ∀ k ∈ b.2, k ∈ taken) ∧
      ∀ k ∈ taken, startsWith ".end param" k.trimmed = true → ∃ b ∈ bs, k ∈ b.2 := by
  induction h with
  | here ls => exact ⟨[], rfl, by simp, by simp⟩
  | @past ls inner more stop first last bs hnext hfirst _ _ _ ih =>
    obtain ⟨taken, rfl, hblocks, hends⟩ := ih
    obtain ⟨-, skipped, rfl, hskipped⟩ := exists_of_next? hnext
    refine ⟨skipped ++ first :: (inner ++ last :: taken), by simp, ?_, ?_⟩
    · intro b hb k hk
      rcases List.mem_cons.1 hb with rfl | hb
      · have : k ∈ inner ∨ k = last := by simpa using hk
        rcases this with hk | rfl <;> simp [*]
      · have := hblocks b hb k hk
        simp [this]
    · intro k hk hend
      simp only [List.mem_append, List.mem_cons] at hk
      rcases hk with hk | rfl | hk | rfl | hk
      · have hkeyword : IsKeyword ".end param" := by decide
        exact absurd (hkeyword.isSignificant hend) (hskipped k hk)
      · rw [BodyEntry.startsWith_other (w := ".end param") (by decide) hfirst (by decide) (by decide)] at hend
        cases hend
      · exact ⟨_, List.mem_cons_self .., List.mem_append_left _ hk⟩
      · exact ⟨_, List.mem_cons_self .., List.mem_append_right _ (List.mem_singleton_self _)⟩
      · obtain ⟨b, hb, hk⟩ := hends k hk hend
        exact ⟨b, List.mem_cons_of_mem _ hb, hk⟩

/-- The first line behind a parameter that looks like its end is the one behind the annotations, exactly if
none of them has such a line. -/
theorem Annotations.exists_first_end {ls stop rest : List Line} {bs : List (Line × List Line)} {next : Line}
    (h : Annotations ls bs stop) (hnext : next? stop = some (next, rest))
    (hend : startsWith ".end param" next.trimmed = true) :
    ∃ inner last after, ls = inner ++ last :: after ∧
      (∀ k ∈ inner, startsWith ".end param" k.trimmed = false) ∧
      startsWith ".end param" last.trimmed = true ∧
      (last :: after = next :: rest ↔ ∀ b ∈ bs, ∀ k ∈ b.2, startsWith ".end param" k.trimmed = false) := by
  obtain ⟨taken, rfl, hblocks, hends⟩ := h.exists_taken
  obtain ⟨-, skipped, rfl, hskipped⟩ := exists_of_next? hnext
  cases hfind : taken.find? fun k => startsWith ".end param" k.trimmed with
  | none =>
    have hnone : ∀ k ∈ taken, startsWith ".end param" k.trimmed = false := fun k hk =>
      Bool.eq_false_iff.2 (List.find?_eq_none.1 hfind k hk)
    refine ⟨taken ++ skipped, next, rest, (List.append_assoc ..).symm, fun k hk => ?_, hend,
      fun _ b hb k hk => hnone k (hblocks b hb k hk), fun _ => rfl⟩
    rcases List.mem_append.1 hk with hk | hk
    · exact hnone k hk
    · have hkeyword : IsKeyword ".end param" := by decide
      exact Bool.eq_false_iff.2 fun hk' => hskipped k hk (hkeyword.isSignificant hk')
  | some last =>
    obtain ⟨hlast, inner, after, rfl, hinner⟩ := List.find?_eq_some_iff_append.1 hfind
    refine ⟨inner, last, after ++ (skipped ++ next :: rest), by simp,
      fun k hk => Bool.not_eq_true' _ ▸ hinner k hk, hlast,
      fun heq => ?_, fun hall => ?_⟩
    · have hlength := congrArg List.length heq
      simp at hlength
      omega
    · obtain ⟨b, hb, hk⟩ := hends last (by simp) hlast
      rw [hall b hb last hk] at hlast
      cases hlast

end Directive

/-! ### Bodies -/

namespace Method

/-- Puts directives in front of what a body says. -/
def Body.put (ds : List Directive) (b : Body) : Body := { b with items := ds.map .directive ++ b.items }

/-- Whole annotations in a body are its directives. -/
theorem readBody_annotations {ls stop : List Line} {bs : List (Line × List Line)}
    (h : Directive.Annotations ls bs stop) (n : Nat) (name : Text) :
    readBody n name ls =
      (Directive.ofBlocks bs).bind fun ds => (readBody n name stop).map fun p => (p.1.put ds, p.2) := by
  induction h with
  | here ls => cases readBody n name ls <;> rfl
  | @past ls inner more stop first last bs hnext hfirst hinner hlast _ ih =>
    have hread := @BodyEntry.read_block first (inner ++ last :: more) (".annotation", ".end annotation")
      (by decide) hfirst
    have hend := BodyEntry.startsWith_other (w := ".end method") (by decide) hfirst (by decide) (by decide)
    rw [Directive.readBlock_closed hinner hlast] at hread
    rw [readBody.eq_def, hnext, Directive.ofBlocks_cons]
    simp only [hend]
    rw [if_neg Bool.false_ne_true, hread]
    cases Directive.ofLines first (inner ++ [last]) with
    | error e => rfl
    | ok d =>
      simp only [Except.map, ih, Except.bind]
      cases Directive.ofBlocks bs with
      | error e => rfl
      | ok ds => cases readBody n name stop <;> rfl

section

variable {n : Nat} {name : Text} {l next : Line} {ls stop rest : List Line} {bs : List (Line × List Line)}

/-- Where the look-ahead of a parameter gives up, so does the reader. -/
theorem readBody_parameter_error (hl : startsWith ".param" l.trimmed = true) {e : Stop}
    (he : Directive.isClosed ls = .error e) : readBody n name (l :: ls) = .error e := by
  have hread : BodyEntry.read l ls = (.error e : Outcome BodyEntry).map fun e => (e, ls) := by
    rw [BodyEntry.read_parameter hl, he]
    rfl
  exact readBody_entry (BodyEntry.isSignificant_of_keyword (k := ".param") (by decide) hl)
    (BodyEntry.startsWith_other (w := ".end method") (by decide) hl (by decide) (by decide)) hread

/-- A parameter that does not own what follows it is a line. -/
theorem readBody_opened (hl : startsWith ".param" l.trimmed = true)
    (hclosed : Directive.isClosed ls = .ok false) :
    readBody n name (l :: ls) = (readBody n name ls).map fun p => (p.1.put [⟨[l.trimmed]⟩], p.2) := by
  have hread : BodyEntry.read l ls =
      (.ok (.directive ⟨[l.trimmed]⟩) : Outcome BodyEntry).map fun e => (e, ls) := by
    rw [BodyEntry.read_parameter hl, hclosed]
    rfl
  exact readBody_entry (BodyEntry.isSignificant_of_keyword (k := ".param") (by decide) hl)
    (BodyEntry.startsWith_other (w := ".end method") (by decide) hl (by decide) (by decide)) hread

/-- A parameter that owns what follows it is a block, up to the first line that looks like its end. -/
theorem readBody_owner {last : Line} {inner after : List Line} (hl : startsWith ".param" l.trimmed = true)
    (hclosed : Directive.isClosed (inner ++ last :: after) = .ok true)
    (hinner : ∀ k ∈ inner, startsWith ".end param" k.trimmed = false)
    (hlast : startsWith ".end param" last.trimmed = true) :
    readBody n name (l :: (inner ++ last :: after)) = (Directive.ofLines l (inner ++ [last])).bind fun d =>
      (readBody n name after).map fun p => (p.1.put [d], p.2) := by
  have hread : BodyEntry.read l (inner ++ last :: after) =
      ((Directive.ofLines l (inner ++ [last])).map BodyEntry.directive).map fun e => (e, after) := by
    rw [BodyEntry.read_parameter hl, hclosed]
    simp only [Directive.readBlock_closed hinner hlast]
    cases Directive.ofLines l (inner ++ [last]) <;> rfl
  rw [readBody_entry (BodyEntry.isSignificant_of_keyword (k := ".param") (by decide) hl)
    (BodyEntry.startsWith_other (w := ".end method") (by decide) hl (by decide) (by decide)) hread]
  cases Directive.ofLines l (inner ++ [last]) <;> rfl

/-- The look-ahead and the reader refuse an annotation that nothing closes for the same reason. -/
theorem exists_error_of_open (hnext : next? stop = some (next, rest))
    (ha : startsWith ".annotation" next.trimmed = true)
    (hopen : ∀ k ∈ rest, startsWith ".end annotation" k.trimmed = false) :
    ∃ e, Directive.isClosed stop = .error e ∧ readBody n name stop = .error e := by
  obtain ⟨e, he⟩ : ∃ e, Directive.readBlock ".end annotation" next rest = .error e := by
    rw [Directive.readBlock_open hopen]
    cases Directive.ofLines next rest <;> exact ⟨_, rfl⟩
  have hread : BodyEntry.read next rest = .error e := by
    rw [BodyEntry.read_block (b := (".annotation", ".end annotation")) (by decide) ha, he]
    rfl
  have hlook : Directive.isClosed stop = .error e := by
    rw [Directive.isClosed_of_annotated hnext ha, he]
    rfl
  refine ⟨e, hlook, readBody_of_error hnext ?_ hread⟩
  exact BodyEntry.startsWith_other (w := ".end method") (by decide) ha (by decide) (by decide)

/-- A parameter is followed by whole annotations and then by a line that starts no other one. If that line
ends a parameter, the parameter becomes one directive, with all lines up to the first that looks like its
end: this is the line itself exactly if none of the annotations has such a line. If it does not, the
parameter stands alone and each annotation is a directive of the method. Reading goes on behind. -/
theorem readBody_parameter (hl : startsWith ".param" l.trimmed = true)
    (hbs : Directive.Annotations ls bs stop) (hnext : next? stop = some (next, rest))
    (hopen : startsWith ".annotation" next.trimmed = true →
      ∀ k ∈ rest, startsWith ".end annotation" k.trimmed = false) :
    (startsWith ".end param" next.trimmed = false → readBody n name (l :: ls) =
      (Directive.ofBlocks bs).bind fun ds =>
        (readBody n name stop).map fun p => (p.1.put (⟨[l.trimmed]⟩ :: ds), p.2)) ∧
    (startsWith ".end param" next.trimmed = true → ∃ inner last after, ls = inner ++ last :: after ∧
      (∀ k ∈ inner, startsWith ".end param" k.trimmed = false) ∧
      startsWith ".end param" last.trimmed = true ∧
      (readBody n name (l :: ls) = (Directive.ofBlocks bs).bind fun _ =>
        (Directive.ofLines l (inner ++ [last])).bind fun d =>
          (readBody n name after).map fun p => (p.1.put [d], p.2)) ∧
      (last :: after = next :: rest ↔
        ∀ b ∈ bs, ∀ k ∈ b.2, startsWith ".end param" k.trimmed = false)) := by
  have hlook := Directive.isClosed_annotations hbs
  refine ⟨fun hother => ?_, fun hclosing => ?_⟩
  · have hbody := readBody_annotations hbs n name
    cases hds : Directive.ofBlocks bs with
    | error e =>
      rw [hds] at hlook
      exact readBody_parameter_error hl hlook
    | ok ds =>
      rw [hds] at hlook hbody
      by_cases ha : startsWith ".annotation" next.trimmed = true
      · obtain ⟨e, he, hstop⟩ : ∃ e, Directive.isClosed stop = .error e ∧ readBody n name stop = .error e :=
          exists_error_of_open hnext ha (hopen ha)
        rw [readBody_parameter_error hl (hlook.trans he)]
        simp only [Except.bind, hstop, Except.map]
      · have hclosed := Directive.isClosed_of_other hnext (Bool.eq_false_iff.2 ha)
        rw [hother] at hclosed
        rw [readBody_opened hl (hlook.trans hclosed), hbody]
        simp only [Except.bind]
        cases readBody n name stop <;> rfl
  · have ha := BodyEntry.startsWith_other (w := ".annotation") (by decide) hclosing (by decide) (by decide)
    have hclosed := Directive.isClosed_of_other hnext ha
    rw [hclosing] at hclosed
    obtain ⟨inner, last, after, rfl, hinner, hlast, hiff⟩ := hbs.exists_first_end hnext hclosing
    refine ⟨inner, last, after, rfl, hinner, hlast, ?_, hiff⟩
    cases hds : Directive.ofBlocks bs with
    | error e =>
      rw [hds] at hlook
      exact readBody_parameter_error hl hlook
    | ok ds =>
      rw [hds] at hlook
      exact readBody_owner hl (hlook.trans hclosed) hinner hlast

end

/-- Two annotations with a comment between them, and the end of the parameter. -/
def ownedLines : List Line := [⟨2, " .annotation X"⟩, ⟨3, " .end annotation"⟩, ⟨4, "# c"⟩,
  ⟨5, ".annotation Y"⟩, ⟨6, "  b = c"⟩, ⟨7, ".end annotation"⟩, ⟨8, ".end param"⟩, ⟨9, ".end method"⟩]

def ownedBlocks : List (Line × List Line) := [(⟨2, " .annotation X"⟩, [⟨3, " .end annotation"⟩]),
  (⟨5, ".annotation Y"⟩, [⟨6, "  b = c"⟩, ⟨7, ".end annotation"⟩])]

theorem readBody_parameter_owned :
    startsWith ".param" (⟨1, ".param p0"⟩ : Line).trimmed = true ∧
    Directive.Annotations ownedLines ownedBlocks [⟨8, ".end param"⟩, ⟨9, ".end method"⟩] ∧
    next? [⟨8, ".end param"⟩, ⟨9, ".end method"⟩] = some (⟨8, ".end param"⟩, [⟨9, ".end method"⟩]) ∧
    ∃ inner last after, ownedLines = inner ++ last :: after ∧
      (∀ k ∈ inner, startsWith ".end param" k.trimmed = false) ∧
      startsWith ".end param" last.trimmed = true ∧
      (readBody 0 "a" (⟨1, ".param p0"⟩ :: ownedLines) = (Directive.ofBlocks ownedBlocks).bind fun _ =>
        (Directive.ofLines ⟨1, ".param p0"⟩ (inner ++ [last])).bind fun d =>
          (readBody 0 "a" after).map fun p => (p.1.put [d], p.2)) ∧
      (last :: after = [⟨8, ".end param"⟩, ⟨9, ".end method"⟩] ↔
        ∀ b ∈ ownedBlocks, ∀ k ∈ b.2, startsWith ".end param" k.trimmed = false) := by
  have hl : startsWith ".param" (⟨1, ".param p0"⟩ : Line).trimmed = true := by decide
  have hbs : Directive.Annotations ownedLines ownedBlocks [⟨8, ".end param"⟩, ⟨9, ".end method"⟩] :=
    @Directive.Annotations.past _ [] _ _ _ _ _ rfl (by decide) (by simp) (by decide)
      (@Directive.Annotations.past _ [⟨6, "  b = c"⟩] _ _ _ _ _ rfl (by decide) (by decide) (by decide) (.here _))
  have hnext : next? [⟨8, ".end param"⟩, ⟨9, ".end method"⟩] =
      some (⟨8, ".end param"⟩, [⟨9, ".end method"⟩]) := rfl
  exact ⟨hl, hbs, hnext, (readBody_parameter hl hbs hnext (by decide)).2 (by decide)⟩

end Method

namespace Class

/-- An annotation with a line that looks like the end of the parameter that owns it. -/
def cutDocument : Text := ".class La;\n.method a()V\n.param p0\n.annotation X\n.end param\n" ++
  (".end annotation\n.end param\n.end method\n" : Text)

def cutLines : List Line := [⟨4, ".annotation X"⟩, ⟨5, ".end param"⟩, ⟨6, ".end annotation"⟩,
  ⟨7, ".end param"⟩, ⟨8, ".end method"⟩]

/-- The annotation runs into the end of the parameter, and still the parameter does not get all of it: what
is left is refused. A block may also not be read at all, for a blank of several bytes. -/
theorem owned_annotation_cut :
    ofText cutDocument = ⟨1, ".class La;"⟩ :: ⟨2, ".method a()V"⟩ :: ⟨3, ".param p0"⟩ :: cutLines ∧
    Directive.Annotations cutLines [(⟨4, ".annotation X"⟩, [⟨5, ".end param"⟩, ⟨6, ".end annotation"⟩])]
      [⟨7, ".end param"⟩, ⟨8, ".end method"⟩] ∧
    Directive.ofLines ⟨3, ".param p0"⟩ (cutLines.take 4) =
      .ok ⟨[".param p0", ".annotation X", ".end param", ".end annotation", ".end param"]⟩ ∧
    read cutDocument = Outcome.mistake 6 (.unknownDirective ".end annotation") ∧
    read ".class La;\n.method a()V\n .param p0\n\u3000.end param\n.end method\n" =
      Outcome.abort .splitCharacter := by
  refine ⟨by decide +kernel, ?_, by decide +kernel, by decide +kernel, by decide +kernel⟩
  exact @Directive.Annotations.past _ [⟨5, ".end param"⟩] _ _ _ _ _ rfl (by decide) (by decide) (by decide)
    (.here _)

end Class

end DalvikPatch
