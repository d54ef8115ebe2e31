import DalvikPatch.Proofs.Blocks

/-! The look-ahead of a parameter. It passes over annotations until it finds the end of the parameter,
and may leave the block that the parameter turns out to be. A machine that reads one line at a time
says where it stops; what it finds in the lines that were read it finds in the lines that are
written, unless it has to cut a character there. -/

namespace DalvikPatch

open Text Line

/-- Where the look-ahead stands: between annotations, in one whose first line has an indentation of
some bytes, or stopped because the parameter is closed, because it is not, or because a character
is split. -/
inductive Look where
  | between
  | inside (base : Nat)
  | closed
  | passed
  | split
  deriving DecidableEq

namespace Look

/-- One more line. -/
def next : Look → Text → Look
  | between, l =>
    if ¬ IsSignificant l then between
    else if startsWith ".annotation" (trim l) then inside (indentation l)
    else if startsWith ".end param" (trim l) then closed
    else passed
  | inside base, l =>
    if dropBytes? (min (indentation l) base) l = none then split
    else if startsWith ".end annotation" (trim l) then between
    else inside base
  | k, _ => k

def after (k : Look) (ls : List Text) : Look := ls.foldl next k

@[simp] theorem after_nil (k : Look) : k.after [] = k := rfl

@[simp] theorem after_cons (k : Look) (l : Text) (ls : List Text) :
    k.after (l :: ls) = (k.next l).after ls := rfl

@[simp] theorem after_append (k : Look) (xs ys : List Text) :
    k.after (xs ++ ys) = (k.after xs).after ys := List.foldl_append

/-- Stopped with an answer or without one. -/
def IsStopped : Look → Prop
  | between | inside _ => False
  | _ => True

theorem IsStopped.after_eq {k : Look} (h : k.IsStopped) (ls : List Text) : k.after ls = k := by
  induction ls with
  | nil => rfl
  | cons l ls ih =>
    have : k.next l = k := by cases k <;> first | rfl | exact h.elim
    rw [after_cons, this, ih]

@[simp] theorem closed_after (ls : List Text) : closed.after ls = closed :=
  IsStopped.after_eq (k := closed) trivial ls

@[simp] theorem passed_after (ls : List Text) : passed.after ls = passed :=
  IsStopped.after_eq (k := passed) trivial ls

@[simp] theorem split_after (ls : List Text) : split.after ls = split :=
  IsStopped.after_eq (k := split) trivial ls

/-- Where the blanks before each line have one byte, none is split. -/
theorem after_ne_split {k : Look} (hk : k ≠ split) {ls : List Text}
    (h : ∀ l ∈ ls, ∀ c ∈ l.takeWhile isBlank, c.utf8Size = 1) : k.after ls ≠ split := by
  induction ls generalizing k with
  | nil => exact hk
  | cons l ls ih =>
    have hnext : k.next l ≠ split := by
      cases k with
      | between =>
        rw [next]
        split_ifs <;> simp
      | inside base =>
        have hcut := dropBytes?_ne_none (h l (List.mem_cons_self ..)) (Nat.min_le_left _ base)
        rw [next, if_neg hcut]
        split_ifs <;> simp
      | closed | passed => exact hk
      | split => exact absurd rfl hk
    exact ih hnext fun l' hl' => h l' (List.mem_cons_of_mem _ hl')

theorem next_between_of_not {l : Text} (h : ¬ IsSignificant l) : between.next l = between :=
  if_pos h

theorem after_between_of_not {ls : List Text} (h : ∀ l ∈ ls, ¬ IsSignificant l) :
    between.after ls = between := by
  induction ls with
  | nil => rfl
  | cons l ls ih =>
    rw [after_cons, next_between_of_not (h l (List.mem_cons_self ..))]
    exact ih fun k hk => h k (List.mem_cons_of_mem _ hk)

theorem next_between_annotated {l : Text} (h : startsWith ".annotation" (trim l) = true) :
    between.next l = inside (indentation l) := by
  have hk : IsKeyword ".annotation" := by decide
  rw [next, if_neg (not_not.2 (hk.isSignificant h)), if_pos h]

theorem next_between_other {l : Text} (hl : IsSignificant l)
    (ha : startsWith ".annotation" (trim l) = false) (he : startsWith ".end param" (trim l) = false) :
    between.next l = passed := by
  rw [next, if_neg (not_not.2 hl), ha, he]
  rfl

/-! ### What the reader does -/

/-- What the look-ahead answers where it stands at the end of the document. -/
def Answers (k : Look) (o : Outcome Bool) : Prop :=
  match k with
  | closed => o = .ok true
  | split => o = .abort .splitCharacter
  | inside _ => ∃ n, o = .mistake n (.unterminatedBlock ".end annotation")
  | _ => o = .ok false

theorem eq_closed_of_answers {k : Look} (h : k.Answers (.ok true)) : k = closed := by
  cases k with
  | closed => rfl
  | inside b =>
    obtain ⟨n, hn⟩ := h
    cases hn
  | between | passed | split => cases h

theorem readLines_answers (n base : Nat) (ls : List Line) :
    match Directive.readLines n base ".end annotation" ls with
    | .ok p => (inside base).after (ls.map Line.text) = between.after (p.2.map Line.text)
    | .error e => (e = .abort .splitCharacter ∧ (inside base).after (ls.map Line.text) = split) ∨
        (e = .fault (.parse (.line n) (.unterminatedBlock ".end annotation")) ∧
          (inside base).after (ls.map Line.text) = inside base) := by
  induction ls with
  | nil => exact .inr ⟨rfl, rfl⟩
  | cons l ls ih =>
    rw [Directive.readLines, List.map_cons, after_cons]
    cases hcut : dropBytes? (min (indentation l.text) base) l.text with
    | none =>
      have : (inside base).next l.text = split := if_pos hcut
      simp [this]
    | some s =>
      have hne : ¬ (dropBytes? (min (indentation l.text) base) l.text = none) := by simp [hcut]
      by_cases hc : startsWith ".end annotation" l.trimmed
      · have : (inside base).next l.text = between := by
          rw [next, if_neg hne]
          exact if_pos hc
        simp only [hc, if_true, this]
      · have : (inside base).next l.text = inside base := by
          rw [next, if_neg hne]
          exact if_neg hc
        simp only [hc, this]
        cases hr : Directive.readLines n base ".end annotation" ls with
        | error e =>
          rw [hr] at ih
          exact ih
        | ok p =>
          rw [hr] at ih
          exact ih

end Look

theorem Look.after_of_next? {ls rest : List Line} {l : Line} (h : Line.next? ls = some (l, rest)) :
    IsSignificant l.text ∧
      between.after (ls.map Line.text) = (between.next l.text).after (rest.map Line.text) := by
  obtain ⟨hl, skipped, rfl, hs⟩ := Line.exists_of_next? h
  refine ⟨hl, ?_⟩
  rw [List.map_append, after_append, after_between_of_not (by simpa using hs)]
  rfl

/-- The look-ahead of the reader is the machine. -/
theorem Directive.isClosed_answers (ls : List Line) :
    (Look.between.after (ls.map Line.text)).Answers (isClosed ls) := by
  fun_induction isClosed ls with
  | case1 ls hn =>
    have hskipped : ∀ l ∈ ls.map Line.text, ¬ IsSignificant l := by
      simpa using Line.not_significant_of_next? hn
    rw [Look.after_between_of_not hskipped]
    rfl
  | case2 ls l rest hn ha e he =>
    rw [(Look.after_of_next? hn).2, Look.next_between_annotated ha]
    have hlines := Look.readLines_answers l.number (indentation l.text) rest
    rw [readBlock] at he
    cases hr : readLines l.number (indentation l.text) ".end annotation" rest with
    | ok p => rw [hr] at he; cases he
    | error e' =>
      rw [hr] at he hlines
      cases he
      rcases hlines with ⟨rfl, h⟩ | ⟨rfl, h⟩
      · rw [h]
        rfl
      · rw [h]
        exact ⟨_, rfl⟩
  | case3 ls l rest hn ha d rest' hd ih =>
    rw [(Look.after_of_next? hn).2, Look.next_between_annotated ha]
    have hlines := Look.readLines_answers l.number (indentation l.text) rest
    obtain ⟨p, hr, he⟩ := exists_of_map hd
    cases he
    rw [hr] at hlines
    rw [hlines]
    exact ih
  | case4 ls l rest hn ha =>
    obtain ⟨hl, hafter⟩ := Look.after_of_next? hn
    rw [hafter]
    have ha' : startsWith ".annotation" l.trimmed = false := by simpa using ha
    by_cases he : startsWith ".end param" l.trimmed
    · have : Look.between.next l.text = .closed := by
        rw [Look.next, if_neg (not_not.2 hl)]
        simp only [Line.trimmed] at ha' he
        rw [ha', he]
        rfl
      rw [this, Look.closed_after, he]
      rfl
    · have he' : startsWith ".end param" l.trimmed = false := by simpa using he
      rw [Look.next_between_other hl ha' he', Look.passed_after, he']
      rfl

namespace Look

/-! ### Lines up to their blanks -/

/-- The same up to the indentation, or split. -/
def Similar (k k' : Look) : Prop :=
  k = split ∨ k' = split ∨ k = k' ∨ ∃ b b', k = inside b ∧ k' = inside b'

theorem Similar.next {k k' : Look} (h : k.Similar k') {l l' : Text} (hl : trim l = trim l') :
    (k.next l).Similar (k'.next l') := by
  have inner : ∀ b b', ((inside b).next l).Similar ((inside b').next l') := by
    intro b b'
    by_cases hb : dropBytes? (min (indentation l) b) l = none
    · exact .inl (if_pos hb)
    · by_cases hb' : dropBytes? (min (indentation l') b') l' = none
      · exact .inr (.inl (if_pos hb'))
      · rw [Look.next, if_neg hb, Look.next, if_neg hb', hl]
        split
        · exact .inr (.inr (.inl rfl))
        · exact .inr (.inr (.inr ⟨b, b', rfl, rfl⟩))
  rcases h with rfl | rfl | rfl | ⟨b, b', rfl, rfl⟩
  · exact .inl rfl
  · exact .inr (.inl rfl)
  · cases k with
    | between =>
      have hs : IsSignificant l ↔ IsSignificant l' := by rw [IsSignificant, IsSignificant, hl]
      by_cases h : IsSignificant l
      · rw [Look.next, if_neg (not_not.2 h), Look.next, if_neg (not_not.2 (hs.1 h)), hl]
        split_ifs
        · exact .inr (.inr (.inr ⟨_, _, rfl, rfl⟩))
        · exact .inr (.inr (.inl rfl))
        · exact .inr (.inr (.inl rfl))
      · rw [next_between_of_not h, next_between_of_not fun h' => h (hs.2 h')]
        exact .inr (.inr (.inl rfl))
    | inside b => exact inner b b
    | closed | passed | split => exact .inr (.inr (.inl rfl))
  · exact inner b b'

theorem Similar.after {k k' : Look} (h : k.Similar k') {xs ys : List Text}
    (hxy : xs.map trim = ys.map trim) : (k.after xs).Similar (k'.after ys) := by
  induction xs generalizing k k' ys with
  | nil =>
    rw [List.map_eq_nil_iff.1 hxy.symm]
    exact h
  | cons x xs ih =>
    obtain ⟨y, ys, rfl, hy, hys⟩ := List.map_eq_cons_iff.1 hxy.symm
    exact ih (h.next hy.symm) hys.symm

/-! ### Lines behind an indentation -/

/-- The same look-ahead in lines that stand behind an indentation of some bytes. -/
def shift (n : Nat) : Look → Look
  | inside base => inside (n + base)
  | k => k

theorem next_indented {indent : Text} (hi : Blanks indent) (k : Look) (l : Text) :
    (k.shift (byteSize indent)).next (indented indent l) = (k.next l).shift (byteSize indent) := by
  cases k with
  | between =>
    have hs : IsSignificant (indented indent l) ↔ IsSignificant l := by
      rw [IsSignificant, IsSignificant, trim_indented hi]
    have hshift : between.shift (byteSize indent) = between := rfl
    rw [hshift]
    by_cases h : IsSignificant l
    · rw [next, if_neg (not_not.2 (hs.2 h)), next, if_neg (not_not.2 h), trim_indented hi]
      split_ifs with ha
      · have hne : l ≠ [] := by
          rintro rfl
          cases ha
        rw [indented_of_ne_nil hne, indentation_blanks_append hi, shift]
      · rfl
      · rfl
    · rw [next_between_of_not h, next_between_of_not fun h' => h (hs.1 h')]
      rfl
  | inside base =>
    simp only [shift, next, dropBytes?_indented hi, trim_indented hi]
    split_ifs <;> rfl
  | closed | passed | split => rfl

theorem after_indented {indent : Text} (hi : Blanks indent) (k : Look) (ls : List Text) :
    (k.shift (byteSize indent)).after (ls.map (indented indent)) =
      (k.after ls).shift (byteSize indent) := by
  induction ls generalizing k with
  | nil => rfl
  | cons l ls ih => rw [List.map_cons, after_cons, next_indented hi, ih, after_cons]

/-- The end of the parameter is found, or a character is split before. -/
def Found (k : Look) : Prop := k = closed ∨ k = split

/-- A line that the look-ahead passes over inside of an annotation. -/
structure Neutral (l : Text) : Prop where
  cut : ∀ base, dropBytes? (min (indentation l) (byteSize margin + base)) l ≠ none
  ending : startsWith ".end annotation" (trim l) = false

/-- The lines `ws` are written for a document in which the lines `ls` belong to directives of
bodies. Between directives the look-ahead finds nothing. -/
inductive Follows : List Text → List Text → Prop
  | nil (ws : List Text) : Follows ws []
  | line {ws ls : List Text} (l : Text) : Follows ws ls → Follows (indented margin l :: ws) (l :: ls)
  | skip {ws ls : List Text} {w : Text} : Neutral w → ¬ (between.after ls).Found → Follows ws ls →
      Follows (w :: ws) ls

theorem blanks_margin : Blanks margin := by
  intro c hc
  revert c
  decide

theorem Follows.after {ws ls : List Text} (h : Follows ws ls) {k : Look} (hk : (k.after ls).Found) :
    (k.shift (byteSize margin)).after ws = k.after ls := by
  induction h generalizing k with
  | nil ws => rcases hk with rfl | rfl <;> simp [shift]
  | line l _ ih => rw [after_cons, next_indented blanks_margin, after_cons, ih hk]
  | @skip ws ls w hw hls _ ih =>
    have hstep : (k.shift (byteSize margin)).next w = k.shift (byteSize margin) := by
      cases k with
      | between => exact absurd hk hls
      | inside base =>
        rw [shift, next, if_neg (hw.cut base), hw.ending]
        rfl
      | closed | passed | split => rfl
    rw [after_cons, hstep, ih hk]

theorem Follows.lines {ws ls : List Text} (h : Follows ws ls) (ts : List Text) :
    Follows (ts.map (indented margin) ++ ws) (ts ++ ls) := by
  induction ts with
  | nil => exact h
  | cons t ts ih => exact ih.line t

theorem Follows.skips {ws ls ts : List Text} (h : Follows ws ls) (ht : ∀ t ∈ ts, Neutral t)
    (hls : ¬ (between.after ls).Found) : Follows (ts ++ ws) ls := by
  induction ts with
  | nil => exact h
  | cons t ts ih =>
    exact (ih fun u hu => ht u (List.mem_cons_of_mem _ hu)).skip (ht t (List.mem_cons_self ..)) hls

/-! ### Lines that were read and lines that are kept -/

theorem next_inside_of_not {b : Nat} {l : Text} (h : startsWith ".end annotation" (trim l) = false) :
    (inside b).next l = split ∨ (inside b).next l = inside b := by
  by_cases hcut : dropBytes? (min (indentation l) b) l = none
  · exact .inl (if_pos hcut)
  · rw [next, if_neg hcut, h]
    exact .inr rfl

/-- An annotation without an indentation of its own ends between annotations. -/
theorem after_annotated {d : Directive} (h : d.IsBlock ".annotation" ".end annotation") {k : Look}
    (hk : k = between ∨ k = inside 0) : k.after d.lines = between := by
  have hcut : ∀ l : Text, dropBytes? (min (indentation l) 0) l ≠ none := by
    intro l
    rw [Nat.min_zero, dropBytes?_zero]
    simp
  have hend : ∀ ls, EndsAt ".end annotation" ls → (inside 0).after ls = between := by
    intro ls hls
    induction ls with
    | nil => cases hls
    | cons l ls ih =>
      rw [EndsAt] at hls
      rw [after_cons, next, if_neg (hcut l)]
      split
      · next hl =>
        rw [if_pos hl] at hls
        rw [hls, after_nil]
      · next hl =>
        rw [if_neg hl] at hls
        exact ih hls
  obtain ⟨l, ls, hlines, hl, hstart, -, hls⟩ := h.exists_lines
  have htrim : startsWith ".annotation" (trim l) = true := by rwa [hl.trim_eq]
  have hfirst : k.next l = inside 0 := by
    rcases hk with rfl | rfl
    · rw [next_between_annotated htrim, indentation_of_startsDark hl.startsDark]
    · rw [next, if_neg (hcut l), startsWith_eq_false htrim (by decide) (by decide)]
      rfl
  rw [hlines, after_cons, hfirst, hend ls hls]

/-- What the look-ahead finds in the lines `raw` that were read it finds in the lines `kept`; it
finds nothing if it starts between directives. -/
structure Leads (raw kept : List Text) : Prop where
  between : between.after raw ≠ closed
  inside : ∀ b b', (inside b).after raw = closed → ((Look.inside b').after kept).Found

namespace Leads

variable {raw kept : List Text}

theorem nil : Leads [] [] where
  between := by simp
  inside b b' h := by simp at h

theorem found (h : Leads raw kept) {k k' : Look} (hk : k.Similar k') (hc : k.after raw = closed) :
    (k'.after kept).Found := by
  rcases hk with rfl | rfl | rfl | ⟨b, b', rfl, rfl⟩
  · simp at hc
  · exact .inr (split_after kept)
  · cases k with
    | between => exact absurd hc h.between
    | inside b => exact h.inside b b hc
    | closed => exact .inl (closed_after kept)
    | passed => simp at hc
    | split => simp at hc
  · exact h.inside b b' hc

/-- A directive is read and kept. -/
theorem directive (h : Leads raw kept) {d : Directive}
    (hd : Look.between.after d.lines = .between ∨ Look.between.after d.lines = .passed)
    {ts : List Text} (ht : ts.map trim = d.lines.map trim) : Leads (ts ++ raw) (d.lines ++ kept) where
  between := by
    have hsimilar := Similar.after (.inr (.inr (.inl rfl))) ht (k := .between)
    rw [after_append]
    intro hc
    rcases hsimilar with hk | hk | hk | ⟨b, b', -, hk⟩
    · rw [hk] at hc
      simp at hc
    · rw [hk] at hd
      simp at hd
    · rw [hk] at hc
      rcases hd with hd | hd
      · rw [hd] at hc
        exact h.between hc
      · rw [hd] at hc
        simp at hc
    · rw [hk] at hd
      simp at hd
  inside b b' hc := by
    rw [after_append] at hc
    rw [after_append]
    exact h.found (Similar.after (.inr (.inr (.inr ⟨b, b', rfl, rfl⟩))) ht) hc

/-- An annotation is read, and kept elsewhere. -/
theorem annotated (h : Leads raw kept) {d : Directive}
    (hd : d.IsBlock ".annotation" ".end annotation") {ts : List Text}
    (ht : ts.map trim = d.lines.map trim) : Leads (ts ++ raw) kept := by
  have hnot : ∀ k k' : Look, k.Similar k' → k'.after d.lines = .between →
      (k.after ts).after raw ≠ closed := by
    intro k k' hk hd' hc
    rcases hk.after ht with hk | hk | hk | ⟨b, b', -, hk⟩
    · rw [hk] at hc
      simp at hc
    · rw [hd'] at hk
      cases hk
    · rw [hk, hd'] at hc
      exact h.between hc
    · rw [hd'] at hk
      cases hk
  constructor
  · rw [after_append]
    exact hnot _ _ (.inr (.inr (.inl rfl))) (after_annotated hd (.inl rfl))
  · intro b b' hc
    rw [after_append] at hc
    exact absurd hc (hnot _ (.inside 0) (.inr (.inr (.inr ⟨b, 0, rfl, rfl⟩)))
      (after_annotated hd (.inr rfl)))

/-- A line that is not kept. -/
theorem line (h : Leads raw kept) {l : Text}
    (hl : Look.between.next l = .between ∨ Look.between.next l = .passed)
    (he : startsWith ".end annotation" (trim l) = false) : Leads (l :: raw) kept where
  between := by
    rw [after_cons]
    rcases hl with hl | hl
    · rw [hl]
      exact h.between
    · rw [hl]
      simp
  inside b b' hc := by
    rw [after_cons] at hc
    rcases next_inside_of_not (b := b) he with hn | hn
    · rw [hn] at hc
      simp at hc
    · rw [hn] at hc
      exact h.inside b b' hc

/-- A line that is not significant. -/
theorem skip (h : Leads raw kept) {l : Text} (hl : ¬ IsSignificant l) : Leads (l :: raw) kept := by
  have hk : IsKeyword ".end annotation" := by decide
  apply h.line (.inl (next_between_of_not hl))
  exact Bool.eq_false_iff.2 fun he => hl (hk.isSignificant he)

theorem skips (h : Leads raw kept) {ts : List Text} (ht : ∀ t ∈ ts, ¬ IsSignificant t) :
    Leads (ts ++ raw) kept := by
  induction ts with
  | nil => exact h
  | cons t ts ih =>
    exact (ih fun u hu => ht u (List.mem_cons_of_mem _ hu)).skip (ht t (List.mem_cons_self ..))

end Leads

end Look

end DalvikPatch
