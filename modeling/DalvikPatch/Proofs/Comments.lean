import DalvikPatch.Proofs.Numerals
import DalvikPatch.Proofs.Blanks
import DalvikPatch.Text.Literal

/-! Comments. A text is quiet where no comment starts in it; what is quiet in a line as it was found
stays quiet when it is written again with fewer blanks, because blanks and plain characters leave
the place where a reader stands as it is. -/

namespace DalvikPatch.Text

/-- Where a reader stands after a text. -/
def Literal.after (p : Literal) (s : Text) : Literal := s.foldl (fun p c => p.next c) p

@[simp] theorem Literal.after_nil (p : Literal) : p.after [] = p := rfl

@[simp] theorem Literal.after_cons (p : Literal) (c : Char) (s : Text) :
    p.after (c :: s) = (p.next c).after s := rfl

@[simp] theorem Literal.after_append (p : Literal) (s t : Text) :
    p.after (s ++ t) = (p.after s).after t := by
  rw [after, List.foldl_append, after, after]

/-- No comment starts in the text, read from a place. -/
def Quiet (p : Literal) (s : Text) : Prop := cutCommentFrom p s = s

theorem quiet_nil (p : Literal) : Quiet p [] := rfl

theorem quiet_cons {p : Literal} {c : Char} {s : Text} :
    Quiet p (c :: s) ↔ ¬ (p = .outside ∧ c = '#') ∧ Quiet (p.next c) s := by
  rw [Quiet, cutCommentFrom]
  split
  · next h => simp [h]
  · next h => simp [h, Quiet]

/-- What starts no comment is kept, and what follows is cut from where it leaves the reader. -/
theorem cutCommentFrom_append {p : Literal} {s : Text} (h : Quiet p s) (t : Text) :
    cutCommentFrom p (s ++ t) = s ++ cutCommentFrom (p.after s) t := by
  induction s generalizing p with
  | nil => rfl
  | cons c s ih =>
    obtain ⟨hc, hs⟩ := quiet_cons.1 h
    rw [List.cons_append, cutCommentFrom, if_neg hc, ih hs]
    rfl

theorem quiet_append {p : Literal} {s t : Text} :
    Quiet p (s ++ t) ↔ Quiet p s ∧ Quiet (p.after s) t := by
  induction s generalizing p with
  | nil => simp [quiet_nil]
  | cons c s ih => rw [List.cons_append, quiet_cons, quiet_cons, ih, Literal.after_cons, and_assoc]

theorem Quiet.left {p : Literal} {s t : Text} (h : Quiet p (s ++ t)) : Quiet p s :=
  (quiet_append.1 h).1

theorem Quiet.right {p : Literal} {s t : Text} (h : Quiet p (s ++ t)) : Quiet (p.after s) t :=
  (quiet_append.1 h).2

theorem quiet_cutComment (s : Text) : Quiet .outside (cutComment s) := by
  have h : ∀ p s, Quiet p (cutCommentFrom p s) := by
    intro p s
    induction s generalizing p with
    | nil => exact quiet_nil p
    | cons c s ih =>
      rw [cutCommentFrom]
      split
      · exact quiet_nil p
      · next hc => exact quiet_cons.2 ⟨hc, ih _⟩
  exact h .outside s

/-- What is cut off a line starts with its sign. -/
theorem exists_cutComment (s : Text) : ∃ r, s = cutComment s ++ r ∧ ∀ c ∈ r.head?, c = '#' := by
  have h : ∀ p, ∃ r, s = cutCommentFrom p s ++ r ∧ ∀ c ∈ r.head?, c = '#' := by
    intro p
    induction s generalizing p with
    | nil => exact ⟨[], rfl, by simp⟩
    | cons c s ih =>
      rw [cutCommentFrom]
      split
      · next hc => exact ⟨c :: s, rfl, by simpa using hc.2⟩
      · obtain ⟨r, hr, hhead⟩ := ih (p.next c)
        exact ⟨r, congrArg (c :: ·) hr, hhead⟩
  exact h .outside

theorem mem_of_mem_cutComment {c : Char} {s : Text} (h : c ∈ cutComment s) : c ∈ s := by
  obtain ⟨r, hr, -⟩ := exists_cutComment s
  rw [hr]
  exact List.mem_append_left _ h

theorem quiet_of_not_mem {p : Literal} {s : Text} (h : '#' ∉ s) : Quiet p s := by
  induction s generalizing p with
  | nil => exact quiet_nil p
  | cons c s ih =>
    rw [List.mem_cons, not_or] at h
    exact quiet_cons.2 ⟨fun hc => h.1 hc.2.symm, ih h.2⟩

/-! ### Plain characters -/

theorem isPlain_of_isBlank {c : Char} (h : isBlank c) : IsPlain c := by
  refine ⟨?_, ?_, ?_⟩ <;> rintro rfl <;> exact absurd h (by decide)

theorem Blanks.isPlain {b : Text} (hb : Blanks b) : ∀ c ∈ b, IsPlain c :=
  fun c hc => isPlain_of_isBlank (hb c hc)

theorem Literal.next_of_isPlain {p : Literal} (hp : p ≠ .guarded) {c : Char} (hc : IsPlain c) :
    p.next c = p := by
  cases p with
  | outside => exact if_neg hc.1
  | inside => simp [next, hc.1, hc.2.1]
  | guarded => exact absurd rfl hp

theorem Literal.next_ne_guarded (p : Literal) {c : Char} (hc : c ≠ '\\') : p.next c ≠ .guarded := by
  cases p with
  | outside => by_cases h : c = '"' <;> simp [next, h]
  | inside => by_cases h : c = '"' <;> simp [next, h, hc]
  | guarded => simp [next]

/-- Plain characters are quiet and leave the place as it is. -/
theorem quiet_of_isPlain {p : Literal} (hp : p ≠ .guarded) {u : Text} (hu : ∀ c ∈ u, IsPlain c) :
    Quiet p u ∧ p.after u = p := by
  induction u with
  | nil => exact ⟨quiet_nil p, rfl⟩
  | cons c u ih =>
    have hc : IsPlain c := hu c (List.mem_cons_self ..)
    have := ih fun d hd => hu d (List.mem_cons_of_mem _ hd)
    rw [quiet_cons, Literal.after_cons, Literal.next_of_isPlain hp hc]
    exact ⟨⟨fun h => hc.2.2 h.2, this.1⟩, this.2⟩

theorem quiet_plain_append {p : Literal} (hp : p ≠ .guarded) {u : Text} (hu : ∀ c ∈ u, IsPlain c)
    (s : Text) : Quiet p (u ++ s) ↔ Quiet p s := by
  rw [quiet_append, (quiet_of_isPlain hp hu).2]
  exact and_iff_right (quiet_of_isPlain hp hu).1

/-- The place after a text that does not end in a backslash is not a guarded one. -/
theorem Literal.after_ne_guarded (p : Literal) {s : Text} (hs : s ≠ [])
    (h : ∀ c ∈ s.getLast?, c ≠ '\\') : p.after s ≠ .guarded := by
  have hlast : s.getLast hs ≠ '\\' := h _ (by simp [List.getLast?_eq_getLast_of_ne_nil hs])
  rw [← List.dropLast_append_getLast hs, Literal.after_append]
  exact Literal.next_ne_guarded _ hlast

/-- Blanks in front of a plain character may go, even behind a backslash. -/
theorem after_blanks_append {p : Literal} {b : Text} (hb : Blanks b) {c : Char} (hc : IsPlain c) :
    p.after (b ++ [c]) = p.after [c] := by
  cases b with
  | nil => rfl
  | cons d b =>
    have hd : IsPlain d := isPlain_of_isBlank (hb d (List.mem_cons_self ..))
    have hp : p.next d ≠ .guarded := p.next_ne_guarded hd.2.1
    have hb' : ∀ x ∈ b, IsPlain x :=
      fun x hx => isPlain_of_isBlank (hb x (List.mem_cons_of_mem _ hx))
    rw [List.cons_append, Literal.after_cons, Literal.after_append, (quiet_of_isPlain hp hb').2]
    cases p with
    | outside | inside =>
      have : ∀ q : Literal, q ≠ .guarded → (q.next d).after [c] = q.after [c] := by
        intro q hq
        rw [Literal.next_of_isPlain hq hd]
      exact this _ (by simp)
    | guarded =>
      have : Literal.inside.next c = .inside := Literal.next_of_isPlain (by simp) hc
      simpa [Literal.next] using this

theorem quiet_of_blanks_append {p : Literal} {b : Text} (hb : Blanks b) {c : Char} (hc : IsPlain c)
    {s : Text} (h : Quiet p (b ++ c :: s)) : Quiet p (c :: s) := by
  have h' : Quiet p ((b ++ [c]) ++ s) := by simpa using h
  have hs := h'.right
  rw [after_blanks_append hb hc] at hs
  exact quiet_cons.2 ⟨fun hq => hc.2.2 hq.2, hs⟩

end DalvikPatch.Text
