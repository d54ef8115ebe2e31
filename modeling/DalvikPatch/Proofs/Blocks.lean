import DalvikPatch.Proofs.Headers

/-! Blocks. A block is written with one indentation in front of each of its lines that is not empty, and
reading takes that indentation away again. -/

namespace DalvikPatch

open Text

/-! ### Significant lines -/

namespace Line

/-- Whether a text is more than blanks and a comment. -/
def IsSignificant (s : Text) : Prop := trim s ≠ [] ∧ startsWith "#" (trim s) = false

instance (s : Text) : Decidable (IsSignificant s) := inferInstanceAs (Decidable (_ ∧ _))

theorem isSignificant_iff {l : Line} : l.isSignificant = true ↔ IsSignificant l.text := by
  simp [isSignificant, IsSignificant, trimmed]

theorem next?_cons_of_significant {l : Line} (h : IsSignificant l.text) (ls : List Line) :
    next? (l :: ls) = some (l, ls) := by
  rw [next?, if_pos (isSignificant_iff.2 h)]

theorem exists_next?_of_significant {ls : List Line} {t : Text} {ts : List Text} (ht : IsSignificant t)
    (h : ls.map Line.text = t :: ts) :
    ∃ l rest, next? ls = some (l, rest) ∧ l.text = t ∧ rest.map Line.text = ts := by
  obtain ⟨l, rest, rfl, rfl, rfl⟩ := List.map_eq_cons_iff.1 h
  exact ⟨l, rest, next?_cons_of_significant ht rest, rfl, rfl⟩

theorem next?_cons_of_not {l : Line} (h : ¬ IsSignificant l.text) (ls : List Line) :
    next? (l :: ls) = next? ls := by
  rw [next?, if_neg fun hl => h (isSignificant_iff.1 hl)]

theorem next?_append_of_not {skipped : List Line} (h : ∀ l ∈ skipped, ¬ IsSignificant l.text)
    (ls : List Line) : next? (skipped ++ ls) = next? ls := by
  induction skipped with
  | nil => rfl
  | cons l skipped ih =>
    rw [List.cons_append, next?_cons_of_not (h l (List.mem_cons_self ..))]
    exact ih fun k hk => h k (List.mem_cons_of_mem _ hk)

/-- The next significant line stands behind others that are not. -/
theorem exists_of_next? {ls rest : List Line} {l : Line} (h : next? ls = some (l, rest)) :
    IsSignificant l.text ∧ ∃ skipped, ls = skipped ++ l :: rest ∧
      ∀ s ∈ skipped, ¬ IsSignificant s.text := by
  induction ls with
  | nil => cases h
  | cons k ls ih =>
    by_cases hk : IsSignificant k.text
    · rw [next?_cons_of_significant hk] at h
      cases h
      exact ⟨hk, [], rfl, by simp⟩
    · rw [next?_cons_of_not hk] at h
      obtain ⟨hl, skipped, rfl, hs⟩ := ih h
      exact ⟨hl, k :: skipped, rfl, by simpa using ⟨hk, hs⟩⟩

theorem next?_append_of_next? {l : Line} {us rest : List Line} (h : next? us = some (l, rest)) (vs : List Line) :
    next? (us ++ vs) = some (l, rest ++ vs) := by
  obtain ⟨hl, skipped, rfl, hskipped⟩ := exists_of_next? h
  rw [List.append_assoc, next?_append_of_not hskipped, List.cons_append, next?_cons_of_significant hl]

theorem not_significant_of_next? {ls : List Line} (h : next? ls = none) :
    ∀ l ∈ ls, ¬ IsSignificant l.text := by
  induction ls with
  | nil => simp
  | cons k ls ih =>
    by_cases hk : IsSignificant k.text
    · rw [next?_cons_of_significant hk] at h
      cases h
    · rw [next?_cons_of_not hk] at h
      simpa using ⟨hk, ih h⟩

/-! ### Keywords -/

/-- A word that a line may start with, for it starts no comment. -/
def IsKeyword (k : Text) : Prop := k ≠ [] ∧ startsWith k "#" = false ∧ startsWith "#" k = false

instance (k : Text) : Decidable (IsKeyword k) := inferInstanceAs (Decidable (_ ∧ _))

theorem IsKeyword.isSignificant {k s : Text} (hk : IsKeyword k) (h : startsWith k (trim s) = true) :
    IsSignificant s := by
  refine ⟨fun hs => ?_, startsWith_eq_false h hk.2.1 hk.2.2⟩
  rw [hs] at h
  obtain ⟨r, hr⟩ := startsWith_iff.1 h
  exact hk.1 (List.append_eq_nil_iff.1 hr.symm).1

/-- Keywords of which none is the start of another. -/
def AreKeywords (ks : List Text) : Prop :=
  ∀ v ∈ ks, IsKeyword v ∧ ∀ w ∈ ks, v ≠ w → startsWith v w = false

instance (ks : List Text) : Decidable (AreKeywords ks) := inferInstanceAs (Decidable (∀ v ∈ ks, _))

/-- A line starts with one keyword at most. -/
theorem AreKeywords.other {ks : List Text} (hks : AreKeywords ks) {v w s : Text} (hv : v ∈ ks)
    (h : startsWith v s = true) (hw : w ∈ ks) (hne : v ≠ w) : startsWith w s = false :=
  startsWith_eq_false h ((hks v hv).2 w hw hne) ((hks w hw).2 v hv hne.symm)

end Line

/-! ### Indentation -/

/-- A line behind an indentation; an empty line is not indented. -/
def indented (indent l : Text) : Text := if l = [] then [] else indent ++ l

theorem indented_of_ne_nil {l : Text} (h : l ≠ []) (indent : Text) : indented indent l = indent ++ l :=
  if_neg h

theorem trim_indented {indent : Text} (hi : Blanks indent) (l : Text) :
    trim (indented indent l) = trim l := by
  rw [indented]
  split
  · next h => rw [h]
  · exact trim_blanks_append hi l

/-- Cutting off an indentation and more is cutting off more from the line behind it. -/
theorem dropBytes?_indented {indent : Text} (hi : Blanks indent) (base : Nat) (l : Text) :
    dropBytes? (min (indentation (indented indent l)) (byteSize indent + base)) (indented indent l) =
      dropBytes? (min (indentation l) base) l := by
  rw [indented]
  split
  · next h =>
    have hnil : indentation [] = 0 := rfl
    rw [h, hnil, Nat.zero_min, Nat.zero_min]
  · rw [indentation_blanks_append hi, Nat.add_min_add_left, dropBytes?_append]

/-! ### Lines of a block -/

/-- Only the last line, which is there, starts with `closing`. -/
def EndsAt (closing : Text) : List Text → Prop
  | [] => False
  | l :: ls => if startsWith closing (trim l) then ls = [] else EndsAt closing ls

/-- A line that a block can keep. -/
structure Kept (l : Text) : Prop where
  endsDark : EndsDark l
  newline : '\n' ∉ l

namespace Directive

/-- The lines that are written for a directive. -/
def written (indent : Text) (d : Directive) : List Text := d.lines.map (indented indent)

theorem text_eq (d : Directive) (indent : Text) :
    d.text indent = (d.written indent).flatMap lineText := by
  rw [text, written, List.flatMap_map]
  rfl

/-- A block: its first line starts with `opening` and only the last one with `closing`. -/
structure IsBlock (opening closing : Text) (d : Directive) : Prop where
  exists_lines : ∃ l ls, d.lines = l :: ls ∧ Neat l ∧ startsWith opening l = true ∧
    (∀ t ∈ ls, Kept t) ∧ EndsAt closing ls

/-- A directive on one line. -/
structure IsLine (opening : Text) (d : Directive) : Prop where
  exists_line : ∃ l, d.lines = [l] ∧ Neat l ∧ startsWith opening l = true

theorem readLines_written {closing indent : Text} (hi : Blanks indent) (n : Nat) {ls : List Text}
    (hkept : ∀ l ∈ ls, Kept l) (hend : EndsAt closing ls) {xs : List Line}
    (hxs : xs.map Line.text = ls.map (indented indent)) (ys : List Line) :
    readLines n (byteSize indent) closing (xs ++ ys) = .ok (ls, ys) := by
  induction ls generalizing xs with
  | nil => cases hend
  | cons l ls ih =>
    obtain ⟨x, xs, rfl, hx, hxs⟩ := List.map_eq_cons_iff.1 hxs
    have hl := hkept l (List.mem_cons_self ..)
    have hcut := dropBytes?_indented hi 0 l
    rw [Nat.add_zero, Nat.min_zero, dropBytes?_zero] at hcut
    have htrimmed : x.trimmed = trim l := by
      rw [Line.trimmed, hx, trim_indented hi]
    rw [List.cons_append, readLines, hx, hcut, htrimmed]
    simp only [trimRight_eq_self hl.endsDark]
    rw [EndsAt] at hend
    split
    · next hc =>
      rw [if_pos hc] at hend
      subst hend
      rw [List.map_nil, List.map_eq_nil_iff] at hxs
      rw [hxs]
      rfl
    · next hc =>
      rw [if_neg hc] at hend
      rw [ih (fun t ht => hkept t (List.mem_cons_of_mem _ ht)) hend hxs]
      rfl

/-- A block is read back from the lines that are written for it. -/
theorem readBlock_written {opening closing indent : Text} {d : Directive}
    (h : d.IsBlock opening closing) (hi : Blanks indent) (hopening : opening ≠ []) {first : Line}
    {xs : List Line} (hxs : (first :: xs).map Line.text = d.written indent) (ys : List Line) :
    readBlock closing first (xs ++ ys) = .ok (d, ys) := by
  obtain ⟨l, ls, hlines, hl, hstart, hkept, hend⟩ := h.exists_lines
  rw [written, hlines] at hxs
  obtain ⟨hfirst, hxs⟩ := List.cons.inj hxs
  have hne : l ≠ [] := by
    rintro rfl
    obtain ⟨r, hr⟩ := startsWith_iff.1 hstart
    exact hopening (List.append_eq_nil_iff.1 hr.symm).1
  have hindent : indentation first.text = byteSize indent := by
    rw [hfirst, indented_of_ne_nil hne, indentation_blanks_append hi,
      indentation_of_startsDark hl.startsDark, Nat.add_zero]
  have htrimmed : first.trimmed = l := by
    rw [Line.trimmed, hfirst, trim_indented hi, hl.trim_eq]
  rw [readBlock, hindent, readLines_written hi _ hkept hend hxs, htrimmed]
  show Except.ok ((⟨l :: ls⟩ : Directive), ys) = .ok (d, ys)
  rw [← hlines]

/-- The first of the lines that are written for a directive. -/
theorem exists_of_written {d : Directive} {indent l : Text} {ls : List Text} (hi : Blanks indent)
    (hlines : d.lines = l :: ls) (hl : Neat l) {xs : List Line}
    (hxs : xs.map Line.text = d.written indent) :
    ∃ y ys, xs = y :: ys ∧ y.trimmed = l ∧ ys.map Line.text = ls.map (indented indent) := by
  rw [written, hlines, List.map_cons] at hxs
  obtain ⟨y, ys, rfl, hy, hys⟩ := List.map_eq_cons_iff.1 hxs
  exact ⟨y, ys, rfl, by rw [Line.trimmed, hy, trim_indented hi, hl.trim_eq], hys⟩

theorem IsBlock.exists_of_written {opening closing indent : Text} {d : Directive}
    (h : d.IsBlock opening closing) (hi : Blanks indent) (hopening : opening ≠ []) {xs : List Line}
    (hxs : xs.map Line.text = d.written indent) :
    ∃ y ys, xs = y :: ys ∧ startsWith opening y.trimmed = true ∧
      ∀ rest, readBlock closing y (ys ++ rest) = .ok (d, rest) := by
  obtain ⟨l, ls, hlines, hl, hstart, -⟩ := h.exists_lines
  obtain ⟨y, ys, rfl, hy, -⟩ := Directive.exists_of_written hi hlines hl hxs
  exact ⟨y, ys, rfl, hy ▸ hstart, readBlock_written h hi hopening hxs⟩

/-- What was read as the lines of a block is what stood there, up to blanks around each line. -/
theorem exists_of_readLines {n base : Nat} {closing : Text} {ls rest : List Line} {ts : List Text}
    (h : readLines n base closing ls = .ok (ts, rest)) :
    EndsAt closing ts ∧ (∀ t ∈ ts, EndsDark t) ∧
      ∃ taken, ls = taken ++ rest ∧ taken.map Line.trimmed = ts.map trim ∧
        ((∀ l ∈ taken, '\n' ∉ l.text) → ∀ t ∈ ts, '\n' ∉ t) := by
  fun_induction readLines n base closing ls generalizing ts with
  | case1 => cases h
  | case2 => cases h
  | case3 l ls s hs hc =>
    cases h
    obtain ⟨b, hb, hl⟩ := exists_of_dropBytes? (Nat.min_le_left _ _) hs
    have htrim : trim (trimRight s) = l.trimmed := by
      rw [trim_trimRight, Line.trimmed, hl, trim_blanks_append hb]
    refine ⟨?_, ?_, [l], rfl, by rw [List.map_singleton, List.map_singleton, htrim], ?_⟩
    · rw [EndsAt, htrim, if_pos hc]
    · simpa using endsDark_trimRight s
    · intro hn t ht hm
      rw [List.mem_singleton.1 ht] at hm
      apply hn l (List.mem_singleton_self l)
      rw [hl]
      exact List.mem_append_right _ (mem_of_mem_trimRight hm)
  | case4 l ls s hs hc ih =>
    obtain ⟨⟨us, rest'⟩, hr, he⟩ := exists_of_map h
    cases he
    obtain ⟨b, hb, hl⟩ := exists_of_dropBytes? (Nat.min_le_left _ _) hs
    have htrim : trim (trimRight s) = l.trimmed := by
      rw [trim_trimRight, Line.trimmed, hl, trim_blanks_append hb]
    obtain ⟨hend, hdark, taken, rfl, htaken, hnewline⟩ := ih hr
    refine ⟨?_, ?_, l :: taken, rfl, by rw [List.map_cons, List.map_cons, htrim, htaken], ?_⟩
    · rw [EndsAt, htrim, if_neg hc]
      exact hend
    · simpa using ⟨endsDark_trimRight s, hdark⟩
    · intro hn t ht hm
      rcases List.mem_cons.1 ht with rfl | ht
      · apply hn l (List.mem_cons_self ..)
        rw [hl]
        exact List.mem_append_right _ (mem_of_mem_trimRight hm)
      · exact hnewline (fun k hk => hn k (List.mem_cons_of_mem _ hk)) t ht hm

theorem suffix_of_readBlock {closing : Text} {first : Line} {ls rest : List Line} {d : Directive}
    (h : readBlock closing first ls = .ok (d, rest)) : rest <:+ ls := by
  obtain ⟨⟨ts, rest'⟩, hr, he⟩ := exists_of_map h
  cases he
  obtain ⟨-, -, taken, hs, -⟩ := exists_of_readLines hr
  exact ⟨taken, hs.symm⟩

/-- A block that was read is one. -/
theorem exists_of_readBlock {opening closing : Text} {first : Line} {ls rest : List Line}
    {d : Directive} (h : readBlock closing first ls = .ok (d, rest))
    (hopening : startsWith opening first.trimmed = true)
    (hn : ∀ l ∈ first :: ls, '\n' ∉ l.text) :
    d.IsBlock opening closing ∧ ∃ taken, ls = taken ++ rest ∧
      (first :: taken).map Line.trimmed = d.lines.map trim := by
  obtain ⟨⟨ts, rest'⟩, hr, he⟩ := exists_of_map h
  cases he
  obtain ⟨hend, hdark, taken, rfl, htaken, hnewline⟩ := exists_of_readLines hr
  have hkept : ∀ t ∈ ts, Kept t := by
    intro t ht
    refine ⟨hdark t ht, hnewline (fun l hl => hn l ?_) t ht⟩
    exact List.mem_cons_of_mem _ (List.mem_append_left _ hl)
  refine ⟨⟨first.trimmed, ts, rfl, ?_, hopening, hkept, hend⟩, taken, rfl, ?_⟩
  · exact neat_trim (hn first (List.mem_cons_self ..))
  · rw [List.map_cons, List.map_cons, htaken, Line.trimmed, trim_trim]

end Directive

end DalvikPatch
