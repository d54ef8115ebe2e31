import DalvikPatch.Text.Blank
import Mathlib.Data.List.DropRight
import Mathlib.Data.List.TakeWhile

/-! Blanks and what is cut along them. A text is blanks around its trimmed middle; words, lines and
indentation are found again in what is put together from them. -/

namespace DalvikPatch.Text

/-- What is said of the characters of a text is decided along it, and not over all characters. -/
instance (priority := high) decidableForallMem (p : Char → Prop) [DecidablePred p] (s : Text) :
    Decidable (∀ c ∈ s, p c) := List.decidableBAll p s

instance (priority := high) decidableForallOption (p : Char → Prop) [DecidablePred p]
    (o : Option Char) : Decidable (∀ c ∈ o, p c) := Option.decidableForallMem o

/-- Nothing but blanks. -/
def Blanks (s : Text) : Prop := ∀ c ∈ s, isBlank c

instance (s : Text) : Decidable (Blanks s) := inferInstanceAs (Decidable (∀ c ∈ s, _))

/-- No blank at the start. -/
def StartsDark (s : Text) : Prop := ∀ c ∈ s.head?, ¬ isBlank c

/-- A blank at the start, or nothing at all. -/
def StartsBlank (s : Text) : Prop := ∀ c ∈ s.head?, isBlank c

/-- No blank at the end. -/
def EndsDark (s : Text) : Prop := ∀ c ∈ s.getLast?, ¬ isBlank c

instance (s : Text) : Decidable (StartsDark s) := inferInstanceAs (Decidable (∀ c ∈ s.head?, _))

instance (s : Text) : Decidable (StartsBlank s) := inferInstanceAs (Decidable (∀ c ∈ s.head?, _))

instance (s : Text) : Decidable (EndsDark s) := inferInstanceAs (Decidable (∀ c ∈ s.getLast?, _))

/-- A text without blanks that is not empty. -/
structure IsWord (w : Text) : Prop where
  ne_nil : w ≠ []
  dark : ∀ c ∈ w, ¬ isBlank c

/-- The code points of the blanks. -/
def blankCodes : List Nat := [9, 10, 11, 12, 13, 0x20, 0x85, 0xa0, 0x1680, 0x2000, 0x2001, 0x2002,
  0x2003, 0x2004, 0x2005, 0x2006, 0x2007, 0x2008, 0x2009, 0x200a, 0x2028, 0x2029, 0x202f, 0x205f,
  0x3000]

/-- What holds of each of the twenty-five holds of every blank. -/
theorem of_isBlank {q : Char → Prop} (h : ∀ n ∈ blankCodes, q (Char.ofNat n)) {c : Char}
    (hc : isBlank c) : q c := by
  have hmem : c.toNat ∈ blankCodes := by
    simp only [isBlank, Bool.or_eq_true, Bool.and_eq_true, decide_eq_true_eq, beq_iff_eq] at hc
    simp only [blankCodes, List.mem_cons, List.not_mem_nil, or_false]
    omega
  have := h c.toNat hmem
  rwa [Char.ofNat_toNat] at this

theorem blanks_nil : Blanks [] := by simp [Blanks]

theorem Blanks.append {a b : Text} (ha : Blanks a) (hb : Blanks b) : Blanks (a ++ b) := by
  intro c hc
  rcases List.mem_append.1 hc with hc | hc
  · exact ha c hc
  · exact hb c hc

theorem StartsDark.append {s : Text} (t : Text) (hs : s ≠ []) (h : StartsDark s) :
    StartsDark (s ++ t) := by
  rw [StartsDark, List.head?_append_of_ne_nil s hs]
  exact h

theorem EndsDark.append {t : Text} (s : Text) (ht : t ≠ []) (h : EndsDark t) :
    EndsDark (s ++ t) := by
  rw [EndsDark, List.getLast?_append_of_ne_nil s ht]
  exact h

theorem IsWord.startsDark {w : Text} (h : IsWord w) : StartsDark w :=
  fun c hc => h.dark c (List.mem_of_mem_head? hc)

theorem IsWord.endsDark {w : Text} (h : IsWord w) : EndsDark w :=
  fun c hc => h.dark c (List.mem_of_mem_getLast? hc)

/-! ### Trimming -/

theorem trimLeft_blanks_append {b : Text} (hb : Blanks b) (s : Text) :
    trimLeft (b ++ s) = trimLeft s :=
  List.dropWhile_append_of_pos hb

theorem trimRight_append_blanks (s : Text) {b : Text} (hb : Blanks b) :
    trimRight (s ++ b) = trimRight s := by
  have hr : ∀ c ∈ b.reverse, isBlank c := fun c hc => hb c (List.mem_reverse.1 hc)
  rw [trimRight, List.reverse_append, List.dropWhile_append_of_pos hr, trimRight]

theorem trimLeft_eq_self {s : Text} (h : StartsDark s) : trimLeft s = s := by
  cases s with
  | nil => rfl
  | cons c s => exact List.dropWhile_cons_of_neg (h c rfl)

theorem trimRight_eq_self {s : Text} (h : EndsDark s) : trimRight s = s := by
  have : trimLeft s.reverse = s.reverse := by
    apply trimLeft_eq_self
    intro c hc
    rw [List.head?_reverse] at hc
    exact h c hc
  rw [trimRight, ← trimLeft, this, List.reverse_reverse]

theorem startsDark_trimLeft (s : Text) : StartsDark (trimLeft s) := by
  intro c hc hb
  have := List.head?_dropWhile_not isBlank s
  rw [trimLeft] at hc
  simp_all

theorem endsDark_trimRight (s : Text) : EndsDark (trimRight s) := by
  intro c hc
  rw [trimRight, List.getLast?_reverse] at hc
  exact startsDark_trimLeft s.reverse c hc

theorem exists_trimLeft (s : Text) : ∃ b, Blanks b ∧ s = b ++ trimLeft s :=
  ⟨s.takeWhile isBlank, fun _ hc => List.mem_takeWhile_imp hc, (List.takeWhile_append_dropWhile).symm⟩

theorem exists_trimRight (s : Text) : ∃ b, Blanks b ∧ s = trimRight s ++ b := by
  obtain ⟨b, hb, hs⟩ := exists_trimLeft s.reverse
  refine ⟨b.reverse, fun c hc => hb c (List.mem_reverse.1 hc), ?_⟩
  rw [trimRight, ← List.reverse_append, ← trimLeft, ← hs, List.reverse_reverse]

theorem exists_trim (s : Text) : ∃ a b, Blanks a ∧ Blanks b ∧ s = a ++ trim s ++ b := by
  obtain ⟨a, ha, hs⟩ := exists_trimLeft s
  obtain ⟨b, hb, ht⟩ := exists_trimRight (trimLeft s)
  exact ⟨a, b, ha, hb, by rw [trim, List.append_assoc, ← ht, ← hs]⟩

theorem mem_of_mem_trimRight {c : Char} {s : Text} (h : c ∈ trimRight s) : c ∈ s := by
  obtain ⟨b, -, hs⟩ := exists_trimRight s
  rw [hs]
  exact List.mem_append_left _ h

theorem mem_of_mem_trim {c : Char} {s : Text} (h : c ∈ trim s) : c ∈ s := by
  obtain ⟨a, b, -, -, hs⟩ := exists_trim s
  rw [hs]
  exact List.mem_append_left _ (List.mem_append_right _ h)

theorem trimRight_append (s : Text) {t : Text} (ht : trimRight t ≠ []) :
    trimRight (s ++ t) = s ++ trimRight t := by
  obtain ⟨b, hb, h⟩ := exists_trimRight t
  rw [h, ← List.append_assoc, trimRight_append_blanks _ hb, trimRight_append_blanks _ hb,
    trimRight_eq_self ((endsDark_trimRight t).append s ht), trimRight_eq_self (endsDark_trimRight t)]

theorem trimRight_append_of_endsDark {s : Text} (hs : EndsDark s) (t : Text) :
    trimRight (s ++ t) = s ++ trimRight t := by
  by_cases ht : trimRight t = []
  · obtain ⟨b, hb, h⟩ := exists_trimRight t
    rw [ht, List.nil_append] at h
    rw [ht, List.append_nil, h, trimRight_append_blanks s hb, trimRight_eq_self hs]
  · exact trimRight_append s ht

theorem head?_of_trimRight {s : Text} {c : Char} (h : c ∈ (trimRight s).head?) : c ∈ s.head? := by
  obtain ⟨b, -, hs⟩ := exists_trimRight s
  rw [hs, List.head?_append, h]
  rfl

theorem startsDark_trimRight {s : Text} (h : StartsDark s) : StartsDark (trimRight s) :=
  fun c hc => h c (head?_of_trimRight hc)

theorem startsBlank_trimRight {s : Text} (h : StartsBlank s) : StartsBlank (trimRight s) :=
  fun c hc => h c (head?_of_trimRight hc)

theorem startsDark_trim (s : Text) : StartsDark (trim s) :=
  startsDark_trimRight (startsDark_trimLeft s)

theorem endsDark_trim (s : Text) : EndsDark (trim s) := endsDark_trimRight _

theorem trim_eq_self {s : Text} (hs : StartsDark s) (he : EndsDark s) : trim s = s := by
  rw [trim, trimLeft_eq_self hs, trimRight_eq_self he]

theorem trim_trim (s : Text) : trim (trim s) = trim s :=
  trim_eq_self (startsDark_trim s) (endsDark_trim s)

theorem trim_blanks_append {b : Text} (hb : Blanks b) (s : Text) : trim (b ++ s) = trim s := by
  rw [trim, trimLeft_blanks_append hb, trim]

theorem trim_of_blanks {b : Text} (hb : Blanks b) : trim b = [] := by
  rw [← List.append_nil b, trim_blanks_append hb]
  rfl

theorem trim_append_blanks (s : Text) {b : Text} (hb : Blanks b) : trim (s ++ b) = trim s := by
  obtain ⟨a, ha, hs⟩ := exists_trimLeft s
  cases ht : trimLeft s with
  | nil =>
    rw [ht, List.append_nil] at hs
    rw [trim_of_blanks (hs ▸ ha.append hb), trim_of_blanks (hs ▸ ha)]
  | cons c t =>
    have hd : StartsDark (c :: t) := ht ▸ startsDark_trimLeft s
    rw [hs, ht, List.append_assoc, trim_blanks_append ha, trim_blanks_append ha, trim,
      trimLeft_eq_self (hd.append b (List.cons_ne_nil c t)), trimRight_append_blanks _ hb, trim,
      trimLeft_eq_self hd]

theorem trim_trimRight (s : Text) : trim (trimRight s) = trim s := by
  obtain ⟨b, hb, hs⟩ := exists_trimRight s
  conv_rhs => rw [hs]
  exact (trim_append_blanks _ hb).symm

theorem trim_eq_trimRight {s : Text} (h : StartsDark s) : trim s = trimRight s := by
  rw [trim, trimLeft_eq_self h]

theorem head?_trim {s : Text} (h : StartsDark s) : (trim s).head? = s.head? := by
  rw [trim_eq_trimRight h]
  obtain ⟨b, hb, hs⟩ := exists_trimRight s
  by_cases ht : trimRight s = []
  · have hblank : Blanks s := by rwa [hs, ht, List.nil_append]
    cases s with
    | nil => rfl
    | cons c s => exact absurd (hblank c (List.mem_cons_self ..)) (h c rfl)
  · conv_rhs => rw [hs]
    exact (List.head?_append_of_ne_nil _ ht).symm

theorem trim_of_isWord {w : Text} (h : IsWord w) : trim w = w :=
  trim_eq_self h.startsDark h.endsDark

/-! ### Words -/

theorem words_cons (c : Char) (s : Text) : words (c :: s) =
    if isBlank c then words s
    else match s, words s with
      | [], _ => [[c]]
      | _ :: _, [] => [[c]]
      | d :: _, w :: ws => if isBlank d then [c] :: w :: ws else (c :: w) :: ws := rfl

theorem words_cons_blank {c : Char} (hc : isBlank c) (s : Text) : words (c :: s) = words s := by
  rw [words_cons, if_pos hc]

theorem words_cons_of_blank_next {c : Char} (hc : ¬ isBlank c) {s : Text}
    (hs : ∀ d ∈ s.head?, isBlank d) : words (c :: s) = [c] :: words s := by
  rw [words_cons, if_neg hc]
  cases s with
  | nil => rfl
  | cons d s =>
    have hd : isBlank d := hs d rfl
    cases words (d :: s) <;> simp [hd]

theorem words_ne_nil {c : Char} (hc : ¬ isBlank c) (s : Text) : words (c :: s) ≠ [] := by
  rw [words_cons, if_neg hc]
  cases s with
  | nil => simp
  | cons d s =>
    cases words (d :: s) with
    | nil => simp
    | cons w ws => by_cases hd : isBlank d <;> simp [hd]

theorem words_cons_cons {c d : Char} (hc : ¬ isBlank c) (hd : ¬ isBlank d) {s w : Text}
    {ws : List Text} (h : words (d :: s) = w :: ws) : words (c :: d :: s) = (c :: w) :: ws := by
  rw [words_cons, if_neg hc, h]
  simp [hd]

/-- A word is found again if a blank or the end follows it. -/
theorem words_word_append {w : Text} (hw : IsWord w) {s : Text} (hs : ∀ d ∈ s.head?, isBlank d) :
    words (w ++ s) = w :: words s := by
  induction w with
  | nil => exact absurd rfl hw.ne_nil
  | cons c w ih =>
    have hc : ¬ isBlank c := hw.dark c (List.mem_cons_self ..)
    cases w with
    | nil => exact words_cons_of_blank_next hc hs
    | cons d w =>
      have hd : IsWord (d :: w) :=
        ⟨List.cons_ne_nil d w, fun x hx => hw.dark x (List.mem_cons_of_mem _ hx)⟩
      exact words_cons_cons hc (hd.dark d (List.mem_cons_self ..)) (ih hd)

theorem words_of_isWord {w : Text} (hw : IsWord w) : words w = [w] := by
  have := words_word_append hw (s := []) (by simp)
  rwa [List.append_nil] at this

/-- A blank parts the words. -/
theorem words_append_cons_blank (a : Text) {c : Char} (hc : isBlank c) (s : Text) :
    words (a ++ c :: s) = words a ++ words s := by
  induction a with
  | nil => exact words_cons_blank hc s
  | cons d a ih =>
    rw [List.cons_append]
    by_cases hd : isBlank d
    · rw [words_cons_blank hd, words_cons_blank hd, ih]
    · cases a with
      | nil =>
        rw [words_cons_of_blank_next hd (by simpa using hc), words_cons_of_blank_next hd (by simp),
          ih]
        rfl
      | cons e a =>
        by_cases he : isBlank e
        · rw [words_cons_of_blank_next hd (by simpa using he), ih,
            words_cons_of_blank_next hd (by simpa using he)]
          rfl
        · obtain ⟨w, ws, hw⟩ := List.exists_cons_of_ne_nil (words_ne_nil he a)
          rw [hw, List.cons_append] at ih
          rw [List.cons_append, words_cons_cons hd he ih, words_cons_cons hd he hw]
          rfl

theorem isWord_of_mem_words {w s : Text} (h : w ∈ words s) : IsWord w := by
  induction s generalizing w with
  | nil => cases h
  | cons c s ih =>
    by_cases hc : isBlank c
    · rw [words_cons_blank hc] at h
      exact ih h
    · cases s with
      | nil =>
        obtain rfl : w = [c] := by
          rw [words_cons_of_blank_next hc (by simp)] at h
          exact List.mem_singleton.1 h
        exact ⟨by simp, by simpa using hc⟩
      | cons d s =>
        by_cases hd : isBlank d
        · rw [words_cons_of_blank_next hc (by simpa using hd)] at h
          rcases List.mem_cons.1 h with rfl | h
          · exact ⟨by simp, by simpa using hc⟩
          · exact ih h
        · obtain ⟨v, ws, hv⟩ := List.exists_cons_of_ne_nil (words_ne_nil hd s)
          rw [words_cons_cons hc hd hv] at h
          rcases List.mem_cons.1 h with rfl | h
          · have hvw : IsWord v := ih (by simp [hv])
            exact ⟨by simp, by simpa using ⟨by simpa using hc, fun x hx => by
              simpa using hvw.dark x hx⟩⟩
          · exact ih (by simp [hv, h])

/-- A text with a word in it starts with blanks, the word, and a blank or the end. -/
theorem exists_of_words_eq_cons {s w : Text} {ws : List Text} (h : words s = w :: ws) :
    ∃ a r, s = a ++ w ++ r ∧ Blanks a ∧ (∀ d ∈ r.head?, isBlank d) ∧ words r = ws := by
  have hw : IsWord w := isWord_of_mem_words (by rw [h]; exact List.mem_cons_self ..)
  induction s generalizing w with
  | nil => cases h
  | cons c s ih =>
    by_cases hc : isBlank c
    · rw [words_cons_blank hc] at h
      obtain ⟨a, r, rfl, ha, hr, hws⟩ := ih h hw
      exact ⟨c :: a, r, rfl, by simpa [Blanks] using ⟨hc, ha⟩, hr, hws⟩
    · by_cases hs : ∀ d ∈ s.head?, isBlank d
      · rw [words_cons_of_blank_next hc hs] at h
        cases h
        exact ⟨[], s, rfl, blanks_nil, hs, rfl⟩
      · cases s with
        | nil => simp at hs
        | cons d s =>
          have hd : ¬ isBlank d := by simpa using hs
          obtain ⟨v, vs, hv⟩ := List.exists_cons_of_ne_nil (words_ne_nil hd s)
          rw [words_cons_cons hc hd hv] at h
          cases h
          obtain ⟨a, r, hs', ha, hr, hws⟩ := ih hv (isWord_of_mem_words (by rw [hv]; simp))
          cases a with
          | nil => exact ⟨[], r, congrArg (c :: ·) hs', blanks_nil, hr, hws⟩
          | cons x a =>
            obtain rfl : d = x := (List.cons.inj hs').1
            exact absurd (ha d (List.mem_cons_self ..)) hd

theorem blanks_of_words_eq_nil {s : Text} (h : words s = []) : Blanks s := by
  induction s with
  | nil => exact blanks_nil
  | cons c s ih =>
    have hc : isBlank c := by
      by_contra hc
      exact words_ne_nil hc s h
    rw [words_cons_blank hc] at h
    simpa [Blanks] using ⟨hc, ih h⟩

theorem words_blanks_append {b : Text} (hb : Blanks b) (s : Text) : words (b ++ s) = words s := by
  induction b with
  | nil => rfl
  | cons c b ih =>
    rw [List.cons_append, words_cons_blank (hb c (List.mem_cons_self ..))]
    exact ih fun d hd => hb d (List.mem_cons_of_mem _ hd)

/-- Before the last word stand other words and blanks, after it blanks only, and another word may stand in
its place. -/
theorem exists_of_words_eq_append {s w : Text} {ws : List Text} (h : words s = ws ++ [w]) :
    ∃ pre b, s = pre ++ w ++ b ∧ Blanks b ∧ (∀ c ∈ pre, isBlank c ∨ ∃ v ∈ ws, c ∈ v) ∧
      ∀ u, IsWord u → words (pre ++ u) = ws ++ [u] := by
  induction ws generalizing s with
  | nil =>
    obtain ⟨a, r, rfl, ha, -, hr⟩ := exists_of_words_eq_cons h
    refine ⟨a, r, rfl, blanks_of_words_eq_nil hr, fun c hc => .inl (ha c hc), fun u hu => ?_⟩
    rw [words_blanks_append ha, words_of_isWord hu]
    rfl
  | cons v ws ih =>
    have hv : IsWord v := isWord_of_mem_words (s := s) (by rw [h]; simp)
    have hw : IsWord w := isWord_of_mem_words (s := s) (by rw [h]; simp)
    obtain ⟨a, r, rfl, ha, hblank, hr⟩ := exists_of_words_eq_cons h
    obtain ⟨pre, b, rfl, hb, hpre, hother⟩ := ih hr
    refine ⟨a ++ v ++ pre, b, by simp only [List.append_assoc], hb, ?_, fun u hu => ?_⟩
    · intro c hc
      rcases List.mem_append.1 hc with hc | hc
      · rcases List.mem_append.1 hc with hc | hc
        · exact .inl (ha c hc)
        · exact .inr ⟨v, List.mem_cons_self .., hc⟩
      · exact (hpre c hc).imp_right fun ⟨u, hu, hcu⟩ => ⟨u, List.mem_cons_of_mem _ hu, hcu⟩
    · -- a blank parts the words before from the last one
      obtain ⟨d, pre, rfl⟩ : ∃ d ds, pre = d :: ds := by
        cases pre with
        | cons d ds => exact ⟨d, ds, rfl⟩
        | nil =>
          obtain ⟨d, ds, rfl⟩ := List.exists_cons_of_ne_nil hw.ne_nil
          exact absurd (hblank d rfl) (hw.dark d (List.mem_cons_self ..))
      rw [List.append_assoc, List.append_assoc, words_blanks_append ha,
        words_word_append hv (fun c hc => hblank c (by simpa using hc)), hother u hu]
      rfl

/-! ### Lines -/

theorem lines_cons_of_ne {c : Char} {s : Text} :
    c ≠ '\n' → ¬ (c = '\r' ∧ s.head? = some '\n') → lines (c :: s) = match s, lines s with
      | [], _ => [[c]]
      | _ :: _, [] => [[c]]
      | _ :: _, l :: ls => (c :: l) :: ls := by
  intro hc hs
  rw [lines.eq_def]
  split
  · next h => cases h
  · next h => cases h; exact absurd rfl hc
  · next h => cases h; exact absurd ⟨rfl, rfl⟩ hs
  · next h => cases h; rfl

/-- A line that is ended is found again, if it does not itself end in what an end takes along. -/
theorem lines_append_newline {l : Text} (hl : '\n' ∉ l) (hr : l.getLast? ≠ some '\r') (s : Text) :
    lines (l ++ '\n' :: s) = l :: lines s := by
  induction l with
  | nil => rfl
  | cons c l ih =>
    have hc : c ≠ '\n' := fun h => hl (by simp [h])
    have hl' : '\n' ∉ l := fun h => hl (List.mem_cons_of_mem _ h)
    cases l with
    | nil =>
      have hcr : c ≠ '\r' := by simpa using hr
      rw [List.singleton_append, lines_cons_of_ne hc (fun h => hcr h.1)]
      simp [lines]
    | cons d l =>
      have hd : d ≠ '\n' := fun h => hl' (by simp [h])
      rw [List.cons_append, lines_cons_of_ne hc (by simp [hd]), ih hl' (by simpa using hr)]
      simp

theorem not_mem_of_mem_lines {l s : Text} (h : l ∈ lines s) : '\n' ∉ l := by
  fun_induction lines s generalizing l with
  | case1 => cases h
  | case2 cs ih =>
    rcases List.mem_cons.1 h with rfl | h
    · simp
    · exact ih h
  | case3 cs ih =>
    rcases List.mem_cons.1 h with rfl | h
    · simp
    · exact ih h
  | case4 c hc =>
    rw [List.mem_singleton.1 h]
    simpa using Ne.symm hc
  | case5 c hc d cs _ hw ih =>
    rw [hw] at h
    rw [List.mem_singleton.1 h]
    simpa using Ne.symm hc
  | case6 c hc d cs w ws _ hw ih =>
    rw [hw] at h
    rcases List.mem_cons.1 h with rfl | h
    · have hd : '\n' ∉ w := ih (by simp [hw])
      simpa [hd] using Ne.symm hc
    · exact ih (by simp [hw, h])

/-! ### Bytes -/

theorem byteSize_append (a b : Text) : byteSize (a ++ b) = byteSize a + byteSize b := by
  induction a with
  | nil => simp [byteSize]
  | cons c a ih => rw [List.cons_append, byteSize, ih, byteSize, Nat.add_assoc]

theorem indentation_blanks_append {b : Text} (hb : Blanks b) (s : Text) :
    indentation (b ++ s) = byteSize b + indentation s := by
  rw [indentation, List.takeWhile_append_of_pos hb, byteSize_append, indentation]

theorem indentation_of_startsDark {s : Text} (h : StartsDark s) : indentation s = 0 := by
  cases s with
  | nil => rfl
  | cons c s => rw [indentation, List.takeWhile_cons_of_neg (h c rfl), byteSize]

theorem dropBytes?_zero (s : Text) : dropBytes? 0 s = some s := by rw [dropBytes?]

theorem dropBytes?_append (b : Text) (k : Nat) (s : Text) :
    dropBytes? (byteSize b + k) (b ++ s) = dropBytes? k s := by
  induction b with
  | nil => rw [byteSize, Nat.zero_add, List.nil_append]
  | cons c b ih =>
    have hc : 0 < c.utf8Size := Char.utf8Size_pos c
    obtain ⟨n, hn⟩ := Nat.exists_eq_succ_of_ne_zero (n := byteSize (c :: b) + k) (by
      rw [byteSize]; omega)
    have hle : c.utf8Size ≤ n + 1 := by
      rw [byteSize] at hn; omega
    have hsub : n + 1 - c.utf8Size = byteSize b + k := by
      rw [byteSize] at hn; omega
    rw [hn, List.cons_append, dropBytes?, if_pos hle, hsub, ih]

/-- The first `n` bytes of a text end inside of one of the blanks that it starts with. -/
def SplitsBlank (n : Nat) (s : Text) : Prop :=
  ∃ b c r, s = b ++ c :: r ∧ Blanks b ∧ isBlank c ∧ byteSize b < n ∧ n < byteSize b + c.utf8Size

theorem blanks_cons {c : Char} {b : Text} (hc : isBlank c) (hb : Blanks b) : Blanks (c :: b) := by
  intro d hd
  rcases List.mem_cons.1 hd with rfl | hd
  · exact hc
  · exact hb d hd

theorem isBlank_of_lt_indentation {c : Char} {s : Text} {n : Nat} (h : n < indentation (c :: s)) :
    isBlank c ∧ indentation (c :: s) = c.utf8Size + indentation s := by
  have hc : isBlank c := by
    by_contra hc
    rw [indentation, List.takeWhile_cons_of_neg hc] at h
    exact Nat.not_lt_zero n h
  exact ⟨hc, by rw [indentation, List.takeWhile_cons_of_pos hc]; rfl⟩

theorem splitsBlank_cons {n : Nat} {c : Char} {s : Text} (hc : isBlank c) (hn : c.utf8Size ≤ n) :
    SplitsBlank n (c :: s) ↔ SplitsBlank (n - c.utf8Size) s := by
  constructor
  · rintro ⟨b, d, r, hs, hb, hd, hlt, hgt⟩
    cases b with
    | nil =>
      cases hs
      rw [byteSize] at hgt
      omega
    | cons x b =>
      cases hs
      rw [byteSize] at hlt hgt
      exact ⟨b, d, r, rfl, fun y hy => hb y (List.mem_cons_of_mem _ hy), hd, by omega, by omega⟩
  · rintro ⟨b, d, r, rfl, hb, hd, hlt, hgt⟩
    exact ⟨c :: b, d, r, rfl, blanks_cons hc hb, hd, by rw [byteSize]; omega, by rw [byteSize]; omega⟩

/-- Cutting inside of the indentation fails exactly where it splits a blank. -/
theorem dropBytes?_eq_none_iff {n : Nat} {s : Text} (hn : n ≤ indentation s) :
    dropBytes? n s = none ↔ SplitsBlank n s := by
  fun_induction dropBytes? n s with
  | case1 s => exact ⟨nofun, fun ⟨_, _, _, _, _, _, hlt, _⟩ => absurd hlt (Nat.not_lt_zero _)⟩
  | case2 n => exact absurd hn (Nat.not_succ_le_zero n)
  | case3 n c s hle ih =>
    obtain ⟨hc, hindent⟩ := isBlank_of_lt_indentation hn
    rw [ih (by omega), splitsBlank_cons hc hle]
  | case4 n c s hgt =>
    obtain ⟨hc, -⟩ := isBlank_of_lt_indentation hn
    refine ⟨fun _ => ⟨[], c, s, rfl, blanks_nil, hc, Nat.succ_pos n, ?_⟩, fun _ => rfl⟩
    rw [byteSize, Nat.zero_add]
    omega

theorem dropBytes?_min_eq_none_iff (n : Nat) (s : Text) :
    dropBytes? (min (indentation s) n) s = none ↔ SplitsBlank n s := by
  rcases Nat.le_total n (indentation s) with hn | hn
  · rw [Nat.min_eq_right hn]
    exact dropBytes?_eq_none_iff hn
  · -- all blanks are taken, and none of them is split
    rw [Nat.min_eq_left hn]
    refine ⟨fun h => ?_, ?_⟩
    · have hdrop := dropBytes?_append (s.takeWhile isBlank) 0 (s.dropWhile isBlank)
      rw [List.takeWhile_append_dropWhile, dropBytes?_zero, Nat.add_zero] at hdrop
      rw [indentation, hdrop] at h
      cases h
    · rintro ⟨b, c, r, rfl, hb, hc, -, hgt⟩
      have hindent : indentation (b ++ c :: r) = byteSize b + (c.utf8Size + indentation r) := by
        rw [indentation_blanks_append hb, indentation, List.takeWhile_cons_of_pos hc]
        rfl
      omega

theorem byteSize_of_width {w : Nat} {s : Text} (h : ∀ c ∈ s, c.utf8Size = w) :
    byteSize s = w * s.length := by
  induction s with
  | nil => rfl
  | cons c s ih =>
    rw [byteSize, ih fun d hd => h d (List.mem_cons_of_mem _ hd), h c (List.mem_cons_self ..),
      List.length_cons, Nat.mul_succ, Nat.add_comm]

/-- The blanks in front of a text have `w` bytes each. -/
def HasBlanksOf (w : Nat) (s : Text) : Prop := ∀ c ∈ s.takeWhile isBlank, c.utf8Size = w

instance (w : Nat) (s : Text) : Decidable (HasBlanksOf w s) :=
  inferInstanceAs (Decidable (∀ c ∈ s.takeWhile isBlank, c.utf8Size = w))

theorem HasBlanksOf.dvd_indentation {w : Nat} {s : Text} (h : HasBlanksOf w s) : w ∣ indentation s :=
  ⟨_, byteSize_of_width h⟩

/-- A number of whole blanks splits none. -/
theorem HasBlanksOf.not_splitsBlank {w n : Nat} {s : Text} (h : HasBlanksOf w s) (hn : w ∣ n) :
    ¬ SplitsBlank n s := by
  rintro ⟨b, c, r, rfl, hb, hc, hlt, hgt⟩
  obtain ⟨k, rfl⟩ := hn
  have hwidth : ∀ d ∈ b ++ [c], d.utf8Size = w := by
    intro d hd
    refine h d ?_
    rw [List.takeWhile_append_of_pos hb, List.takeWhile_cons_of_pos hc]
    simp only [List.mem_append, List.mem_cons, List.not_mem_nil, or_false] at hd ⊢
    exact hd.imp_right .inl
  rw [byteSize_of_width fun d hd => hwidth d (List.mem_append_left _ hd)] at hlt hgt
  rw [hwidth c (by simp), ← Nat.mul_succ] at hgt
  have hlow := Nat.lt_of_mul_lt_mul_left hlt
  have hhigh := Nat.lt_of_mul_lt_mul_left hgt
  omega

/-- Where the blanks of an indentation have one byte each, cutting inside of it splits none. -/
theorem dropBytes?_ne_none {s : Text} (h : HasBlanksOf 1 s) {k : Nat} (hk : k ≤ indentation s) :
    dropBytes? k s ≠ none :=
  fun hnone => h.not_splitsBlank (Nat.one_dvd k) ((dropBytes?_eq_none_iff hk).1 hnone)

/-- Cutting inside of the indentation takes away blanks. -/
theorem exists_of_dropBytes? {k : Nat} {s t : Text} (hk : k ≤ indentation s)
    (h : dropBytes? k s = some t) : ∃ b, Blanks b ∧ s = b ++ t := by
  fun_induction dropBytes? k s with
  | case1 s =>
    cases h
    exact ⟨[], blanks_nil, rfl⟩
  | case2 => cases h
  | case3 n c s hc ih =>
    obtain ⟨hb, hindent⟩ := isBlank_of_lt_indentation hk
    obtain ⟨b, hbb, rfl⟩ := ih (by omega) h
    exact ⟨c :: b, blanks_cons hb hbb, rfl⟩
  | case4 => cases h

/-! ### Starts -/

@[simp] theorem startsWith_append (w s : Text) : startsWith w (w ++ s) = true :=
  startsWith_iff.2 ⟨s, rfl⟩

/-- A text cannot start with two words of which neither starts with the other. -/
theorem startsWith_eq_false {v w s : Text} (h : startsWith v s = true)
    (hvw : startsWith v w = false) (hwv : startsWith w v = false) : startsWith w s = false := by
  rw [Bool.eq_false_iff]
  intro hw
  obtain ⟨a, rfl⟩ := startsWith_iff.1 h
  obtain ⟨b, hb⟩ := startsWith_iff.1 hw
  rcases List.append_eq_append_iff.1 hb with ⟨c, hc, -⟩ | ⟨c, hc, -⟩
  · rw [hc, startsWith_append] at hvw
    cases hvw
  · rw [hc, startsWith_append] at hwv
    cases hwv

theorem after?_eq_none_of_startsWith {v w s : Text} (h : startsWith v s = true)
    (hvw : startsWith v w = false) (hwv : startsWith w v = false) : after? w s = none := by
  have := startsWith_eq_false h hvw hwv
  rwa [startsWith, Option.isSome_eq_false_iff, Option.isNone_iff_eq_none] at this

theorem after?_eq_none_of_head {w s : Text} (h : ∀ c ∈ s.head?, some c ≠ w.head?) (hw : w ≠ []) :
    after? w s = none := by
  cases w with
  | nil => exact absurd rfl hw
  | cons d w =>
    cases s with
    | nil => rfl
    | cons c s =>
      have : d ≠ c := fun hd => h c rfl (congrArg some hd.symm)
      rw [after?, if_neg this]

theorem startsWith_eq_false_of_head {w s : Text} (h : ∀ c ∈ s.head?, some c ≠ w.head?)
    (hw : w ≠ []) : startsWith w s = false := by
  rw [startsWith, after?_eq_none_of_head h hw, Option.isSome_none]

end DalvikPatch.Text
