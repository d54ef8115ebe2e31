import DalvikPatch.Proofs.Comments
import DalvikPatch.Instruction.Reader

/-! Registers, their lists and ranges, and labels: operands without strings. What is written is read
back, and what is read is passed over without opening a string. -/

namespace DalvikPatch

open Text

namespace Text

/-- No space in front. -/
def Unspaced (s : Text) : Prop := ∀ c ∈ s.head?, ¬ isSpace c

theorem skipSpaces_eq_self {s : Text} (h : Unspaced s) : skipSpaces s = s := by
  cases s with
  | nil => rfl
  | cons c s => exact List.dropWhile_cons_of_neg (h c rfl)

theorem unspaced_skipSpaces (s : Text) : Unspaced (skipSpaces s) := by
  intro c hc hs
  have := List.head?_dropWhile_not isSpace s
  rw [skipSpaces] at hc
  simp_all

theorem isBlank_of_isSpace {c : Char} (h : isSpace c) : isBlank c := by
  rw [isSpace, Bool.or_eq_true, beq_iff_eq, beq_iff_eq] at h
  rcases h with rfl | rfl <;> decide

theorem StartsDark.unspaced {s : Text} (h : StartsDark s) : Unspaced s :=
  fun c hc hs => h c hc (isBlank_of_isSpace hs)

/-- A text is passed over up to `r` by plain characters only. -/
def Passes (s r : Text) : Prop := ∃ u, s = u ++ r ∧ ∀ c ∈ u, IsPlain c

theorem Passes.refl (s : Text) : Passes s s := ⟨[], rfl, by simp⟩

theorem Passes.trans {s t r : Text} (h : Passes s t) (h' : Passes t r) : Passes s r := by
  obtain ⟨u, rfl, hu⟩ := h
  obtain ⟨v, rfl, hv⟩ := h'
  refine ⟨u ++ v, (List.append_assoc ..).symm, ?_⟩
  intro c hc
  exact (List.mem_append.1 hc).elim (hu c) (hv c)

theorem Passes.quiet {s r : Text} (h : Passes s r) {p : Literal} (hp : p ≠ .guarded)
    (hs : Quiet p s) : Quiet p r := by
  obtain ⟨u, rfl, hu⟩ := h
  exact (quiet_plain_append hp hu r).1 hs

theorem Passes.mem {s r : Text} (h : Passes s r) {c : Char} (hc : c ∈ r) : c ∈ s := by
  obtain ⟨u, rfl, -⟩ := h
  exact List.mem_append_right _ hc

theorem passes_skipSpaces (s : Text) : Passes s (skipSpaces s) :=
  ⟨s.takeWhile isSpace, List.takeWhile_append_dropWhile.symm, fun _ hc =>
    isPlain_of_isBlank (isBlank_of_isSpace (List.mem_takeWhile_imp hc))⟩

theorem passes_after? {w s r : Text} (hw : ∀ c ∈ w, IsPlain c) (h : after? w s = some r) :
    Passes s r :=
  ⟨w, eq_append_of_after? h, hw⟩

/-- One more operand, behind its comma. -/
def further (s : Text) : Text := ", " ++ s

theorem further_append (s t : Text) : further s ++ t = further (s ++ t) :=
  List.append_assoc ..

theorem join_cons (w : Text) (ws : List Text) : join ", " (w :: ws) = w ++ ws.flatMap further := by
  induction ws generalizing w with
  | nil => simp [join]
  | cons v ws ih =>
    rw [join, ih, List.flatMap_cons, further]
    · simp
    · simp

end Text

namespace Register

/-! ### Registers -/

theorem read?_text (r : Register) {s : Text} (hs : Separated s) :
    read? (r.text ++ s) = some (r, s) := by
  cases r with
  | v n => simp [text, read?, Numeral.readUInt16?_decimal n hs]
  | p n => simp [text, read?, Numeral.readUInt16?_decimal n hs]

theorem isPlain_of_mem_text {r : Register} {c : Char} (h : c ∈ r.text) : IsPlain c := by
  cases r with
  | v n =>
    rcases List.mem_cons.1 h with rfl | h
    · decide
    · exact Numeral.isPlain_of_mem_decimal h
  | p n =>
    rcases List.mem_cons.1 h with rfl | h
    · decide
    · exact Numeral.isPlain_of_mem_decimal h

theorem unspaced_text_append (r : Register) (s : Text) : Unspaced (r.text ++ s) := by
  cases r <;> intro c hc <;> cases hc <;> decide

theorem passes_of_read? {s : Text} {q : Register × Text} (h : read? s = some q) :
    Passes s q.2 := by
  have number : ∀ {x : Char} {t : Text} {k : UInt16 × Text}, IsPlain x →
      Numeral.readUInt16? t = some k → Passes (x :: t) k.2 := by
    intro x t k hx hk
    obtain ⟨⟨n, r⟩, hj, rfl⟩ := Option.map_eq_some_iff.1 hk
    obtain ⟨u, rfl, hu⟩ := Numeral.exists_of_read? hj
    refine ⟨x :: u, rfl, ?_⟩
    intro c hc
    rcases List.mem_cons.1 hc with rfl | hc
    · exact hx
    · exact hu c hc
  unfold read? at h
  split at h
  · obtain ⟨k, hk, rfl⟩ := Option.map_eq_some_iff.1 h
    exact number (by decide) hk
  · obtain ⟨k, hk, rfl⟩ := Option.map_eq_some_iff.1 h
    exact number (by decide) hk
  · cases h

/-! ### Commas and lists -/

theorem readComma?_further {s : Text} (hs : Unspaced s) : readComma? (further s) = some s := by
  have hcomma : skipSpaces (further s) = further s :=
    skipSpaces_eq_self fun c hc => by cases hc; decide
  have hspace : skipSpaces (' ' :: s) = skipSpaces s := List.dropWhile_cons_of_pos (by decide)
  rw [readComma?, hcomma]
  simp [further, after?, hspace, skipSpaces_eq_self hs]

theorem passes_of_readComma? {s r : Text} (h : readComma? s = some r) : Passes s r := by
  obtain ⟨t, ht, rfl⟩ := Option.map_eq_some_iff.1 h
  exact (passes_skipSpaces s).trans ((passes_after? (by decide) ht).trans (passes_skipSpaces t))

theorem readComma?_close (s : Text) : readComma? ('}' :: s) = none := rfl

theorem separated_more (rs : List Register) (s : Text) :
    Separated (rs.flatMap (further ·.text) ++ '}' :: s) := by
  cases rs with
  | nil => exact separated_cons (c := '}') (by simp) s
  | cons r rs => exact separated_cons (c := ',') (by simp) _

theorem readMore_append (rs : List Register) (s : Text) :
    readMore (rs.flatMap (further ·.text) ++ '}' :: s) = (rs, '}' :: s) := by
  induction rs with
  | nil =>
    rw [List.flatMap_nil, List.nil_append, readMore]
    split
    · rfl
    · next h => rw [readComma?_close] at h; cases h
  | cons r rs ih =>
    have hcomma := readComma?_further
      (r.unspaced_text_append (rs.flatMap (further ·.text) ++ '}' :: s))
    have hread := r.read?_text (separated_more rs s)
    rw [List.flatMap_cons, List.append_assoc, further_append, readMore]
    split
    · next h => rw [hcomma] at h; cases h
    · next t ht =>
      rw [hcomma] at ht
      cases ht
      split
      · next h => rw [hread] at h; cases h
      · next q hq =>
        rw [hread] at hq
        cases hq
        rw [ih]

/-- The registers of a list between its braces. -/
def listText (rs : List Register) : Text := braced (join ", " (rs.map text))

theorem readList?_listText (rs : List Register) (s : Text) :
    readList? (listText rs ++ s) = some (rs, s) := by
  cases rs with
  | nil => rfl
  | cons r rs =>
    have hs : listText (r :: rs) ++ s =
        '{' :: (r.text ++ (rs.flatMap (further ·.text) ++ '}' :: s)) := by
      rw [listText, braced, List.map_cons, join_cons, List.flatMap_map]
      simp only [List.append_assoc]
      rfl
    have hread := r.read?_text (separated_more rs s)
    have hclose : skipSpaces ('}' :: s) = '}' :: s := rfl
    rw [hs, readList?]
    simp [after?, skipSpaces_eq_self (r.unspaced_text_append _), hread, readMore_append, hclose]

theorem passes_readMore (s : Text) : Passes s (readMore s).2 := by
  fun_induction readMore s with
  | case1 => exact .refl _
  | case2 => exact .refl _
  | case3 s r hr q hq ih => exact (passes_of_readComma? hr).trans ((passes_of_read? hq).trans ih)

theorem passes_of_readList? {s r : Text} {rs : List Register} (h : readList? s = some (rs, r)) :
    Passes s r := by
  simp only [readList?, Option.bind_eq_bind, Option.bind_eq_some_iff] at h
  obtain ⟨a, ha, b, hb, he⟩ := h
  cases he
  refine (passes_after? (by decide) ha).trans ((passes_skipSpaces a).trans ?_)
  have hclose := (passes_skipSpaces _).trans (passes_after? (by decide) hb)
  cases hq : read? (skipSpaces a) with
  | none =>
    rw [hq] at hclose
    exact hclose
  | some q =>
    rw [hq] at hclose
    exact (passes_of_read? hq).trans ((passes_readMore q.2).trans hclose)

theorem isPlain_of_mem_listText {rs : List Register} {c : Char} (h : c ∈ listText rs) :
    IsPlain c := by
  have fixed : ∀ w : Text, (∀ d ∈ w, IsPlain d) → c ∈ w → IsPlain c := fun w hw hc => hw c hc
  rw [listText, mem_braced] at h
  rcases h with rfl | h | rfl
  · decide
  · cases rs with
    | nil => cases h
    | cons r rs =>
      rw [List.map_cons, join_cons, List.flatMap_map] at h
      rcases List.mem_append.1 h with h | h
      · exact isPlain_of_mem_text h
      · obtain ⟨q, -, hq⟩ := List.mem_flatMap.1 h
        rcases List.mem_append.1 hq with hq | hq
        · exact fixed _ (by decide) hq
        · exact isPlain_of_mem_text hq
  · decide

end Register

namespace RegisterRange

theorem read?_text (r : RegisterRange) (s : Text) : read? (r.text ++ s) = some (r, s) := by
  have hs : r.text ++ s =
      '{' :: (r.first.text ++ (" .. " ++ (r.last.text ++ '}' :: s))) := by
    simp [text, braced]
  have hfirst := r.first.read?_text (s := " .. " ++ (r.last.text ++ '}' :: s))
    (separated_cons (c := ' ') (by simp) _)
  have hlast := r.last.read?_text (s := '}' :: s) (separated_cons (by simp) _)
  have hdots : skipSpaces (" .. " ++ (r.last.text ++ '}' :: s)) =
      ".." ++ (' ' :: (r.last.text ++ '}' :: s)) := rfl
  have hspace : skipSpaces (' ' :: (r.last.text ++ '}' :: s)) = r.last.text ++ '}' :: s := by
    rw [skipSpaces, List.dropWhile_cons_of_pos (by decide), ← skipSpaces,
      skipSpaces_eq_self (r.last.unspaced_text_append _)]
  have hclose : skipSpaces ('}' :: s) = '}' :: s := rfl
  have hopen : after? ['{'] ('{' :: (r.first.text ++ (" .. " ++ (r.last.text ++ '}' :: s)))) =
      some (r.first.text ++ (" .. " ++ (r.last.text ++ '}' :: s))) := rfl
  have hend : after? ['}'] ('}' :: s) = some s := rfl
  rw [hs, read?]
  simp only [hopen, Option.bind_eq_bind, Option.bind_some,
    skipSpaces_eq_self (r.first.unspaced_text_append _), hfirst, hdots, after?_append, hspace, hlast,
    hclose, hend]

theorem passes_of_read? {s t : Text} {r : RegisterRange} (h : read? s = some (r, t)) :
    Passes s t := by
  simp only [read?, Option.bind_eq_bind, Option.bind_eq_some_iff] at h
  obtain ⟨a, ha, f, hf, b, hb, l, hl, c, hc, he⟩ := h
  cases he
  exact (passes_after? (by decide) ha).trans ((passes_skipSpaces a).trans
    ((Register.passes_of_read? hf).trans ((passes_skipSpaces f.2).trans
    ((passes_after? (by decide) hb).trans ((passes_skipSpaces b).trans
    ((Register.passes_of_read? hl).trans ((passes_skipSpaces l.2).trans
    (passes_after? (by decide) hc))))))))

theorem isPlain_of_mem_text {r : RegisterRange} {c : Char} (h : c ∈ r.text) : IsPlain c := by
  have fixed : ∀ w : Text, (∀ d ∈ w, IsPlain d) → c ∈ w → IsPlain c := fun w hw hc => hw c hc
  rw [text, mem_braced] at h
  simp only [List.mem_append] at h
  rcases h with rfl | ((h | h) | h) | rfl
  · decide
  · exact Register.isPlain_of_mem_text h
  · exact fixed _ (by decide) h
  · exact Register.isPlain_of_mem_text h
  · decide

end RegisterRange

end DalvikPatch
