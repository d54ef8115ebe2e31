import DalvikPatch.Proofs.References
import DalvikPatch.Class.Printer
import DalvikPatch.Class.Reader

/-! Header lines: the modifiers and the word that declare a class, a field or a method. Flags that were
read from modifiers are the union of those that are written for them, so a header is read back. -/

namespace DalvikPatch

open Text

/-! ### Flags -/

namespace AccessFlags

@[simp] theorem union_empty (f : AccessFlags) : f.union empty = f :=
  congrArg mk (BitVec.or_zero)

theorem union_comm (f g : AccessFlags) : f.union g = g.union f := congrArg mk (BitVec.or_comm ..)

theorem union_assoc (f g h : AccessFlags) : (f.union g).union h = f.union (g.union h) :=
  congrArg mk (BitVec.or_assoc ..)

theorem contains_iff_union_eq {f g : AccessFlags} : f.contains g ↔ f.union g = f := by
  obtain ⟨f⟩ := f
  obtain ⟨g⟩ := g
  simp only [contains, beq_iff_eq, union, mk.injEq]
  constructor
  · intro h
    rw [← h]
    apply BitVec.eq_of_getLsbD_eq
    intro i hi
    rw [BitVec.getLsbD_or, BitVec.getLsbD_and]
    cases f.getLsbD i <;> simp
  · intro h
    rw [← h]
    apply BitVec.eq_of_getLsbD_eq
    intro i hi
    rw [BitVec.getLsbD_and, BitVec.getLsbD_or]
    cases g.getLsbD i <;> simp

/-- The flags of several modifiers. -/
def all (ms : List Modifier) : AccessFlags := ms.foldr (fun m f => m.flag.union f) empty

@[simp] theorem all_nil : all [] = empty := rfl

@[simp] theorem all_cons (m : Modifier) (ms : List Modifier) : all (m :: ms) = m.flag.union (all ms) :=
  rfl

theorem contains_all {ms : List Modifier} {m : Modifier} (h : m ∈ ms) :
    (all ms).contains m.flag := by
  rw [contains_iff_union_eq]
  induction ms with
  | nil => cases h
  | cons m' ms ih =>
    rw [all_cons]
    rcases List.mem_cons.1 h with rfl | h
    · have : m.flag.union m.flag = m.flag := congrArg mk (BitVec.or_self)
      rw [union_comm, ← union_assoc, this]
    · rw [union_assoc, ih h]

theorem union_all {f : AccessFlags} {ms : List Modifier} (h : ∀ m ∈ ms, f.contains m.flag) :
    f.union (all ms) = f := by
  induction ms with
  | nil => exact union_empty f
  | cons m ms ih =>
    have hm := contains_iff_union_eq.1 (h m (List.mem_cons_self ..))
    rw [all_cons, ← union_assoc, hm]
    exact ih fun m' hm' => h m' (List.mem_cons_of_mem _ hm')

/-- Flags that some modifiers in front of `c` stand for. -/
def Carried (f : AccessFlags) (c : Carrier) : Prop :=
  ∃ ms, (∀ m ∈ ms, m ∈ modifiers ∧ m.suits c) ∧ f = all ms

/-- The modifiers that are written for flags stand for all of them. -/
theorem all_filter {f : AccessFlags} {c : Carrier} (h : f.Carried c) :
    all (modifiers.filter fun m => m.suits c && f.contains m.flag) = f := by
  obtain ⟨ms, hms, hf⟩ := h
  let written := modifiers.filter fun m => m.suits c && f.contains m.flag
  have hwritten : f.union (all written) = f := by
    apply union_all
    intro m hm
    have := (List.mem_filter.1 hm).2
    rw [Bool.and_eq_true] at this
    exact this.2
  have hread : (all written).union f = all written := by
    rw [hf]
    apply union_all
    intro m hm
    apply contains_all
    refine List.mem_filter.2 ⟨(hms m hm).1, ?_⟩
    rw [Bool.and_eq_true]
    exact ⟨(hms m hm).2, hf ▸ contains_all hm⟩
  rw [union_comm, hread] at hwritten
  exact hwritten

/-! ### Modifiers -/

/-- Each modifier is found by its word, which is a plain one. -/
theorem modifier_facts : ∀ m ∈ modifiers,
    (∀ c ∈ [Carrier.type, .field, .method], m.suits c → ofKeyword? m.word c = some m.flag) ∧
    m.word ≠ [] ∧ m.word ≠ "=" ∧ ∀ c ∈ m.word, IsPlain c ∧ ¬ isBlank c := by
  decide

theorem ofKeyword?_word {m : Modifier} (hm : m ∈ modifiers) {c : Carrier} (hc : m.suits c) :
    ofKeyword? m.word c = some m.flag :=
  (modifier_facts m hm).1 c (by cases c <;> simp) hc

theorem ofModifiers_map {ms : List Modifier} {c : Carrier}
    (h : ∀ m ∈ ms, m ∈ modifiers ∧ m.suits c) (n : Nat) :
    ofModifiers n c (ms.map Modifier.word) = .ok (all ms) := by
  induction ms with
  | nil => rfl
  | cons m ms ih =>
    have hm := h m (List.mem_cons_self ..)
    rw [List.map_cons, ofModifiers, ofKeyword?_word hm.1 hm.2,
      ih fun m' hm' => h m' (List.mem_cons_of_mem _ hm')]
    rfl

theorem ofModifiers_keywords {f : AccessFlags} {c : Carrier} (h : f.Carried c) (n : Nat) :
    ofModifiers n c (f.keywords c) = .ok f := by
  rw [keywords, ofModifiers_map, all_filter h]
  intro m hm
  obtain ⟨hmem, hs⟩ := List.mem_filter.1 hm
  rw [Bool.and_eq_true] at hs
  exact ⟨hmem, hs.1⟩

/-- A word that was read as a modifier is a plain one. -/
theorem exists_of_ofKeyword? {w : Text} {c : Carrier} {f : AccessFlags}
    (h : ofKeyword? w c = some f) :
    (∃ m ∈ modifiers, m.suits c ∧ m.flag = f) ∧ ∀ x ∈ w, IsPlain x := by
  obtain ⟨m, hm, rfl⟩ := Option.map_eq_some_iff.1 h
  have hmem := List.mem_of_find?_eq_some hm
  have hs := List.find?_some hm
  rw [Bool.and_eq_true, beq_iff_eq] at hs
  refine ⟨⟨m, hmem, hs.2, rfl⟩, ?_⟩
  by_cases hw : w = "strict"
  · rw [hw]
    decide
  · rw [if_neg hw] at hs
    rw [← hs.1]
    exact fun x hx => ((modifier_facts m hmem).2.2.2 x hx).1

theorem carried_of_ofModifiers {n : Nat} {c : Carrier} {ws : List Text} {f : AccessFlags}
    (h : ofModifiers n c ws = .ok f) : f.Carried c ∧ ∀ w ∈ ws, ∀ x ∈ w, IsPlain x := by
  induction ws generalizing f with
  | nil =>
    cases h
    exact ⟨⟨[], by simp, rfl⟩, by simp⟩
  | cons w ws ih =>
    rw [ofModifiers] at h
    split at h
    · cases h
    · next g hg =>
      cases hr : ofModifiers n c ws with
      | error e => rw [hr] at h; cases h
      | ok g' =>
        rw [hr] at h
        cases h
        obtain ⟨⟨m, hm, hmc, rfl⟩, hw⟩ := exists_of_ofKeyword? hg
        obtain ⟨⟨ms, hms, rfl⟩, hws⟩ := ih hr
        refine ⟨⟨m :: ms, ?_, rfl⟩, ?_⟩
        · intro m' hm'
          rcases List.mem_cons.1 hm' with rfl | hm'
          · exact ⟨hm, hmc⟩
          · exact hms m' hm'
        · intro v hv
          rcases List.mem_cons.1 hv with rfl | hv
          · exact hw
          · exact hws v hv

theorem isWord_of_mem_keywords {f : AccessFlags} {c : Carrier} {w : Text} (h : w ∈ f.keywords c) :
    IsWord w ∧ w ≠ "=" ∧ ∀ x ∈ w, IsPlain x := by
  obtain ⟨m, hm, rfl⟩ := List.mem_map.1 h
  obtain ⟨-, h1, h2, h3⟩ := modifier_facts m (List.mem_filter.1 hm).1
  exact ⟨⟨h1, fun x hx => (h3 x hx).2⟩, h2, fun x hx => (h3 x hx).1⟩

theorem isPlain_of_mem_text {f : AccessFlags} {c : Carrier} {x : Char} (h : x ∈ f.text c) :
    IsPlain x := by
  obtain ⟨w, hw, hx⟩ := List.mem_flatMap.1 h
  rcases List.mem_append.1 hx with hx | hx
  · exact (isWord_of_mem_keywords hw).2.2 x hx
  · rw [List.mem_singleton.1 hx]
    decide

theorem newline_not_mem_text (f : AccessFlags) (c : Carrier) : '\n' ∉ f.text c := by
  intro h
  obtain ⟨w, hw, hx⟩ := List.mem_flatMap.1 h
  rcases List.mem_append.1 hx with hx | hx
  · exact (isWord_of_mem_keywords hw).1.dark _ hx (by decide)
  · cases List.mem_singleton.1 hx

end AccessFlags

/-! ### Reading a header -/

/-- The words of a header are its modifiers and the word behind them. -/
theorem words_text_append (f : AccessFlags) (c : Carrier) {w : Text} (hw : IsWord w) :
    words (f.text c ++ w) = f.keywords c ++ [w] := by
  have h : ∀ ks : List Text, (∀ k ∈ ks, IsWord k) →
      words (ks.flatMap (fun k => k ++ (" " : Text)) ++ w) = ks ++ [w] := by
    intro ks hks
    induction ks with
    | nil => exact words_of_isWord hw
    | cons k ks ih =>
      have hk := words_word_append (hks k (List.mem_cons_self ..))
        (s := ' ' :: (ks.flatMap (fun k => k ++ (" " : Text)) ++ w)) (by simp; decide)
      rw [words_cons_blank (by decide), ih fun k' hk' => hks k' (List.mem_cons_of_mem _ hk')] at hk
      rw [List.flatMap_cons, List.append_assoc, List.append_assoc]
      exact hk
  exact h _ fun k hk => (AccessFlags.isWord_of_mem_keywords hk).1

/-- A header: its keyword, the modifiers of its flags, and a word. -/
def headerText (keyword : Text) (f : AccessFlags) (c : Carrier) (w : Text) : Text :=
  keyword ++ ' ' :: (f.text c ++ w)

theorem endsDark_headerText (keyword : Text) (f : AccessFlags) (c : Carrier) {w : Text}
    (hw : IsWord w) : EndsDark (headerText keyword f c w) := by
  rw [headerText, ← List.cons_append, ← List.append_assoc]
  exact hw.endsDark.append _ hw.ne_nil

theorem readHeader_headerText {k w : Text} {c : Carrier} {f : AccessFlags}
    (hk : IsWord k) (hf : f.Carried c) (hw : IsWord w) (n : Nat) :
    readHeader k c n (headerText k f c w) = .ok (f, w) := by
  have htrim : trim (headerText k f c w) = k ++ ' ' :: (f.text c ++ w) :=
    trim_eq_self (hk.startsDark.append _ hk.ne_nil) (endsDark_headerText k f c hw)
  have hwords : words (' ' :: (f.text c ++ w)) = f.keywords c ++ [w] := by
    rw [words_cons_blank (by decide), words_text_append f c hw]
  rw [readHeader, htrim, after?_append]
  simp only [hwords, List.getLast?_append, List.getLast?_singleton, Option.some_or,
    List.dropLast_concat, AccessFlags.ofModifiers_keywords hf]
  rfl

/-- What comes before the word of a header starts no comment. -/
theorem quiet_headerText_append {k : Text} (hk : ∀ x ∈ k, IsPlain x) (f : AccessFlags)
    (c : Carrier) (w s : Text) :
    Quiet .outside (headerText k f c w ++ s) ↔ Quiet .outside (w ++ s) := by
  have hplain : ∀ x ∈ k ++ ' ' :: f.text c, IsPlain x := by
    intro x hx
    rcases List.mem_append.1 hx with hx | hx
    · exact hk x hx
    · rcases List.mem_cons.1 hx with rfl | hx
      · decide
      · exact AccessFlags.isPlain_of_mem_text hx
  have hs : headerText k f c w ++ s = (k ++ ' ' :: f.text c) ++ (w ++ s) := by
    simp [headerText]
  rw [hs, quiet_plain_append (by simp) hplain]

theorem newline_not_mem_headerText {keyword w : Text} (hk : '\n' ∉ keyword) (f : AccessFlags)
    (c : Carrier) (hw : '\n' ∉ w) : '\n' ∉ headerText keyword f c w := by
  have := AccessFlags.newline_not_mem_text f c
  simp [headerText, hk, hw, this]

theorem startsWith_of_readHeader {keyword s : Text} {c : Carrier} {n : Nat} {p : AccessFlags × Text}
    (h : readHeader keyword c n s = .ok p) : startsWith keyword (trim s) = true := by
  rw [readHeader] at h
  split at h
  · cases h
  · next body hbody =>
    rw [startsWith, hbody]
    rfl

/-- In a line whose header was read, the word stands behind plain characters and in front of
blanks. What stands before it is read with any other word too. -/
theorem exists_of_readHeader {keyword s w : Text} {c : Carrier} {n : Nat} {f : AccessFlags}
    (hk : ∀ x ∈ keyword, IsPlain x) (h : readHeader keyword c n s = .ok (f, w)) :
    f.Carried c ∧ IsWord w ∧
      ∃ before after, s = before ++ w ++ after ∧ (∀ x ∈ before, IsPlain x) ∧ Blanks after ∧
        (IsWord keyword → ∀ u, IsWord u → readHeader keyword c n (before ++ u) = .ok (f, u)) := by
  rw [readHeader] at h
  split at h
  · cases h
  · next body hbody =>
    split at h
    · cases h
    · next v hv =>
      cases hm : AccessFlags.ofModifiers n c (words body).dropLast with
      | error e => rw [hm] at h; cases h
      | ok g =>
        rw [hm] at h
        cases h
        obtain ⟨hf, hplain⟩ := AccessFlags.carried_of_ofModifiers hm
        obtain ⟨hne, hlast⟩ := List.getLast?_eq_some_iff.1 hv |>.imp fun ws hws => hws
        rw [hlast, List.dropLast_concat] at hplain
        obtain ⟨pre, b, hpre, hb, hchars, hother⟩ := exists_of_words_eq_append hlast
        obtain ⟨x, y, hx, hy, hs⟩ := exists_trim s
        have hw : IsWord w := isWord_of_mem_words (s := body) (by rw [hlast]; simp)
        refine ⟨hf, hw, x ++ keyword ++ pre, b ++ y, ?_, ?_, hb.append hy, fun hkeyword u hu => ?_⟩
        · rw [eq_append_of_after? hbody, hpre] at hs
          rw [hs]
          simp
        · intro z hz
          simp only [List.mem_append] at hz
          rcases hz with (hz | hz) | hz
          · exact hx.isPlain z hz
          · exact hk z hz
          · rcases hchars z hz with hz | ⟨v, hv, hz⟩
            · exact isPlain_of_isBlank hz
            · exact hplain v hv z hz
        · have htrim : trim (x ++ keyword ++ pre ++ u) = keyword ++ (pre ++ u) := by
            rw [List.append_assoc, List.append_assoc, trim_blanks_append hx,
              trim_eq_self (hkeyword.startsDark.append _ hkeyword.ne_nil)]
            rw [← List.append_assoc]
            exact hu.endsDark.append _ hu.ne_nil
          rw [hlast, List.dropLast_concat] at hm
          rw [readHeader, htrim, after?_append]
          simp only [hother u hu, List.getLast?_append, List.getLast?_singleton, Option.some_or,
            List.dropLast_concat, hm]
          rfl

end DalvikPatch
