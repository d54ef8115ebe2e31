import DalvikPatch.Proofs.References
import DalvikPatch.Substitution

/-! Replacing a word everywhere. A text is gone through from left to right: where the word starts the new one
is written and its end is gone on from, and any other character stays. So a text may be cut in two, and each part be
replaced in, wherever no word lies across the cut. -/

namespace DalvikPatch

namespace Text

variable {word mark old new a b s t : Text} {c q : Char}

/-! ### From left to right -/

theorem replaceAll_of_cut?_none (h : cut? word s = none) : replaceAll word new s = s := by
  rw [replaceAll]
  split
  · rfl
  · split
    · next p hp => rw [h] at hp; cases hp
    · rfl

theorem replaceAll_of_cut? (hword : word ≠ []) {p : Text × Text} (h : cut? word s = some p) :
    replaceAll word new s = p.1 ++ (new ++ replaceAll word new p.2) := by
  rw [replaceAll, dif_neg hword]
  split
  · next p' hp =>
    rw [h] at hp
    cases hp
    exact List.append_assoc ..
  · next hnone => rw [h] at hnone; cases hnone

theorem replaceAll_nil : replaceAll word new [] = [] := by
  by_cases hword : word = []
  · rw [replaceAll, dif_pos hword]
  · exact replaceAll_of_cut?_none (by rw [cut?, if_neg hword])

theorem replaceAll_start (hword : word ≠ []) (new s : Text) :
    replaceAll word new (word ++ s) = new ++ replaceAll word new s :=
  replaceAll_of_cut? hword (cut?_start word s)

theorem replaceAll_skip (h : ¬ word <+: c :: s) : replaceAll word new (c :: s) = c :: replaceAll word new s := by
  have hword : word ≠ [] := by
    rintro rfl
    exact h List.nil_prefix
  have hafter : after? word (c :: s) = none := by
    rw [Option.eq_none_iff_forall_not_mem]
    exact fun r hr => h ⟨r, (eq_append_of_after? hr).symm⟩
  have hcut : cut? word (c :: s) = (cut? word s).map fun p => (c :: p.1, p.2) := by
    rw [cut?, hafter]
  cases hs : cut? word s with
  | none => rw [replaceAll_of_cut?_none (by rw [hcut, hs]; rfl), replaceAll_of_cut?_none hs]
  | some p =>
    rw [replaceAll_of_cut? hword (by rw [hcut, hs]; rfl), replaceAll_of_cut? hword hs]
    rfl

/-- What holds of a text holds when a word is put in front of it, and when a character is at which no
word starts: so it holds of all. -/
theorem replacing_induction {motive : Text → Prop} (hword : word ≠ []) (nil : motive [])
    (start : ∀ s, motive s → motive (word ++ s))
    (skip : ∀ c s, ¬ word <+: c :: s → motive s → motive (c :: s)) (s : Text) : motive s := by
  induction hn : s.length using Nat.strong_induction_on generalizing s with
  | _ n ih =>
    subst hn
    by_cases hstart : word <+: s
    · obtain ⟨r, rfl⟩ := hstart
      have := List.length_pos_iff.2 hword
      exact start r (ih r.length (by rw [List.length_append]; omega) r rfl)
    · cases s with
      | nil => exact nil
      | cons c s => exact skip c s hstart (ih s.length (by simp) s rfl)

theorem replaceAll_eq_self (h : ¬ word <:+: s) : replaceAll word new s = s := by
  induction s with
  | nil => exact replaceAll_nil
  | cons c s ih =>
    rw [List.infix_cons_iff, not_or] at h
    rw [replaceAll_skip h.1, ih h.2]

/-- Every character is of the text or of the new word. -/
theorem mem_of_mem_replaceAll (hword : word ≠ []) (h : c ∈ replaceAll word new s) : c ∈ new ∨ c ∈ s := by
  induction s using replacing_induction hword with
  | nil =>
    rw [replaceAll_nil] at h
    exact .inr h
  | start s ih =>
    rw [replaceAll_start hword, List.mem_append] at h
    rcases h with h | h
    · exact .inl h
    · exact (ih h).imp_right (List.mem_append_right _)
  | skip d s hskip ih =>
    rw [replaceAll_skip hskip, List.mem_cons] at h
    rcases h with h | h
    · exact .inr (List.mem_cons.2 (.inl h))
    · exact (ih h).imp_right (List.mem_cons_of_mem _)

theorem replaceAll_ne_nil (hword : word ≠ []) (hnew : new ≠ []) (h : s ≠ []) : replaceAll word new s ≠ [] := by
  cases s with
  | nil => exact absurd rfl h
  | cons c s =>
    by_cases hstart : word <+: c :: s
    · obtain ⟨r, hr⟩ := hstart
      rw [← hr, replaceAll_start hword]
      exact List.append_ne_nil_of_left_ne_nil hnew _
    · rw [replaceAll_skip hstart]
      exact List.cons_ne_nil _ _

/-! ### Cuts -/

/-- A word that starts in front of a character that is not in it ends there. -/
theorem prefix_of_prefix_append_cons (hc : c ∉ word) (h : word <+: a ++ c :: b) : word <+: a := by
  obtain ⟨r, hr⟩ := h
  rcases List.append_eq_append_iff.1 hr with ⟨z, rfl, -⟩ | ⟨z, rfl, hz⟩
  · exact List.prefix_append word z
  · cases z with
    | nil => exact ⟨[], by simp⟩
    | cons d z =>
      cases hz
      exact absurd (List.mem_append_right _ List.mem_cons_self) hc

/-- A character that is not in the word cuts the text. -/
theorem replaceAll_append_cons (hword : word ≠ []) (hc : c ∉ word) :
    replaceAll word new (a ++ c :: b) = replaceAll word new a ++ c :: replaceAll word new b := by
  induction a using replacing_induction hword with
  | nil =>
    have hskip : ¬ word <+: c :: b := fun hstart =>
      hword (List.prefix_nil.1 (prefix_of_prefix_append_cons (a := []) hc hstart))
    rw [List.nil_append, replaceAll_nil, List.nil_append, replaceAll_skip hskip]
  | start a ih => rw [List.append_assoc, replaceAll_start hword, replaceAll_start hword, ih, List.append_assoc]
  | skip d a hskip ih =>
    have hskip' : ¬ word <+: d :: (a ++ c :: b) := fun hstart =>
      hskip (prefix_of_prefix_append_cons (a := d :: a) hc hstart)
    rw [List.cons_append, replaceAll_skip hskip', ih, replaceAll_skip hskip, List.cons_append]

/-- No word starts in `a` when `b` follows. -/
def Clear (word a b : Text) : Prop := ∀ f r, a ++ b = f ++ (word ++ r) → a.length ≤ f.length

theorem replaceAll_append_of_clear (h : Clear word a b) :
    replaceAll word new (a ++ b) = a ++ replaceAll word new b := by
  induction a with
  | nil => rfl
  | cons c a ih =>
    have hskip : ¬ word <+: c :: (a ++ b) := by
      rintro ⟨r, hr⟩
      exact absurd (h [] r hr.symm) (by simp)
    have hclear : Clear word a b := by
      intro f r hf
      have := h (c :: f) r (congrArg (c :: ·) hf)
      simpa using this
    rw [List.cons_append, replaceAll_skip hskip, ih hclear, List.cons_append]

/-- A word that starts in front of a mark ends before the end of the mark or goes on behind it. -/
theorem ends_or_passes {f r : Text} (h : a ++ (mark ++ b) = f ++ (word ++ r)) (hlt : f.length < a.length) :
    (∃ z, a ++ mark = f ++ (word ++ z)) ∨ ∃ x y, x ≠ [] ∧ y ≠ [] ∧ word = x ++ (mark ++ y) := by
  obtain ⟨x, rfl⟩ := List.prefix_of_prefix_length_le ⟨_, h.symm⟩ (List.prefix_append a _) hlt.le
  rw [List.append_assoc, List.append_cancel_left_eq, ← List.append_assoc] at h
  rcases List.append_eq_append_iff.1 h with ⟨y, hy, -⟩ | ⟨z, hz, -⟩
  · by_cases hnil : y = []
    · exact .inl ⟨[], by rw [hy, hnil, List.append_nil, List.append_nil, List.append_assoc]⟩
    · refine .inr ⟨x, y, ?_, hnil, by rw [hy, List.append_assoc]⟩
      rintro rfl
      simp at hlt
  · exact .inl ⟨z, by rw [List.append_assoc, hz]⟩

/-- Whether a word starts in front of a mark that is not in it does not depend on what is behind the mark. -/
theorem Clear.behind (h : Clear word a (mark ++ q :: b)) (hmark : ¬ mark ++ [q] <:+: word) (t : Text) :
    Clear word a (mark ++ q :: t) := by
  intro f r hf
  by_contra hlt
  rw [← List.singleton_append, ← List.append_assoc mark] at hf
  rcases ends_or_passes hf (Nat.lt_of_not_le hlt) with ⟨z, hz⟩ | ⟨x, y, -, -, rfl⟩
  · refine hlt (h f (z ++ b) ?_)
    rw [← List.singleton_append, ← List.append_assoc mark, ← List.append_assoc, hz, List.append_assoc,
      List.append_assoc]
  · exact hmark ⟨x, y, List.append_assoc ..⟩

/-! ### Words with one quote -/

/-- A text is cut in one way at the first of a character. -/
theorem append_cons_inj {x y : Text} (hx : q ∉ x) (hy : q ∉ y) (h : x ++ q :: a = y ++ q :: b) :
    x = y ∧ a = b := by
  have hcut := cut?_char hx a
  rw [h, cut?_char hy b] at hcut
  cases hcut
  exact ⟨rfl, rfl⟩

section

variable (ha : q ∉ a) (hmark : q ∉ mark)
include ha hmark

/-- Where a word with one quote starts in front of the next quote, that is its own. -/
theorem eq_of_quote {f r : Text} (h : a ++ q :: b = f ++ (mark ++ q :: (word ++ r))) (hle : f.length ≤ a.length) :
    a = f ++ mark ∧ b = word ++ r := by
  obtain ⟨z, rfl⟩ := List.prefix_of_prefix_length_le ⟨_, h.symm⟩ (List.prefix_append a (q :: b)) hle
  rw [List.append_assoc, List.append_cancel_left_eq] at h
  obtain ⟨rfl, hb⟩ := append_cons_inj (fun hq => ha (List.mem_append_right _ hq)) hmark h
  exact ⟨rfl, hb⟩

theorem replaceAll_quote_of_not (h : ¬ (mark <:+ a ∧ word <+: b)) :
    replaceAll (mark ++ q :: word) new (a ++ q :: b) = a ++ q :: replaceAll (mark ++ q :: word) new b := by
  have hclear : Clear (mark ++ q :: word) (a ++ [q]) b := by
    intro f r hf
    by_contra hlt
    rw [List.append_assoc, List.singleton_append, List.append_assoc, List.cons_append] at hf
    obtain ⟨rfl, rfl⟩ := eq_of_quote ha hmark hf (by simpa [Nat.lt_succ_iff] using hlt)
    exact h ⟨List.suffix_append f mark, List.prefix_append word r⟩
  have hcut : replaceAll (mark ++ q :: word) new (a ++ [q] ++ b) = a ++ [q] ++ replaceAll (mark ++ q :: word) new b :=
    replaceAll_append_of_clear hclear
  rwa [List.append_assoc, List.append_assoc] at hcut

theorem replaceAll_quote (word new b : Text) :
    replaceAll (mark ++ q :: word) (mark ++ q :: new) (a ++ (mark ++ q :: (word ++ b))) =
      a ++ (mark ++ q :: (new ++ replaceAll (mark ++ q :: word) (mark ++ q :: new) b)) := by
  have hclear : Clear (mark ++ q :: word) a (mark ++ q :: (word ++ b)) := by
    intro f r hf
    by_contra hlt
    rw [← List.append_assoc, List.append_assoc mark, List.cons_append] at hf
    have hfront : q ∉ a ++ mark := by simp [ha, hmark]
    obtain ⟨heq, -⟩ := eq_of_quote hfront hmark hf (by simp; omega)
    rw [List.append_cancel_right_eq] at heq
    exact hlt (Nat.le_of_eq (congrArg List.length heq))
  have hne : mark ++ q :: word ≠ [] := by simp
  have hstart := replaceAll_start hne (mark ++ q :: new) b
  rw [List.append_assoc, List.append_assoc, List.cons_append, List.cons_append] at hstart
  rw [replaceAll_append_of_clear hclear, hstart]

/-- Up to the next quote nothing changes, if the new word has what the old has up to its quote. -/
theorem exists_replaceAll_quote (word new b : Text) :
    ∃ b', replaceAll (mark ++ q :: word) (mark ++ q :: new) (a ++ q :: b) = a ++ q :: b' ∧
      (¬ mark <:+ a → b' = replaceAll (mark ++ q :: word) (mark ++ q :: new) b) := by
  by_cases h : mark <:+ a ∧ word <+: b
  · obtain ⟨⟨f, rfl⟩, r, rfl⟩ := h
    have hf : q ∉ f := fun hq => ha (List.mem_append_left _ hq)
    refine ⟨new ++ replaceAll (mark ++ q :: word) (mark ++ q :: new) r, ?_, ?_⟩
    · rw [List.append_assoc, replaceAll_quote hf hmark, List.append_assoc]
    · exact fun hnot => absurd (List.suffix_append f mark) hnot
  · exact ⟨_, replaceAll_quote_of_not ha hmark h, fun _ => rfl⟩

end

/-! ### One replacement after the other -/

theorem join_cons_cons (c : Char) (w v : Text) (ws : List Text) :
    join [c] (w :: v :: ws) = w ++ c :: join [c] (v :: ws) := by
  rw [join, List.append_assoc, List.singleton_append]
  exact List.cons_ne_nil _ _

/-- Replaces each word of a list everywhere, one after the other. -/
def replaceEach : List (Text × Text) → Text → Text
  | [], s => s
  | p :: subs, s => replaceEach subs (replaceAll p.1 p.2 s)

section

variable {subs : List (Text × Text)}

theorem replaceEach_eq_self (h : ∀ p ∈ subs, ¬ p.1 <:+: s) : replaceEach subs s = s := by
  induction subs with
  | nil => rfl
  | cons p subs ih =>
    obtain ⟨hp, hsubs⟩ := List.forall_mem_cons.1 h
    rw [replaceEach, replaceAll_eq_self hp, ih hsubs]

/-- A character that is in none of the words cuts the text. -/
theorem replaceEach_append_cons (h : ∀ p ∈ subs, p.1 ≠ [] ∧ c ∉ p.1) :
    replaceEach subs (a ++ c :: b) = replaceEach subs a ++ c :: replaceEach subs b := by
  induction subs generalizing a b with
  | nil => rfl
  | cons p subs ih =>
    obtain ⟨⟨hword, hc⟩, hsubs⟩ := List.forall_mem_cons.1 h
    rw [replaceEach, replaceAll_append_cons hword hc, ih hsubs]
    rfl

theorem replaceEach_join (h : ∀ p ∈ subs, p.1 ≠ [] ∧ c ∉ p.1) (ws : List Text) :
    replaceEach subs (join [c] ws) = join [c] (ws.map (replaceEach subs)) := by
  induction ws with
  | nil => exact replaceEach_eq_self fun p hp hin => (h p hp).1 (List.infix_nil.1 hin)
  | cons w ws ih =>
    cases ws with
    | nil => rfl
    | cons v ws =>
      rw [join_cons_cons, replaceEach_append_cons h, ih]
      exact (join_cons_cons ..).symm

/-- What is in front of a mark stays, and the mark, if no word starts in front of it or is in it. -/
theorem replaceEach_append_of_clear (h : ∀ p ∈ subs, p.1 ≠ [] ∧ q ∉ p.1 ∧ ¬ p.1 <:+: mark)
    (hclear : ∀ p ∈ subs, Clear p.1 a (mark ++ q :: b)) :
    replaceEach subs (a ++ (mark ++ q :: b)) = a ++ (mark ++ q :: replaceEach subs b) := by
  induction subs generalizing b with
  | nil => rfl
  | cons p subs ih =>
    obtain ⟨⟨hword, hq, hmark⟩, hsubs⟩ := List.forall_mem_cons.1 h
    obtain ⟨hp, hrest⟩ := List.forall_mem_cons.1 hclear
    rw [replaceEach, replaceAll_append_of_clear hp, replaceAll_append_cons hword hq, replaceAll_eq_self hmark]
    refine ih hsubs fun p' hp' => (hrest p' hp').behind (fun hin => ?_) _
    exact (hsubs p' hp').2.1 (hin.subset (by simp))

/-- A class of characters that the text and the new words are of, except for words that are not, is kept to. -/
theorem forall_replaceEach {P : Char → Prop}
    (h : ∀ p ∈ subs, p.1 ≠ [] ∧ ((∀ c ∈ p.2, P c) ∨ ∃ c ∈ p.1, ¬ P c)) (hs : ∀ c ∈ s, P c) :
    ∀ c ∈ replaceEach subs s, P c := by
  induction subs generalizing s with
  | nil => exact hs
  | cons p subs ih =>
    obtain ⟨⟨hword, hp⟩, hsubs⟩ := List.forall_mem_cons.1 h
    refine ih hsubs ?_
    rcases hp with hnew | ⟨c, hc, hnot⟩
    · exact fun c hc => (mem_of_mem_replaceAll hword hc).elim (hnew c) (hs c)
    · rw [replaceAll_eq_self fun hin => hnot (hs c (hin.subset hc))]
      exact hs

theorem replaceEach_ne_nil (h : ∀ p ∈ subs, p.1 ≠ [] ∧ p.2 ≠ []) (hs : s ≠ []) :
    replaceEach subs s ≠ [] := by
  induction subs generalizing s with
  | nil => exact hs
  | cons p subs ih =>
    obtain ⟨⟨hword, hnew⟩, hsubs⟩ := List.forall_mem_cons.1 h
    exact ih hsubs (replaceAll_ne_nil hword hnew hs)

end

/-! ### Single characters -/

theorem replaceAll_singleton (c : Char) (new s : Text) :
    replaceAll [c] new s = s.flatMap fun d => if d = c then new else [d] := by
  induction s with
  | nil => exact replaceAll_nil
  | cons d s ih =>
    rw [List.flatMap_cons, ← ih]
    by_cases hd : d = c
    · subst hd
      rw [if_pos rfl]
      exact replaceAll_start (List.cons_ne_nil d []) new s
    · rw [if_neg hd, replaceAll_skip (by simpa using Ne.symm hd)]
      rfl

/-- Single characters are replaced one after the other as if all at once, if no word has a later one in it. -/
theorem replaceEach_singletons {subs : List (Char × Text)} (h : subs.Pairwise fun p q => q.1 ∉ p.2) (s : Text) :
    replaceEach (subs.map fun p => ([p.1], p.2)) s = s.flatMap fun c => (subs.lookup c).getD [c] := by
  induction subs generalizing s with
  | nil => exact (List.flatMap_singleton' s).symm
  | cons p subs ih =>
    obtain ⟨hp, hsubs⟩ := List.pairwise_cons.1 h
    have hnew : p.2.flatMap (fun c => (subs.lookup c).getD [c]) = p.2 := by
      rw [← ih hsubs]
      refine replaceEach_eq_self fun q hq hin => ?_
      obtain ⟨r, hr, rfl⟩ := List.mem_map.1 hq
      exact hp r hr (hin.subset (List.mem_singleton_self r.1))
    rw [List.map_cons, replaceEach, ih hsubs, replaceAll_singleton, List.flatMap_assoc]
    refine List.flatMap_congr fun c _ => ?_
    by_cases hc : c = p.1
    · rw [if_pos hc, hnew, hc, List.lookup_cons_self]
      rfl
    · have hbeq : (c == p.1) = false := beq_false_of_ne hc
      rw [if_neg hc, List.flatMap_singleton, List.lookup_cons, hbeq]

end Text

theorem Substitution.applyAll_literals {E : Engine} (subs : List (Text × Text)) (s : Text) :
    applyAll s (subs.map fun p => (literal p.1 p.2 : Substitution E)) = Text.replaceEach subs s := by
  induction subs generalizing s with
  | nil => rfl
  | cons p subs ih => exact ih (Text.replaceAll p.1 p.2 s)

end DalvikPatch
