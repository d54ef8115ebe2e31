import DalvikPatch.Proofs.Descriptors
import DalvikPatch.Proofs.Escapes
import DalvikPatch.Proofs.Registers

/-! References. Names lose the blanks around them when they are read; what is left is read back, and
a line that had no comment before has none after. -/

namespace DalvikPatch

open Text

namespace Text

/-! ### Cutting at a mark -/

theorem not_infix_of_cut? {mark s a b : Text} (hm : mark ≠ []) (h : cut? mark s = some (a, b)) :
    ¬ mark <:+: a := by
  fun_induction cut? mark s generalizing a with
  | case1 hm' => exact absurd hm' hm
  | case2 => cases h
  | case3 c cs r hr =>
    cases h
    simpa using hm
  | case4 c cs hnone ih =>
    obtain ⟨q, hq, he⟩ := Option.map_eq_some_iff.1 h
    cases he
    have hs : cs = q.1 ++ (mark ++ q.2) := by
      rw [← List.append_assoc]
      exact eq_of_cut? hq
    rw [List.infix_cons_iff, not_or]
    refine ⟨?_, ih hq⟩
    rintro ⟨t, ht⟩
    have : after? mark (c :: cs) = some (t ++ (mark ++ q.2)) := by
      rw [hs, ← List.cons_append, ← ht, List.append_assoc, after?_append]
    rw [this] at hnone
    cases hnone

/-- A text is cut at a mark that does not start before. -/
theorem cut?_append {mark front rest : Text}
    (h : ∀ c b, c :: b <:+ front → after? mark (c :: (b ++ (mark ++ rest))) = none) :
    cut? mark (front ++ (mark ++ rest)) = some (front, rest) := by
  induction front with
  | nil =>
    cases mark with
    | nil => cases rest <;> rfl
    | cons c mark =>
      have hafter := after?_append (c :: mark) rest
      rw [List.cons_append] at hafter
      rw [List.nil_append, List.cons_append, cut?, hafter]
  | cons c front ih =>
    rw [List.cons_append, cut?, h c front (List.suffix_refl _),
      ih fun d b hb => h d b (hb.trans (List.suffix_cons ..))]
    rfl

theorem cut?_start (mark rest : Text) : cut? mark (mark ++ rest) = some ([], rest) :=
  @cut?_append mark [] rest (by simp)

theorem cut?_arrow {a : Text} (h : ¬ ("->" : Text) <:+: a) (x : Text) :
    cut? "->" (a ++ ("->" ++ x)) = some (a, x) := by
  apply cut?_append
  intro c b hb
  by_contra hsome
  obtain ⟨r, hr⟩ := Option.ne_none_iff_exists'.1 hsome
  have hs := eq_append_of_after? hr
  cases b with
  | nil => simp at hs
  | cons d b =>
    obtain ⟨rfl, rfl, -⟩ : c = '-' ∧ d = '>' ∧ b ++ ("->" ++ x) = r := by simpa using hs
    exact h (List.IsInfix.trans ⟨[], b, rfl⟩ hb.isInfix)

theorem not_mem_of_cut? {c : Char} {s a b : Text} (h : cut? [c] s = some (a, b)) : c ∉ a := by
  intro hc
  obtain ⟨x, y, rfl⟩ := List.append_of_mem hc
  exact not_infix_of_cut? (by simp) h ⟨x, y, by simp⟩

theorem cut?_char {c : Char} {a : Text} (h : c ∉ a) (x : Text) :
    cut? [c] (a ++ c :: x) = some (a, x) := by
  refine @cut?_append [c] a x fun d b hb => ?_
  have hd : c ≠ d := fun hd => h (hb.subset (by simp [hd]))
  simp [after?, hd]

theorem trim_infix (s : Text) : trim s <:+: s := by
  obtain ⟨a, b, -, -, hs⟩ := exists_trim s
  exact ⟨a, b, hs.symm⟩

/-- Trimmed, and on one line. -/
structure Neat (s : Text) : Prop where
  startsDark : StartsDark s
  endsDark : EndsDark s
  newline : '\n' ∉ s

theorem neat_trim {s : Text} (h : '\n' ∉ s) : Neat (trim s) where
  startsDark := startsDark_trim s
  endsDark := endsDark_trim s
  newline hn := h (mem_of_mem_trim hn)

theorem Neat.trim_eq {s : Text} (h : Neat s) : trim s = s := trim_eq_self h.startsDark h.endsDark

/-- Blanks around a text may go if the place in front is not guarded and a plain character
follows. -/
theorem quiet_of_trim {p : Literal} (hp : p ≠ .guarded) {s r : Text} {c : Char} (hc : IsPlain c)
    (h : Quiet p (s ++ c :: r)) : Quiet p (trim s ++ c :: r) := by
  obtain ⟨a, b, ha, hb, hs⟩ := exists_trim s
  rw [hs, List.append_assoc, List.append_assoc, quiet_plain_append hp ha.isPlain, quiet_append] at h
  exact quiet_append.2 ⟨h.1, quiet_of_blanks_append hb hc h.2⟩

/-- Blanks around the owner and the name of a member may go. -/
theorem quiet_member {p : Literal} (hp : p ≠ .guarded) {a n r : Text} {c : Char} (hc : IsPlain c)
    (h : Quiet p (a ++ ("->" ++ (n ++ c :: r)))) :
    Quiet p (trim a ++ ("->" ++ (trim n ++ c :: r))) := by
  have howner : Quiet p ((trim a ++ "->") ++ (n ++ c :: r)) := by
    rw [List.append_assoc]
    exact quiet_of_trim hp (by decide) h
  have hplace : p.after (trim a ++ "->") ≠ .guarded := by
    apply Literal.after_ne_guarded
    · simp
    · rw [List.getLast?_append_of_ne_nil _ (by simp)]
      decide
  rw [← List.append_assoc]
  exact quiet_append.2 ⟨howner.left, quiet_of_trim hplace hc howner.right⟩

end Text

/-! ### Fields -/

namespace FieldRef

structure Valid (f : FieldRef) : Prop where
  owner : Neat f.owner
  arrow : ¬ ("->" : Text) <:+: f.owner
  name : Neat f.name
  colon : ':' ∉ f.name
  descriptor : ∃ t : TypeDescriptor, t.Valid ∧ f.descriptor = t.jni

theorem read?_text {f : FieldRef} (h : f.Valid) (r : Text) : read? (f.text ++ r) = some (f, r) := by
  obtain ⟨t, ht, hd⟩ := h.descriptor
  have hs : f.text ++ r = f.owner ++ ("->" ++ (f.name ++ ':' :: (t.jni ++ r))) := by
    rw [text, hd]
    simp
  rw [hs, read?, cut?_arrow h.arrow]
  simp only [Option.bind_eq_bind, Option.bind_some, cut?_char h.colon,
    TypeDescriptor.read?_jni ht, h.owner.trim_eq, h.name.trim_eq]
  rw [← hd]

/-- What a reader of fields has taken: an owner, a name and a type, with blanks around the first
two. -/
theorem exists_of_read? {s r : Text} {f : FieldRef} (h : read? s = some (f, r)) :
    ∃ a n, s = a ++ ("->" ++ (n ++ ':' :: (f.descriptor ++ r))) ∧ f.owner = trim a ∧
      f.name = trim n ∧ ¬ ("->" : Text) <:+: a ∧ ':' ∉ n ∧
      ∃ t : TypeDescriptor, t.Valid ∧ f.descriptor = t.jni := by
  simp only [read?, Option.bind_eq_bind, Option.bind_eq_some_iff] at h
  obtain ⟨⟨a, b⟩, ha, ⟨n, d⟩, hn, ⟨t, r'⟩, ht, he⟩ := h
  cases he
  obtain ⟨hd, hv⟩ := TypeDescriptor.eq_of_read? ht
  refine ⟨a, n, ?_, rfl, rfl, not_infix_of_cut? (by simp) ha, not_mem_of_cut? hn, t, hv, rfl⟩
  have hb : b = n ++ ':' :: (t.jni ++ r') := by
    have hd' : d = t.jni ++ r' := hd
    have hb' : b = n ++ [':'] ++ d := eq_of_cut? hn
    rw [hb', hd']
    simp
  have hs : s = a ++ "->" ++ b := eq_of_cut? ha
  rw [hs, hb]
  simp

theorem valid_of_read? {s r : Text} {f : FieldRef} (h : read? s = some (f, r)) (hs : '\n' ∉ s) :
    f.Valid := by
  obtain ⟨a, n, rfl, ho, hn, harrow, hcolon, ht⟩ := exists_of_read? h
  simp only [List.mem_append, List.mem_cons, not_or] at hs
  exact {
    owner := ho ▸ neat_trim hs.1
    arrow := fun hi => harrow (hi.trans (ho ▸ trim_infix a))
    name := hn ▸ neat_trim hs.2.2.1
    colon := fun hc => hcolon (mem_of_mem_trim (hn ▸ hc))
    descriptor := ht }

theorem quiet_of_read? {s r : Text} {f : FieldRef} (h : read? s = some (f, r)) {p : Literal}
    (hp : p ≠ .guarded) (hq : Quiet p s) : Quiet p (f.text ++ r) := by
  obtain ⟨a, n, rfl, ho, hn, -, -, -⟩ := exists_of_read? h
  have := quiet_member hp (show IsPlain ':' by decide) hq
  rw [← ho, ← hn] at this
  simpa [text] using this

end FieldRef

/-! ### Methods -/

namespace MethodRef

structure Valid (m : MethodRef) : Prop where
  owner : Neat m.owner
  arrow : ¬ ("->" : Text) <:+: m.owner
  name : Neat m.name
  parenthesis : '(' ∉ m.name
  descriptor : ∃ p : Prototype, p.Valid ∧ m.descriptor = p.jni

theorem read?_text {m : MethodRef} (h : m.Valid) (r : Text) : read? (m.text ++ r) = some (m, r) := by
  obtain ⟨q, hq, hd⟩ := h.descriptor
  have hs : m.text ++ r = m.owner ++ ("->" ++ (m.name ++ (q.jni ++ r))) := by
    rw [text, hd]
    simp
  obtain ⟨d, hd'⟩ : ∃ d, q.jni ++ r = '(' :: d := ⟨_, rfl⟩
  have hname : ∀ c ∈ m.name, (c != '(') = true := by
    intro c hc
    rw [bne_iff_ne]
    rintro rfl
    exact h.parenthesis hc
  have htake : (m.name ++ (q.jni ++ r)).takeWhile (· != '(') = m.name := by
    rw [List.takeWhile_append_of_pos hname, hd', List.takeWhile_cons_of_neg (by simp), List.append_nil]
  have hdrop : (m.name ++ (q.jni ++ r)).dropWhile (· != '(') = q.jni ++ r := by
    rw [List.dropWhile_append_of_pos hname, hd', List.dropWhile_cons_of_neg (by simp)]
  rw [hs, read?, cut?_arrow h.arrow]
  simp only [Option.bind_eq_bind, Option.bind_some, htake, hdrop, Prototype.read?_jni hq,
    h.owner.trim_eq, h.name.trim_eq]
  rw [← hd]

theorem exists_of_read? {s r : Text} {m : MethodRef} (h : read? s = some (m, r)) :
    ∃ a n, s = a ++ ("->" ++ (n ++ (m.descriptor ++ r))) ∧ m.owner = trim a ∧
      m.name = trim n ∧ ¬ ("->" : Text) <:+: a ∧ '(' ∉ n ∧
      ∃ p : Prototype, p.Valid ∧ m.descriptor = p.jni := by
  simp only [read?, Option.bind_eq_bind, Option.bind_eq_some_iff] at h
  obtain ⟨⟨a, b⟩, ha, ⟨q, r'⟩, hq, he⟩ := h
  cases he
  obtain ⟨hd, hv⟩ := Prototype.eq_of_read? hq
  refine ⟨a, b.takeWhile (· != '('), ?_, rfl, rfl, not_infix_of_cut? (by simp) ha, ?_, q, hv, rfl⟩
  · have hb : b = b.takeWhile (· != '(') ++ (q.jni ++ r') := by
      rw [← hd, List.takeWhile_append_dropWhile]
    have hs : s = a ++ "->" ++ b := eq_of_cut? ha
    rw [← hb, hs]
    simp
  · intro hc
    have := List.mem_takeWhile_imp hc
    simp at this

theorem valid_of_read? {s r : Text} {m : MethodRef} (h : read? s = some (m, r)) (hs : '\n' ∉ s) :
    m.Valid := by
  obtain ⟨a, n, rfl, ho, hn, harrow, hpar, ht⟩ := exists_of_read? h
  simp only [List.mem_append, not_or] at hs
  exact {
    owner := ho ▸ neat_trim hs.1
    arrow := fun hi => harrow (hi.trans (ho ▸ trim_infix a))
    name := hn ▸ neat_trim hs.2.2.1
    parenthesis := fun hc => hpar (mem_of_mem_trim (hn ▸ hc))
    descriptor := ht }

theorem quiet_of_read? {s r : Text} {m : MethodRef} (h : read? s = some (m, r)) {p : Literal}
    (hp : p ≠ .guarded) (hq : Quiet p s) : Quiet p (m.text ++ r) := by
  obtain ⟨a, n, rfl, ho, hn, -, -, t, -, ht⟩ := exists_of_read? h
  obtain ⟨d, hd⟩ : ∃ d, m.descriptor ++ r = '(' :: d := ⟨_, by rw [ht]; rfl⟩
  rw [hd] at hq
  have := quiet_member hp (show IsPlain '(' by decide) hq
  rw [← ho, ← hn, ← hd] at this
  simpa [text] using this

end MethodRef

end DalvikPatch
