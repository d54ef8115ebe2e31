import DalvikPatch.Proofs.Blanks
import DalvikPatch.Descriptor.Basic

/-! Descriptors that are read. A reader takes exactly what is written for the type it gives, and
what is written is read back with any text behind it. -/

namespace DalvikPatch

open Text

/-- A name that can stand in a descriptor. -/
structure ClassName.Valid (n : ClassName) : Prop where
  ne_nil : n.path ≠ []
  chars : ∀ c ∈ n.path, TypeDescriptor.isNameChar c

namespace TypeDescriptor

/-- Every class in the type has a valid name. -/
def Valid : TypeDescriptor → Prop
  | array t => t.Valid
  | object n => n.Valid
  | _ => True

/-! ### Writing, then reading -/

theorem not_isNameChar_semicolon : ¬ isNameChar ';' := by decide

theorem read?_object {n : ClassName} (h : n.Valid) (r : Text) :
    read? (n.jni ++ r) = some (object n, r) := by
  have hs : n.jni ++ r = 'L' :: (n.path ++ (';' :: r)) := by
    simp [ClassName.jni]
  have htake : (n.path ++ ';' :: r).takeWhile isNameChar = n.path := by
    rw [List.takeWhile_append_of_pos h.chars, List.takeWhile_cons_of_neg not_isNameChar_semicolon,
      List.append_nil]
  have hdrop : (n.path ++ ';' :: r).dropWhile isNameChar = ';' :: r := by
    rw [List.dropWhile_append_of_pos h.chars, List.dropWhile_cons_of_neg not_isNameChar_semicolon]
  have hne : n.path.isEmpty = false := by simpa using h.ne_nil
  rw [hs, read?, if_pos rfl, htake, hdrop, hne]
  simp [after?]

theorem read?_jni {t : TypeDescriptor} (h : t.Valid) (r : Text) :
    read? (t.jni ++ r) = some (t, r) := by
  induction t generalizing r with
  | array t ih =>
    have hs : (array t).jni ++ r = '[' :: (t.jni ++ r) := rfl
    rw [hs, read?, if_neg (by decide), if_pos rfl, ih h]
    rfl
  | object n => exact read?_object h r
  | _ => rfl

theorem ofJni?_jni {t : TypeDescriptor} (h : t.Valid) : ofJni? t.jni = some t := by
  have := read?_jni h []
  rw [List.append_nil] at this
  rw [ofJni?, this]

/-- No type starts with a parenthesis. -/
theorem read?_close (r : Text) : read? (')' :: r) = none := rfl

theorem readAll_flatMap {ts : List TypeDescriptor} (h : ∀ t ∈ ts, t.Valid) (r : Text) :
    readAll (ts.flatMap jni ++ ')' :: r) = (ts, ')' :: r) := by
  induction ts with
  | nil =>
    rw [List.flatMap_nil, List.nil_append, readAll]
    split
    · next hp => rw [read?_close] at hp; cases hp
    · rfl
  | cons t ts ih =>
    have ht := read?_jni (h t (List.mem_cons_self ..)) (ts.flatMap jni ++ ')' :: r)
    have hts := ih fun t' ht' => h t' (List.mem_cons_of_mem _ ht')
    rw [List.flatMap_cons, List.append_assoc, readAll]
    split
    · next p hp =>
      rw [ht] at hp
      cases hp
      rw [hts]
    · next hp => rw [ht] at hp; cases hp

/-! ### Reading, then writing -/

theorem jni_of_ofLetter? {c : Char} {t : TypeDescriptor} (h : ofLetter? c = some t) :
    t.jni = [c] ∧ t.Valid := by
  unfold ofLetter? at h
  repeat' split at h
  all_goals first
    | cases h; done
    | (cases h; subst_vars; exact ⟨rfl, trivial⟩)

theorem eq_of_read? {s r : Text} {t : TypeDescriptor} (h : read? s = some (t, r)) :
    s = t.jni ++ r ∧ t.Valid := by
  fun_induction read? s generalizing t with
  | case1 => cases h
  | case2 => cases h
  | case3 s hne =>
    obtain ⟨q, hq, he⟩ := Option.map_eq_some_iff.1 h
    cases he
    have hs := List.takeWhile_append_dropWhile (p := isNameChar) (l := s)
    refine ⟨?_, by simpa using hne, fun c hc => List.mem_takeWhile_imp hc⟩
    rw [eq_append_of_after? hq] at hs
    rw [jni, ClassName.jni]
    simpa using hs.symm
  | case4 s _ ih =>
    obtain ⟨q, hq, he⟩ := Option.map_eq_some_iff.1 h
    cases he
    obtain ⟨hs, hv⟩ := ih hq
    exact ⟨congrArg ('[' :: ·) hs, hv⟩
  | case5 c s =>
    obtain ⟨q, hq, he⟩ := Option.map_eq_some_iff.1 h
    cases he
    obtain ⟨hj, hv⟩ := jni_of_ofLetter? hq
    exact ⟨by rw [hj]; rfl, hv⟩

theorem eq_of_ofJni? {s : Text} {t : TypeDescriptor} (h : ofJni? s = some t) :
    s = t.jni ∧ t.Valid := by
  rw [ofJni?] at h
  split at h
  · next u hu =>
    cases h
    obtain ⟨hs, hv⟩ := eq_of_read? hu
    exact ⟨by rwa [List.append_nil] at hs, hv⟩
  · cases h

theorem eq_of_readAll (s : Text) :
    s = (readAll s).1.flatMap jni ++ (readAll s).2 ∧ ∀ t ∈ (readAll s).1, t.Valid := by
  fun_induction readAll s with
  | case1 s p hp ih =>
    obtain ⟨hs, hv⟩ := eq_of_read? hp
    refine ⟨?_, ?_⟩
    · rw [List.flatMap_cons, List.append_assoc, ← ih.1]
      exact hs
    · intro t ht
      rcases List.mem_cons.1 ht with rfl | ht
      · exact hv
      · exact ih.2 t ht
  | case2 s hp => exact ⟨rfl, by simp⟩

/-! ### Characters -/

/-- Descriptors have no blanks, and no character that has a meaning outside of them. -/
theorem isNameChar_or_of_mem_jni {t : TypeDescriptor} (h : t.Valid) {c : Char} (hc : c ∈ t.jni) :
    isNameChar c ∨ c = ';' := by
  have letter : ∀ x : Char, isNameChar x → c ∈ [x] → isNameChar c ∨ c = ';' := by
    intro x hx hmem
    rw [List.mem_singleton] at hmem
    exact .inl (hmem ▸ hx)
  induction t with
  | array t ih =>
    rcases List.mem_cons.1 hc with rfl | hc
    · exact .inl (by decide)
    · exact ih h hc
  | object n =>
    rw [jni, ClassName.jni] at hc
    simp only [List.mem_append] at hc
    rcases hc with (hc | hc) | hc
    · exact letter 'L' (by decide) hc
    · exact .inl (h.chars c hc)
    · exact .inr (List.mem_singleton.1 hc)
  | _ => exact letter _ (by decide) hc

theorem not_isBlank_of_isNameChar {c : Char} (h : isNameChar c) : ¬ isBlank c := by
  simp only [isNameChar, Bool.and_eq_true, Bool.not_eq_true'] at h
  simp [h.2]

theorem jni_ne_nil (t : TypeDescriptor) : t.jni ≠ [] := by
  cases t <;> simp [jni, ClassName.jni]

theorem isWord_jni {t : TypeDescriptor} (h : t.Valid) : IsWord t.jni where
  ne_nil := t.jni_ne_nil
  dark c hc := by
    rcases isNameChar_or_of_mem_jni h hc with hc | rfl
    · exact not_isBlank_of_isNameChar hc
    · decide

/-- The last character of a descriptor is a letter, or a semicolon. -/
theorem getLast?_jni (t : TypeDescriptor) : ∀ c ∈ t.jni.getLast?, c ≠ '\\' := by
  have letter : ∀ x : Char, x ≠ '\\' → ∀ c ∈ [x].getLast?, c ≠ '\\' := by
    intro x hx c hc
    cases hc
    exact hx
  induction t with
  | array t ih =>
    have : (array t).jni = ['['] ++ t.jni := rfl
    rw [this, List.getLast?_append_of_ne_nil _ t.jni_ne_nil]
    exact ih
  | object n =>
    have : (object n).jni = ("L" ++ n.path) ++ [';'] := rfl
    rw [this, List.getLast?_append_of_ne_nil _ (by simp)]
    exact letter ';' (by decide)
  | _ => exact letter _ (by decide)

end TypeDescriptor

namespace Prototype

structure Valid (p : Prototype) : Prop where
  parameters : ∀ t ∈ p.parameters, t.Valid
  result : p.result.Valid

theorem read?_jni {p : Prototype} (h : p.Valid) (r : Text) : read? (p.jni ++ r) = some (p, r) := by
  have hs : p.jni ++ r =
      '(' :: (p.parameters.flatMap TypeDescriptor.jni ++ ')' :: (p.result.jni ++ r)) := by
    simp [jni]
  rw [hs, read?]
  simp [after?, TypeDescriptor.readAll_flatMap h.parameters, TypeDescriptor.read?_jni h.result]

theorem eq_of_read? {s r : Text} {p : Prototype} (h : read? s = some (p, r)) :
    s = p.jni ++ r ∧ p.Valid := by
  simp only [read?, Option.bind_eq_bind, Option.bind_eq_some_iff] at h
  obtain ⟨a, ha, b, hb, ⟨t, q⟩, hq, he⟩ := h
  cases he
  obtain ⟨hps, hpv⟩ := TypeDescriptor.eq_of_readAll a
  obtain ⟨hrs, hrv⟩ := TypeDescriptor.eq_of_read? hq
  refine ⟨?_, hpv, hrv⟩
  have hb' : (TypeDescriptor.readAll a).2 = [')'] ++ (t.jni ++ q) := by
    rw [eq_append_of_after? hb, hrs]
  rw [hb'] at hps
  rw [eq_append_of_after? ha]
  simpa [jni] using hps

theorem isWord_jni {p : Prototype} (h : p.Valid) : IsWord p.jni where
  ne_nil := by simp [jni]
  dark c hc := by
    rw [jni] at hc
    simp only [List.mem_append, List.mem_flatMap] at hc
    rcases hc with ((hc | ⟨t, ht, hc⟩) | hc) | hc
    · rw [List.mem_singleton.1 hc]; decide
    · exact (TypeDescriptor.isWord_jni (h.parameters t ht)).dark c hc
    · rw [List.mem_singleton.1 hc]; decide
    · exact (TypeDescriptor.isWord_jni h.result).dark c hc

theorem getLast?_jni (p : Prototype) : ∀ c ∈ p.jni.getLast?, c ≠ '\\' := by
  rw [jni, List.getLast?_append_of_ne_nil _ p.result.jni_ne_nil]
  exact p.result.getLast?_jni

end Prototype

end DalvikPatch
