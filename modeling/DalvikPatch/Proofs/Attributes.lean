import DalvikPatch.Manifest
import DalvikPatch.Proofs.Replacements

/-! Attributes of an element. Four characters are written as entities, so a value holds no quote and no angle
bracket of its own, and an element is cut at its quotes in one way. Every entity starts with an ampersand, and nothing
else that is written does: whoever reads a value from left to right meets each entity where it was put. -/

namespace DalvikPatch.Manifest

open Text

variable {c : Char} {s t : Text} {e : Char × Text}

/-! ### Entities -/

/-- The characters that are not written as they are, and what is written for each. -/
def entities : List (Char × Text) := [('&', "&amp;"), ('<', "&lt;"), ('>', "&gt;"), ('"', "&quot;")]

theorem attributeChar_eq (c : Char) : attributeChar c = (entities.lookup c).getD [c] := by
  rw [attributeChar]
  split_ifs with hamp hlt hgt hquot
  · rw [hamp]
    rfl
  · rw [hlt]
    rfl
  · rw [hgt]
    rfl
  · rw [hquot]
    rfl
  · have hother : entities.lookup c = none := by
      rw [List.lookup_eq_none_iff]
      simp [entities, hamp, hlt, hgt, hquot]
    rw [hother, Option.getD_none]

theorem attributeText_eq (s : Text) :
    attributeText s = replaceEach (entities.map fun e => ([e.1], e.2)) s := by
  rw [replaceEach_singletons (by decide), attributeText]
  exact List.flatMap_congr fun c _ => attributeChar_eq c

/-- A character is written as its entity, or as itself if it has none. -/
theorem attributeChar_cases (c : Char) :
    (c, attributeChar c) ∈ entities ∨ (∀ e ∈ entities, e.1 ≠ c) ∧ attributeChar c = [c] := by
  rw [attributeChar_eq]
  cases hc : entities.lookup c with
  | none =>
    refine .inr ⟨fun e he heq => ?_, rfl⟩
    exact absurd (List.lookup_eq_none_iff.1 hc e he) (by simp [heq])
  | some w =>
    obtain ⟨before, after, hes, -⟩ := List.lookup_eq_some_iff.1 hc
    exact .inl (by simp [hes])

/-- What ends a value or an element: characters that are written as entities, and that no entity holds. -/
def marks : List Char := ['"', '<', '>']

theorem mark_facts : ∀ c ∈ marks, (∃ e ∈ entities, e.1 = c) ∧ ∀ e ∈ entities, c ∉ e.2 := by
  decide

theorem not_mem_attributeText (hc : c ∈ marks) (s : Text) : c ∉ attributeText s := by
  obtain ⟨⟨e, he, hec⟩, hwords⟩ := mark_facts c hc
  intro hmem
  obtain ⟨d, -, hd⟩ := List.mem_flatMap.1 hmem
  rcases attributeChar_cases d with hentity | ⟨hother, heq⟩
  · exact hwords _ hentity hd
  · rw [heq, List.mem_singleton] at hd
    exact hother e he (hec.trans hd)

/-! ### Reading back -/

/-- The character that the entity at the start of a text stands for, and what follows it. -/
def entity? (s : Text) : Option (Char × Text) :=
  entities.findSome? fun e => (after? e.2 s).map fun r => (e.1, r)

theorem entity?_append (he : e ∈ entities) (s : Text) : entity? (e.2 ++ s) = some (e.1, s) := by
  simp only [entities, List.mem_cons, List.not_mem_nil, or_false] at he
  rcases he with rfl | rfl | rfl | rfl <;> rfl

theorem entity_facts : ∀ e ∈ entities, e.2.head? = some '&' := by decide

theorem exists_of_entity? (h : entity? s = some (c, t)) : ∃ w, (c, w) ∈ entities ∧ s = w ++ t := by
  obtain ⟨e, he, hstart⟩ := List.exists_of_findSome?_eq_some h
  obtain ⟨r, hr, heq⟩ := Option.map_eq_some_iff.1 hstart
  cases heq
  exact ⟨e.2, he, eq_append_of_after? hr⟩

theorem length_lt_of_entity? (h : entity? s = some (c, t)) : t.length < s.length := by
  obtain ⟨w, hw, rfl⟩ := exists_of_entity? h
  have hne : w ≠ [] := by
    rintro rfl
    cases entity_facts _ hw
  have := List.length_pos_iff.2 hne
  rw [List.length_append]
  omega

/-- An entity starts with an ampersand. -/
theorem entity?_cons_of_ne (hc : c ≠ '&') (s : Text) : entity? (c :: s) = none := by
  rw [Option.eq_none_iff_forall_not_mem]
  rintro ⟨d, t⟩ h
  obtain ⟨w, hw, hs⟩ := exists_of_entity? h
  have hhead := entity_facts _ hw
  cases w with
  | nil => cases hhead
  | cons a w =>
    cases hs
    exact hc (Option.some.inj hhead)

/-- Reads the entities of a text from left to right; any other character stands for itself. -/
def decoded : Text → Text
  | [] => []
  | c :: s => match _ : entity? (c :: s) with
    | some p => p.1 :: decoded p.2
    | none => c :: decoded s
termination_by s => s.length
decreasing_by
  · exact length_lt_of_entity? ‹_›
  · simp

theorem decoded_of_entity? (h : entity? s = some (c, t)) : decoded s = c :: decoded t := by
  cases s with
  | nil => cases h
  | cons d s =>
    rw [decoded]
    split
    · next p hp =>
      rw [h] at hp
      cases hp
      rfl
    · next hnone =>
      rw [h] at hnone
      cases hnone

theorem decoded_cons (h : entity? (c :: s) = none) : decoded (c :: s) = c :: decoded s := by
  rw [decoded]
  split
  · next p hp =>
    rw [h] at hp
    cases hp
  · rfl

theorem decoded_attributeChar_append (c : Char) (t : Text) : decoded (attributeChar c ++ t) = c :: decoded t := by
  rcases attributeChar_cases c with hentity | ⟨hother, heq⟩
  · exact decoded_of_entity? (entity?_append hentity t)
  · have hamp : c ≠ '&' := (hother _ List.mem_cons_self).symm
    rw [heq]
    exact decoded_cons (entity?_cons_of_ne hamp t)

theorem decoded_attributeText (s : Text) : decoded (attributeText s) = s := by
  induction s with
  | nil => rw [attributeText, List.flatMap_nil, decoded]
  | cons c s ih => rw [attributeText, List.flatMap_cons, decoded_attributeChar_append, ← attributeText, ih]

/-! ### Elements -/

theorem metaData_eq (name value : Text) : metaData name value =
    "<meta-data android:name=" ++ '"' :: (attributeText name ++ '"' :: (" android:value=" ++
      '"' :: (attributeText value ++ '"' :: "/>"))) := by
  have hname : ("<meta-data android:name=\"" : Text) = "<meta-data android:name=" ++ ['"'] := by decide
  have hvalue : ("\" android:value=\"" : Text) = '"' :: (" android:value=" ++ ['"']) := by decide
  have hclose : ("\"/>" : Text) = '"' :: "/>" := by decide
  unfold metaData
  rw [hname, hvalue, hclose]
  simp only [List.append_assoc, List.cons_append, List.nil_append]

/-- An element is read as a name and a value if its two attributes hold them, each with its entities read back. -/
def ReadsAs (s name value : Text) : Prop :=
  ∃ n v, pieces '"' s = [("<meta-data android:name=" : Text), n, " android:value=", v, "/>"] ∧
    decoded n = name ∧ decoded v = value

theorem ReadsAs.unique {name value name' value' : Text} (h : ReadsAs s name value) (h' : ReadsAs s name' value') :
    name = name' ∧ value = value' := by
  obtain ⟨n, v, hpieces, hn, hv⟩ := h
  obtain ⟨n', v', hpieces', hn', hv'⟩ := h'
  rw [hpieces] at hpieces'
  simp only [List.cons.injEq, true_and, and_true] at hpieces'
  obtain ⟨rfl, rfl⟩ := hpieces'
  exact ⟨hn.symm.trans hn', hv.symm.trans hv'⟩

/-- The quotes of an element are those around its two values. -/
theorem readsAs_metaData (name value : Text) : ReadsAs (metaData name value) name value := by
  have hquote : ∀ s, '"' ∉ attributeText s := not_mem_attributeText (by decide)
  have hname : '"' ∉ ("<meta-data android:name=" : Text) := by decide
  have hvalue : '"' ∉ (" android:value=" : Text) := by decide
  have hclose : '"' ∉ ("/>" : Text) := by decide
  refine ⟨attributeText name, attributeText value, ?_, decoded_attributeText name, decoded_attributeText value⟩
  rw [metaData_eq, pieces_append, pieces_append, pieces_append, pieces_append, pieces_of_not_mem hname,
    pieces_of_not_mem (hquote name), pieces_of_not_mem hvalue, pieces_of_not_mem (hquote value),
    pieces_of_not_mem hclose]
  rfl

theorem metaData_inj {name value name' value' : Text} :
    metaData name value = metaData name' value' ↔ name = name' ∧ value = value' := by
  constructor
  · intro h
    have hread := readsAs_metaData name value
    rw [h] at hread
    exact hread.unique (readsAs_metaData name' value')
  · rintro ⟨rfl, rfl⟩
    rfl

/-- What is written into an element adds nothing that could end a value or the element. -/
theorem count_metaData (hc : c ∈ marks) (name value : Text) :
    (metaData name value).count c = (metaData [] []).count c := by
  have hnone : ∀ s, (attributeText s).count c = 0 := fun s => List.count_eq_zero.2 (not_mem_attributeText hc s)
  rw [metaData_eq, metaData_eq]
  simp only [List.count_append, List.count_cons, hnone]

theorem count_marks (name value : Text) :
    (metaData name value).count '"' = 4 ∧ (metaData name value).count '<' = 1 ∧
      (metaData name value).count '>' = 1 := by
  have hquote : '"' ∈ marks := by decide
  have hopen : '<' ∈ marks := by decide
  have hclose : '>' ∈ marks := by decide
  rw [count_metaData hquote, count_metaData hopen, count_metaData hclose]
  decide

/-- Writing the four characters as entities is replacing one after the other, the ampersand first. Whatever is
written into an element, it has the quotes of its two attributes and the brackets around it and no others, and its
attributes are read back as the name and the value: so two elements are the same only if both are. -/
theorem attributes_read_back :
    (∀ s, attributeText s = replaceAll ['"'] "&quot;" (replaceAll ['>'] "&gt;"
      (replaceAll ['<'] "&lt;" (replaceAll ['&'] "&amp;" s)))) ∧
    (∀ name value, (metaData name value).count '"' = 4 ∧ (metaData name value).count '<' = 1 ∧
      (metaData name value).count '>' = 1) ∧
    (∀ name value, ReadsAs (metaData name value) name value) ∧
    ∀ name value name' value', metaData name value = metaData name' value' ↔ name = name' ∧ value = value' :=
  ⟨attributeText_eq, count_marks, readsAs_metaData, fun _ _ _ _ => metaData_inj⟩

/-- What looks like an entity is read back as it was. -/
example : attributeText "&lt;\"" = "&amp;lt;&quot;" := by decide

end DalvikPatch.Manifest
