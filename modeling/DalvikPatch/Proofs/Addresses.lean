import DalvikPatch.Proofs.Rules

/-! Addresses of content and the authorities that serve them. An authority ends with the address or at a
slash, a question mark or a hash. The rule for addresses does not look that far: it takes what begins with a
name of GmsCore's, and so also the address of a longer name. -/

namespace DalvikPatch.GmsCore

open Text

variable {vendor s t : Text}

/-- What ends an authority, if the address goes on. -/
def endsAuthority (c : Char) : Bool := c == '/' || c == '?' || c == '#'

/-- The authorities of GmsCore. -/
def served : List Text := feeds :: authorities

/-- An address whose authority is one of GmsCore's. -/
def Serves (s : Text) : Prop :=
  ∃ a ∈ served, ∃ rest : Text, s = "content://" ++ (a ++ rest) ∧ ∀ c ∈ rest.head?, endsAuthority c

/-- An address whose authority goes on behind a name of GmsCore's. -/
def Outgrows (s : Text) : Prop :=
  ∃ a ∈ served, ∃ (c : Char) (rest : Text), s = "content://" ++ (a ++ c :: rest) ∧ ¬ endsAuthority c

/-- No authority of GmsCore's begins with another. -/
theorem eq_of_startsWith_served : ∀ a ∈ served, ∀ b ∈ served, startsWith a b → a = b := by
  decide

/-- One name of GmsCore's at most stands at the start of a text. -/
theorem eq_of_served_append {a b x y : Text} (ha : a ∈ served) (hb : b ∈ served) (h : a ++ x = b ++ y) :
    a = b ∧ x = y := by
  have hab : a = b := by
    rcases List.append_eq_append_iff.1 h with ⟨z, hz, -⟩ | ⟨z, hz, -⟩
    · exact eq_of_startsWith_served a ha b hb (startsWith_iff.2 ⟨z, hz⟩)
    · exact (eq_of_startsWith_served b hb a ha (startsWith_iff.2 ⟨z, hz⟩)).symm
  exact ⟨hab, List.append_cancel_left (hab ▸ h)⟩

theorem Outgrows.not_serves (h : Outgrows s) : ¬ Serves s := by
  obtain ⟨a, ha, c, rest, rfl, hc⟩ := h
  rintro ⟨b, hb, rest', hs, hend⟩
  obtain ⟨-, rfl⟩ := eq_of_served_append ha hb (List.append_cancel_left hs)
  exact hc (hend c rfl)

theorem serves_or_outgrows_iff :
    Serves s ∨ Outgrows s ↔ ∃ a ∈ served, ∃ rest : Text, s = "content://" ++ (a ++ rest) := by
  constructor
  · rintro (⟨a, ha, rest, hs, -⟩ | ⟨a, ha, c, rest, hs, -⟩)
    · exact ⟨a, ha, rest, hs⟩
    · exact ⟨a, ha, c :: rest, hs⟩
  · rintro ⟨a, ha, rest, rfl⟩
    cases rest with
    | nil => exact .inl ⟨a, ha, [], rfl, by simp⟩
    | cons c rest =>
      by_cases hc : endsAuthority c
      · exact .inl ⟨a, ha, c :: rest, rfl, by simpa using hc⟩
      · exact .inr ⟨a, ha, c, rest, rfl, hc⟩

/-- The rule for whole names has something for every authority. -/
theorem exists_commonName {a : Text} (ha : a ∈ served) (vendor : Text) :
    ∃ b, commonName vendor a = some b := by
  rcases List.mem_cons.1 ha with rfl | ha
  · exact ⟨_, commonName_eq_some_iff.2 (.feeds rfl)⟩
  · have hmem : a ∈ googleNames := by simp [googleNames, ha]
    obtain ⟨rest, hs, -⟩ := exists_of_google hmem
    exact ⟨_, commonName_eq_some_iff.2 (.google hs hmem)⟩

/-- In an address the name is written that the rule for whole names writes. -/
theorem addressFor_iff : AddressFor vendor s t ↔ ∃ a ∈ served, ∃ b rest : Text,
    commonName vendor a = some b ∧ s = "content://" ++ (a ++ rest) ∧ t = "content://" ++ (b ++ rest) := by
  constructor
  · rintro (⟨rfl, a, ha, hstart⟩ | ⟨rfl⟩)
    · obtain ⟨r, hr⟩ := startsWith_iff.1 hstart
      have hserved : a ∈ served := List.mem_cons_of_mem _ ha
      obtain ⟨b, hb⟩ := exists_commonName hserved vendor
      refine ⟨a, hserved, b, r, hb, by rw [hr], ?_⟩
      cases commonName_eq_some_iff.1 hb with
      | google hs _ =>
        rw [hs, List.append_assoc] at hr
        rw [List.append_cancel_left hr, List.append_assoc]
      | feeds hs =>
        subst hs
        cases hr
    · exact ⟨feeds, List.mem_cons_self, _, _, commonName_eq_some_iff.2 (.feeds rfl), rfl, by simp⟩
  · rintro ⟨a, ha, b, rest, hb, rfl, rfl⟩
    cases commonName_eq_some_iff.1 hb with
    | google hs hmem =>
      have hauthority : a ∈ authorities := by
        rcases List.mem_cons.1 ha with rfl | ha
        · cases hs
        · exact ha
      rw [hs, List.append_assoc, List.append_assoc]
      exact .authority rfl ⟨a, hauthority, startsWith_iff.2 ⟨rest, by rw [hs, List.append_assoc]⟩⟩
    | feeds hs =>
      subst hs
      rw [List.append_assoc, List.append_assoc]
      exact .feeds rfl

/-- Which addresses the rule takes, and what it makes of them: the name at the start gives way to the one that
stands for it as a whole name, and the rest stays, be it of the same authority. The addresses of GmsCore's
authorities are among them. Exactly those whose authority goes on behind such a name are taken for
GmsCore's and are not. -/
theorem addresses_taken (vendor s : Text) :
    (∀ t, contentName vendor s = some t ↔ ∃ a ∈ served, ∃ b rest : Text, commonName vendor a = some b ∧
      s = "content://" ++ (a ++ rest) ∧ t = "content://" ++ (b ++ rest)) ∧
    ((contentName vendor s).isSome ↔ Serves s ∨ Outgrows s) ∧
    (((contentName vendor s).isSome ↔ Serves s) ↔ ¬ Outgrows s) := by
  have hwritten : ∀ t, contentName vendor s = some t ↔ ∃ a ∈ served, ∃ b rest : Text,
      commonName vendor a = some b ∧ s = "content://" ++ (a ++ rest) ∧ t = "content://" ++ (b ++ rest) :=
    fun t => contentName_eq_some_iff.trans addressFor_iff
  have htaken : (contentName vendor s).isSome ↔ Serves s ∨ Outgrows s := by
    rw [serves_or_outgrows_iff, Option.isSome_iff_exists]
    simp only [hwritten]
    constructor
    · rintro ⟨t, a, ha, b, rest, -, hs, -⟩
      exact ⟨a, ha, rest, hs⟩
    · rintro ⟨a, ha, rest, hs⟩
      obtain ⟨b, hb⟩ := exists_commonName ha vendor
      exact ⟨_, a, ha, b, rest, hb, hs, rfl⟩
  refine ⟨hwritten, htaken, ?_⟩
  rw [htaken]
  exact ⟨fun h hlonger => hlonger.not_serves (h.1 (.inr hlonger)),
    fun h => or_iff_left h⟩

/-- An address of another authority is taken for one of GmsCore's settings. -/
theorem longer_authority_taken :
    contentName "app.revanced" "content://com.google.settingsx/a" =
      some ("content://app.revanced.settingsx/a" : Text) ∧
    ¬ Serves "content://com.google.settingsx/a" := by
  have hlonger : Outgrows "content://com.google.settingsx/a" :=
    ⟨"com.google.settings", by decide, 'x', "/a", rfl, by decide⟩
  refine ⟨?_, hlonger.not_serves⟩
  exact @contentName_authority "app.revanced" ".settingsx/a" ⟨"com.google.settings", by decide +kernel, by decide⟩

end DalvikPatch.GmsCore
