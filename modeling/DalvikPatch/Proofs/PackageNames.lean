import DalvikPatch.Proofs.Comments
import DalvikPatch.Setting

/-! Package names. They start with a small Latin letter and consist of word characters and dots, so nothing
in them means anything to what they are written into: no quote, no backslash, no hash, no bracket, no
equals sign and no blank. -/

namespace DalvikPatch

open Text

namespace Text

variable {c : Char}

theorem isWord_of_small (h : 'a' ≤ c ∧ c ≤ 'z') : isWord c := by
  have hlt : c.toNat < 0x80 := Nat.lt_of_le_of_lt (show c.toNat ≤ 122 from h.2) (by decide)
  have hlower : c.isLower := Bool.and_eq_true_iff.2 ⟨decide_eq_true h.1, decide_eq_true h.2⟩
  have halphanum : c.isAlphanum := Bool.or_eq_true_iff.2 (.inl (Bool.or_eq_true_iff.2 (.inr hlower)))
  simp [isWord, hlt, halphanum]

end Text

/-- A character that may stand in a package name. -/
def IsNameChar (c : Char) : Prop := isWord c ∨ c = '.'

instance (c : Char) : Decidable (IsNameChar c) := inferInstanceAs (Decidable (_ ∨ _))

variable {c : Char} {s : Text}

theorem isNameChar_of_isPackageName (h : isPackageName s) : ∀ c ∈ s, IsNameChar c := by
  intro c hc
  have hparts : ∀ w ∈ pieces '.' s, isPackagePart w := by
    simp only [isPackageName, Bool.and_eq_true, List.all_eq_true] at h
    exact h.2
  rw [← join_pieces '.' s] at hc
  rcases mem_of_mem_join hc with hc | ⟨w, hw, hc⟩
  · exact .inr (List.mem_singleton.1 hc)
  · have hpart := hparts w hw
    cases w with
    | nil => cases hc
    | cons d ds =>
      simp only [isPackagePart, Bool.and_eq_true, decide_eq_true_eq, List.all_eq_true] at hpart
      rcases List.mem_cons.1 hc with rfl | hc
      · exact .inl (isWord_of_small hpart.1)
      · exact .inl (hpart.2 c hc)

theorem not_mem_of_isPackageName (h : isPackageName s) (hc : ¬ IsNameChar c) : c ∉ s :=
  fun hmem => hc (isNameChar_of_isPackageName h c hmem)

theorem isNameChar_append {w : Text} (h : isPackageName s) (hw : ∀ c ∈ w, IsNameChar c) :
    ∀ c ∈ s ++ w, IsNameChar c :=
  fun c hc => (List.mem_append.1 hc).elim (isNameChar_of_isPackageName h c) (hw c)

theorem isPlain_of_isPackageName (h : isPackageName s) : ∀ c ∈ s, IsPlain c := by
  intro c hc
  refine ⟨?_, ?_, ?_⟩ <;> rintro rfl <;> exact not_mem_of_isPackageName h (by decide) hc

theorem ne_nil_of_isPackageName (h : isPackageName s) : s ≠ [] := by
  rintro rfl
  cases h

namespace Setting

/-- A value that is given out is valid, wherever it comes from. -/
theorem valid_of_require {setting : Setting} {o : Options} {v : Text} (h : setting.require o = .ok v) :
    setting.valid?.all (· v) := by
  cases hv : (o.get? setting.key).or setting.default? with
  | none => cases hr : setting.required <;> simp [require, resolve, hv, hr, Outcome.fault, bind, Except.bind] at h
  | some u =>
    by_cases hu : setting.valid?.all (· u)
    · obtain rfl : u = v := by simpa [require, resolve, hv, hu, bind, Except.bind] using h
      exact hu
    · simp [require, resolve, hv, hu, Outcome.fault, bind, Except.bind] at h

end Setting

end DalvikPatch
