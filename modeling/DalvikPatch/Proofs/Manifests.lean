import DalvikPatch.GmsCore.Manifest
import DalvikPatch.Proofs.PackageNames
import DalvikPatch.Proofs.Replacements

/-! Renaming a manifest. The first two replacements look for the old package behind the quote that opens the value
of an attribute, and so at its start alone, and not at what follows. The others look for words without
quotes, so each value is for them a text of its own. -/

namespace DalvikPatch.GmsCore

open Text

variable {vendor old new a b s value : Text} {c q : Char}

/-! ### The replacements that look for no quote -/

/-- The replacements behind those of the two attributes. -/
def laterSubstitutions (vendor old new : Text) : List (Text × Text) := (manifestSubstitutions vendor old new).drop 2

/-- What the replacements behind those of the two attributes make of a text. -/
def later (vendor old new s : Text) : Text := replaceEach (laterSubstitutions vendor old new) s

/-- What they look for, the old package left out. -/
def laterWords : List Text := [".permission.C2D_MESSAGE", ".DYNAMIC_RECEIVER_NOT_EXPORTED_PERMISSION",
  "com.google.android.c2dm", "com.google.android.libraries.photos.api.mars", "</queries>"]

theorem exists_laterWord {p : Text × Text} (hp : p ∈ laterSubstitutions vendor old new) :
    ∃ w ∈ laterWords, w <:+ p.1 ∧ ∀ c ∈ p.1, c ∈ old ∨ c ∈ w := by
  simp only [laterSubstitutions, manifestSubstitutions, List.drop, List.mem_cons, List.not_mem_nil, or_false] at hp
  rcases hp with rfl | rfl | rfl | rfl | rfl
  · exact ⟨".permission.C2D_MESSAGE", by simp [laterWords], List.suffix_append .., fun c => List.mem_append.1⟩
  · exact ⟨".DYNAMIC_RECEIVER_NOT_EXPORTED_PERMISSION", by simp [laterWords], List.suffix_append ..,
      fun c => List.mem_append.1⟩
  all_goals exact ⟨_, by simp [laterWords], List.suffix_refl _, fun c => .inr⟩

/-- What attributes are set apart by. -/
def blanks : List Char := [' ', '\t', '\n', '\r']

theorem not_isNameChar_of_mem_blanks : ∀ c ∈ blanks, ¬ IsNameChar c := by decide

/-- Characters that these replacements do not look for, unless the old package has them. -/
def boundaries : List Char := '"' :: ';' :: blanks

theorem laterWord_facts : ∀ w ∈ laterWords, ('.' ∈ w ∨ '<' ∈ w) ∧ ∀ c ∈ boundaries, c ∉ w := by
  decide

theorem laterSubstitutions_apart (hq : q ∈ boundaries) (hold : q ∉ old) :
    ∀ p ∈ laterSubstitutions vendor old new, p.1 ≠ [] ∧ q ∉ p.1 := by
  intro p hp
  obtain ⟨w, hw, hsuffix, hchars⟩ := exists_laterWord hp
  obtain ⟨hmark, hout⟩ := laterWord_facts w hw
  refine ⟨?_, fun hmem => (hchars q hmem).elim hold (hout q hq)⟩
  intro hnil
  rw [hnil, List.suffix_nil] at hsuffix
  simp [hsuffix] at hmark

theorem later_append_cons (hq : q ∈ boundaries) (hold : q ∉ old) :
    later vendor old new (a ++ q :: b) = later vendor old new a ++ q :: later vendor old new b :=
  replaceEach_append_cons (laterSubstitutions_apart hq hold)

theorem later_join (hq : q ∈ boundaries) (hold : q ∉ old) (ws : List Text) :
    later vendor old new (join [q] ws) = join [q] (ws.map (later vendor old new)) :=
  replaceEach_join (laterSubstitutions_apart hq hold) ws

theorem laterSubstitutions_absent (hdot : '.' ∉ s) (hangle : '<' ∉ s) :
    ∀ p ∈ laterSubstitutions vendor old new, ¬ p.1 <:+: s := by
  intro p hp hin
  obtain ⟨w, hw, hsuffix, -⟩ := exists_laterWord hp
  have hsub : w ⊆ s := (hsuffix.isInfix.trans hin).subset
  exact (laterWord_facts w hw).1.elim (fun h => hdot (hsub h)) (fun h => hangle (hsub h))

/-! ### The replacements in attributes -/

/-- Puts another package in the place of the old one at the start of a text. -/
def swapped (old new s : Text) : Text := if old <+: s then new ++ s.drop old.length else s

theorem swapped_append (old new s : Text) : swapped old new (old ++ s) = new ++ s := by
  rw [swapped, if_pos (List.prefix_append old s), List.drop_left]

theorem swapped_ne (hne : old ≠ new) (h : old <+: s) : swapped old new s ≠ s := by
  obtain ⟨r, rfl⟩ := h
  rw [swapped_append, Ne, List.append_cancel_right_eq]
  exact hne.symm

theorem swapped_append_cons (hold : c ∉ old) : swapped old new (a ++ c :: b) = swapped old new a ++ c :: b := by
  by_cases h : old <+: a
  · obtain ⟨r, rfl⟩ := h
    rw [List.append_assoc, swapped_append, swapped_append, List.append_assoc]
  · rw [swapped, if_neg fun h' => h (prefix_of_prefix_append_cons hold h'), swapped, if_neg h]

theorem swapped_join (hold : c ∉ old) (w : Text) (ws : List Text) :
    swapped old new (join [c] (w :: ws)) = join [c] (swapped old new w :: ws) := by
  cases ws with
  | nil => rfl
  | cons v ws => rw [join_cons_cons, swapped_append_cons hold, join_cons_cons]

/-- Puts another package in the place of the old one wherever it stands at the start of a value, behind `word`. -/
def swapAt (word old new s : Text) : Text := replaceAll (word ++ '"' :: old) (word ++ '"' :: new) s

section

variable {word : Text} (hword : '"' ∉ word)
include hword

/-- The value of another attribute stays. -/
theorem exists_swapAt_other (ha : '"' ∉ a) (hother : ¬ word <:+ a) (hvalue : '"' ∉ value) (old new back : Text) :
    ∃ back', swapAt word old new (a ++ '"' :: (value ++ '"' :: back)) = a ++ '"' :: (value ++ '"' :: back') ∧
      (¬ word <:+ value → back' = swapAt word old new back) := by
  obtain ⟨back', hback, hsame⟩ := exists_replaceAll_quote hvalue hword old new back
  refine ⟨back', ?_, hsame⟩
  rw [swapAt, replaceAll_quote_of_not ha hword fun h => hother h.1, hback]

/-- The old package gives way at the start of the value, whatever follows it. -/
theorem exists_swapAt_value (hold : '"' ∉ old) (hvalue : '"' ∉ value) (new back : Text) :
    ∃ back', swapAt word old new (word ++ '"' :: (value ++ '"' :: back)) =
        word ++ '"' :: (swapped old new value ++ '"' :: back') ∧
      (¬ word <:+ value → back' = swapAt word old new back) := by
  by_cases h : old <+: value
  · obtain ⟨r, rfl⟩ := h
    have hr : '"' ∉ r := fun hmem => hvalue (List.mem_append_right _ hmem)
    obtain ⟨back', hback, hsame⟩ := exists_replaceAll_quote hr hword old new back
    refine ⟨back', ?_, fun hnot => hsame fun hsuffix => hnot (hsuffix.trans (List.suffix_append old r))⟩
    have hquote := replaceAll_quote (a := []) List.not_mem_nil hword old new (r ++ '"' :: back)
    rw [List.nil_append, List.nil_append] at hquote
    rw [swapAt, swapped_append, List.append_assoc, hquote, hback, List.append_assoc]
  · obtain ⟨back', hback, hsame⟩ := exists_replaceAll_quote hvalue hword old new back
    refine ⟨back', ?_, hsame⟩
    have hnot : ¬ old <+: value ++ '"' :: back := fun h' => h (prefix_of_prefix_append_cons hold h')
    rw [swapAt, replaceAll_quote_of_not hword hword fun h' => hnot h'.2, hback, swapped, if_neg h]

end

/-- The start of the attribute of the package, up to the quote. -/
def packageWord : Text := "package="

/-- The start of the attribute of the authorities, up to the quote. -/
def authoritiesWord : Text := "android:authorities="

theorem packageWord_append (s : Text) : "package=\"" ++ s = packageWord ++ '"' :: s := by
  have hword : ("package=\"" : Text) = packageWord ++ ['"'] := by decide
  rw [hword, List.append_assoc, List.singleton_append]

theorem authoritiesWord_append (s : Text) : "android:authorities=\"" ++ s = authoritiesWord ++ '"' :: s := by
  have hword : ("android:authorities=\"" : Text) = authoritiesWord ++ ['"'] := by decide
  rw [hword, List.append_assoc, List.singleton_append]

theorem renameManifest_eq (vendor old new s : Text) : renameManifest vendor old new s =
    later vendor old new (swapAt authoritiesWord old new (swapAt packageWord old new s)) := by
  rw [renameManifest, manifestRenaming, Substitution.applyAll_literals, manifestSubstitutions, replaceEach, replaceEach]
  simp only [packageWord_append, authoritiesWord_append]
  rfl

/-- What the start of an attribute has none of. -/
structure IsStart (word : Text) : Prop where
  quote : '"' ∉ word
  dot : '.' ∉ word
  angle : '<' ∉ word
  blank : ∀ c ∈ blanks, c ∉ word

theorem isStart_packageWord : IsStart packageWord := by constructor <;> decide

theorem isStart_authoritiesWord : IsStart authoritiesWord := by constructor <;> decide

theorem IsStart.absent {word : Text} (h : IsStart word) :
    ∀ p ∈ laterSubstitutions vendor old new, ¬ p.1 <:+: word :=
  laterSubstitutions_absent h.dot h.angle

/-- A blank cuts a manifest. -/
theorem renameManifest_append_cons (hc : c ∈ blanks) (hold : c ∉ old) :
    renameManifest vendor old new (a ++ c :: b) =
      renameManifest vendor old new a ++ c :: renameManifest vendor old new b := by
  have hquote : c ≠ '"' := fun h => absurd (h ▸ hc) (by decide)
  have hcut : ∀ (word x y : Text), IsStart word →
      swapAt word old new (x ++ c :: y) = swapAt word old new x ++ c :: swapAt word old new y := by
    intro word x y hword
    exact replaceAll_append_cons (by simp) (by simp [hword.blank c hc, hquote, hold])
  have hbound : c ∈ boundaries := by simp [boundaries, hc]
  rw [renameManifest_eq, hcut _ _ _ isStart_packageWord, hcut _ _ _ isStart_authoritiesWord,
    later_append_cons hbound hold, renameManifest_eq, renameManifest_eq]

/-- What becomes of the value of the attribute of the authorities. -/
theorem exists_rename_authorities (hold : '"' ∉ old) (hvalue : '"' ∉ value) (vendor new back : Text) :
    ∃ back', renameManifest vendor old new (authoritiesWord ++ '"' :: (value ++ '"' :: back)) =
        authoritiesWord ++ '"' :: (later vendor old new (swapped old new value) ++ '"' :: back') ∧
      (¬ packageWord <:+ value → ¬ authoritiesWord <:+ value → back' = renameManifest vendor old new back) := by
  have hother : ¬ packageWord <:+ authoritiesWord := by decide
  have hbound : '"' ∈ boundaries := by decide
  have hword : later vendor old new authoritiesWord = authoritiesWord :=
    replaceEach_eq_self isStart_authoritiesWord.absent
  obtain ⟨back₁, hback₁, hsame₁⟩ :=
    exists_swapAt_other isStart_packageWord.quote isStart_authoritiesWord.quote hother hvalue old new back
  obtain ⟨back₂, hback₂, hsame₂⟩ := exists_swapAt_value isStart_authoritiesWord.quote hold hvalue new back₁
  refine ⟨later vendor old new back₂, ?_, fun h₁ h₂ => ?_⟩
  · rw [renameManifest_eq, hback₁, hback₂, later_append_cons hbound hold, later_append_cons hbound hold, hword]
  · rw [hsame₂ h₂, hsame₁ h₁, renameManifest_eq]

/-- An authority of a package: its name, or one below it. -/
def Owns (package a : Text) : Prop := a = package ∨ (package ++ ['.']) <+: a

instance (package a : Text) : Decidable (Owns package a) := inferInstanceAs (Decidable (_ ∨ _))

theorem Owns.isPrefix (h : Owns old a) : old <+: a := by
  rcases h with rfl | h
  · exact List.prefix_refl _
  · exact (List.prefix_append old ['.']).trans h

/-- An authority with another package in the place of the one it is of, if it is of that one. -/
def moved (old new a : Text) : Text := if Owns old a then swapped old new a else a

/-- What becomes of the authorities of an attribute, one by one. The first one has its start exchanged if the old
package stands there, a dot behind it or not; all others are kept; and then the replacements that
look for no quote are made in each alone. So an authority with nothing in it for those is renamed exactly if it is of
the old package, save in two cases: the first one is renamed where it only starts with the letters of the old
package, and any other one is kept where it is of the old package. -/
theorem authorities_renamed {first : Text} {others : List Text} (hold : isPackageName old) (hc : c ∈ blanks)
    (hvalue : '"' ∉ value) (hpieces : pieces ';' value = first :: others) (vendor new front back : Text) :
    (∃ back', renameManifest vendor old new (front ++ c :: ("android:authorities=\"" ++ (value ++ '"' :: back))) =
        renameManifest vendor old new front ++ c :: ("android:authorities=\"" ++
          (join [';'] ((swapped old new first :: others).map (later vendor old new)) ++ '"' :: back')) ∧
      (¬ ("package=" : Text) <:+ value → ¬ ("android:authorities=" : Text) <:+ value →
        back' = renameManifest vendor old new back)) ∧
    (∀ a, (∀ p ∈ (manifestSubstitutions vendor old new).drop 2, ¬ p.1 <:+: a) → later vendor old new a = a) ∧
    (old ≠ new →
      (later vendor old new (swapped old new first) = swapped old new first →
        (later vendor old new (swapped old new first) = moved old new first ↔
          ¬ (old <+: first ∧ ¬ Owns old first))) ∧
      ∀ a ∈ others, later vendor old new a = a →
        (later vendor old new a = moved old new a ↔ ¬ Owns old a)) := by
  have hquote : '"' ∉ old := not_mem_of_isPackageName hold (by decide +kernel)
  have hsemicolon : ';' ∉ old := not_mem_of_isPackageName hold (by decide +kernel)
  have hblank : c ∉ old := not_mem_of_isPackageName hold (not_isNameChar_of_mem_blanks c hc)
  refine ⟨?_, fun a ha => replaceEach_eq_self ha, fun hne => ⟨fun hfirst => ?_, fun a _ ha => ?_⟩⟩
  · obtain ⟨back', hback, hsame⟩ := exists_rename_authorities hquote hvalue vendor new back
    have hlist : later vendor old new (swapped old new value) =
        join [';'] ((swapped old new first :: others).map (later vendor old new)) := by
      rw [← join_pieces ';' value, hpieces, swapped_join hsemicolon, later_join (by decide) hsemicolon]
    refine ⟨back', ?_, hsame⟩
    rw [authoritiesWord_append, authoritiesWord_append, renameManifest_append_cons hc hblank, hback, hlist]
  · rw [hfirst, moved]
    by_cases howns : Owns old first
    · simp [howns]
    · rw [if_neg howns]
      by_cases hstart : old <+: first
      · simp [hstart, howns, swapped_ne hne hstart]
      · simp [hstart, swapped]
  · rw [ha, moved]
    by_cases howns : Owns old a
    · simp [howns, (swapped_ne hne howns.isPrefix).symm]
    · simp [howns]

theorem authorities_renamed_pair :
    (isPackageName "com.app" ∧ ' ' ∈ blanks ∧ '"' ∉ ("com.app;a.b" : Text) ∧
      pieces ';' "com.app;a.b" = [("com.app" : Text), "a.b"]) ∧
    ∃ back', renameManifest "app.revanced" "com.app" "org.b"
        ("<provider" ++ ' ' :: ("android:authorities=\"" ++ ("com.app;a.b" ++ '"' :: "/>"))) =
      "<provider" ++ ' ' :: ("android:authorities=\"" ++ ("org.b;a.b" ++ '"' :: back')) := by
  have hname : isPackageName "com.app" := by decide +kernel
  have hblank : ' ' ∈ blanks := by decide
  have hvalue : '"' ∉ ("com.app;a.b" : Text) := by decide +kernel
  have hpieces : pieces ';' "com.app;a.b" = [("com.app" : Text), "a.b"] := by decide +kernel
  refine ⟨⟨hname, hblank, hvalue, hpieces⟩, ?_⟩
  obtain ⟨⟨back', hback, -⟩, -⟩ :=
    authorities_renamed hname hblank hvalue hpieces "app.revanced" "org.b" "<provider" "/>"
  have hfront : renameManifest "app.revanced" "com.app" "org.b" "<provider" = "<provider" := by decide +kernel
  have hlist : join [';'] ((swapped "com.app" "org.b" "com.app" :: [("a.b" : Text)]).map
      (later "app.revanced" "com.app" "org.b")) = "org.b;a.b" := by decide +kernel
  exact ⟨back', by rw [hback, hfront, hlist]⟩

/-- An authority of the app that is not the first is kept, and one of another app is renamed. -/
theorem second_authority_kept :
    (Owns "com.app" "com.app.b" ∧ renameManifest "app.revanced" "com.app" "org.b"
        "<provider android:authorities=\"a.x;com.app.b\"/>" = "<provider android:authorities=\"a.x;com.app.b\"/>") ∧
    ¬ Owns "com.app" "com.appstore.b" ∧ renameManifest "app.revanced" "com.app" "org.b"
        "<provider android:authorities=\"com.appstore.b\"/>" = "<provider android:authorities=\"org.bstore.b\"/>" := by
  decide +kernel

end DalvikPatch.GmsCore
