import DalvikPatch.Proofs.Manifests

/-! The package of a manifest, before and after it is renamed. It is the value of the first attribute of that name
that stands in an open manifest element. -/

namespace DalvikPatch

open Text

/-! ### Reading the package -/

namespace Manifest

variable {s t b v : Text} {c before : Char} {ok : Text → Prop} {v? : Option Text}

theorem attribute?_append (r : Text) : attribute? ("package=\"" ++ r) =
    if (r.takeWhile (· != '"')).isEmpty || (r.dropWhile (· != '"')).isEmpty then none
    else some (r.takeWhile (· != '"')) := by
  rw [attribute?, after?_append]
  rfl

theorem attribute?_eq_some_iff :
    attribute? s = some v ↔ ∃ back, s = "package=\"" ++ (v ++ '"' :: back) ∧ v ≠ [] ∧ '"' ∉ v := by
  constructor
  · intro h
    obtain ⟨r, hr, -⟩ := Option.bind_eq_some_iff.1 h
    obtain rfl := eq_append_of_after? hr
    rw [attribute?_append] at h
    have hr := List.takeWhile_append_dropWhile (p := (· != '"')) (l := r)
    have hmark := List.head?_dropWhile_not (· != '"') r
    have hv : '"' ∉ r.takeWhile (· != '"') := fun hmem => by simpa using List.mem_takeWhile_imp hmem
    cases hdrop : r.dropWhile (· != '"') with
    | nil => simp [hdrop] at h
    | cons d back =>
      by_cases hne : r.takeWhile (· != '"') = []
      · simp [hne] at h
      · rw [hdrop] at hr hmark
        obtain rfl : d = '"' := by simpa using hmark
        obtain rfl : r.takeWhile (· != '"') = v := by simpa [hdrop, hne] using h
        exact ⟨back, by rw [hr], hne, hv⟩
  · rintro ⟨back, rfl, hne, hv⟩
    have hall : ∀ c ∈ v, (c != '"') = true := fun c hc => bne_iff_ne.2 fun h => hv (h ▸ hc)
    rw [attribute?_append, List.takeWhile_append_of_pos hall, List.dropWhile_append_of_pos hall]
    simp [hne]

/-- Text in front of a value of the attribute, of a kind that `ok` tells. -/
def Leads (ok : Text → Prop) (s front v : Text) : Prop :=
  ok front ∧ ∃ rest, s = front ++ rest ∧ attribute? rest = some v

/-- The value that is led to first, if there is one. -/
def IsFirst (ok : Text → Prop) (s : Text) : Option Text → Prop
  | some v => ∃ front, Leads ok s front v ∧ ∀ front' v', Leads ok s front' v' → front.length ≤ front'.length
  | none => ∀ front v, ¬ Leads ok s front v

theorem leads_nil : Leads ok s [] v ↔ ok [] ∧ attribute? s = some v := by
  simp [Leads]

theorem leads_cons : Leads ok (c :: s) (c :: t) v ↔ Leads (fun t => ok (c :: t)) s t v := by
  simp [Leads]

theorem Leads.eq_cons {front : Text} (h : Leads ok (c :: s) front v) : front = [] ∨ ∃ t, front = c :: t := by
  obtain ⟨-, rest, hs, -⟩ := h
  cases front with
  | nil => exact .inl rfl
  | cons d t =>
    cases hs
    exact .inr ⟨t, rfl⟩

theorem IsFirst.congr {ok' : Text → Prop} (h : IsFirst ok s v?)
    (hok : ∀ front v, Leads ok s front v ↔ Leads ok' s front v) : IsFirst ok' s v? := by
  cases v? with
  | none => exact fun front v hv => h front v ((hok front v).2 hv)
  | some v =>
    obtain ⟨front, hfront, hmin⟩ := h
    exact ⟨front, (hok front v).1 hfront, fun front' v' hv' => hmin front' v' ((hok front' v').2 hv')⟩

/-- Where nothing is led to at once, the search goes on behind the next character. -/
theorem IsFirst.cons (hstart : ∀ v, ¬ Leads ok (c :: s) [] v) (h : IsFirst (fun t => ok (c :: t)) s v?) :
    IsFirst ok (c :: s) v? := by
  cases v? with
  | none =>
    intro front v hv
    obtain rfl | ⟨t, rfl⟩ := hv.eq_cons
    · exact hstart v hv
    · exact h t v (leads_cons.1 hv)
  | some v =>
    obtain ⟨t, ht, hmin⟩ := h
    refine ⟨c :: t, leads_cons.2 ht, fun front' v' hv' => ?_⟩
    obtain rfl | ⟨t', rfl⟩ := hv'.eq_cons
    · exact absurd hv' (hstart v')
    · exact Nat.succ_le_succ (hmin t' v' (leads_cons.1 hv'))

/-- The rest of an element, with a place at its end where a word may start. -/
def Stands : (before : Char) → Text → Prop
  | before, [] => ¬ isWord before
  | _, c :: s => c ≠ '>' ∧ Stands c s

theorem stands_iff : Stands before s ↔ '>' ∉ s ∧ ¬ isWord (s.getLastD before) := by
  induction s generalizing before with
  | nil => simp [Stands]
  | cons c s ih => rw [Stands, ih, List.mem_cons, not_or, List.getLastD_cons, and_assoc, ne_comm]

theorem isFirst_packageFrom? (before : Char) (s : Text) : IsFirst (Stands before) s (packageFrom? before s) := by
  induction s generalizing before with
  | nil =>
    rintro front v ⟨-, rest, hs, hv⟩
    obtain ⟨rfl, rfl⟩ := List.append_eq_nil_iff.1 hs.symm
    cases hv
  | cons c s ih =>
    have hstart : ∀ v, Leads (Stands before) (c :: s) [] v ↔
        (if isWord before then none else attribute? (c :: s)) = some v := by
      intro v
      rw [leads_nil, Stands]
      by_cases hw : isWord before <;> simp [hw]
    rw [packageFrom?]
    cases hhere : (if isWord before then none else attribute? (c :: s)) with
    | some v => exact ⟨[], (hstart v).2 hhere, fun _ _ _ => Nat.zero_le _⟩
    | none =>
      refine .cons (fun v hv => ?_) ?_
      · rw [hstart, hhere] at hv
        cases hv
      · by_cases hc : c = '>'
        · simp [hc, Stands, IsFirst, Leads]
        · simpa [hc, Stands] using ih c

/-- The inside of an element of that name, with a place at its end where a word may start. -/
structure Inside (b : Text) : Prop where
  start : ∀ c ∈ b.head?, ¬ isWord c
  unclosed : '>' ∉ b
  stop : ∃ c ∈ b.getLast?, ¬ isWord c

theorem inside_iff : Inside b ↔ (∀ c ∈ b.head?, ¬ isWord c) ∧ Stands 't' b := by
  rw [stands_iff]
  constructor
  · rintro ⟨hstart, hopen, c, hc, hstop⟩
    exact ⟨hstart, hopen, by rwa [List.getLastD_eq_getLast?, hc]⟩
  · rintro ⟨hstart, hopen, hstop⟩
    cases hlast : b.getLast? with
    | none =>
      rw [List.getLastD_eq_getLast?, hlast] at hstop
      exact absurd (by decide) hstop
    | some c =>
      rw [List.getLastD_eq_getLast?, hlast] at hstop
      exact ⟨hstart, hopen, c, hlast, hstop⟩

theorem Inside.head?_append (h : Inside b) (t : Text) : ∃ c, (b ++ t).head? = some c ∧ ¬ isWord c := by
  obtain ⟨hstart, -, c, hc, -⟩ := h
  cases b with
  | nil => cases hc
  | cons d b => exact ⟨d, rfl, hstart d rfl⟩

/-- An element of that name, up to a place where a word may start. -/
def Element (s : Text) : Prop := ∃ b, s = "<manifest" ++ b ∧ Inside b

theorem elementPackage?_append (r : Text) : elementPackage? ("<manifest" ++ r) =
    if r.head?.any isWord then none else packageFrom? 't' r := by
  rw [elementPackage?, after?_append]
  rfl

theorem isFirst_elementPackage? (s : Text) : IsFirst Element s (elementPackage? s) := by
  cases hr : after? "<manifest" s with
  | none =>
    have hnone : elementPackage? s = none := by
      rw [elementPackage?, hr]
      rfl
    rw [hnone]
    rintro front v ⟨⟨b, rfl, -⟩, rest, rfl, -⟩
    rw [List.append_assoc, after?_append] at hr
    cases hr
  | some r =>
    obtain rfl := eq_append_of_after? hr
    rw [elementPackage?_append]
    -- past its name the element is searched as its inside is
    have hinside : ∀ front v, Leads Element ("<manifest" ++ r) front v →
        ∃ b, front = "<manifest" ++ b ∧ Inside b ∧ Leads (Stands 't') r b v := by
      rintro front v ⟨⟨b, rfl, hb⟩, rest, hs, hv⟩
      rw [List.append_assoc] at hs
      exact ⟨b, rfl, hb, (inside_iff.1 hb).2, rest, List.append_cancel_left hs, hv⟩
    by_cases hw : r.head?.any isWord
    · rw [if_pos hw]
      intro front v hv
      obtain ⟨b, -, hb, -, rest, rfl, -⟩ := hinside front v hv
      obtain ⟨c, hc, hnot⟩ := hb.head?_append rest
      rw [hc] at hw
      exact hnot hw
    · rw [if_neg hw]
      have hfirst := isFirst_packageFrom? 't' r
      cases hv? : packageFrom? 't' r with
      | none =>
        rw [hv?] at hfirst
        intro front v hv
        obtain ⟨b, -, -, hb⟩ := hinside front v hv
        exact hfirst b v hb
      | some v =>
        rw [hv?] at hfirst
        obtain ⟨b, ⟨hstands, rest, rfl, hv⟩, hmin⟩ := hfirst
        have hb : Inside b := by
          refine inside_iff.2 ⟨fun c hc => ?_, hstands⟩
          rw [List.head?_append, Option.mem_def.1 hc] at hw
          simpa using hw
        have hrest : "<manifest" ++ (b ++ rest) = "<manifest" ++ b ++ rest := (List.append_assoc ..).symm
        refine ⟨"<manifest" ++ b, ⟨⟨b, rfl, hb⟩, rest, hrest, hv⟩, fun front' v' hv' => ?_⟩
        obtain ⟨b', rfl, -, hb'⟩ := hinside front' v' hv'
        have := hmin b' v' hb'
        simp only [List.length_append]
        omega

/-- A text that ends in such an element. -/
def Opens (s : Text) : Prop := ∃ a b, s = a ++ ("<manifest" ++ b) ∧ Inside b

theorem Element.opens (h : Element s) : Opens s := by
  obtain ⟨b, rfl, hb⟩ := h
  exact ⟨[], b, rfl, hb⟩

theorem opens_cons : Opens (c :: s) ↔ Element (c :: s) ∨ Opens s := by
  constructor
  · rintro ⟨a, b, hs, hb⟩
    cases a with
    | nil => exact .inl ⟨b, hs, hb⟩
    | cons d a =>
      cases hs
      exact .inr ⟨a, b, rfl, hb⟩
  · rintro (h | ⟨a, b, rfl, hb⟩)
    · exact h.opens
    · exact ⟨c :: a, b, rfl, hb⟩

/-- An element that a text starts is still open at every place in it where one that started later is. -/
theorem Element.of_opens (h : Element (s ++ t)) (hs : Opens s) : Element s := by
  obtain ⟨b, heq, hstart, hopen, -⟩ := h
  obtain ⟨a, b', rfl, -, -, c, hc, hstop⟩ := hs
  obtain ⟨x, hx⟩ : ("<manifest" : Text) <+: a ++ ("<manifest" ++ b') :=
    List.prefix_of_prefix_length_le ⟨b, heq.symm⟩ (List.prefix_append _ t) (by simp; omega)
  rw [← hx, List.append_assoc] at heq
  obtain rfl := List.append_cancel_left heq
  have hlast : (a ++ ("<manifest" ++ b')).getLast? = some c := by
    rw [List.getLast?_append, List.getLast?_append, hc]
    rfl
  have hne : x ≠ [] := by
    rintro rfl
    have := congrArg List.length hx
    cases b' with
    | nil => cases hc
    | cons d b' =>
      simp at this
      omega
  refine ⟨x, hx.symm, fun d hd => hstart d ?_, fun h => hopen (List.mem_append_left _ h), c, ?_, hstop⟩
  · rw [List.head?_append, hd]
    rfl
  · rwa [← hx, List.getLast?_append_of_ne_nil _ hne] at hlast

theorem isFirst_package? (s : Text) : IsFirst Opens s (package? s) := by
  induction s with
  | nil =>
    rintro front v ⟨-, rest, hs, hv⟩
    obtain ⟨rfl, rfl⟩ := List.append_eq_nil_iff.1 hs.symm
    cases hv
  | cons c s ih =>
    have hhere := isFirst_elementPackage? (c :: s)
    rw [package?]
    cases hv? : elementPackage? (c :: s) with
    | some v =>
      rw [hv?] at hhere
      obtain ⟨front, ⟨hfront, rest, hs, hv⟩, hmin⟩ := hhere
      refine ⟨front, ⟨hfront.opens, rest, hs, hv⟩, ?_⟩
      rintro front' v' ⟨hfront', rest', hs', hv'⟩
      by_contra hlt
      obtain ⟨t, rfl⟩ := List.prefix_of_prefix_length_le ⟨_, hs'.symm⟩ ⟨_, hs.symm⟩ (Nat.le_of_not_le hlt)
      exact hlt (hmin front' v' ⟨hfront.of_opens hfront', rest', hs', hv'⟩)
    | none =>
      rw [hv?] at hhere
      refine .cons ?_ (ih.congr fun t v => ?_)
      · rintro v ⟨⟨a, b, hnil, -⟩, -⟩
        simp at hnil
      · refine ⟨fun ⟨ht, hrest⟩ => ⟨opens_cons.2 (.inr ht), hrest⟩, fun ⟨ht, hrest⟩ => ⟨?_, hrest⟩⟩
        rcases opens_cons.1 ht with helement | hopens
        · exact absurd (leads_cons.2 ⟨helement, hrest⟩) (hhere _ v)
        · exact hopens

/-- A package attribute with its value, in an open element of the manifest. -/
structure Attribute (s front v back : Text) : Prop where
  eq : s = front ++ ("package=\"" ++ (v ++ '"' :: back))
  value : v ≠ []
  quote : '"' ∉ v
  opens : Opens front

/-- The first of these attributes declares the package. -/
structure Declares (s front v back : Text) : Prop extends Attribute s front v back where
  first : ∀ front' v' back', Attribute s front' v' back' → front.length ≤ front'.length

theorem leads_opens_iff {front : Text} : Leads Opens s front v ↔ ∃ back, Attribute s front v back := by
  constructor
  · rintro ⟨hopens, rest, rfl, hv⟩
    obtain ⟨back, rfl, hne, hquote⟩ := attribute?_eq_some_iff.1 hv
    exact ⟨back, rfl, hne, hquote, hopens⟩
  · rintro ⟨back, rfl, hne, hquote, hopens⟩
    exact ⟨hopens, _, rfl, attribute?_eq_some_iff.2 ⟨back, rfl, hne, hquote⟩⟩

theorem package?_eq_some_iff : package? s = some v ↔ ∃ front back, Declares s front v back := by
  have hfirst := isFirst_package? s
  constructor
  · intro hv
    rw [hv] at hfirst
    obtain ⟨front, hleads, hmin⟩ := hfirst
    obtain ⟨back, hattribute⟩ := leads_opens_iff.1 hleads
    exact ⟨front, back, hattribute, fun front' v' back' h => hmin front' v' (leads_opens_iff.2 ⟨back', h⟩)⟩
  · rintro ⟨front, back, hattribute, hmin⟩
    have hleads := leads_opens_iff.2 ⟨back, hattribute⟩
    cases hv? : package? s with
    | none =>
      rw [hv?] at hfirst
      exact absurd hleads (hfirst front v)
    | some v' =>
      rw [hv?] at hfirst
      obtain ⟨front', hleads', hmin'⟩ := hfirst
      obtain ⟨back', hattribute'⟩ := leads_opens_iff.1 hleads'
      have hlength : front'.length = front.length :=
        Nat.le_antisymm (hmin' front v hleads) (hmin front' v' back' hattribute')
      obtain ⟨-, hrest⟩ := List.append_inj (hattribute'.eq.symm.trans hattribute.eq) hlength
      rw [(append_cons_inj hattribute'.quote hattribute.quote (List.append_cancel_left hrest)).1]

end Manifest

/-! ### Renaming the package -/

namespace GmsCore

open Manifest

variable {vendor old new m front back : Text}

/-- What the later replacements write, they write out of package names, save for a word that no name has. -/
theorem laterSubstitutions_names (hvendor : isPackageName vendor) (hnew : isPackageName new) (old : Text) :
    ∀ p ∈ laterSubstitutions vendor old new, p.1 ≠ [] ∧ p.2 ≠ [] ∧
      ((∀ c ∈ p.2, IsNameChar c) ∨ ∃ c ∈ p.1, ¬ IsNameChar c) := by
  intro p hp
  simp only [laterSubstitutions, manifestSubstitutions, List.drop, List.mem_cons, List.not_mem_nil, or_false] at hp
  rcases hp with rfl | rfl | rfl | rfl | rfl
  · exact ⟨by simp, by simp, .inl (isNameChar_append hnew (by decide))⟩
  · exact ⟨by simp, by simp, .inl (isNameChar_append hnew (by decide))⟩
  · exact ⟨by simp, by simp, .inl (isNameChar_append hvendor (by decide))⟩
  · exact ⟨by simp, by simp, .inl (isNameChar_append hvendor (by decide))⟩
  · exact ⟨by simp, by simp, .inr ⟨'<', by simp, by decide⟩⟩

/-- A package name stays one of the same characters, and does not become empty. -/
theorem later_name (hvendor : isPackageName vendor) (hnew : isPackageName new) (old : Text) :
    later vendor old new new ≠ [] ∧ '"' ∉ later vendor old new new := by
  have hnames := laterSubstitutions_names hvendor hnew old
  constructor
  · exact replaceEach_ne_nil (fun p hp => ⟨(hnames p hp).1, (hnames p hp).2.1⟩) (ne_nil_of_isPackageName hnew)
  · intro hmem
    have hchars : ∀ c ∈ later vendor old new new, IsNameChar c :=
      forall_replaceEach (fun p hp => ⟨(hnames p hp).1, (hnames p hp).2.2⟩) (isNameChar_of_isPackageName hnew)
    exact absurd (hchars _ hmem) (by decide)

theorem not_infix_authorities (hold : '"' ∉ old) : ¬ packageWord ++ ['"'] <:+: authoritiesWord ++ '"' :: old := by
  rintro ⟨x, y, h⟩
  rw [← List.append_assoc, List.append_assoc, List.singleton_append] at h
  obtain ⟨heq, -⟩ := (List.append_cons_inj_of_notMem isStart_authoritiesWord.quote hold).1 h.symm
  have hother : ¬ packageWord <:+ authoritiesWord := by decide
  exact hother ⟨x, heq.symm⟩

/-- If no word starts in front of the attribute, nothing changes up to its value. -/
theorem exists_rename_package (hold : '"' ∉ old) (hnew : '"' ∉ new)
    (hclear : ∀ p ∈ manifestSubstitutions vendor old new, Clear p.1 front ("package=\"" ++ (old ++ '"' :: back))) :
    ∃ back', renameManifest vendor old new (front ++ ("package=\"" ++ (old ++ '"' :: back))) =
      front ++ ("package=\"" ++ (later vendor old new new ++ '"' :: back')) := by
  obtain ⟨hclear₁, hrest⟩ := List.forall_mem_cons.1 hclear
  obtain ⟨hclear₂, hlater⟩ := List.forall_mem_cons.1 hrest
  simp only [packageWord_append, authoritiesWord_append] at hclear₁ hclear₂ hlater ⊢
  obtain ⟨back₁, hback₁, -⟩ := exists_swapAt_value isStart_packageWord.quote hold hold new back
  have hother : ¬ authoritiesWord <:+ packageWord := by decide
  obtain ⟨back₂, hback₂, -⟩ :=
    exists_swapAt_other isStart_authoritiesWord.quote isStart_packageWord.quote hother hnew old new back₁
  have hswap₁ : swapAt packageWord old new (front ++ (packageWord ++ '"' :: (old ++ '"' :: back))) =
      front ++ (packageWord ++ '"' :: (new ++ '"' :: back₁)) := by
    have hnew : swapped old new old = new := by simpa using swapped_append old new []
    rw [hnew] at hback₁
    exact (replaceAll_append_of_clear hclear₁).trans (congrArg (front ++ ·) hback₁)
  have hswap₂ : swapAt authoritiesWord old new (front ++ (packageWord ++ '"' :: (new ++ '"' :: back₁))) =
      front ++ (packageWord ++ '"' :: (new ++ '"' :: back₂)) := by
    have hclear₂' := hclear₂.behind (not_infix_authorities hold) (new ++ '"' :: back₁)
    exact (replaceAll_append_of_clear hclear₂').trans (congrArg (front ++ ·) hback₂)
  have hbound : '"' ∈ boundaries := by decide
  have hapart : ∀ p ∈ laterSubstitutions vendor old new, p.1 ≠ [] ∧ '"' ∉ p.1 :=
    laterSubstitutions_apart hbound hold
  have hsame : later vendor old new (front ++ (packageWord ++ '"' :: (new ++ '"' :: back₂))) =
      front ++ (packageWord ++ '"' :: later vendor old new (new ++ '"' :: back₂)) := by
    refine replaceEach_append_of_clear (fun p hp => ?_) fun p hp => ?_
    · exact ⟨(hapart p hp).1, (hapart p hp).2, isStart_packageWord.absent p hp⟩
    · exact (hlater p hp).behind (fun hin => (hapart p hp).2 (hin.subset (by simp))) _
  refine ⟨later vendor old new back₂, ?_⟩
  rw [renameManifest_eq, hswap₁, hswap₂, hsame, later_append_cons hbound hold]

/-- The value of the attribute ends at the next quote, and so before that of another attribute behind it. -/
theorem not_passes_package {w x y : Text} (hw : '"' ∉ w) (hx : x ≠ []) (hy : y ≠ []) :
    packageWord ++ '"' :: (w ++ ['"']) ≠ x ++ (packageWord ++ '"' :: y) := by
  have hpackage := isStart_packageWord.quote
  intro h
  by_cases hmem : '"' ∈ x
  · obtain ⟨x₁, x₂, rfl, hx₁⟩ := List.eq_append_cons_of_mem hmem
    rw [List.append_assoc, List.cons_append, ← List.append_assoc x₂] at h
    obtain ⟨-, hrest⟩ := append_cons_inj hpackage hx₁ h
    exact hy ((List.append_cons_inj_of_notMem hw List.not_mem_nil).1 hrest).2.2.symm
  · rw [← List.append_assoc] at h
    obtain ⟨hfront, -⟩ := append_cons_inj hpackage (by simp [hmem, hpackage]) h
    exact hx (List.self_eq_append_left.1 hfront)

/-- Whatever else the value becomes, and what is behind it, the package is declared at the same place. -/
theorem declares_of_value {v v' back' : Text} (h : Declares m front v back) (hne : v' ≠ []) (hquote : '"' ∉ v') :
    Declares (front ++ ("package=\"" ++ (v' ++ '"' :: back'))) front v' back' where
  eq := rfl
  value := hne
  quote := hquote
  opens := h.opens
  first := by
    intro front' w back'' hw
    by_contra hlt
    have heq : front ++ ("package=\"" ++ (v' ++ '"' :: back')) =
        front' ++ (("package=\"" ++ (w ++ ['"'])) ++ back'') := by
      rw [hw.eq, List.append_assoc, List.append_assoc, List.singleton_append]
    rcases ends_or_passes heq (Nat.lt_of_not_le hlt) with ⟨z, hz⟩ | ⟨x, y, hx, hy, hword⟩
    · refine hlt (h.first front' w (z ++ (v ++ '"' :: back)) ⟨?_, hw.value, hw.quote, hw.opens⟩)
      rw [h.eq, ← List.append_assoc, hz]
      simp only [List.append_assoc, List.cons_append, List.nil_append]
    · rw [packageWord_append, packageWord_append] at hword
      exact not_passes_package hw.quote hx hy hword

/-- What becomes of the package that a manifest declares. Where no word that is replaced starts in front of the
attribute, the package is declared at the same place as before, and is what the later replacements make of the
new name: so it is the new name exactly if they leave that alone, as they do if none of their words is in it.
Where the old package is a name and its attribute stands behind a blank, the value becomes the same,
whatever is replaced in front of it. -/
theorem package_renamed (hm : package? m = some old) (hvendor : isPackageName vendor) (hnew : isPackageName new) :
    ∃ front back, Declares m front old back ∧
      ((∀ p ∈ manifestSubstitutions vendor old new, Clear p.1 front ("package=\"" ++ (old ++ '"' :: back))) →
        (∃ back', Declares (renameManifest vendor old new m) front (later vendor old new new) back') ∧
        (package? (renameManifest vendor old new m) = some new ↔ later vendor old new new = new)) ∧
      ((∀ p ∈ (manifestSubstitutions vendor old new).drop 2, ¬ p.1 <:+: new) →
        later vendor old new new = new) ∧
      (isPackageName old → ∀ f, ∀ c ∈ blanks, front = f ++ [c] → ∃ back', renameManifest vendor old new m =
        renameManifest vendor old new f ++ c :: ("package=\"" ++ (later vendor old new new ++ '"' :: back'))) := by
  obtain ⟨front, back, hdeclares⟩ := package?_eq_some_iff.1 hm
  obtain ⟨hne, hquote⟩ := later_name hvendor hnew old
  have hnew' : '"' ∉ new := not_mem_of_isPackageName hnew (by decide +kernel)
  refine ⟨front, back, hdeclares, fun hclear => ?_, fun h => replaceEach_eq_self h, fun hold f c hc hf => ?_⟩
  · obtain ⟨back', hback⟩ := exists_rename_package hdeclares.quote hnew' hclear
    have hrenamed : Declares (renameManifest vendor old new m) front (later vendor old new new) back' := by
      rw [hdeclares.eq, hback]
      exact declares_of_value hdeclares hne hquote
    refine ⟨⟨back', hrenamed⟩, ?_⟩
    rw [package?_eq_some_iff.2 ⟨front, back', hrenamed⟩, Option.some_inj]
  · have hstart : ∀ p ∈ manifestSubstitutions vendor old new,
        Clear p.1 [] ("package=\"" ++ (old ++ '"' :: back)) := fun p _ f r _ => Nat.zero_le _
    obtain ⟨back', hback⟩ := exists_rename_package hdeclares.quote hnew' hstart
    rw [List.nil_append, List.nil_append] at hback
    refine ⟨back', ?_⟩
    rw [hdeclares.eq, hf, List.append_assoc, List.singleton_append,
      renameManifest_append_cons hc (not_mem_of_isPackageName hold (not_isNameChar_of_mem_blanks c hc)), hback]

theorem package_renamed_alone :
    (package? "<manifest package=\"com.app\"/>" = some ("com.app" : Text) ∧ isPackageName "app.revanced" ∧
      isPackageName "org.b") ∧
    package? (renameManifest "app.revanced" "com.app" "org.b" "<manifest package=\"com.app\"/>") =
      some ("org.b" : Text) := by
  have hm : package? "<manifest package=\"com.app\"/>" = some ("com.app" : Text) := by decide +kernel
  have hvendor : isPackageName "app.revanced" := by decide +kernel
  have hnew : isPackageName "org.b" := by decide +kernel
  refine ⟨⟨hm, hvendor, hnew⟩, ?_⟩
  obtain ⟨front, back, hdeclares, hrenamed, hlater, -⟩ := package_renamed hm hvendor hnew
  have hfree : ∀ p ∈ (manifestSubstitutions "app.revanced" "com.app" "org.b").drop 2,
      ¬ p.1 <:+: ("org.b" : Text) := by
    decide +kernel
  -- the attribute starts behind ten characters, and nothing that is replaced starts before
  have hplace : ∀ k < 31, ("package=\"" : Text) <+: ("<manifest package=\"com.app\"/>" : Text).drop k → k = 10 := by
    decide +kernel
  have hnone : ∀ p ∈ manifestSubstitutions "app.revanced" "com.app" "org.b", ∀ k < 10,
      ¬ p.1 <+: ("<manifest package=\"com.app\"/>" : Text).drop k := by
    decide +kernel
  have hfront : front.length = 10 := by
    have hlength := congrArg List.length hdeclares.eq
    refine hplace front.length ?_ ?_
    · simp at hlength
      omega
    · rw [hdeclares.eq, List.drop_left]
      exact List.prefix_append _ _
  refine (hrenamed fun p hp f r hf => ?_).2.2 (hlater hfree)
  rw [← hdeclares.eq] at hf
  by_contra hlt
  refine hnone p hp f.length (by omega) ?_
  rw [hf, List.drop_left]
  exact List.prefix_append _ _

/-- The new package is overwritten by a later replacement, or that of another element is read instead of it. -/
theorem new_package_lost :
    (package? "<manifest package=\"com.app\"/>" = some ("com.app" : Text) ∧
      isPackageName "app.revanced" ∧ isPackageName "com.google.android.c2dm" ∧
      package? (renameManifest "app.revanced" "com.app" "com.google.android.c2dm" "<manifest package=\"com.app\"/>") =
        some ("app.revanced.android.c2dm" : Text)) ∧
    package? "<com.app.permission.C2D_MESSAGE package=\"foo\"/><manifest package=\"com.app\"/>" =
      some ("com.app" : Text) ∧ isPackageName "manifest.foo" ∧
    package? (renameManifest "app.revanced" "com.app" "manifest.foo"
        "<com.app.permission.C2D_MESSAGE package=\"foo\"/><manifest package=\"com.app\"/>") = some ("foo" : Text) := by
  decide +kernel

end GmsCore

end DalvikPatch
