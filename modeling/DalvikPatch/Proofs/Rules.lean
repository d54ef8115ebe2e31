import DalvikPatch.GmsCore.Names
import DalvikPatch.Proofs.Replacements

/-! The rules for the names of GmsCore do not meet. At most one of them has something for a literal, so it is
all one in which order they are tried, and what it writes is the literal with another name in the place of
the first one. -/

namespace DalvikPatch

open Text

/-! ### Chains of rules that do not meet -/

namespace Chain

variable {c d : Chain} {s t name : Text}

/-- No two rules of a chain have something for a literal. -/
def Apart (c : Chain) (s : Text) : Prop := c.Pairwise fun q r => q.rename s = none ∨ r.rename s = none

theorem apply_eq_some_iff (h : c.Apart s) :
    c.apply s = some (name, t) ↔ ∃ r ∈ c, r.name = name ∧ r.rename s = some t := by
  induction c with
  | nil => simp [apply]
  | cons r c ih =>
    obtain ⟨hr, hc⟩ := List.pairwise_cons.1 h
    rw [apply, List.findSome?_cons]
    cases hs : r.rename s with
    | none =>
      rw [Option.map_none, List.exists_mem_cons_iff, hs]
      exact (ih hc).trans (or_iff_right (by simp)).symm
    | some u =>
      have hnone : ∀ q ∈ c, q.rename s = none := fun q hq => (hr q hq).resolve_left (by simp [hs])
      simp +contextual [hs, hnone]

theorem Apart.of_perm (h : c.Apart s) (hp : d.Perm c) : d.Apart s :=
  (hp.pairwise_iff fun hqr => hqr.symm).2 h

/-- Rules that do not meet may be tried in any order. -/
theorem apply_of_perm (h : c.Apart s) (hp : d.Perm c) : d.apply s = c.apply s := by
  ext ⟨name, t⟩
  rw [apply_eq_some_iff h, apply_eq_some_iff (h.of_perm hp)]
  simp only [hp.mem_iff]

end Chain

namespace Text

theorem replaceFirst_append {old front rest : Text} (new : Text)
    (h : ∀ c b, c :: b <:+ front → after? old (c :: (b ++ (old ++ rest))) = none) :
    replaceFirst old new (front ++ (old ++ rest)) = front ++ (new ++ rest) := by
  rw [replaceFirst, cut?_append h]
  exact List.append_assoc ..

theorem replaceAll_append {old rest : Text} (new : Text) (hold : old ≠ []) (h : cut? old rest = none) :
    replaceAll old new (old ++ rest) = new ++ rest := by
  rw [replaceAll_start hold, replaceAll_of_cut?_none h]

end Text

namespace GmsCore

/-! ### The rules -/

variable {vendor old new s t : Text}

/-- The names that are GmsCore's as a whole, save the one that names no one. -/
def googleNames : List Text :=
  "com.google" :: "com.google.android.gms" :: (permissions ++ actions ++ authorities)

/-! What a rule writes for a literal: one name in it gives way to another, and the rest stays. -/

/-- A name of its own. -/
inductive NameFor (vendor s : Text) : Text → Prop
  | google {rest : Text} (hs : s = "com.google" ++ rest) (hmem : s ∈ googleNames) :
    NameFor vendor s (vendor ++ rest)
  | feeds (hs : s = feeds) : NameFor vendor s (vendor ++ ("." ++ s))

/-- An address, by the start of what it is an address of. -/
inductive AddressFor (vendor s : Text) : Text → Prop
  | authority {rest : Text} (hs : s = "content://" ++ ("com.google" ++ rest))
    (hstart : ∃ a ∈ authorities, startsWith a ("com.google" ++ rest)) :
    AddressFor vendor s ("content://" ++ (vendor ++ rest))
  | feeds {rest : Text} (hs : s = "content://" ++ (GmsCore.feeds ++ rest)) :
    AddressFor vendor s ("content://" ++ (vendor ++ ("." ++ (GmsCore.feeds ++ rest))))

/-- A name that the app made from its own. -/
inductive OwnFor (old new s : Text) : Text → Prop
  | provider {rest : Text} (hs : s = old ++ rest)
    (hrest : rest = ".SuggestionsProvider" ∨ rest = ".fileprovider") :
    OwnFor old new s (new ++ rest)

/-- Google's name stands at the start of a name, and nowhere else in it. No name ends like a provider. -/
theorem google_facts : ∀ n ∈ googleNames,
    ((after? "com.google" n).any fun rest => cut? "com.google" rest = none) ∧ n.getLast? ≠ some 'r' := by
  decide +kernel

theorem exists_of_google {n : Text} (hn : n ∈ googleNames) :
    ∃ rest, n = "com.google" ++ rest ∧ ∀ vendor, forVendor vendor n = vendor ++ rest := by
  obtain ⟨rest, hrest, hcut⟩ := (Option.any_eq_true _ _).1 (google_facts n hn).1
  obtain rfl := eq_append_of_after? hrest
  exact ⟨rest, rfl, fun vendor => replaceAll_append vendor (by decide) (of_decide_eq_true hcut)⟩

theorem commonName_eq (vendor s : Text) : commonName vendor s =
    if s = feeds then some (vendor ++ ("." ++ s))
    else if s ∈ googleNames then some (forVendor vendor s) else none := by
  rw [commonName]
  by_cases hfeeds : s = feeds
  · simp [hfeeds]
  · simp only [if_neg hfeeds, googleNames, List.mem_cons]
    by_cases h : s = "com.google" ∨ s = "com.google.android.gms"
    · rw [if_pos h, if_pos (or_assoc.1 (.inl h))]
    · obtain ⟨h1, h2⟩ := not_or.1 h
      simp only [h1, h2, false_or, if_false]

theorem commonName_eq_some_iff :
    commonName vendor s = some t ↔ NameFor vendor s t := by
  rw [commonName_eq]
  constructor
  · intro h
    split at h
    · next hfeeds =>
      cases h
      exact .feeds hfeeds
    · split at h
      · next hmem =>
        cases h
        obtain ⟨rest, hs, hvendor⟩ := exists_of_google hmem
        rw [hvendor]
        exact .google hs hmem
      · cases h
  · intro h
    cases h with
    | feeds hs => rw [if_pos hs]
    | google hs hmem =>
      obtain ⟨rest, hs', hvendor⟩ := exists_of_google hmem
      have hfeeds : s ≠ feeds := by
        rintro rfl
        cases hs
      rw [if_neg hfeeds, if_pos hmem, hvendor, List.append_cancel_left (hs'.symm.trans hs)]

/-- No name that starts like Google's starts inside of what stands in front of an address. -/
theorem after?_content {c : Char} {b : Text} (hb : c :: b <:+ ("content://" : Text)) (n r : Text) :
    after? ("com.google" ++ n) (c :: (b ++ r)) = none ∧ after? feeds (c :: (b ++ r)) = none := by
  have hlist : ("content://" : Text) = ['c', 'o', 'n', 't', 'e', 'n', 't', ':', '/', '/'] := rfl
  -- one case for each place at which the name could start
  simp only [hlist, List.suffix_cons_iff, List.suffix_nil, List.cons.injEq, reduceCtorEq, or_false] at hb
  rcases hb with ⟨rfl, rfl⟩ | ⟨rfl, rfl⟩ | ⟨rfl, rfl⟩ | ⟨rfl, rfl⟩ | ⟨rfl, rfl⟩ | ⟨rfl, rfl⟩ | ⟨rfl, rfl⟩ |
    ⟨rfl, rfl⟩ | ⟨rfl, rfl⟩ | ⟨rfl, rfl⟩ <;> exact ⟨rfl, rfl⟩

theorem exists_of_find_authority {r a : Text} (h : authorities.find? (fun a => startsWith a r) = some a) :
    ∃ n rest, r = "com.google" ++ (n ++ rest) ∧ a = "com.google" ++ n ∧
      ∀ vendor, forVendor vendor a = vendor ++ n := by
  have hmem : a ∈ googleNames := by simp [googleNames, List.mem_of_find?_eq_some h]
  obtain ⟨n, ha, hvendor⟩ := exists_of_google hmem
  have hstart : startsWith a r := List.find?_some (p := fun a => startsWith a r) h
  obtain ⟨rest, hr⟩ := startsWith_iff.1 hstart
  exact ⟨n, rest, by rw [hr, ha, List.append_assoc], ha, hvendor⟩

theorem contentName_authority {rest : Text} (h : ∃ a ∈ authorities, startsWith a ("com.google" ++ rest)) :
    contentName vendor ("content://" ++ ("com.google" ++ rest)) =
      some ("content://" ++ (vendor ++ rest)) := by
  obtain ⟨a, ha⟩ := Option.isSome_iff_exists.1 (List.find?_isSome.2 h)
  obtain ⟨n, rest', hrest, rfl, hvendor⟩ := exists_of_find_authority ha
  obtain rfl := List.append_cancel_left hrest
  rw [contentName, after?_append]
  simp only [ha, hvendor]
  rw [← List.append_assoc "com.google".toList, replaceFirst_append _ fun c b hb => (after?_content hb n _).1,
    List.append_assoc]

theorem contentName_feeds (vendor rest : Text) : contentName vendor ("content://" ++ (feeds ++ rest)) =
    some ("content://" ++ (vendor ++ ("." ++ (feeds ++ rest)))) := by
  have hnone : authorities.find? (fun a => startsWith a (feeds ++ rest)) = none := by
    cases h : authorities.find? (fun a => startsWith a (feeds ++ rest)) with
    | none => rfl
    | some a =>
      obtain ⟨n, rest', hr, -⟩ := exists_of_find_authority h
      cases hr
  rw [contentName, after?_append]
  simp only [hnone]
  rw [if_pos (startsWith_iff.2 ⟨rest, rfl⟩), replaceFirst_append _ fun c b hb => (after?_content hb [] _).2]
  simp only [List.append_assoc]

theorem contentName_eq_some_iff :
    contentName vendor s = some t ↔ AddressFor vendor s t := by
  constructor
  · intro h
    cases hr : after? "content://" s with
    | none => rw [contentName, hr] at h; cases h
    | some r =>
      obtain rfl := eq_append_of_after? hr
      cases ha : authorities.find? (fun a => startsWith a r) with
      | some a =>
        obtain ⟨n, rest, rfl, -⟩ := exists_of_find_authority ha
        have hstart := List.find?_isSome.1 (Option.isSome_iff_exists.2 ⟨a, ha⟩)
        rw [contentName_authority hstart] at h
        cases h
        exact .authority rfl hstart
      | none =>
        have hfeeds : startsWith feeds r := by
          by_contra hnot
          simp only [contentName, hr, ha, if_neg hnot, reduceCtorEq] at h
        obtain ⟨rest, rfl⟩ := startsWith_iff.1 hfeeds
        rw [contentName_feeds] at h
        cases h
        exact .feeds rfl
  · rintro (⟨rfl, hstart⟩ | rfl)
    · exact contentName_authority hstart
    · exact contentName_feeds vendor _

theorem ownName_eq_some_iff : ownName old new s = some t ↔ OwnFor old new s t := by
  have hfirst (rest : Text) : replaceFirst old new (old ++ rest) = new ++ rest := by
    rw [replaceFirst, cut?_start]
    rfl
  rw [ownName]
  constructor
  · intro h
    split at h
    · next hs =>
      cases h
      rcases hs with rfl | rfl
      · rw [hfirst]
        exact .provider rfl (.inl rfl)
      · rw [hfirst]
        exact .provider rfl (.inr rfl)
    · cases h
  · rintro ⟨rfl, rfl | rfl⟩
    · rw [if_pos (.inl rfl), hfirst]
    · rw [if_pos (.inr rfl), hfirst]

/-! ### No two of them for one literal -/

theorem NameFor.not_startsWith_content (h : NameFor vendor s t) : startsWith "content://" s = false := by
  cases h with
  | google hs => rw [hs]; rfl
  | feeds hs => rw [hs]; rfl

theorem NameFor.getLast?_ne (h : NameFor vendor s t) : s.getLast? ≠ some 'r' := by
  cases h with
  | google hs hmem => exact (google_facts s hmem).2
  | feeds hs => rw [hs]; decide

theorem AddressFor.startsWith_content (h : AddressFor vendor s t) : startsWith "content://" s := by
  cases h with
  | authority hs | feeds hs => exact startsWith_iff.2 ⟨_, hs⟩

theorem OwnFor.getLast?_eq (h : OwnFor old new s t) : s.getLast? = some 'r' := by
  obtain ⟨rfl, rfl | rfl⟩ := h <;> exact List.getLast?_append_of_ne_nil _ (by decide)

/-- No address starts like that unless the name of the app does: there is no dot in such a start. -/
theorem OwnFor.not_startsWith_content (h : OwnFor old new s t) (hold : startsWith "content://" old = false) :
    startsWith "content://" s = false := by
  obtain ⟨rfl, hrest⟩ := h
  have hnot : ¬ ∃ r, old = "content://" ++ r := by rw [← startsWith_iff, hold]; exact Bool.false_ne_true
  rw [← Bool.not_eq_true, startsWith_iff]
  rintro ⟨r, hr⟩
  -- either `old` ends inside of that start, and the dot comes next, or it reaches behind it
  obtain ⟨x, hx, hrest'⟩ | ⟨x, hx, -⟩ := List.append_eq_append_iff.1 hr
  · have hdot : '.' ∉ ("content://" : Text) := by decide
    cases x with
    | nil => exact hnot ⟨[], by simpa using hx.symm⟩
    | cons c x =>
      obtain rfl : '.' = c := by
        rcases hrest with rfl | rfl <;> exact (List.cons.inj hrest').1
      exact hdot (by rw [hx]; simp)
  · exact hnot ⟨x, hx⟩

theorem apart_rules (vendor new s : Text) (hold : startsWith "content://" old = false) :
    Chain.Apart (rules vendor old new) s := by
  have hcontent (hs : startsWith "content://" s = false) : contentName vendor s = none := by
    refine Option.eq_none_iff_forall_ne_some.2 fun t ht => ?_
    rw [(contentName_eq_some_iff.1 ht).startsWith_content] at hs
    cases hs
  have hcommon : commonName vendor s = none ∨ contentName vendor s = none ∧ ownName old new s = none := by
    refine Option.eq_none_or_eq_some (commonName vendor s) |>.imp_right fun ⟨t, ht⟩ => ?_
    have hname := commonName_eq_some_iff.1 ht
    refine ⟨hcontent hname.not_startsWith_content, Option.eq_none_iff_forall_ne_some.2 fun u hu => ?_⟩
    exact hname.getLast?_ne (ownName_eq_some_iff.1 hu).getLast?_eq
  have hown : contentName vendor s = none ∨ ownName old new s = none :=
    (Option.eq_none_or_eq_some (ownName old new s)).elim .inr fun ⟨t, ht⟩ =>
      .inl (hcontent ((ownName_eq_some_iff.1 ht).not_startsWith_content hold))
  simp only [Chain.Apart, rules, List.pairwise_cons, List.forall_mem_cons]
  exact ⟨⟨hcommon.imp_right And.left, hcommon.imp_right And.right, by simp⟩, ⟨hown, by simp⟩, by simp⟩

/-- At most one rule has something for a literal, so the order in which they are tried makes no difference.
The rule and what it writes are given by the names in the literal alone. -/
theorem rules_apart (vendor new s : Text) {old : Text} (hold : startsWith "content://" old = false) :
    Chain.Apart (rules vendor old new) s ∧
    ∀ c : Chain, c.Perm (rules vendor old new) → c.apply s = (rules vendor old new).apply s ∧
      ∀ name t, c.apply s = some (name, t) ↔
        (name = ("common" : Text) ∧ NameFor vendor s t) ∨
        (name = ("content uris" : Text) ∧ AddressFor vendor s t) ∨
        (name = ("package name" : Text) ∧ OwnFor old new s t) := by
  have hapart := apart_rules vendor new s hold
  refine ⟨hapart, fun c hp => ⟨Chain.apply_of_perm hapart hp, fun name t => ?_⟩⟩
  rw [Chain.apply_of_perm hapart hp, Chain.apply_eq_some_iff hapart]
  simp only [rules, List.exists_mem_cons_iff, List.not_mem_nil, false_and, exists_false, or_false,
    commonName_eq_some_iff, contentName_eq_some_iff, ownName_eq_some_iff, eq_comm (b := name)]

theorem rules_apart_settings :
    let s : Text := "content://com.google.settings/a"
    let c : Chain :=
      (rules "app.revanced" "com.google.android.youtube" "app.revanced.android.youtube").reverse
    startsWith "content://" "com.google.android.youtube" = false ∧
      c.apply s = some (("content uris" : Text), ("content://app.revanced.settings/a" : Text)) := by
  intro s c
  have hold : startsWith "content://" "com.google.android.youtube" = false := by decide
  obtain ⟨-, hperm⟩ := rules_apart "app.revanced" "app.revanced.android.youtube" s hold
  refine ⟨hold, ((hperm c (List.reverse_perm _)).2 _ _).2 (.inr (.inl ⟨rfl, ?_⟩))⟩
  exact @AddressFor.authority _ _ ".settings/a" rfl ⟨"com.google.settings", by decide +kernel, by decide⟩

end GmsCore

end DalvikPatch
