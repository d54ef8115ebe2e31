import DalvikPatch.Proofs.Bodies
import DalvikPatch.Proofs.Declarations

/-! Members of a class that were read. Each is valid; the look-ahead of a parameter goes on past members,
but finds nothing in the annotations of classes and fields. -/

namespace DalvikPatch

open Text Line

/-- An annotation of a class or of a field. -/
abbrev Directive.IsAnnotation (d : Directive) : Prop := d.IsBlock ".annotation" ".end annotation"

/-- A word that neither opens an annotation nor ends one or a parameter. -/
def Look.Apart (k : Text) : Prop := IsKeyword k ∧
  ∀ w ∈ ([".annotation", ".end param", ".end annotation"] : List Text),
    startsWith k w = false ∧ startsWith w k = false

instance (k : Text) : Decidable (Look.Apart k) := inferInstanceAs (Decidable (_ ∧ _))

theorem Look.next_between_of_apart {k l : Text} (hk : Apart k) (h : startsWith k (trim l) = true) :
    between.next l = passed := by
  have other : ∀ w ∈ ([".annotation", ".end param", ".end annotation"] : List Text),
      startsWith w (trim l) = false :=
    fun w hw => startsWith_eq_false h (hk.2 w hw).1 (hk.2 w hw).2
  exact next_between_other (hk.1.isSignificant h) (other ".annotation" (by simp))
    (other ".end param" (by simp))

theorem Look.Leads.word {raw kept : List Text} (h : Look.Leads raw kept) {k l : Text}
    (hk : Apart k) (hl : startsWith k (trim l) = true) : Look.Leads (l :: raw) kept :=
  h.line (.inr (next_between_of_apart hk hl))
    (startsWith_eq_false hl (hk.2 ".end annotation" (by simp)).1 (hk.2 ".end annotation" (by simp)).2)

/-- An annotation that was read is one, and the look-ahead finds nothing in it. -/
theorem Directive.leads_of_readBlock {l : Line} {ls rest : List Line} {d : Directive}
    (h : readBlock ".end annotation" l ls = .ok (d, rest))
    (hl : startsWith ".annotation" l.trimmed = true) (hn : ∀ k ∈ l :: ls, '\n' ∉ k.text)
    {kept : List Text} (hk : Look.Leads (rest.map Line.text) kept) :
    d.IsAnnotation ∧ Look.Leads ((l :: ls).map Line.text) kept := by
  obtain ⟨hd, taken, rfl, ht⟩ := exists_of_readBlock h hl hn
  have htexts : ((l :: taken).map Line.text).map trim = d.lines.map trim := by
    rw [← ht, List.map_map]
    rfl
  have hleads := hk.annotated hd htexts
  rw [← List.map_append] at hleads
  exact ⟨hd, hleads⟩

/-! ### Fields -/

namespace Field

structure Valid (f : Field) : Prop where
  declared : f.Declared
  annotations : ∀ d ∈ f.annotations, d.IsAnnotation

theorem suffix_of_readAnnotations {ls rest : List Line} {ds : List Directive}
    (h : readAnnotations ls = .ok (ds, rest)) : rest <:+ ls := by
  fun_induction readAnnotations ls generalizing ds with
  | case1 => cases h; exact List.nil_suffix
  | case2 ls l ls' hnext _ =>
    cases h
    obtain ⟨-, skipped, rfl, -⟩ := Line.exists_of_next? hnext
    exact ⟨skipped ++ [l], by simp⟩
  | case3 => cases h
  | case4 ls l ls' hnext _ _ d rest' hd ih =>
    obtain ⟨⟨ds', rest''⟩, hread, heq⟩ := exists_of_map h
    cases heq
    obtain ⟨-, skipped, rfl, -⟩ := Line.exists_of_next? hnext
    exact (ih hread).trans ((Directive.suffix_of_readBlock hd).trans ⟨skipped ++ [l], by simp⟩)
  | case5 => cases h

theorem isAnnotation_of_readAnnotations {ls rest : List Line} {ds : List Directive}
    (h : readAnnotations ls = .ok (ds, rest)) (hn : ∀ k ∈ ls, '\n' ∉ k.text) :
    ∀ d ∈ ds, d.IsAnnotation := by
  fun_induction readAnnotations ls generalizing ds with
  | case1 | case2 =>
    cases h
    simp
  | case3 => cases h
  | case4 ls l ls' hnext _ ha d rest' hd ih =>
    obtain ⟨⟨ds', rest''⟩, hread, heq⟩ := exists_of_map h
    cases heq
    obtain ⟨-, skipped, rfl, -⟩ := Line.exists_of_next? hnext
    have hn' : ∀ k ∈ l :: ls', '\n' ∉ k.text := fun k hm => hn k (List.mem_append_right _ hm)
    have hannotated := (Directive.exists_of_readBlock hd ha hn').1
    have hds := ih hread fun k hm =>
      hn' k (List.mem_cons_of_mem _ ((Directive.suffix_of_readBlock hd).subset hm))
    simpa using ⟨hannotated, hds⟩
  | case5 => cases h

theorem leads_of_readAnnotations {ls rest : List Line} {ds : List Directive}
    (h : readAnnotations ls = .ok (ds, rest)) (hn : ∀ k ∈ ls, '\n' ∉ k.text) {kept : List Text}
    (hk : Look.Leads (rest.map Line.text) kept) : Look.Leads (ls.map Line.text) kept := by
  fun_induction readAnnotations ls generalizing ds with
  | case1 ls hnext =>
    cases h
    have hskipped : ∀ t ∈ ls.map Line.text, ¬ IsSignificant t := by
      simpa using Line.not_significant_of_next? hnext
    simpa using hk.skips hskipped
  | case2 ls l ls' hnext hend =>
    cases h
    obtain ⟨-, skipped, rfl, hskipped⟩ := Line.exists_of_next? hnext
    rw [List.map_append]
    exact (hk.word (k := ".end field") (by decide) hend).skips (by simpa using hskipped)
  | case3 => cases h
  | case4 ls l ls' hnext _ ha d rest' hd ih =>
    obtain ⟨⟨ds', rest''⟩, hread, heq⟩ := exists_of_map h
    cases heq
    obtain ⟨-, skipped, rfl, hskipped⟩ := Line.exists_of_next? hnext
    have hn' : ∀ k ∈ l :: ls', '\n' ∉ k.text := fun k hm => hn k (List.mem_append_right _ hm)
    have hn'' : ∀ k ∈ rest', '\n' ∉ k.text := fun k hm =>
      hn' k (List.mem_cons_of_mem _ ((Directive.suffix_of_readBlock hd).subset hm))
    obtain ⟨-, hleads⟩ := Directive.leads_of_readBlock hd ha hn' (ih hread hn'')
    rw [List.map_append]
    exact hleads.skips (by simpa using hskipped)
  | case5 => cases h

theorem suffix_of_read {l : Line} {ls rest : List Line} {f : Field} (h : read l ls = .ok (f, rest)) :
    rest <:+ ls := by
  obtain ⟨g, -, h⟩ := exists_of_bind h
  split at h
  · obtain ⟨p, hp, h⟩ := exists_of_bind h
    cases h
    exact suffix_of_readAnnotations hp
  · cases h
    exact List.suffix_rfl

/-- A field is what its line declares, with annotations. -/
theorem exists_of_read {l : Line} {ls rest : List Line} {f : Field} (h : read l ls = .ok (f, rest))
    (hn : ∀ k ∈ l :: ls, '\n' ∉ k.text) :
    readLine l.number l.trimmed = .ok { f with annotations := [] } ∧ ∀ d ∈ f.annotations, d.IsAnnotation := by
  have hls : ∀ k ∈ ls, '\n' ∉ k.text := fun k hm => hn k (List.mem_cons_of_mem _ hm)
  obtain ⟨g, hg, h⟩ := exists_of_bind h
  have hnone := (exists_of_readLine hg).1.2.2.2.2
  have hline : readLine l.number l.trimmed = .ok { g with annotations := [] } := by rw [hg, ← hnone]
  split at h
  · obtain ⟨p, hp, h⟩ := exists_of_bind h
    cases h
    exact ⟨hline, isAnnotation_of_readAnnotations hp hls⟩
  · cases h
    exact ⟨hline, by simp [hnone]⟩

theorem valid_of_read {l : Line} {ls rest : List Line} {f : Field} (h : read l ls = .ok (f, rest))
    (hn : ∀ k ∈ l :: ls, '\n' ∉ k.text) (hne : f.value? ≠ some []) : f.Valid := by
  have hline : '\n' ∉ l.trimmed := fun hm => hn l (List.mem_cons_self ..) (mem_of_mem_trim hm)
  obtain ⟨hread, hannotations⟩ := exists_of_read h hn
  have hdeclared := declared_of_readLine hread hline hne
  exact ⟨⟨hdeclared.flags, hdeclared.name, hdeclared.colon, hdeclared.type, hdeclared.value,
    hdeclared.quiet⟩, hannotations⟩

theorem leads_of_read {l : Line} {ls rest : List Line} {f : Field} (h : read l ls = .ok (f, rest))
    (hl : startsWith ".field" l.trimmed = true) (hn : ∀ k ∈ ls, '\n' ∉ k.text) {kept : List Text}
    (hk : Look.Leads (rest.map Line.text) kept) : Look.Leads ((l :: ls).map Line.text) kept := by
  obtain ⟨g, -, h⟩ := exists_of_bind h
  split at h
  · obtain ⟨p, hp, h⟩ := exists_of_bind h
    cases h
    exact (leads_of_readAnnotations hp hn hk).word (k := ".field") (by decide) hl
  · cases h
    exact hk.word (k := ".field") (by decide) hl

end Field

/-! ### Methods -/

namespace Method

structure Valid (m : Method) : Prop where
  declared : m.Declared
  items : ∀ i ∈ m.items, i.Valid

/-- The directives in the body. -/
def directives (m : Method) : List Directive := directivesOf m.items

theorem suffix_of_read {l : Line} {ls rest : List Line} {m : Method} (h : read l ls = .ok (m, rest)) :
    rest <:+ ls := by
  rw [read] at h
  split at h
  · cases h
  · obtain ⟨p, hp, he⟩ := exists_of_map h
    cases he
    exact suffix_of_readBody hp

theorem leads_of_read {l : Line} {ls rest : List Line} {m : Method} (h : read l ls = .ok (m, rest))
    (hl : startsWith ".method" l.trimmed = true) (hn : ∀ k ∈ ls, '\n' ∉ k.text)
    {later : List Directive} (hk : Look.Leads (rest.map Line.text) (Directive.ahead later))
    (ho : Directive.Owned later) :
    m.Valid ∧ Look.Leads ((l :: ls).map Line.text) (Directive.ahead (m.directives ++ later)) ∧
      Directive.Owned (m.directives ++ later) := by
  rw [read] at h
  split at h
  · cases h
  · next flags name prototype hheader =>
    obtain ⟨⟨b, rest'⟩, hb, he⟩ := exists_of_map h
    cases he
    obtain ⟨hitems, hleads, howned⟩ := leads_of_readBody hb hn hk ho
    exact ⟨⟨declared_of_readLine hheader, hitems⟩, hleads.word (k := ".method") (by decide) hl, howned⟩

end Method

/-! ### Members -/

namespace Member

def Valid : Member → Prop
  | super n | interface n => n.Declared
  | source _ => True
  | annotated d => d.IsAnnotation
  | field f => f.Valid
  | method m => m.Valid

def directives : Member → List Directive
  | method m => m.directives
  | _ => []

theorem suffix_of_read {l : Line} {ls rest : List Line} {m : Member} (h : read l ls = .ok (m, rest)) :
    rest <:+ ls := by
  have lift {α : Type} {o : Outcome α} {g : α → Member × List Line}
      (hg : ∀ a, o = .ok a → (g a).2 <:+ ls) (ho : o.map g = .ok (m, rest)) : rest <:+ ls := by
    obtain ⟨a, ha, he⟩ := exists_of_map ho
    have := hg a ha
    rwa [he] at this
  rw [read] at h
  repeat' split at h
  · exact lift (fun _ _ => List.suffix_rfl) h
  · exact lift (fun _ _ => List.suffix_rfl) h
  · exact lift (fun _ _ => List.suffix_rfl) h
  · exact lift (fun _ hd => Directive.suffix_of_readBlock hd) h
  · exact lift (fun _ hf => Field.suffix_of_read hf) h
  · exact lift (fun _ hm => Method.suffix_of_read hm) h
  · cases h

theorem leads_of_read {l : Line} {ls rest : List Line} {m : Member} (h : read l ls = .ok (m, rest))
    (hn : ∀ k ∈ l :: ls, '\n' ∉ k.text) (hne : ∀ f, m = field f → f.value? ≠ some [])
    {later : List Directive} (hk : Look.Leads (rest.map Line.text) (Directive.ahead later))
    (ho : Directive.Owned later) :
    m.Valid ∧ Look.Leads ((l :: ls).map Line.text) (Directive.ahead (m.directives ++ later)) ∧
      Directive.Owned (m.directives ++ later) := by
  have hls : ∀ k ∈ ls, '\n' ∉ k.text := fun k hm => hn k (List.mem_cons_of_mem _ hm)
  rw [read] at h
  split at h
  · next s hs =>
    obtain ⟨n, hread, he⟩ := exists_of_map h
    cases he
    have hstart : startsWith ".super" l.trimmed = true := by rw [startsWith, hs]; rfl
    exact ⟨ClassName.declared_of_readAt hread, hk.word (k := ".super") (by decide) hstart, ho⟩
  split at h
  · next s hs =>
    obtain ⟨n, hread, he⟩ := exists_of_map h
    cases he
    have hstart : startsWith ".implements" l.trimmed = true := by rw [startsWith, hs]; rfl
    exact ⟨ClassName.declared_of_readAt hread, hk.word (k := ".implements") (by decide) hstart, ho⟩
  split at h
  · next hstart =>
    obtain ⟨s, -, he⟩ := exists_of_map h
    cases he
    exact ⟨trivial, hk.word (k := ".source") (by decide) hstart, ho⟩
  split at h
  · next hstart =>
    obtain ⟨p, hp, he⟩ := exists_of_map h
    cases he
    obtain ⟨hd, hleads⟩ := Directive.leads_of_readBlock hp hstart hn hk
    exact ⟨hd, hleads, ho⟩
  split at h
  · next hstart =>
    obtain ⟨p, hp, he⟩ := exists_of_map h
    cases he
    exact ⟨Field.valid_of_read hp hn (hne _ rfl), Field.leads_of_read hp hstart hls hk, ho⟩
  split at h
  · next hstart =>
    obtain ⟨p, hp, he⟩ := exists_of_map h
    cases he
    exact Method.leads_of_read hp hstart hls hk ho
  · cases h

theorem leads_of_readAll {ls : List Line} {ms : List Member} (h : readAll ls = .ok ms)
    (hn : ∀ k ∈ ls, '\n' ∉ k.text) (hne : ∀ f, field f ∈ ms → f.value? ≠ some []) :
    (∀ m ∈ ms, m.Valid) ∧
      Look.Leads (ls.map Line.text) (Directive.ahead (ms.flatMap directives)) ∧
      Directive.Owned (ms.flatMap directives) := by
  fun_induction readAll ls generalizing ms with
  | case1 ls hnext =>
    cases h
    have hskipped : ∀ t ∈ ls.map Line.text, ¬ IsSignificant t := by
      simpa using Line.not_significant_of_next? hnext
    exact ⟨by simp, by simpa using Look.Leads.nil.skips hskipped, trivial⟩
  | case2 => cases h
  | case3 ls l ls' hnext m rest hm ih =>
    obtain ⟨ms', hread, heq⟩ := exists_of_map h
    cases heq
    obtain ⟨-, skipped, rfl, hskipped⟩ := Line.exists_of_next? hnext
    have hn' : ∀ k ∈ l :: ls', '\n' ∉ k.text := fun k hk => hn k (List.mem_append_right _ hk)
    have hn'' : ∀ k ∈ rest, '\n' ∉ k.text :=
      fun k hk => hn' k (List.mem_cons_of_mem _ ((suffix_of_read hm).subset hk))
    obtain ⟨hms, hleads, howned⟩ := ih hread hn'' fun f hf => hne f (List.mem_cons_of_mem _ hf)
    obtain ⟨hvalid, hleads', howned'⟩ := leads_of_read hm hn'
      (fun f hf => hne f (hf ▸ List.mem_cons_self ..)) hleads howned
    rw [List.flatMap_cons, List.map_append]
    exact ⟨by simpa using ⟨hvalid, hms⟩, hleads'.skips (by simpa using hskipped), howned'⟩

end Member

/-! ### Classes -/

theorem Line.map_text_numberFrom (n : Nat) (ls : List Text) : (numberFrom n ls).map Line.text = ls := by
  induction ls generalizing n with
  | nil => rfl
  | cons l ls ih => rw [numberFrom, List.map_cons, ih]

theorem Line.map_text_ofText (s : Text) : (ofText s).map Line.text = lines s :=
  map_text_numberFrom 1 (lines s)

theorem Line.newline_not_mem_ofText {s : Text} {l : Line} (h : l ∈ ofText s) : '\n' ∉ l.text := by
  apply not_mem_of_mem_lines (s := s)
  rw [← map_text_ofText]
  exact List.mem_map_of_mem h

namespace Class

/-- The directives in the bodies, in their order. -/
def directives (c : Class) : List Directive := c.methods.flatMap Method.directives

structure WellFormed (c : Class) : Prop where
  flags : c.flags.Carried .type
  name : c.name.Declared
  super : ∀ n, c.super? = some n → n.Declared
  interfaces : ∀ n ∈ c.interfaces, n.Declared
  annotations : ∀ d ∈ c.annotations, d.IsAnnotation
  fields : ∀ f ∈ c.fields, f.Valid
  methods : ∀ m ∈ c.methods, m.Valid
  owned : Directive.Owned c.directives
  file : c.file? = none

theorem directives_ofMembers (n : ClassName) (f : AccessFlags) (ms : List Member) :
    (ofMembers n f ms).directives = ms.flatMap Member.directives := by
  rw [directives, ofMembers]
  induction ms with
  | nil => rfl
  | cons m ms ih =>
    cases m with
    | method m => exact congrArg (m.directives ++ ·) ih
    | super | interface | source | annotated | field => exact ih

theorem mem_of_mem_filterMap {α : Type} {g : Member → Option α} {k : α → Member}
    (hg : ∀ m a, g m = some a → m = k a) {ms : List Member} {a : α} (h : a ∈ ms.filterMap g) :
    k a ∈ ms := by
  obtain ⟨m, hm, ha⟩ := List.mem_filterMap.1 h
  rwa [← hg m a ha]

/-- A class that was read is well formed, if none of its fields has an empty value. -/
theorem wellFormed_of_read {s : Text} {c : Class} (h : read s = .ok c)
    (hne : ∀ f ∈ c.fields, f.value? ≠ some []) : c.WellFormed := by
  rw [read] at h
  split at h
  · cases h
  · next l ls hnext =>
    obtain ⟨⟨flags, name⟩, hheader, h⟩ := exists_of_bind h
    obtain ⟨ms, hms, h⟩ := exists_of_bind h
    cases h
    obtain ⟨-, skipped, hs, -⟩ := Line.exists_of_next? hnext
    have hls : ∀ k ∈ ls, '\n' ∉ k.text := by
      intro k hk
      apply Line.newline_not_mem_ofText (s := s)
      rw [hs]
      exact List.mem_append_right _ (List.mem_cons_of_mem _ hk)
    obtain ⟨hvalid, -, howned⟩ := Member.leads_of_readAll hms hls
      fun f hf => hne f (List.mem_filterMap.2 ⟨_, hf, rfl⟩)
    obtain ⟨hflags, hname⟩ := valid_of_readHeader hheader
    exact {
      flags := hflags
      name := hname
      super := fun n hm => hvalid _ (mem_of_mem_filterMap (k := .super)
        (by rintro ⟨⟩ _ ⟨⟩; rfl) (List.mem_of_getLast? hm))
      interfaces := fun n hm => hvalid _ (mem_of_mem_filterMap (k := .interface)
        (by rintro ⟨⟩ _ ⟨⟩; rfl) hm)
      annotations := fun d hm => hvalid _ (mem_of_mem_filterMap (k := .annotated)
        (by rintro ⟨⟩ _ ⟨⟩; rfl) hm)
      fields := fun f hm => hvalid _ (mem_of_mem_filterMap (k := .field)
        (by rintro ⟨⟩ _ ⟨⟩; rfl) hm)
      methods := fun m hm => hvalid _ (mem_of_mem_filterMap (k := .method)
        (by rintro ⟨⟩ _ ⟨⟩; rfl) hm)
      owned := directives_ofMembers name flags ms ▸ howned
      file := rfl }

end Class

end DalvikPatch
