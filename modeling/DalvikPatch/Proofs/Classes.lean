import DalvikPatch.Proofs.Documents

/-! A whole class. Its sections are read back one after the other, so a well-formed class is read back from
its text, unless the look-ahead of a parameter splits a character on the way. -/

namespace DalvikPatch

open Text Line

namespace Member

theorem map_append_map (o : Outcome (List Member)) (xs ys : List Member) :
    (o.map (ys ++ ·)).map (xs ++ ·) = o.map ((xs ++ ys) ++ ·) := by
  cases o with
  | error e => rfl
  | ok ms => exact congrArg Except.ok (List.append_assoc xs ys ms).symm

theorem map_nil_append (o : Outcome (List Member)) : o.map (([] : List Member) ++ ·) = o := by
  cases o <;> rfl

/-- In front of the items of a section stand lines that are not significant. -/
theorem exists_of_section {α : Type} {title : Text} {written : α → List Text} {items : List α}
    {xs : List Line} (hxs : xs.map Line.text = writtenSection title written items) :
    ∃ skipped zs, xs = skipped ++ zs ∧ (∀ l ∈ skipped, ¬ IsSignificant l.text) ∧
      zs.map Line.text = items.flatMap written := by
  rw [writtenSection] at hxs
  split at hxs
  · next hempty =>
    obtain rfl : xs = [] := List.map_eq_nil_iff.1 hxs
    rw [List.isEmpty_iff.1 hempty]
    exact ⟨[], [], rfl, by simp, rfl⟩
  · obtain ⟨a, xs, rfl, ha, hxs⟩ := List.map_eq_cons_iff.1 hxs
    obtain ⟨b, xs, rfl, hb, hxs⟩ := List.map_eq_cons_iff.1 hxs
    have hblank : ¬ IsSignificant a.text := ha ▸ by decide
    have hcomment : ¬ IsSignificant b.text := by
      rintro ⟨-, hs⟩
      have hhead : (trim b.text).head? = some '#' := by
        rw [hb]
        exact head?_trim (StartsDark.append _ (by simp) (by decide))
      obtain ⟨r, hr⟩ := List.head?_eq_some_iff.1 hhead
      rw [hr] at hs
      cases hs
    exact ⟨[a, b], xs, rfl, by simpa using ⟨hblank, hcomment⟩, hxs⟩

/-- An empty line behind a member is not significant. -/
theorem not_significant_of_nil {l : Line} (hl : l.text = []) : ∀ k ∈ [l], ¬ IsSignificant k.text := by
  intro k hk
  rw [List.mem_singleton.1 hk, hl]
  decide

/-- A section is read back if each of its items is, on lines `q` that may follow an item. -/
theorem readAll_section {α : Type} {title : Text} {written : α → List Text} {member : α → Member}
    {q : List Line → Prop} {items : List α}
    (hitem : ∀ x ∈ items, ∀ xs ys, xs.map Line.text = written x → q ys →
      q (xs ++ ys) ∧ readAll (xs ++ ys) = (readAll ys).map ([member x] ++ ·))
    {xs ys : List Line} (hxs : xs.map Line.text = writtenSection title written items) (hq : q ys) :
    readAll (xs ++ ys) = (readAll ys).map (items.map member ++ ·) := by
  have hall : ∀ xs, xs.map Line.text = items.flatMap written →
      q (xs ++ ys) ∧ readAll (xs ++ ys) = (readAll ys).map (items.map member ++ ·) := by
    clear hxs
    induction items with
    | nil =>
      intro xs hxs
      obtain rfl : xs = [] := List.map_eq_nil_iff.1 hxs
      exact ⟨hq, (map_nil_append _).symm⟩
    | cons x items ih =>
      intro xs hxs
      rw [List.flatMap_cons] at hxs
      obtain ⟨as, bs, rfl, has, hbs⟩ := List.map_eq_append_iff.1 hxs
      obtain ⟨hqs, hrest⟩ := ih (fun y hy => hitem y (List.mem_cons_of_mem _ hy)) bs hbs
      obtain ⟨hqx, hx⟩ := hitem x (List.mem_cons_self ..) as (bs ++ ys) has hqs
      rw [List.append_assoc]
      refine ⟨hqx, ?_⟩
      rw [hx, hrest, map_append_map]
      rfl
  obtain ⟨skipped, zs, rfl, hskipped, hzs⟩ := exists_of_section hxs
  rw [List.append_assoc, readAll_skips hskipped]
  exact (hall zs hzs).2

/-! ### One member -/

theorem startsDark_of_keyword : ∀ k ∈ keywords, StartsDark k := by
  simp only [StartsDark]
  decide

/-- What a keyword leads is read as the member that its line holds. -/
theorem readAll_keyword {k t : Text} {m : Member} (hk : k ∈ keywords) (hne : t ≠ []) (ht : EndsDark t)
    {l : Line} (hl : l.text = k ++ ' ' :: t)
    (hread : l.trimmed = k ++ ' ' :: t → ∀ ls, read l ls = .ok (m, ls)) (ls : List Line) :
    readAll (l :: ls) = (readAll ls).map ([m] ++ ·) := by
  have htrimmed : l.trimmed = k ++ ' ' :: t := by
    rw [Line.trimmed, hl]
    exact trim_eq_self ((startsDark_of_keyword k hk).append _ (areKeywords k hk).1.1)
      ((ht.append [' '] hne).append k (by simp))
  have hsignificant : IsSignificant l.text := by
    apply isSignificant_of_keyword hk
    rw [← Line.trimmed, htrimmed]
    exact startsWith_append k _
  rw [readAll_member (o := .ok m) hsignificant (hread htrimmed ls)]
  rfl

theorem readAll_super {n : ClassName} (hn : n.Declared) {l : Line} (hl : l.text = Class.superLine n)
    (ls : List Line) : readAll (l :: ls) = (readAll ls).map ([super n] ++ ·) :=
  have hw := ClassName.isWord_jni hn.valid
  readAll_keyword (k := ".super") (by decide) hw.ne_nil hw.endsDark hl (fun h _ => read_super hn h) ls

theorem readAll_interface {n : ClassName} (hn : n.Declared) {l : Line}
    (hl : l.text = Class.interfaceLine n) (ls : List Line) :
    readAll (l :: ls) = (readAll ls).map ([interface n] ++ ·) :=
  have hw := ClassName.isWord_jni hn.valid
  readAll_keyword (k := ".implements") (by decide) hw.ne_nil hw.endsDark hl
    (fun h _ => read_interface hn h) ls

theorem readAll_source (s : Text) {l : Line} (hl : l.text = Class.sourceLine s) (ls : List Line) :
    readAll (l :: ls) = (readAll ls).map ([source s] ++ ·) := by
  have hdark : EndsDark (quoted (escape s)) := by
    rw [quoted]
    exact EndsDark.append _ (by simp) (by decide)
  exact readAll_keyword (k := ".source") (by decide) (by simp [quoted]) hdark hl
    (fun h _ => read_source h) ls

/-- A line that may be missing is read back. -/
theorem readAll_optional {α : Type} {written : α → Text} {member : α → Member} {o : Option α}
    (hitem : ∀ x, o = some x → ∀ l, l.text = written x → ∀ ls,
      readAll (l :: ls) = (readAll ls).map ([member x] ++ ·))
    {xs : List Line} (hxs : xs.map Line.text = o.toList.map written) (ys : List Line) :
    readAll (xs ++ ys) = (readAll ys).map (o.toList.map member ++ ·) := by
  cases o with
  | none =>
    obtain rfl : xs = [] := List.map_eq_nil_iff.1 hxs
    exact (map_nil_append _).symm
  | some x =>
    obtain ⟨l, rfl, hl⟩ := List.map_eq_singleton_iff.1 hxs
    exact hitem x rfl l hl ys

theorem readAll_annotated {d : Directive} (hd : d.IsAnnotation) {xs : List Line}
    (hxs : xs.map Line.text = d.written [] ++ [[]]) (ys : List Line) :
    readAll (xs ++ ys) = (readAll ys).map ([annotated d] ++ ·) := by
  obtain ⟨as, bs, rfl, has, hbs⟩ := List.map_eq_append_iff.1 hxs
  obtain ⟨b, rfl, hb⟩ := List.map_eq_singleton_iff.1 hbs
  obtain ⟨a, as, rfl, hstart, hread⟩ := hd.exists_of_written blanks_nil (by simp) has
  rw [List.append_assoc, List.cons_append, List.singleton_append, readAll_member (o := .ok (annotated d))
    (isSignificant_of_keyword (k := ".annotation") (by decide) hstart)
    (by rw [read_annotated hstart, hread]; rfl)]
  show (readAll ([b] ++ ys)).map _ = _
  rw [readAll_skips (not_significant_of_nil hb)]
  rfl

theorem readAll_field {f : Field} (hf : f.Valid) {xs ys : List Line}
    (hxs : xs.map Line.text = f.written) (hys : Field.isAnnotated ys = false) :
    Field.isAnnotated (xs ++ ys) = false ∧
      readAll (xs ++ ys) = (readAll ys).map ([field f] ++ ·) := by
  obtain ⟨x, xs, rfl, hx, hxs⟩ := List.map_eq_cons_iff.1 hxs
  obtain ⟨as, bs, rfl, has, hbs⟩ := List.map_eq_append_iff.1 hxs
  obtain ⟨b, rfl, hb⟩ := List.map_eq_singleton_iff.1 hbs
  have hstart : startsWith ".field" x.trimmed = true := by
    rw [Line.trimmed, hx, hf.declared.trim_header]
    exact f.startsWith_header
  have hsignificant := isSignificant_of_keyword (k := ".field") (by decide) hstart
  have hblank := not_significant_of_nil hb
  have hfollow : Field.isAnnotated ([b] ++ ys) = false := by
    rw [Field.isAnnotated_skips hblank, hys]
  have hread := Field.read_written hf hx has hfollow
  constructor
  · rw [List.cons_append, Field.isAnnotated_of_significant hsignificant]
    exact startsWith_eq_false hstart (by decide) (by decide)
  · rw [List.cons_append, List.append_assoc,
      readAll_member (o := .ok (field f)) hsignificant (by rw [read_field hstart, hread]; rfl)]
    show (readAll ([b] ++ ys)).map _ = _
    rw [readAll_skips hblank]
    rfl

/-! ### The methods -/

theorem inBody_of_mem_directives {ms : List Method} (h : ∀ m ∈ ms, m.Valid) :
    ∀ d ∈ ms.flatMap Method.directives, d.InBody := by
  intro d hd
  obtain ⟨m, hm, hd⟩ := List.mem_flatMap.1 hd
  exact Method.inBody_of_mem_directives (h m hm) d hd

theorem follows_methods {ms : List Method} (h : ∀ m ∈ ms, m.Valid) :
    Look.Follows (ms.flatMap Method.written) (Directive.ahead (ms.flatMap Method.directives)) := by
  induction ms with
  | nil => exact .nil _
  | cons m ms ih =>
    have hms : ∀ m ∈ ms, m.Valid := fun m' hm' => h m' (List.mem_cons_of_mem _ hm')
    rw [List.flatMap_cons, List.flatMap_cons]
    exact Method.follows_written (h m (List.mem_cons_self ..)) (inBody_of_mem_directives hms) (ih hms)

theorem readAll_methods {ms : List Method} (h : ∀ m ∈ ms, m.Valid) {xs : List Line}
    (hxs : xs.map Line.text = ms.flatMap Method.written)
    (ho : Directive.Owned (ms.flatMap Method.directives)) :
    readAll xs = if Directive.splits (ms.flatMap Method.directives) [] then
      Outcome.abort .splitCharacter else .ok (ms.map method) := by
  induction ms generalizing xs with
  | nil =>
    obtain rfl : xs = [] := List.map_eq_nil_iff.1 hxs
    exact readAll_nil
  | cons m ms ih =>
    have hm := h m (List.mem_cons_self ..)
    have hms : ∀ m ∈ ms, m.Valid := fun m' hm' => h m' (List.mem_cons_of_mem _ hm')
    rw [List.flatMap_cons] at hxs ho
    obtain ⟨as, ys, rfl, has, hys⟩ := List.map_eq_append_iff.1 hxs
    obtain ⟨x, zs, rfl, hx, hzs⟩ := List.map_eq_cons_iff.1 has
    obtain ⟨body, bs, rfl, hbody, hbs⟩ := List.map_eq_append_iff.1 hzs
    obtain ⟨b, rfl, hb⟩ := List.map_eq_singleton_iff.1 hbs
    have hlater := inBody_of_mem_directives hms
    have hblank : readAll (b :: ys) = readAll ys := readAll_skips (not_significant_of_nil hb) ys
    have hfollows : Look.Follows ((b :: ys).map Line.text)
        (Directive.ahead (ms.flatMap Method.directives)) := by
      rw [List.map_cons, hb, hys]
      exact (follows_methods hms).skip Look.neutral_nil (Directive.not_found_ahead hlater)
    have hread := Method.read_written hm hx hbody hlater hfollows ho
    have hstart := hm.declared.startsWith_trimmed hx
    have hmember : read x (body ++ b :: ys) = (if Directive.splits m.directives
        (ms.flatMap Method.directives) then Outcome.abort .splitCharacter else .ok (method m)).map
          fun m => (m, b :: ys) := by
      rw [read_method hstart, hread]
      split <;> rfl
    rw [List.cons_append, List.append_assoc, List.singleton_append,
      readAll_member (isSignificant_of_keyword (k := ".method") (by decide) hstart) hmember, List.flatMap_cons,
      Directive.splits_append, List.append_nil, hblank, ih hms hys ho.right]
    cases Directive.splits m.directives (ms.flatMap Method.directives) <;>
      cases Directive.splits (ms.flatMap Method.directives) [] <;> rfl

end Member

namespace Class

/-- Whether the look-ahead of a parameter splits a character when the class is read again. -/
def splits (c : Class) : Bool := Directive.splits c.directives []

/-- The members in the order in which they are written. -/
def members (c : Class) : List Member :=
  c.super?.toList.map .super ++ (c.source?.toList.map .source ++ (c.interfaces.map .interface ++
    (c.annotations.map .annotated ++ (c.fields.map .field ++ c.methods.map .method))))

theorem ofMembers_members {c : Class} (h : c.file? = none) :
    ofMembers c.name c.flags c.members = c := by
  obtain ⟨name, flags, source?, super?, interfaces, annotations, fields, methods, file?⟩ := c
  obtain rfl : file? = none := h
  have hlast : ∀ {α : Type} (o : Option α), o.toList.getLast? = o := by
    rintro α (_ | a) <;> rfl
  simp [ofMembers, members, hlast, List.filterMap_map, Function.comp_def, Member.super?,
    Member.interface?, Member.source?, Member.annotation?, Member.field?, Member.method?]

theorem isAnnotated_methods {ms : List Method} (h : ∀ m ∈ ms, m.Valid) {xs : List Line}
    (hxs : xs.map Line.text = writtenSection "methods" Method.written ms) :
    Field.isAnnotated xs = false := by
  obtain ⟨skipped, zs, rfl, hskipped, hzs⟩ := Member.exists_of_section hxs
  rw [Field.isAnnotated_skips hskipped]
  cases ms with
  | nil =>
    obtain rfl : zs = [] := List.map_eq_nil_iff.1 hzs
    rfl
  | cons m ms =>
    obtain ⟨x, zs, rfl, hx, -⟩ := List.map_eq_cons_iff.1 hzs
    have hstart := (h m (List.mem_cons_self ..)).declared.startsWith_trimmed hx
    rw [Field.isAnnotated_of_significant
      (Member.isSignificant_of_keyword (k := ".method") (by decide) hstart)]
    exact startsWith_eq_false hstart (by decide) (by decide)

theorem readAll_written {c : Class} (h : c.WellFormed) {xs : List Line}
    (hxs : xs.map Line.text = c.writtenMembers) :
    Member.readAll xs = if c.splits then Outcome.abort .splitCharacter else .ok c.members := by
  obtain ⟨super, xs, rfl, hsuper, hxs⟩ := List.map_eq_append_iff.1 hxs
  obtain ⟨source, xs, rfl, hsource, hxs⟩ := List.map_eq_append_iff.1 hxs
  obtain ⟨interfaces, xs, rfl, hinterfaces, hxs⟩ := List.map_eq_append_iff.1 hxs
  obtain ⟨annotations, xs, rfl, hnotes, hxs⟩ := List.map_eq_append_iff.1 hxs
  obtain ⟨fields, methods, rfl, hfields, hmethods⟩ := List.map_eq_append_iff.1 hxs
  have h1 : ∀ ys, Member.readAll (super ++ ys) =
      (Member.readAll ys).map (c.super?.toList.map Member.super ++ ·) := fun ys =>
    Member.readAll_optional (fun n hn _ hl => Member.readAll_super (h.super n hn) hl) hsuper ys
  have h2 : ∀ ys, Member.readAll (source ++ ys) =
      (Member.readAll ys).map (c.source?.toList.map Member.source ++ ·) := fun ys =>
    Member.readAll_optional (fun s _ _ hl => Member.readAll_source s hl) hsource ys
  have h3 : ∀ ys, Member.readAll (interfaces ++ ys) =
      (Member.readAll ys).map (c.interfaces.map Member.interface ++ ·) := fun ys =>
    Member.readAll_section (q := fun _ => True) (fun n hn xs ys hxs _ => by
      obtain ⟨l, rfl, hl⟩ := List.map_eq_singleton_iff.1 hxs
      exact ⟨trivial, Member.readAll_interface (h.interfaces n hn) hl ys⟩) hinterfaces trivial
  have h4 : ∀ ys, Member.readAll (annotations ++ ys) =
      (Member.readAll ys).map (c.annotations.map Member.annotated ++ ·) := fun ys =>
    Member.readAll_section (q := fun _ => True) (fun d hd xs ys hxs _ =>
      ⟨trivial, Member.readAll_annotated (h.annotations d hd) hxs ys⟩) hnotes trivial
  have h5 : Member.readAll (fields ++ methods) =
      (Member.readAll methods).map (c.fields.map Member.field ++ ·) :=
    Member.readAll_section (q := fun ys => Field.isAnnotated ys = false)
      (fun f hf xs ys hxs hys => Member.readAll_field (h.fields f hf) hxs hys) hfields
      (isAnnotated_methods h.methods hmethods)
  have h6 : Member.readAll methods =
      if c.splits then Outcome.abort .splitCharacter else .ok (c.methods.map Member.method) := by
    obtain ⟨skipped, zs, rfl, hskipped, hzs⟩ := Member.exists_of_section hmethods
    rw [Member.readAll_skips hskipped]
    exact Member.readAll_methods h.methods hzs h.owned
  rw [h1, h2, h3, h4, h5, h6]
  cases c.splits <;> rfl

/-- A well-formed class is read back from its text, unless a character is split on the way. -/
theorem WellFormed.read_text {c : Class} (h : c.WellFormed) :
    read c.text = if c.splits then Outcome.abort .splitCharacter else .ok c := by
  have hlines : (Line.ofText c.text).map Line.text = header c.flags c.name :: c.writtenMembers := by
    rw [Line.map_text_ofText, h.lines_text, written]
  obtain ⟨x, xs, hofText, hx, hxs⟩ := List.map_eq_cons_iff.1 hlines
  have hsignificant : IsSignificant x.text := by
    have hw := ClassName.isWord_jni h.name.valid
    have hdark : StartsDark x.text := by
      rw [hx, header, headerText]
      exact StartsDark.append _ (by simp) (by decide)
    have hk : IsKeyword ".class" := by decide
    apply hk.isSignificant
    rw [trim_eq_self hdark (hx ▸ endsDark_headerText _ _ _ hw), hx]
    exact startsWith_append ".class" _
  have hheader : readHeader x = .ok (c.flags, c.name) := by
    have := readHeader_header h.flags h.name x.number
    rwa [← hx] at this
  rw [read, hofText, Line.next?_cons_of_significant hsignificant]
  simp only [bind, Except.bind, hheader, readAll_written h hxs]
  cases c.splits with
  | true => rfl
  | false => exact congrArg Except.ok (ofMembers_members h.file)

end Class

end DalvikPatch
