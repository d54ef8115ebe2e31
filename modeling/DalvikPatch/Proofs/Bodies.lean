import DalvikPatch.Proofs.Entries
import DalvikPatch.Proofs.LookAhead

/-! Bodies that were read. Each of their items is valid, and every parameter that owns annotations has
its end ahead in the directives behind it. -/

namespace DalvikPatch

open Text Line

/-! ### Keywords under the look-ahead -/

namespace BodyEntry

theorem isSignificant_of_keyword {k l : Text} (hk : k ∈ keywords)
    (h : startsWith k (trim l) = true) : IsSignificant l :=
  (areKeywords k hk).1.isSignificant h

/-- The look-ahead stops at any other keyword. -/
theorem next_between_keyword {k l : Text} (hk : k ∈ keywords) (h : startsWith k (trim l) = true)
    (ha : k ≠ ".annotation") (he : k ≠ ".end param") : Look.between.next l = .passed :=
  Look.next_between_other (isSignificant_of_keyword hk h) (startsWith_other hk h (by decide) ha)
    (startsWith_other hk h (by decide) he)

end BodyEntry

/-! ### Directives of a body -/

namespace Directive

/-- A directive that can stand in a body. -/
inductive InBody (d : Directive) : Prop
  | line {s : Text} : s ∈ (".param" :: BodyEntry.singles : List Text) → d.IsLine s → InBody d
  | block {b : Text × Text} :
      b ∈ ((".param", ".end param") :: BodyEntry.blocks : List (Text × Text)) →
      d.IsBlock b.1 b.2 → InBody d

theorem lines_facts : ∀ s ∈ (".param" :: BodyEntry.singles : List Text), s ∈ BodyEntry.keywords ∧
    s ≠ ".annotation" ∧ s ≠ ".end param" ∧ s ≠ ".end method" := by
  decide

theorem blocks_facts : ∀ b ∈ ((".param", ".end param") :: BodyEntry.blocks : List (Text × Text)),
    b.1 ∈ BodyEntry.keywords ∧ b.1 ≠ ".end param" ∧ b.1 ≠ ".end method" ∧
      (b.1 = ".annotation" → b.2 = ".end annotation") := by
  decide

/-- The look-ahead passes over an annotation and stops at any other directive. -/
theorem InBody.after_between {d : Directive} (h : d.InBody) :
    Look.between.after d.lines = .between ∨ Look.between.after d.lines = .passed := by
  have other : ∀ k ∈ BodyEntry.keywords, k ≠ ".annotation" → k ≠ ".end param" → ∀ l ls,
      d.lines = l :: ls → Neat l → startsWith k l = true →
      Look.between.after d.lines = .passed := by
    intro k hk ha he l ls hlines hl hstart
    rw [← hl.trim_eq] at hstart
    rw [hlines, Look.after_cons, BodyEntry.next_between_keyword hk hstart ha he, Look.passed_after]
  cases h with
  | @line s hs hd =>
    obtain ⟨l, hlines, hl, hstart⟩ := hd.exists_line
    obtain ⟨hk, ha, he, -⟩ := lines_facts s hs
    exact .inr (other s hk ha he l [] hlines hl hstart)
  | @block b hb hd =>
    obtain ⟨hk, he, -, hclosing⟩ := blocks_facts b hb
    by_cases ha : b.1 = ".annotation"
    · rw [ha, hclosing ha] at hd
      exact .inl (Look.after_annotated hd (.inl rfl))
    · obtain ⟨l, ls, hlines, hl, hstart, -⟩ := hd.exists_lines
      exact .inr (other b.1 hk ha he l ls hlines hl hstart)

/-- The first line of a directive starts with a keyword that ends no method. -/
theorem InBody.exists_first {d : Directive} (h : d.InBody) : ∃ l ls, d.lines = l :: ls ∧ Neat l ∧
    ∃ k ∈ BodyEntry.keywords, startsWith k l = true ∧ k ≠ ".end method" := by
  cases h with
  | @line s hs hd =>
    obtain ⟨l, hlines, hl, hstart⟩ := hd.exists_line
    obtain ⟨hk, -, -, hm⟩ := lines_facts s hs
    exact ⟨l, [], hlines, hl, s, hk, hstart, hm⟩
  | @block b hb hd =>
    obtain ⟨l, ls, hlines, hl, hstart, -⟩ := hd.exists_lines
    obtain ⟨hk, -, hm, -⟩ := blocks_facts b hb
    exact ⟨l, ls, hlines, hl, b.1, hk, hstart, hm⟩

/-- A parameter with annotations of its own. -/
def isOwner (d : Directive) : Bool := startsWith ".param" (d.lines.headD []) && 1 < d.lines.length

theorem IsLine.isOwner_eq_false {d : Directive} {s : Text} (h : d.IsLine s) : d.isOwner = false := by
  obtain ⟨l, hlines, -⟩ := h.exists_line
  rw [isOwner, hlines]
  exact Bool.and_false _

theorem IsBlock.isOwner_eq {d : Directive} {opening closing : Text} (h : d.IsBlock opening closing)
    (hk : opening ∈ BodyEntry.keywords) : d.isOwner = (opening == ".param") := by
  obtain ⟨l, ls, hlines, -, hstart, -, hend⟩ := h.exists_lines
  have hlength : 1 < d.lines.length := by
    cases ls with
    | nil => cases hend
    | cons t ts => rw [hlines]; simp
  have hhead : d.lines.headD [] = l := by rw [hlines]; rfl
  by_cases ho : opening = ".param"
  · rw [isOwner, hhead, ← ho, hstart]
    simp [hlength]
  · rw [isOwner, hhead, BodyEntry.startsWith_other hk hstart (by decide) ho, Bool.false_and,
      beq_eq_false_iff_ne.2 ho]

/-- The lines of directives, one after the other. -/
def ahead (ds : List Directive) : List Text := ds.flatMap Directive.lines

@[simp] theorem ahead_nil : ahead [] = [] := rfl

@[simp] theorem ahead_cons (d : Directive) (ds : List Directive) :
    ahead (d :: ds) = d.lines ++ ahead ds := rfl

/-- Between directives the look-ahead finds nothing. -/
theorem not_found_ahead {ds : List Directive} (h : ∀ d ∈ ds, d.InBody) :
    ¬ (Look.between.after (ahead ds)).Found := by
  induction ds with
  | nil => simp [Look.Found]
  | cons d ds ih =>
    rw [ahead_cons, Look.after_append]
    rcases (h d (List.mem_cons_self ..)).after_between with hd | hd
    · rw [hd]
      exact ih fun d' hd' => h d' (List.mem_cons_of_mem _ hd')
    · rw [hd]
      simp [Look.Found]

/-- Where the look-ahead from the second line of a directive stops. -/
def look (d : Directive) (later : List Directive) : Look :=
  Look.between.after (d.lines.tail ++ ahead later)

/-- Each parameter that has annotations of its own has its end ahead. -/
def Owned : List Directive → Prop
  | [] => True
  | d :: ds => (d.isOwner = true → (d.look ds).Found) ∧ Owned ds

/-- Whether the look-ahead of a parameter splits a character, if `later` directives follow. -/
def splits : List Directive → List Directive → Bool
  | [], _ => false
  | d :: ds, later => (d.isOwner && d.look (ds ++ later) == .split) || splits ds later

theorem Owned.right {xs ys : List Directive} (h : Owned (xs ++ ys)) : Owned ys := by
  induction xs with
  | nil => exact h
  | cons d xs ih => exact ih h.2

theorem splits_append (xs ys later : List Directive) :
    splits (xs ++ ys) later = (splits xs (ys ++ later) || splits ys later) := by
  induction xs with
  | nil => rfl
  | cons d xs ih => rw [List.cons_append, splits, splits, ih, List.append_assoc, Bool.or_assoc]

end Directive

/-! ### Items -/

namespace BodyItem

def directive? : BodyItem → Option Directive
  | directive d => some d
  | _ => none

def Valid : BodyItem → Prop
  | instruction i => i.Valid
  | label l => l.Valid
  | line _ => True
  | directive d => d.InBody

end BodyItem

/-- The directives among some items. -/
def Method.directivesOf (items : List BodyItem) : List Directive :=
  items.filterMap BodyItem.directive?

@[simp] theorem Method.directivesOf_append (xs ys : List BodyItem) :
    directivesOf (xs ++ ys) = directivesOf xs ++ directivesOf ys := List.filterMap_append

@[simp] theorem Method.directivesOf_instruction (i : Instruction) (items : List BodyItem) :
    directivesOf (.instruction i :: items) = directivesOf items := rfl

theorem Method.inBody_of_mem_directivesOf {items : List BodyItem} (h : ∀ i ∈ items, i.Valid) :
    ∀ d ∈ directivesOf items, d.InBody := by
  intro d hd
  obtain ⟨i, hi, he⟩ := List.mem_filterMap.1 hd
  cases i with
  | directive d' =>
    cases he
    exact h _ hi
  | instruction | label | line => cases he

namespace BodyEntry

def Valid : BodyEntry → Prop
  | frame _ => True
  | item i => i.Valid

def directives : BodyEntry → List Directive
  | frame _ => []
  | item i => i.directive?.toList

/-- The look-ahead goes on behind a line without a directive. -/
theorem leads_line {l : Line} {raw kept : List Text} (hk : Look.Leads raw kept) {k : Text}
    (hkey : k ∈ keywords) (hstart : startsWith k l.trimmed = true)
    (hne : k ∉ ([".annotation", ".end param", ".end annotation"] : List Text)) :
    Look.Leads (l.text :: raw) kept := by
  simp only [List.mem_cons, List.not_mem_nil, or_false, not_or] at hne
  exact hk.line (.inr (next_between_keyword hkey hstart hne.1 hne.2.1))
    (startsWith_other hkey hstart (by decide) hne.2.2)

/-- A directive that was read is kept, and the look-ahead goes on behind it. -/
theorem leads_directive {l : Line} {taken rest : List Line} {d : Directive} (hd : d.InBody)
    (ht : (l :: taken).map Line.trimmed = d.lines.map trim) {later : List Directive}
    (hk : Look.Leads (rest.map Line.text) (Directive.ahead later)) (ho : Directive.Owned later)
    (hfound : d.isOwner = true → (d.look later).Found) :
    (directive d).Valid ∧ Look.Leads ((l :: (taken ++ rest)).map Line.text)
      (Directive.ahead ((directive d).directives ++ later)) ∧
      Directive.Owned ((directive d).directives ++ later) := by
  have htexts : ((l :: taken).map Line.text).map trim = d.lines.map trim := by
    rw [← ht, List.map_map]
    rfl
  have hleads := hk.directive hd.after_between htexts
  rw [← List.map_append] at hleads
  exact ⟨hd, hleads, hfound, ho⟩

/-- What was read on a line is valid. The look-ahead goes on behind it, and finds what it needs. -/
theorem Reads.leads {l : Line} {ls rest : List Line} {e : BodyEntry} (h : Reads l ls e rest)
    (hl : IsSignificant l.text) (hn : ∀ k ∈ l :: ls, '\n' ∉ k.text) {later : List Directive}
    (hk : Look.Leads (rest.map Line.text) (Directive.ahead later)) (ho : Directive.Owned later) :
    e.Valid ∧ Look.Leads ((l :: ls).map Line.text) (Directive.ahead (e.directives ++ later)) ∧
      Directive.Owned (e.directives ++ later) := by
  have hnewline : '\n' ∉ l.text := hn l (List.mem_cons_self ..)
  have hneat : Neat l.trimmed := neat_trim hnewline
  have hline : [l].map Line.trimmed = (⟨[l.trimmed]⟩ : Directive).lines.map trim :=
    congrArg (fun t => [t]) (trim_trim l.text).symm
  cases h with
  | @frame k f hkey hstart =>
    refine ⟨trivial, ?_, ho⟩
    rcases List.mem_pair.1 hkey with rfl | rfl
    · exact leads_line hk (k := ".locals") (by decide) hstart (by decide)
    · exact leads_line hk (k := ".registers") (by decide) hstart (by decide)
  | @line n hstart =>
    exact ⟨trivial, leads_line hk (k := ".line") (by decide) hstart (by decide), ho⟩
  | @label b r hstart hb =>
    exact ⟨(Label.valid_of_read? hb).1,
      leads_line hk (k := ":") (by decide) hstart (by decide), ho⟩
  | opened hstart hc =>
    have hd : (⟨[l.trimmed]⟩ : Directive).IsLine ".param" := ⟨_, rfl, hneat, hstart⟩
    have := leads_directive (.line (List.mem_cons_self ..) hd) hline hk ho
      (fun hown => by rw [hd.isOwner_eq_false] at hown; cases hown)
    exact this
  | @single s hs hstart =>
    have hd : (⟨[l.trimmed]⟩ : Directive).IsLine s := ⟨_, rfl, hneat, hstart⟩
    have := leads_directive (.line (List.mem_cons_of_mem _ hs) hd) hline hk ho
      (fun hown => by rw [hd.isOwner_eq_false] at hown; cases hown)
    exact this
  | @block b d rest hb hstart hread =>
    obtain ⟨hd, taken, rfl, ht⟩ := Directive.exists_of_readBlock hread hstart hn
    apply leads_directive (.block (List.mem_cons_of_mem _ hb) hd) ht hk ho
    intro hown
    obtain ⟨hkey, -, hne⟩ := mem_keywords_of_mem_blocks b hb
    rw [hd.isOwner_eq hkey] at hown
    exact absurd (by rw [beq_iff_eq.1 hown]; decide) hne
  | @owner d rest hstart hc hread =>
    obtain ⟨hd, taken, rfl, ht⟩ := Directive.exists_of_readBlock hread hstart hn
    apply leads_directive (.block (List.mem_cons_self ..) hd) ht hk ho
    intro _
    -- What the look-ahead found in the lines that were read it finds in those that are kept.
    have hclosed := Directive.isClosed_answers (taken ++ rest)
    rw [hc] at hclosed
    have hstop := Look.eq_closed_of_answers hclosed
    rw [List.map_append, Look.after_append] at hstop
    have htail : (taken.map Line.text).map trim = d.lines.tail.map trim := by
      have := congrArg List.tail ht
      rw [List.map_cons, List.tail_cons, ← List.map_tail] at this
      rw [← this, List.map_map]
      rfl
    have hsimilar := Look.Similar.after (.inr (.inr (.inl rfl))) htail (k := Look.between)
    rw [Directive.look, Look.after_append]
    exact hk.found hsimilar hstop
  | @instruction i hcolon hdot hi =>
    refine ⟨Instruction.valid_of_read hi hneat.newline, ?_, ho⟩
    have other : ∀ w r : Text, w = "." ++ r → startsWith w l.trimmed = false := by
      intro w r hw
      rw [Bool.eq_false_iff]
      intro hstart
      obtain ⟨t, ht⟩ := startsWith_iff.1 hstart
      rw [ht, hw, List.append_assoc, startsWith_append] at hdot
      cases hdot
    exact hk.line (.inr (Look.next_between_other hl (other _ "annotation" (by decide))
      (other _ "end param" (by decide)))) (other _ "end annotation" (by decide))

end BodyEntry

namespace Method

theorem directivesOf_add (b : Body) (e : BodyEntry) :
    directivesOf (b.add e).items = e.directives ++ directivesOf b.items := by
  cases e with
  | frame f => rfl
  | item i => cases i <;> rfl

theorem valid_of_mem_add {b : Body} {e : BodyEntry} (hb : ∀ i ∈ b.items, i.Valid) (he : e.Valid) :
    ∀ i ∈ (b.add e).items, i.Valid := by
  cases e with
  | frame f => exact hb
  | item i =>
    intro j hj
    rcases List.mem_cons.1 hj with rfl | hj
    · exact he
    · exact hb j hj

theorem suffix_of_readBody {n : Nat} {name : Text} {ls rest : List Line} {b : Body}
    (h : readBody n name ls = .ok (b, rest)) : rest <:+ ls := by
  fun_induction readBody n name ls generalizing b with
  | case1 => cases h
  | case2 ls l ls' hnext _ =>
    cases h
    obtain ⟨-, skipped, rfl, -⟩ := Line.exists_of_next? hnext
    exact ⟨skipped ++ [l], by simp⟩
  | case3 => cases h
  | case4 ls l ls' hnext _ e rest' he ih =>
    obtain ⟨⟨b', rest''⟩, hread, heq⟩ := exists_of_map h
    cases heq
    obtain ⟨-, skipped, rfl, -⟩ := Line.exists_of_next? hnext
    have hsuffix := (BodyEntry.reads_of_read he).suffix
    exact (ih hread).trans (hsuffix.trans ⟨skipped ++ [l], by simp⟩)

/-- A body that was read: its items are valid, and each parameter finds its end. -/
theorem leads_of_readBody {n : Nat} {name : Text} {ls rest : List Line} {b : Body}
    (h : readBody n name ls = .ok (b, rest)) (hn : ∀ k ∈ ls, '\n' ∉ k.text) {later : List Directive}
    (hk : Look.Leads (rest.map Line.text) (Directive.ahead later)) (ho : Directive.Owned later) :
    (∀ i ∈ b.items, i.Valid) ∧
      Look.Leads (ls.map Line.text) (Directive.ahead (directivesOf b.items ++ later)) ∧
      Directive.Owned (directivesOf b.items ++ later) := by
  fun_induction readBody n name ls generalizing b with
  | case1 => cases h
  | case2 ls l ls' hnext hend =>
    cases h
    obtain ⟨-, skipped, rfl, hskipped⟩ := Line.exists_of_next? hnext
    refine ⟨by simp, ?_, ho⟩
    rw [List.map_append]
    exact (BodyEntry.leads_line hk (k := ".end method") (by decide) hend (by decide)).skips
      (by simpa using hskipped)
  | case3 => cases h
  | case4 ls l ls' hnext _ e rest' he ih =>
    obtain ⟨⟨b', rest''⟩, hread, heq⟩ := exists_of_map h
    cases heq
    obtain ⟨hl, skipped, rfl, hskipped⟩ := Line.exists_of_next? hnext
    have hreads := BodyEntry.reads_of_read he
    have hn' : ∀ k ∈ l :: ls', '\n' ∉ k.text := fun k hm => hn k (List.mem_append_right _ hm)
    have hn'' : ∀ k ∈ rest', '\n' ∉ k.text :=
      fun k hm => hn' k (List.mem_cons_of_mem _ (hreads.suffix.subset hm))
    obtain ⟨hitems, hleads, howned⟩ := ih hread hn''
    obtain ⟨hvalid, hleads', howned'⟩ := hreads.leads hl hn' hleads howned
    rw [directivesOf_add, List.append_assoc, List.map_append]
    exact ⟨valid_of_mem_add hitems hvalid, hleads'.skips (by simpa using hskipped), howned'⟩

end Method

end DalvikPatch
