import DalvikPatch.Proofs.Listings
import DalvikPatch.Proofs.Visits

/-! What is left over of a line. A label, the number of a line, a declaration of registers and the header of
a method are read from the start of their line as far as they go, and nothing looks at the rest. So the
rest may be anything, and the document says what it would say without it. -/

namespace DalvikPatch

open Text Line

/-! ### Where readers stop -/

/-- What the reader of a number behind a keyword leaves over of a line. -/
def CountLeaves {α : Type} (keyword : Text) (number : Text → Option (α × Text)) (line rest : Text) : Prop :=
  ∃ s a, after? keyword line = some s ∧ s.head?.any isSpace ∧ number (skipSpaces s) = some (a, rest)

/-- What the reader of the header of a method leaves over of a line up to its comment. -/
def HeaderLeaves (n : Nat) (line rest : Text) : Prop :=
  ∃ f w p, readHeader ".method" .method n (cutComment line) = .ok (f, w) ∧
    Prototype.read? (w.dropWhile (· != '(')) = some (p, rest)

theorem idle_of_blanks {b : Text} (hb : Blanks b) : Idle b :=
  ⟨b, [], hb, (List.append_nil b).symm, by simp⟩

theorem Idle.append_blanks {l b : Text} (h : Idle l) (hb : Blanks b) : Idle (l ++ b) := by
  obtain ⟨a, c, ha, rfl, hc⟩ := h
  cases c with
  | nil =>
    rw [List.append_nil]
    exact idle_of_blanks (ha.append hb)
  | cons x c => exact ⟨a, x :: c ++ b, ha, List.append_assoc .., hc⟩

/-- What stands on a line up to where its reader stops: it starts with the keyword, and reads as the whole
line does whatever else follows. Behind it stand the rest and perhaps a comment. -/
structure Front {α : Type} (keyword : Text) (follows : Text → Prop) (read : Text → α)
    (line front rest : Text) : Prop where
  starts : startsWith keyword front = true
  dark : EndsDark front
  read : ∀ other, follows other → read (front ++ other) = read line
  line : ∃ more, line = front ++ rest ++ more ∧ Idle more

/-- Text that may stand in the word that declares a method. -/
def GoesOn (s : Text) : Prop := ∀ c ∈ s, ¬ isBlank c ∧ c ≠ '#'

variable {line rest : Text}

theorem Label.exists_front {b : Label} (h : Label.read? line = some (b, rest)) :
    ∃ front, Front ":" StartsBlank (fun s => (Label.read? s).map Prod.fst) line front rest := by
  obtain ⟨hvalid, hline⟩ := Label.valid_of_read? h
  refine ⟨b.text, startsWith_append ":" b.name, (Label.isWord_text hvalid).endsDark, fun o ho => ?_, [], ?_,
    idle_of_blanks blanks_nil⟩
  · have hread := Label.read?_text_append hvalid fun c hc hchar =>
      Label.not_isBlank_of_isLabelChar hchar (ho c hc)
    simp only [hread, h, Option.map_some]
  · rw [hline, List.append_nil]

theorem CountLeaves.exists_front {α : Type} {keyword : Text} {number : Text → Option (α × Text)}
    (hnumber : ∀ {s a r}, number s = some (a, r) →
      ∃ u, s = u ++ r ∧ IsWord u ∧ ∀ o, Numeral.Stops o → number (u ++ o) = some (a, o))
    (h : CountLeaves keyword number line rest) :
    ∃ front, Front keyword StartsBlank (readCount? keyword number) line front rest := by
  obtain ⟨s, a, hs, hspace, hread⟩ := h
  obtain ⟨u, hu, hword, halone⟩ := hnumber hread
  have hsplit : s.takeWhile isSpace ++ (u ++ rest) = s := by
    rw [← hu, skipSpaces, List.takeWhile_append_dropWhile]
  have hskip : ∀ o, skipSpaces (s.takeWhile isSpace ++ (u ++ o)) = u ++ o := by
    intro o
    rw [skipSpaces, List.dropWhile_append_of_pos fun c hc => List.mem_takeWhile_imp hc]
    exact skipSpaces_eq_self (hword.startsDark.append o hword.ne_nil).unspaced
  have hhead : ∀ t, (s.takeWhile isSpace ++ t).head?.any isSpace := by
    intro t
    cases s with
    | nil => cases hspace
    | cons c s =>
      have hc : isSpace c := hspace
      rw [List.takeWhile_cons_of_pos hc]
      exact hc
  refine ⟨keyword ++ (s.takeWhile isSpace ++ u), startsWith_append keyword _, ?_, fun o ho => ?_, [], ?_,
    idle_of_blanks blanks_nil⟩
  · rw [← List.append_assoc]
    exact hword.endsDark.append _ hword.ne_nil
  · have hstops : Numeral.Stops o := fun c hc hcounts => hcounts.2 (ho c hc)
    simp only [readCount?, List.append_assoc, after?_append, hs, Option.bind_eq_bind, Option.bind_some,
      hspace, hhead, if_true, hread, hskip, halone o hstops, Option.map_some]
  · rw [eq_append_of_after? hs, List.append_nil, List.append_assoc, List.append_assoc, hsplit]

theorem HeaderLeaves.exists_front {n : Nat} (hdark : StartsDark line) (h : HeaderLeaves n line rest) :
    ∃ front, Front ".method" GoesOn (Method.readLine n) line front rest := by
  obtain ⟨f, w, p, hheader, hp⟩ := h
  have hline : Method.readLine n line = .ok (f, w.takeWhile (· != '('), p) := by
    simp only [Method.readLine, bind, Except.bind, hheader, Method.readName?, hp, Option.map_some]
  let m : Method := ⟨w.takeWhile (· != '('), f, p, none, []⟩
  have hm : m.Declared := Method.declared_of_readLine hline
  obtain ⟨-, -, before, after, hs, -, hafter, hother⟩ := exists_of_readHeader (by decide) hheader
  obtain ⟨comment, hcut, hcomment⟩ := exists_cutComment line
  have hw : w = m.descriptor ++ rest := by
    rw [Method.descriptor, List.append_assoc, ← (Prototype.eq_of_read? hp).1, List.takeWhile_append_dropWhile]
  have hsplit : line = before ++ m.descriptor ++ rest ++ (after ++ comment) := by
    rw [hcut, hs, hw]
    simp only [List.append_assoc]
  have hends : EndsDark (before ++ m.descriptor) := hm.isWord.endsDark.append _ hm.isWord.ne_nil
  have hstart : StartsDark (before ++ m.descriptor) := fun c hc => hdark c (by
    rw [hsplit, List.append_assoc, List.head?_append, hc]
    rfl)
  have hfront : startsWith ".method" (before ++ m.descriptor) = true := by
    have hstarts := startsWith_of_readHeader (hother ⟨by simp, by decide⟩ _ hm.isWord)
    rwa [trim_eq_self hstart hends] at hstarts
  refine ⟨before ++ m.descriptor, hfront, hends, fun o ho => ?_, after ++ comment, hsplit, after, comment,
    hafter, rfl, hcomment⟩
  have hword : IsWord (m.descriptor ++ o) := by
    refine ⟨by simp [hm.isWord.ne_nil], fun c hc => ?_⟩
    rcases List.mem_append.1 hc with hc | hc
    · exact hm.isWord.dark c hc
    · exact (ho c hc).1
  have hquiet : cutComment (before ++ (m.descriptor ++ o)) = before ++ (m.descriptor ++ o) := by
    have hquiet := quiet_cutComment line
    rw [hs, hw, ← List.append_assoc] at hquiet
    rw [← List.append_assoc]
    exact quiet_append.2 ⟨hquiet.left.left, quiet_of_not_mem fun hc => (ho _ hc).2 rfl⟩
  have hread := hother ⟨by simp, by decide⟩ _ hword
  rw [hline, List.append_assoc]
  simp only [Method.readLine, bind, Except.bind, hquiet, hread, Method.readName?_descriptor_append hm]
  rfl

/-! ### Other rests -/

theorem goesOn_trimRight {s : Text} (h : GoesOn s) : GoesOn (trimRight s) :=
  fun c hc => h c (mem_of_mem_trimRight hc)

variable {α : Type} {keyword front : Text} {follows : Text → Prop} {read : Text → α} {l : Line}

theorem Front.starts_line (h : Front keyword follows read line front rest) :
    startsWith keyword line = true := by
  obtain ⟨more, hline, -⟩ := h.line
  obtain ⟨r, hr⟩ := startsWith_iff.1 h.starts
  exact startsWith_iff.2 ⟨r ++ (rest ++ more), by rw [hline, hr]; simp only [List.append_assoc]⟩

/-- Behind its front a line may go on in any way: it starts with its keyword, and is the same to the
look-ahead. -/
theorem Front.exists_taken (h : Front keyword follows read l.trimmed front rest) (hk : Look.Apart keyword)
    (hdark : StartsDark keyword) :
    ∃ taken more, l.text = taken ++ rest ++ more ∧ Idle more ∧ ∀ other,
      (⟨l.number, taken ++ other⟩ : Line).trimmed = front ++ trimRight other ∧
      startsWith keyword (⟨l.number, taken ++ other⟩ : Line).trimmed = true ∧
      IsSignificant (taken ++ other) ∧ ∀ ls, Alike (l :: ls) (⟨l.number, taken ++ other⟩ :: ls) := by
  obtain ⟨a, b, ha, hb, htext⟩ := exists_trim l.text
  obtain ⟨more, hline, hmore⟩ := h.line
  obtain ⟨r, hr⟩ := startsWith_iff.1 h.starts
  have hne : front ≠ [] := by
    rw [hr]
    simp [hk.1.1]
  have hfront : StartsDark front := hr ▸ hdark.append r hk.1.1
  have hlong : StartsDark (l.trimmed ++ b) := by
    refine StartsDark.append b (fun hnil => ?_) (startsDark_trim l.text)
    rw [hline] at hnil
    exact hne (List.append_eq_nil_iff.1 (List.append_eq_nil_iff.1 hnil).1).1
  have htrim : trim (l.trimmed ++ b) = l.trimmed := by rw [trim_append_blanks _ hb, Line.trimmed, trim_trim]
  have hother : ∀ other, trim (front ++ other) = front ++ trimRight other := by
    intro other
    rw [trim_eq_trimRight (hfront.append other hne), trimRight_append_of_endsDark h.dark]
  have hstarts : ∀ other, startsWith keyword (trim (front ++ other)) = true := by
    intro other
    rw [hother, hr, List.append_assoc]
    exact startsWith_append keyword _
  refine ⟨a ++ front, more ++ b, ?_, Idle.append_blanks hmore hb, fun other => ?_⟩
  · rw [htext, ← Line.trimmed, hline]
    simp only [List.append_assoc]
  · have htrimmed : trim (a ++ front ++ other) = trim (front ++ other) := by
      rw [List.append_assoc, trim_blanks_append ha]
    refine ⟨htrimmed.trans (hother other), ?_, ?_, fun ls => ?_⟩
    · rw [Line.trimmed, htrimmed]
      exact hstarts other
    · apply hk.1.isSignificant
      rw [htrimmed]
      exact hstarts other
    · have hl : l.text = a ++ (l.trimmed ++ b) := by
        rw [← List.append_assoc]
        exact htext
      exact alike_of_apart hk ha hl (List.append_assoc ..) hlong (hfront.append other hne)
        (htrim.symm ▸ h.starts_line) (hstarts other) ls

theorem CountLeaves.exists_count {number : Text → Option (α × Text)}
    (h : CountLeaves keyword number line rest) : ∃ a, readCount? keyword number line = some a := by
  obtain ⟨s, a, hs, hspace, hread⟩ := h
  exact ⟨a, by simp only [readCount?, hs, Option.bind_eq_bind, Option.bind_some, hspace, if_true, hread,
    Option.map_some]⟩

namespace Class

/-- A line of a document that is read only in part, what is left over of it, and what else may stand
there: more of the word that declares a method, and anything behind a blank on the other lines. -/
inductive LeavesOver (s : Text) (l : Line) (rest : Text) : (Text → Prop) → Prop
  | header {ls : List Line} : ReadsMember s l ls → startsWith ".method" l.trimmed = true →
      HeaderLeaves l.number l.trimmed rest → LeavesOver s l rest GoesOn
  | label {ls : List Line} {b : Label} : ReadsEntry s l ls → Label.read? l.trimmed = some (b, rest) →
      LeavesOver s l rest StartsBlank
  | locals {ls : List Line} : ReadsEntry s l ls → CountLeaves ".locals" Numeral.readUInt16? l.trimmed rest →
      LeavesOver s l rest StartsBlank
  | registers {ls : List Line} : ReadsEntry s l ls →
      CountLeaves ".registers" Numeral.readUInt16? l.trimmed rest → LeavesOver s l rest StartsBlank
  | line {ls : List Line} : ReadsEntry s l ls → CountLeaves ".line" Numeral.readUInt32? l.trimmed rest →
      LeavesOver s l rest StartsBlank

/-- A document stands for a class whatever is left over of one of its lines: what stands there, and perhaps
a comment, may be any other text. -/
def IgnoresRest (s : Text) (c : Class) (l : Line) (rest : Text) (follows : Text → Prop) : Prop :=
  ∃ before taken more after, (ofText s = before ++ l :: after ∧ l.text = taken ++ rest ++ more ∧ Idle more) ∧
    ∀ s' other, follows other → ofText s' = before ++ ⟨l.number, taken ++ other⟩ :: after →
      Class.read s' = .ok c

variable {s : Text} {c : Class}

/-- The rest of a line that starts an entry of a body, where the entry is read off the front alone. -/
theorem entry_other_rest {ls : List Line} {e : BodyEntry} (h : Class.read s = .ok c)
    (hl : ReadsEntry s l ls) (hfront : Front keyword StartsBlank read l.trimmed front rest)
    (hk : Look.Apart keyword) (hdark : StartsDark keyword)
    (hread : ∀ l' : Line, startsWith keyword l'.trimmed = true → read l'.trimmed = read l.trimmed →
      BodyEntry.read l' ls = .ok (e, ls)) :
    IgnoresRest s c l rest StartsBlank := by
  obtain ⟨taken, more, htext, hmore, hother⟩ := hfront.exists_taken hk hdark
  obtain ⟨before, hs, hexchange⟩ := read_exchange_entry h hl (hread l hfront.starts_line rfl)
  refine ⟨before, taken, more, ls, ⟨hs, htext, hmore⟩, fun s' other hfollows hs' => ?_⟩
  obtain ⟨htrimmed, hstarts, hsignificant, halike⟩ := hother other
  refine hexchange _ (halike ls) hsignificant (hread _ hstarts ?_) s' hs'
  rw [htrimmed]
  exact hfront.read _ (startsBlank_trimRight hfollows)

/-- What is left over of a line is lost, and any other rest would be. -/
theorem ignores_rest {s : Text} {c : Class} {l : Line} {rest : Text} {follows : Text → Prop}
    (h : Class.read s = .ok c) (hl : LeavesOver s l rest follows) : IgnoresRest s c l rest follows := by
  cases hl with
  | @header ls hmember hmethod hleaves =>
    obtain ⟨front, hfront⟩ := hleaves.exists_front (startsDark_trim _)
    obtain ⟨taken, more, htext, hmore, hother⟩ :=
      hfront.exists_taken (by decide) (by decide)
    obtain ⟨before, hs, hexchange⟩ := read_exchange_member h hmember
    refine ⟨before, taken, more, ls, ⟨hs, htext, hmore⟩, fun s' other hfollows hs' => ?_⟩
    obtain ⟨htrimmed, hstarts, hsignificant, halike⟩ := hother other
    refine hexchange _ ls (halike ls) hsignificant (fun hm => ?_) s' hs'
    rw [← hm, Member.read_method hstarts, Member.read_method hmethod, Method.read, Method.read, htrimmed,
      hfront.read _ (goesOn_trimRight hfollows)]
    rfl
  | @label ls b hentry hb =>
    obtain ⟨front, hfront⟩ := Label.exists_front hb
    refine entry_other_rest (e := .item (.label b)) h hentry hfront (by decide) (by decide)
      fun l' hstart heq => ?_
    rw [hb, Option.map_some] at heq
    obtain ⟨⟨b, r⟩, hlabel, rfl⟩ := Option.map_eq_some_iff.1 heq
    exact BodyEntry.read_label hstart hlabel
  | locals hentry hcount =>
    obtain ⟨front, hfront⟩ := hcount.exists_front fun hn =>
      Numeral.front_of_map (g := fun n => n.toNat.toUInt16) hn
    obtain ⟨n, hn⟩ := hcount.exists_count
    exact entry_other_rest h hentry hfront (by decide) (by decide)
      fun l' _ heq => BodyEntry.read_locals (heq.trans hn)
  | registers hentry hcount =>
    obtain ⟨front, hfront⟩ := hcount.exists_front fun hn =>
      Numeral.front_of_map (g := fun n => n.toNat.toUInt16) hn
    obtain ⟨n, hn⟩ := hcount.exists_count
    exact entry_other_rest h hentry hfront (by decide) (by decide)
      fun l' _ heq => BodyEntry.read_registers (heq.trans hn)
  | line hentry hcount =>
    obtain ⟨front, hfront⟩ := hcount.exists_front fun hn =>
      Numeral.front_of_map (g := fun n => n.toNat.toUInt32) hn
    obtain ⟨n, hn⟩ := hcount.exists_count
    exact entry_other_rest h hentry hfront (by decide) (by decide)
      fun l' _ heq => BodyEntry.read_line (heq.trans hn)

/-- A suffix on the header of a method, and a return behind a label. -/
def trailingDocument : Text := ".class La;\n.method a()Vnop # c\n:b return-void # d\n.end method\n"

def trailing : Class :=
  ⟨⟨"a"⟩, .empty, none, none, [], [], [], [⟨"a", .empty, ⟨[], .void⟩, none, [.label ⟨"b"⟩]⟩], none⟩

theorem ignores_rest_trailing : Class.read trailingDocument = .ok trailing ∧
    (LeavesOver trailingDocument ⟨2, ".method a()Vnop # c"⟩ "nop" GoesOn ∧
      IgnoresRest trailingDocument trailing ⟨2, ".method a()Vnop # c"⟩ "nop" GoesOn) ∧
    (LeavesOver trailingDocument ⟨3, ":b return-void # d"⟩ " return-void # d" StartsBlank ∧
      IgnoresRest trailingDocument trailing ⟨3, ":b return-void # d"⟩ " return-void # d" StartsBlank) := by
  have hread : Class.read trailingDocument = .ok trailing := by decide +kernel
  have hmember : ReadsMember trailingDocument ⟨2, ".method a()Vnop # c"⟩
      [⟨3, ":b return-void # d"⟩, ⟨4, ".end method"⟩] := ⟨_, _, [], _, rfl, .here _, rfl⟩
  have hheader : LeavesOver trailingDocument ⟨2, ".method a()Vnop # c"⟩ "nop" GoesOn :=
    .header hmember (by decide) ⟨.empty, "a()Vnop", ⟨[], .void⟩, by decide +kernel, by decide +kernel⟩
  have hentry : ReadsEntry trailingDocument ⟨3, ":b return-void # d"⟩ [⟨4, ".end method"⟩] :=
    ⟨_, _, [], _, hmember, by decide, .here _, rfl⟩
  have hlabel : LeavesOver trailingDocument ⟨3, ":b return-void # d"⟩ " return-void # d" StartsBlank :=
    .label (b := ⟨"b"⟩) hentry (by decide +kernel)
  exact ⟨hread, ⟨hheader, ignores_rest hread hheader⟩, hlabel, ignores_rest hread hlabel⟩

/-- A return behind a label, and nothing else. -/
def labelledDocument : Text := ".class La;\n.method a()V\n:a return-void\n.end method\n"

/-- The class of the document has the label and no instruction, and the return is no comment. -/
theorem return_behind_label_lost :
    Class.read labelledDocument =
      .ok ⟨⟨"a"⟩, .empty, none, none, [], [], [], [⟨"a", .empty, ⟨[], .void⟩, none, [.label ⟨"a"⟩]⟩], none⟩ ∧
    LeavesOver labelledDocument ⟨3, ":a return-void"⟩ " return-void" StartsBlank ∧ ¬ Idle " return-void" := by
  have hentry : ReadsEntry labelledDocument ⟨3, ":a return-void"⟩ [⟨4, ".end method"⟩] :=
    ⟨⟨2, ".method a()V"⟩, _, [], _, ⟨_, _, [], _, rfl, .here _, rfl⟩, by decide, .here _, rfl⟩
  refine ⟨by decide +kernel, .label (b := ⟨"a"⟩) hentry (by decide +kernel), fun hidle => ?_⟩
  have hcut := Idle.trim_cutComment hidle
  revert hcut
  decide

end Class

end DalvikPatch
