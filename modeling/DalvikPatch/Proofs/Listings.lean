import DalvikPatch.Proofs.Writing

/-! Instructions as text. What is read from a line is read again from what is written for it, also
with another text in it, and a listing of such instructions gives them back whatever empty lines and
comments stand between. -/

namespace DalvikPatch

open Text

/-! ### Lines -/

namespace Text

/-- The end of a line, with or without a return in front of it. -/
def LineEnd (e : Text) : Prop := e = "\n" ∨ e = "\r\n"

theorem lines_append_return {l : Text} (hl : '\n' ∉ l) (s : Text) :
    lines (l ++ '\r' :: '\n' :: s) = l :: lines s := by
  induction l with
  | nil => rfl
  | cons c l ih =>
    have hc : c ≠ '\n' := fun h => hl (by simp [h])
    have hl' : '\n' ∉ l := fun h => hl (List.mem_cons_of_mem _ h)
    have hhead : ¬ (c = '\r' ∧ (l ++ '\r' :: '\n' :: s).head? = some '\n') := by
      rintro ⟨-, h⟩
      cases l with
      | nil => cases h
      | cons d l =>
        cases h
        exact hl' (List.mem_cons_self ..)
    rw [List.cons_append, lines_cons_of_ne hc hhead, ih hl']
    cases l <;> rfl

theorem OneLine.lines_append {l e : Text} (hl : OneLine l) (he : LineEnd e) (s : Text) :
    lines (l ++ e ++ s) = l :: lines s := by
  obtain rfl | rfl := he
  · exact (congrArg lines (List.append_assoc ..)).trans (lines_append_newline hl.newline hl.ending s)
  · exact (congrArg lines (List.append_assoc ..)).trans (lines_append_return hl.newline s)

/-- A return in front of the end of a line belongs to the end. -/
theorem exists_lines_append {l e : Text} (hl : '\n' ∉ l) (he : LineEnd e) (s : Text) :
    ∃ l' r, l = l' ++ r ∧ lines (l ++ e ++ s) = l' :: lines s := by
  by_cases hr : l.getLast? = some '\r' ∧ e = "\n"
  · obtain ⟨hlast, rfl⟩ := hr
    obtain ⟨l', rfl⟩ := List.getLast?_eq_some_iff.1 hlast
    refine ⟨l', ['\r'], rfl, ?_⟩
    have happ : l' ++ ['\r'] ++ "\n" ++ s = l' ++ '\r' :: '\n' :: s := by
      rw [List.append_assoc, List.append_assoc]
      rfl
    rw [happ, lines_append_return fun h => hl (List.mem_append_left _ h)]
  · refine ⟨l, [], (List.append_nil l).symm, ?_⟩
    obtain rfl | rfl := he
    · exact OneLine.lines_append ⟨hl, fun h => hr ⟨h, rfl⟩⟩ (.inl rfl) s
    · exact (congrArg lines (List.append_assoc ..)).trans (lines_append_return hl s)

theorem lines_of_not_mem {l : Text} (hl : '\n' ∉ l) (hne : l ≠ []) : lines l = [l] := by
  induction l with
  | nil => exact absurd rfl hne
  | cons c l ih =>
    have hc : c ≠ '\n' := fun h => hl (by simp [h])
    have hl' : '\n' ∉ l := fun h => hl (List.mem_cons_of_mem _ h)
    have hhead : ¬ (c = '\r' ∧ l.head? = some '\n') := fun h => hl' (List.mem_of_mem_head? h.2)
    rw [lines_cons_of_ne hc hhead]
    cases l with
    | nil => rfl
    | cons d l => rw [ih hl' (by simp)]

/-- Nothing but blanks and perhaps a comment. -/
def Idle (l : Text) : Prop := ∃ b c, Blanks b ∧ l = b ++ c ∧ ∀ x ∈ c.head?, x = '#'

theorem Idle.left {l r : Text} (h : Idle (l ++ r)) : Idle l := by
  obtain ⟨b, c, hb, hl, hc⟩ := h
  obtain ⟨c', rfl, rfl⟩ | ⟨b', rfl, rfl⟩ := List.append_eq_append_iff.1 hl
  · exact ⟨l, [], fun x hx => hb x (List.mem_append_left _ hx), (List.append_nil l).symm, by simp⟩
  · refine ⟨b, b', hb, rfl, fun x hx => hc x ?_⟩
    rw [List.head?_append, hx]
    rfl

/-- Nothing is left of an idle line without its comment. -/
theorem Idle.blanks_cutComment {l : Text} (h : Idle l) : Blanks (cutComment l) := by
  obtain ⟨b, c, hb, rfl, hc⟩ := h
  have hcut : cutComment (b ++ c) = b := by
    induction b with
    | nil =>
      cases c with
      | nil => rfl
      | cons x c =>
        obtain rfl := hc x rfl
        rfl
    | cons x b ih =>
      have hx : IsPlain x := isPlain_of_isBlank (hb x (List.mem_cons_self ..))
      rw [cutComment, List.cons_append, cutCommentFrom, if_neg fun h => hx.2.2 h.2,
        Literal.next_of_isPlain (by simp) hx]
      exact congrArg (x :: ·) (ih fun y hy => hb y (List.mem_cons_of_mem _ hy))
  rwa [hcut]

theorem Idle.trim_cutComment {l : Text} (h : Idle l) : trim (cutComment l) = [] :=
  trim_of_blanks h.blanks_cutComment

end Text

namespace Instruction

/-! ### One instruction -/

variable {i : Instruction}

theorem Valid.read_text (h : i.Valid) : read i.text = .ok i := by
  have hcut : cutComment i.text = i.text := h.quiet
  rw [read, hcut, h.readText_trim]

theorem Valid.trim_cutComment_text (h : i.Valid) : trim (cutComment i.text) ≠ [] := by
  intro hempty
  have hread := h.read_text
  rw [read, hempty] at hread
  cases hread

/-! ### Listings -/

/-- Instructions that are read from a line, and those with another text in them. -/
inductive Obtained : Instruction → Prop
  | read {line : Text} {i : Instruction} (hn : '\n' ∉ line) (h : Instruction.read line = .ok i) :
    Obtained i
  | withString {i j : Instruction} {s : Text} (hi : Obtained i) (h : i.withString? s = some j) :
    Obtained j

theorem Obtained.valid (h : i.Obtained) : i.Valid := by
  induction h with
  | read hn h => exact valid_of_read h hn
  | withString _ h ih => exact ih.withString? h

/-- A text in which some instructions stand, one on a line, among idle lines. The end of the last line
may be missing. -/
inductive Listing : List Instruction → Text → Prop
  | none {l : Text} (hn : '\n' ∉ l) (h : Idle l) : Listing [] l
  | last (i : Instruction) : Listing [i] i.text
  | idle {block : List Instruction} {l e s : Text} (hn : '\n' ∉ l) (h : Idle l) (he : LineEnd e)
    (hs : Listing block s) : Listing block (l ++ e ++ s)
  | instruction (i : Instruction) {block : List Instruction} {e s : Text} (he : LineEnd e)
    (hs : Listing block s) : Listing (i :: block) (i.text ++ e ++ s)

theorem readAll_of_lines_idle {s t l : Text} (hl : lines s = l :: lines t)
    (h : trim (cutComment l) = []) : readAll s = readAll t := by
  simp [readAll, hl, h]

theorem readAll_of_lines_text {s t : Text} (h : i.Valid) (hl : lines s = i.text :: lines t)
    {block : List Instruction} (ht : readAll t = .ok block) : readAll s = .ok (i :: block) := by
  rw [readAll] at ht
  simp [readAll, hl, h.trim_cutComment_text, h.read_text, ht, bind, Except.bind, pure, Except.pure]

theorem Listing.readAll_eq {block : List Instruction} {s : Text} (h : Listing block s)
    (hv : ∀ i ∈ block, i.Valid) : readAll s = .ok block := by
  induction h with
  | @none l hn hidle =>
    cases l with
    | nil => rfl
    | cons c l =>
      rw [readAll_of_lines_idle (t := []) (lines_of_not_mem hn (by simp)) hidle.trim_cutComment]
      rfl
  | last i =>
    have hi := hv i (List.mem_singleton_self i)
    exact readAll_of_lines_text (t := []) hi (lines_of_not_mem hi.oneLine_text.newline
      hi.startsDark_text.1) rfl
  | idle hn hidle he _ ih =>
    obtain ⟨l', r, rfl, hlines⟩ := exists_lines_append hn he _
    rw [readAll_of_lines_idle hlines hidle.left.trim_cutComment]
    exact ih hv
  | instruction i he _ ih =>
    have hi := hv i (List.mem_cons_self ..)
    exact readAll_of_lines_text hi (hi.oneLine_text.lines_append he _)
      (ih fun j hj => hv j (List.mem_cons_of_mem _ hj))

/-- What was read from a line is read again from its text, also after another text is put into it,
and a listing of instructions of both kinds is read as their list. -/
theorem read_listings :
    (∀ (line : Text) (i : Instruction), '\n' ∉ line → read line = .ok i →
      read i.text = .ok i ∧ ∀ s j, i.withString? s = some j → read j.text = .ok j) ∧
    ∀ (block : List Instruction) (s : Text), (∀ i ∈ block, i.Obtained) → Listing block s →
      readAll s = .ok block := by
  refine ⟨fun line i hn hread => ?_, fun block s hobtained hlisting => ?_⟩
  · have hvalid := valid_of_read hread hn
    exact ⟨hvalid.read_text, fun s j hj => (hvalid.withString? hj).read_text⟩
  · exact hlisting.readAll_eq fun i hi => (hobtained i hi).valid

/-- A load of a text, and a line that it may have been read from. -/
def loads (s : Text) : Instruction :=
  ⟨.refers 0x1a "const-string" .string .f21c Opcode.throwsSets, [.register (.v 0), .reference (.string s)]⟩

def loadLine : Text := "\tconst-string v0 , \"a#\\u0022\"# \"b\" "

/-- A load is listed in front of a comment, and behind it once more with another text. -/
theorem read_listings_loads : '\n' ∉ loadLine ∧ read loadLine = .ok (loads "a#\"") ∧
    (loads "a#\"").withString? "\n#" = some (loads "\n#") ∧
    read (loads "a#\"").text = .ok (loads "a#\"") ∧ read (loads "\n#").text = .ok (loads "\n#") ∧
    readAll ((loads "a#\"").text ++ "\r\n" ++ (" # \"c" ++ "\n" ++ (loads "\n#").text)) =
      .ok [loads "a#\"", loads "\n#"] := by
  have hn : '\n' ∉ loadLine := by decide
  have hread : read loadLine = .ok (loads "a#\"") := by rfl
  have hother : (loads "a#\"").withString? "\n#" = some (loads "\n#") := by rfl
  obtain ⟨hone, hother'⟩ := read_listings.1 loadLine _ hn hread
  have hobtained : ∀ i ∈ [loads "a#\"", loads "\n#"], i.Obtained := by
    simp only [List.forall_mem_cons, List.not_mem_nil, false_imp_iff, implies_true, and_true]
    exact ⟨.read hn hread, .withString (.read hn hread) hother⟩
  have hblank : Blanks [' '] := fun c hc => List.mem_singleton.1 hc ▸ by decide
  have hidle : Idle " # \"c" := ⟨[' '], "# \"c", hblank, rfl, by decide⟩
  exact ⟨hn, hread, hother, hone, hother' _ _ hother, read_listings.2 _ _ hobtained
    (.instruction _ (.inr rfl) (.idle (by decide) hidle (.inl rfl) (.last _)))⟩

end Instruction

end DalvikPatch
