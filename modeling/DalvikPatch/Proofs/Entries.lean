import DalvikPatch.Proofs.Blocks
import DalvikPatch.Proofs.Instructions

/-! What starts on a line of a body. No two of the words that a line may start with are the start of
one line, so the first word decides how a line is read. -/

namespace DalvikPatch

open Text

namespace BodyEntry

/-- The words that a line of a body may start with, and the ends of blocks. -/
def keywords : List Text := [".locals", ".registers", ".line", ":", ".param", ".annotation",
  ".array-data", ".packed-switch", ".sparse-switch", ".catch ", ".catchall ", ".local ",
  ".end local", ".restart local", ".prologue", ".epilogue", ".source", ".end annotation",
  ".end param", ".end method"]

theorem areKeywords : Line.AreKeywords keywords := by
  decide

theorem startsWith_other {v w s : Text} (hv : v ∈ keywords) (h : startsWith v s = true)
    (hw : w ∈ keywords) (hne : v ≠ w) : startsWith w s = false :=
  areKeywords.other hv h hw hne

theorem mem_keywords_of_mem_blocks : ∀ b ∈ blocks, b.1 ∈ keywords ∧ startsWith "." b.1 = true ∧
    b.1 ∉ ([".locals", ".registers", ".line", ":", ".param", ".end method", ".end param",
      ".end annotation"] : List Text) := by
  decide

theorem mem_keywords_of_mem_singles : ∀ s ∈ singles, s ∈ keywords ∧ startsWith "." s = true ∧
    s ∉ ([".locals", ".registers", ".line", ":", ".param", ".end method", ".end param",
      ".annotation", ".end annotation"] : List Text) ∧ ∀ b ∈ blocks, s ≠ b.1 := by
  decide

theorem blocks_injective : ∀ b ∈ blocks, ∀ b' ∈ blocks, b.1 = b'.1 → b = b' := by
  decide

theorem startsWith_of_readCount? {α : Type} {k s : Text} {number : Text → Option (α × Text)} {a : α}
    (h : readCount? k number s = some a) : startsWith k s = true := by
  simp only [readCount?, Option.bind_eq_bind, Option.bind_eq_some_iff] at h
  obtain ⟨r, hr, -⟩ := h
  rw [startsWith, hr]
  rfl

theorem readCount?_eq_none {α : Type} {k s : Text} (number : Text → Option (α × Text))
    (h : startsWith k s = false) : readCount? k number s = none := by
  rw [startsWith, Option.isSome_eq_false_iff, Option.isNone_iff_eq_none] at h
  rw [readCount?, h]
  rfl

theorem readCount?_eq {α : Type} {k s : Text} {number : Text → Option (α × Text)} {p : α × Text}
    (hs : ∀ c ∈ s.head?, ¬ isBlank c) (h : number s = some p) :
    readCount? k number (k ++ ' ' :: s) = some p.1 := by
  have hskip : skipSpaces (' ' :: s) = s := by
    have hspace : isSpace ' ' = true := rfl
    rw [skipSpaces, List.dropWhile_cons_of_pos hspace]
    cases s with
    | nil => rfl
    | cons c s =>
      have hc : ¬ isSpace c := by
        intro hc
        simp only [isSpace, Bool.or_eq_true, beq_iff_eq] at hc
        rcases hc with rfl | rfl <;> exact hs _ rfl (by decide)
      exact List.dropWhile_cons_of_neg hc
  have hspace : (' ' :: s).head?.any isSpace = true := rfl
  rw [readCount?, after?_append]
  simp only [Option.bind_eq_bind, Option.bind_some, hspace, if_true, hskip, h, Option.map_some]

/-! ### How a line is read -/

/-- What stands on a line, and the lines after it. -/
inductive Reads (l : Line) (ls : List Line) : BodyEntry → List Line → Prop
  | frame {k : Text} {f : FrameSize} : k ∈ [(".locals" : Text), ".registers"] →
      startsWith k l.trimmed = true → Reads l ls (.frame f) ls
  | line {n : UInt32} : startsWith ".line" l.trimmed = true → Reads l ls (.item (.line n)) ls
  | label {b : Label} {r : Text} : startsWith ":" l.trimmed = true →
      Label.read? l.trimmed = some (b, r) → Reads l ls (.item (.label b)) ls
  | opened : startsWith ".param" l.trimmed = true → Directive.isClosed ls = .ok false →
      Reads l ls (directive ⟨[l.trimmed]⟩) ls
  | owner {d : Directive} {rest : List Line} : startsWith ".param" l.trimmed = true →
      Directive.isClosed ls = .ok true → Directive.readBlock ".end param" l ls = .ok (d, rest) →
      Reads l ls (directive d) rest
  | block {b : Text × Text} {d : Directive} {rest : List Line} : b ∈ blocks →
      startsWith b.1 l.trimmed = true → Directive.readBlock b.2 l ls = .ok (d, rest) →
      Reads l ls (directive d) rest
  | single {s : Text} : s ∈ singles → startsWith s l.trimmed = true →
      Reads l ls (directive ⟨[l.trimmed]⟩) ls
  | instruction {i : Instruction} : startsWith ":" l.trimmed = false →
      startsWith "." l.trimmed = false → Instruction.read l.trimmed = .ok i →
      Reads l ls (.item (.instruction i)) ls

theorem reads_of_read {l : Line} {ls rest : List Line} {e : BodyEntry} (h : read l ls = .ok (e, rest)) :
    Reads l ls e rest := by
  rw [read] at h
  split at h
  · next n hn =>
    cases h
    exact .frame (by simp) (startsWith_of_readCount? hn)
  split at h
  · next n hn =>
    cases h
    exact .frame (k := ".registers") (by simp) (startsWith_of_readCount? hn)
  split at h
  · next n hn =>
    cases h
    exact .line (startsWith_of_readCount? hn)
  split at h
  · next hlabel =>
    split at h
    · next p hp =>
      cases h
      exact .label hlabel hp
    · cases h
  next hlabel =>
  split at h
  · next hparam =>
    split at h
    · cases h
    · next hc =>
      obtain ⟨p, hp, he⟩ := exists_of_map h
      cases he
      exact .owner hparam hc hp
    · next hc =>
      cases h
      exact .opened hparam hc
  split at h
  · next b hb =>
    obtain ⟨p, hp, he⟩ := exists_of_map h
    cases he
    have hstart : startsWith b.1 l.trimmed = true := by simpa using List.find?_some hb
    exact .block (List.mem_of_find?_eq_some hb) hstart hp
  split at h
  · next hsingle =>
    cases h
    obtain ⟨s, hs, hstart⟩ := List.any_eq_true.1 hsingle
    exact .single hs hstart
  split at h
  · cases h
  · next hdot =>
    split at h
    · next i hi =>
      cases h
      exact .instruction (by simpa using hlabel) (by simpa using hdot) hi
    · cases h

theorem Reads.suffix {l : Line} {ls rest : List Line} {e : BodyEntry} (h : Reads l ls e rest) :
    rest <:+ ls := by
  cases h with
  | owner _ _ hd => exact Directive.suffix_of_readBlock hd
  | block _ _ hd => exact Directive.suffix_of_readBlock hd
  | _ => exact List.suffix_rfl

/-! ### How each kind of line is read -/

variable {l : Line} {ls : List Line}

theorem read_locals {n : UInt16} (h : readCount? ".locals" Numeral.readUInt16? l.trimmed = some n) :
    read l ls = .ok (frame (.locals n), ls) := by
  rw [read, h]

theorem read_registers {n : UInt16}
    (h : readCount? ".registers" Numeral.readUInt16? l.trimmed = some n) :
    read l ls = .ok (frame (.registers n), ls) := by
  have hlocals := startsWith_other (v := ".registers") (w := ".locals") (by decide)
    (startsWith_of_readCount? h) (by decide) (by decide)
  rw [read, readCount?_eq_none _ hlocals, h]

theorem read_line {n : UInt32} (h : readCount? ".line" Numeral.readUInt32? l.trimmed = some n) :
    read l ls = .ok (item (.line n), ls) := by
  have other := fun w => startsWith_other (v := ".line") (w := w) (by decide)
    (startsWith_of_readCount? h)
  rw [read, readCount?_eq_none _ (other ".locals" (by decide) (by decide)),
    readCount?_eq_none _ (other ".registers" (by decide) (by decide)), h]

/-- No count is read from a line that starts with another word. -/
theorem counts_eq_none {k : Text} (hk : k ∈ keywords) (h : startsWith k l.trimmed = true)
    (hne : k ∉ ([".locals", ".registers", ".line"] : List Text)) :
    readCount? ".locals" Numeral.readUInt16? l.trimmed = none ∧
      readCount? ".registers" Numeral.readUInt16? l.trimmed = none ∧
      readCount? ".line" Numeral.readUInt32? l.trimmed = none := by
  simp only [List.mem_cons, List.not_mem_nil, or_false, not_or] at hne
  exact ⟨readCount?_eq_none _ (startsWith_other hk h (by decide) hne.1),
    readCount?_eq_none _ (startsWith_other hk h (by decide) hne.2.1),
    readCount?_eq_none _ (startsWith_other hk h (by decide) hne.2.2)⟩

theorem read_label {b : Label} {r : Text} (h : startsWith ":" l.trimmed = true)
    (hl : Label.read? l.trimmed = some (b, r)) : read l ls = .ok (item (.label b), ls) := by
  obtain ⟨h1, h2, h3⟩ := counts_eq_none (k := ":") (by decide) h (by decide)
  rw [read, h1, h2, h3, if_pos h, hl]

theorem read_parameter (h : startsWith ".param" l.trimmed = true) :
    read l ls = match Directive.isClosed ls with
      | .error e => .error e
      | .ok true =>
        (Directive.readBlock ".end param" l ls).map fun p => (directive p.1, p.2)
      | .ok false => .ok (directive ⟨[l.trimmed]⟩, ls) := by
  obtain ⟨h1, h2, h3⟩ := counts_eq_none (k := ".param") (by decide) h (by decide)
  have hlabel := startsWith_other (w := ":") (by decide) h (by decide) (by decide)
  rewrite [read, h1, h2, h3, if_neg (Bool.eq_false_iff.1 hlabel), if_pos h]
  rfl

theorem read_block {b : Text × Text} (hb : b ∈ blocks) (h : startsWith b.1 l.trimmed = true) :
    read l ls = (Directive.readBlock b.2 l ls).map fun p => (directive p.1, p.2) := by
  obtain ⟨hk, -, hne⟩ := mem_keywords_of_mem_blocks b hb
  have other : ∀ w ∈ keywords, b.1 ≠ w → startsWith w l.trimmed = false :=
    fun w hw => startsWith_other hk h hw
  obtain ⟨h1, h2, h3⟩ := counts_eq_none hk h (by simp_all)
  have hlabel := other ":" (by decide) (by simp_all)
  have hparam := other ".param" (by decide) (by simp_all)
  have hfind : blocks.find? (fun b => startsWith b.1 l.trimmed) = some b := by
    cases hf : blocks.find? fun b => startsWith b.1 l.trimmed with
    | none => exact absurd h (List.find?_eq_none.1 hf b hb)
    | some b' =>
      have hb' := List.mem_of_find?_eq_some hf
      have hs' : startsWith b'.1 l.trimmed = true := by simpa using List.find?_some hf
      by_contra hbb
      have : b.1 ≠ b'.1 := fun he => hbb (congrArg some (blocks_injective b hb b' hb' he).symm)
      rw [other b'.1 (mem_keywords_of_mem_blocks b' hb').1 this] at hs'
      cases hs'
  rw [read, h1, h2, h3, if_neg (Bool.eq_false_iff.1 hlabel), if_neg (Bool.eq_false_iff.1 hparam), hfind]

theorem read_single {s : Text} (hs : s ∈ singles) (h : startsWith s l.trimmed = true) :
    read l ls = .ok (directive ⟨[l.trimmed]⟩, ls) := by
  obtain ⟨hk, -, hne, hblocks⟩ := mem_keywords_of_mem_singles s hs
  have other : ∀ w ∈ keywords, s ≠ w → startsWith w l.trimmed = false :=
    fun w hw => startsWith_other hk h hw
  obtain ⟨h1, h2, h3⟩ := counts_eq_none hk h (by simp_all)
  have hlabel := other ":" (by decide) (by simp_all)
  have hparam := other ".param" (by decide) (by simp_all)
  have hfind : blocks.find? (fun b => startsWith b.1 l.trimmed) = none := by
    rw [List.find?_eq_none]
    intro b hb
    simp [other b.1 (mem_keywords_of_mem_blocks b hb).1 (hblocks b hb)]
  have hany : singles.any (fun d => startsWith d l.trimmed) = true :=
    List.any_eq_true.2 ⟨s, hs, h⟩
  rw [read, h1, h2, h3, if_neg (Bool.eq_false_iff.1 hlabel), if_neg (Bool.eq_false_iff.1 hparam), hfind, if_pos hany]

/-- A line that starts with neither a dot nor a colon holds an instruction. -/
theorem read_instruction {i : Instruction} (hl : ∀ c ∈ l.trimmed.head?, c ≠ '.' ∧ c ≠ ':')
    (h : Instruction.read l.trimmed = .ok i) : read l ls = .ok (item (.instruction i), ls) := by
  have dot : ∀ w : Text, w.head? = some '.' → startsWith w l.trimmed = false := by
    intro w hw
    apply startsWith_eq_false_of_head
    · intro c hc he
      rw [hw] at he
      exact (hl c hc).1 (Option.some.inj he)
    · rintro rfl
      cases hw
  have hlabel : startsWith ":" l.trimmed = false := by
    apply startsWith_eq_false_of_head
    · intro c hc he
      exact (hl c hc).2 (Option.some.inj he)
    · decide
  have hfind : blocks.find? (fun b => startsWith b.1 l.trimmed) = none := by
    rw [List.find?_eq_none]
    intro b hb
    have hhead : ∀ b ∈ blocks, b.1.head? = some '.' := by decide
    simp [dot b.1 (hhead b hb)]
  have hany : singles.any (fun d => startsWith d l.trimmed) = false := by
    rw [List.any_eq_false]
    intro s hs
    have hhead : ∀ s ∈ singles, s.head? = some '.' := by decide
    simp [dot s (hhead s hs)]
  rw [read, readCount?_eq_none _ (dot ".locals" rfl), readCount?_eq_none _ (dot ".registers" rfl),
    readCount?_eq_none _ (dot ".line" rfl), if_neg (Bool.eq_false_iff.1 hlabel),
    if_neg (Bool.eq_false_iff.1 (dot ".param" rfl)), hfind, if_neg (Bool.eq_false_iff.1 hany),
    if_neg (Bool.eq_false_iff.1 (dot "." rfl)), h]

/-- A line that starts neither a parameter nor a block is read alone. -/
theorem read_alone {l : Line} {ls rest : List Line} {e : BodyEntry}
    (hparam : startsWith ".param" l.trimmed = false) (hblock : ∀ b ∈ blocks, startsWith b.1 l.trimmed = false)
    (h : read l ls = .ok (e, rest)) :
    rest = ls ∧ ∀ l' ls', l'.trimmed = l.trimmed → read l' ls' = .ok (e, ls') := by
  suffices hall : ∀ l' ls', l'.trimmed = l.trimmed → read l' ls' = .ok (e, ls') by
    refine ⟨?_, hall⟩
    rw [hall l ls rfl] at h
    cases h
    rfl
  intro l' ls' htrim
  rw [read] at h
  rw [read, htrim]
  split at h
  · cases h
    rfl
  split at h
  · cases h
    rfl
  split at h
  · cases h
    rfl
  by_cases hlabel : startsWith ":" l.trimmed = true
  · rw [if_pos hlabel] at h ⊢
    split at h
    · cases h
      rfl
    · cases h
  rw [if_neg hlabel, if_neg (Bool.eq_false_iff.1 hparam)] at h ⊢
  split at h
  · next b hb =>
    have hstart : startsWith b.1 l.trimmed = true := by simpa using List.find?_some hb
    rw [hblock b (List.mem_of_find?_eq_some hb)] at hstart
    cases hstart
  by_cases hsingle : singles.any (fun d => startsWith d l.trimmed) = true
  · rw [if_pos hsingle] at h ⊢
    cases h
    rfl
  rw [if_neg hsingle] at h ⊢
  by_cases hdot : startsWith "." l.trimmed = true
  · rw [if_pos hdot] at h
    cases h
  rw [if_neg hdot] at h ⊢
  split at h
  · cases h
    rfl
  · cases h

end BodyEntry

end DalvikPatch
