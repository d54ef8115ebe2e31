import DalvikPatch.Proofs.Operands
import DalvikPatch.Editing.Return
import DalvikPatch.Renaming.Pass

/-! Instructions that are read. They are valid: each operand is, the opcode takes them, and no comment
starts in what is written for them. A valid instruction is read back from its line, and loading
another text keeps it valid. -/

namespace DalvikPatch

open Text

/-! ### Mnemonics -/

namespace Instruction

theorem isPlain_of_isMnemonicChar {c : Char} (h : isMnemonicChar c) : IsPlain c := by
  refine ⟨?_, ?_, ?_⟩ <;> rintro rfl <;> exact absurd h (by decide)

theorem not_isBlank_of_isMnemonicChar {c : Char} (h : isMnemonicChar c) : ¬ isBlank c := by
  intro hb
  have : isMnemonicChar c = false :=
    of_isBlank (q := fun c => isMnemonicChar c = false) (by decide +kernel) hb
  rw [h] at this
  cases this

end Instruction

namespace Opcode

theorem name_facts : ∀ o ∈ table, o.name ≠ [] ∧ ∀ c ∈ o.name, Instruction.isMnemonicChar c := by
  decide +kernel

/-- No second reference is a string, and what loads a string loads it into a register. -/
theorem reference_facts : ∀ o ∈ table, o.secondReference? ≠ some .string ∧
    (o.reference? = some .string → o.format.operands = [.register, .reference]) := by
  decide +kernel

theorem isPlain_of_mem_name {o : Opcode} (h : o ∈ table) : ∀ c ∈ o.name, IsPlain c :=
  fun c hc => Instruction.isPlain_of_isMnemonicChar ((name_facts o h).2 c hc)

theorem isWord_name {o : Opcode} (h : o ∈ table) : IsWord o.name where
  ne_nil := (name_facts o h).1
  dark c hc := Instruction.not_isBlank_of_isMnemonicChar ((name_facts o h).2 c hc)

end Opcode

theorem Format.operands_head (f : Format) : f.operands.head? ≠ some .reference := by
  cases f <;> decide

namespace Instruction

/-! ### Operands of an instruction -/

/-- An operand that runs to the end of its line is the last one. -/
def OthersLast : List Operand → Prop
  | [] => True
  | op :: ops => (op.isOther → ops = []) ∧ OthersLast ops

/-- Operands behind the first. -/
def moreText (f : Format) (ops : List Operand) : Text := ops.flatMap fun op => further (op.text f)

theorem moreText_cons (f : Format) (op : Operand) (ops : List Operand) :
    moreText f (op :: ops) = further (op.text f ++ moreText f ops) := by
  rw [moreText, List.flatMap_cons, further_append, moreText]

theorem text_cons (o : Opcode) (op : Operand) (ops : List Operand) :
    text ⟨o, op :: ops⟩ = o.name ++ ' ' :: (op.text o.format ++ moreText o.format ops) := by
  rw [text, if_neg (by simp), List.map_cons, join_cons, List.flatMap_map, moreText, name]

/-- A simple first operand starts no comment, nor does the mnemonic in front of it. -/
theorem quiet_text_cons_iff {o : Opcode} (ho : o ∈ Opcode.table) {op : Operand} (hop : op.Valid)
    (hs : op.isSimple) (ops : List Operand) :
    Quiet .outside (text ⟨o, op :: ops⟩) ↔ Quiet .outside (moreText o.format ops) := by
  have hfirst : ∀ c ∈ op.text o.format, IsPlain c := fun _ hc => Operand.isPlain_of_mem_text hop hs _ hc
  rw [text_cons, quiet_plain_append (by simp) (Opcode.isPlain_of_mem_name ho), quiet_cons,
    show Literal.next ' ' .outside = .outside from rfl, quiet_plain_append (by simp) hfirst]
  exact and_iff_right (by simp)

theorem separated_trimRight_moreText (f : Format) (ops : List Operand) :
    Separated (trimRight (moreText f ops)) := by
  cases ops with
  | nil => exact separated_nil
  | cons op ops =>
    intro c hc
    obtain ⟨b, -, hb⟩ := exists_trimRight (moreText f (op :: ops))
    have hhead : (moreText f (op :: ops)).head? = some ',' := by rw [moreText_cons]; rfl
    rw [hb, List.head?_append, hc] at hhead
    cases hhead
    exact .inl rfl

/-- Whether an operand passes the check of an opcode, behind that many references. -/
def passes (o : Opcode) (earlier : Nat) : Operand → Bool
  | .literal n => o.format.fitsLiteral n
  | .reference r => (o.referenceAt earlier).any r.suits
  | .range r => !r.isMixed
  | _ => true

theorem checkOperands_cons_iff {o : Opcode} {k : Nat} {op : Operand} {ops : List Operand} :
    checkOperands o k (op :: ops) = .ok () ↔
      passes o k op ∧ checkOperands o (if op.kind = .reference then k + 1 else k) ops = .ok () := by
  cases op with
  | literal n => by_cases h : o.format.fitsLiteral n <;> simp [checkOperands, passes, Operand.kind, h]
  | reference r =>
    by_cases h : (o.referenceAt k).any r.suits <;> simp [checkOperands, passes, Operand.kind, h]
  | range r => by_cases h : r.isMixed <;> simp [checkOperands, passes, Operand.kind, h]
  | register | list | label => simp [checkOperands, passes, Operand.kind]

theorem checkOperands_cons {o : Opcode} {k : Nat} {op : Operand} {ops : List Operand}
    (h : checkOperands o k (op :: ops) = .ok ()) :
    (∀ r, op = .reference r → (o.referenceAt k).any r.suits) ∧
      checkOperands o (if op.kind = .reference then k + 1 else k) ops = .ok () := by
  obtain ⟨hop, hops⟩ := checkOperands_cons_iff.1 h
  exact ⟨by rintro r rfl; exact hop, hops⟩

/-- Operands behind the first are read back, even if the blank behind the last comma is gone. -/
theorem readOperands?_more {o : Opcode} {k : Nat} {ops : List Operand} (hv : ∀ op ∈ ops, op.Valid)
    (hc : checkOperands o k ops = .ok ()) (hl : OthersLast ops) :
    readOperands? o true k (ops.map Operand.kind) (trimRight (moreText o.format ops)) =
      some (ops, []) := by
  induction ops generalizing k with
  | nil => rfl
  | cons op ops ih =>
    obtain ⟨hr, hc'⟩ := checkOperands_cons hc
    have hop : op.Valid := hv op (List.mem_cons_self ..)
    have hends := Operand.endsDark_text hop o.format
    have hother : op.isOther → trimRight (moreText o.format ops) = [] := by
      intro ho
      rw [hl.1 ho]
      rfl
    have hcomma : Register.readComma? (trimRight (moreText o.format (op :: ops))) =
        some (op.text o.format ++ trimRight (moreText o.format ops)) := by
      have hun := Operand.unspaced_text_append hop o.format hother
      by_cases hne : op.text o.format = []
      · have ho : op.isOther := by
          by_contra ho
          exact Operand.text_ne_nil hop ho o.format hne
        rw [moreText_cons, hne, hl.1 ho]
        rfl
      · have hdark : EndsDark (", " ++ op.text o.format) := hends.append _ hne
        rw [moreText_cons, further, ← List.append_assoc, trimRight_append_of_endsDark hdark,
          List.append_assoc]
        exact Register.readComma?_further hun
    have hread := Operand.read?_text hop hr o.format
      (separated_trimRight_moreText o.format ops) hother
    have hrest := ih (fun op' h => hv op' (List.mem_cons_of_mem _ h)) hc' hl.2
    rw [List.map_cons, readOperands?]
    simp only [if_true, hcomma, hread, hrest, Option.bind_eq_bind, Option.bind_some]

/-! ### Valid instructions -/

structure Valid (i : Instruction) : Prop where
  named : Opcode.ofName? i.name = some i.opcode
  made : make i.opcode i.operands = .ok i
  operands : ∀ op ∈ i.operands, op.Valid
  others : OthersLast i.operands
  quiet : Quiet .outside i.text

theorem make_eq_ok_iff {o : Opcode} {ops : List Operand} {i : Instruction} : make o ops = .ok i ↔
    i = ⟨o, ops⟩ ∧ ops.map Operand.kind = o.format.operands ∧ checkOperands o 0 ops = .ok () := by
  rw [make]
  split
  · next hk => cases checkOperands o 0 ops <;> simp [Except.map, hk, eq_comm]
  · next hk => simp [hk]

theorem checkOperands_of_make {o : Opcode} {ops : List Operand} {i : Instruction}
    (h : make o ops = .ok i) :
    ops.map Operand.kind = o.format.operands ∧ checkOperands o 0 ops = .ok () :=
  (make_eq_ok_iff.1 h).2

theorem ofName_eq_ok_iff {name : Text} {ops : List Operand} {i : Instruction} : ofName name ops = .ok i ↔
    ∃ o, Opcode.ofName? name = some o ∧ make o ops = .ok i := by
  rw [ofName]
  cases Opcode.ofName? name <;> simp

namespace Valid

variable {i : Instruction}

theorem mem_table (h : i.Valid) : i.opcode ∈ Opcode.table := (Opcode.mem_table_of_ofName? h.named).1

theorem first_isSimple (h : i.Valid) {op : Operand} {ops : List Operand}
    (ho : i.operands = op :: ops) : op.isSimple := by
  have hk := (checkOperands_of_make h.made).1
  have hhead := i.opcode.format.operands_head
  rw [← hk, ho] at hhead
  cases op with
  | reference r => exact absurd rfl hhead
  | _ => rfl

theorem startsDark_text (h : i.Valid) : i.text ≠ [] ∧ StartsDark i.text ∧
    ∀ c ∈ i.text.head?, c ≠ '.' ∧ c ≠ ':' ∧ c ≠ '#' := by
  obtain ⟨hne, hchars⟩ := Opcode.name_facts i.opcode h.mem_table
  have happ : (i.name ++ if i.operands = [] then [] else
      ' ' :: join ", " (i.operands.map (·.text i.opcode.format))).head? = i.name.head? :=
    List.head?_append_of_ne_nil _ hne
  refine ⟨by simp [text, show i.name ≠ [] from hne], ?_, ?_⟩
  · intro c hc
    rw [text, happ] at hc
    exact (Opcode.isWord_name h.mem_table).startsDark c hc
  · intro c hc
    rw [text, happ] at hc
    have hchar := hchars c (List.mem_of_mem_head? hc)
    refine ⟨?_, ?_, ?_⟩ <;> rintro rfl <;> exact absurd hchar (by decide)

/-- What follows a mnemonic is read as its operands. -/
theorem readText_name_append {o : Opcode} (hmem : o ∈ Opcode.table)
    (hname : Opcode.ofName? o.name = some o) {rest : Text}
    (hstop : ∀ c ∈ rest.head?, ¬ isMnemonicChar c) {ops : List Operand}
    (hops : readOperands? o false 0 o.format.operands (trimLeft rest) = some (ops, [])) :
    readText (o.name ++ rest) = make o ops := by
  obtain ⟨hne, hmnemonic⟩ := Opcode.name_facts o hmem
  have hempty : o.name.isEmpty = false := by simpa using hne
  have htake : (o.name ++ rest).takeWhile isMnemonicChar = o.name ∧
      (o.name ++ rest).dropWhile isMnemonicChar = rest := by
    rw [List.takeWhile_append_of_pos hmnemonic, List.dropWhile_append_of_pos hmnemonic]
    cases rest with
    | nil => exact ⟨List.append_nil _, rfl⟩
    | cons c rest =>
      rw [List.takeWhile_cons_of_neg (hstop c rfl), List.dropWhile_cons_of_neg (hstop c rfl)]
      exact ⟨List.append_nil _, rfl⟩
  rw [readText]
  simp only [htake.1, htake.2, hempty, hname, hops, Bool.false_eq_true, if_false]
  rfl

/-- A valid instruction is read back from what is written for it, up to blanks at the end. -/
theorem readText_trim (h : i.Valid) : readText (trim i.text) = .ok i := by
  obtain ⟨hkinds, hcheck⟩ := checkOperands_of_make h.made
  have hdark : EndsDark i.name := (Opcode.isWord_name h.mem_table).endsDark
  rw [trim_eq_trimRight h.startsDark_text.2.1]
  obtain ⟨o, ops⟩ := i
  cases ops with
  | nil =>
    have hrest : trimRight (text ⟨o, []⟩) = o.name ++ [] := by
      rw [text, if_pos rfl, List.append_nil]
      exact (trimRight_eq_self hdark).trans (List.append_nil _).symm
    have hops : readOperands? o false 0 o.format.operands (trimLeft []) = some ([], []) := by
      rw [← hkinds]
      rfl
    rw [hrest, readText_name_append h.mem_table h.named (by simp) hops]
    exact h.made
  | cons op ops =>
    have hop : op.Valid := h.operands op (List.mem_cons_self ..)
    have hsimple := h.first_isSimple rfl
    have hother : ¬ op.isOther := by cases op <;> simp_all [Operand.isSimple, Operand.isOther]
    have hopne := Operand.text_ne_nil hop hother o.format
    obtain ⟨hr, hc⟩ := checkOperands_cons hcheck
    have hrest : trimRight (text ⟨o, op :: ops⟩) =
        o.name ++ ' ' :: (op.text o.format ++ trimRight (moreText o.format ops)) := by
      have hends : EndsDark (o.name ++ ' ' :: op.text o.format) := by
        rw [List.append_cons]
        exact (Operand.endsDark_text hop o.format).append _ hopne
      rw [text_cons]
      have := trimRight_append_of_endsDark hends (moreText o.format ops)
      simpa [name] using this
    have hops : readOperands? o false 0 o.format.operands
        (trimLeft (' ' :: (op.text o.format ++ trimRight (moreText o.format ops)))) =
          some (op :: ops, []) := by
      have hstart : StartsDark (op.text o.format ++ trimRight (moreText o.format ops)) :=
        (Operand.startsDark_text hop hsimple o.format).append _ hopne
      have hread := Operand.read?_text hop hr o.format
        (separated_trimRight_moreText o.format ops) (fun ho => absurd ho hother)
      have hmore := readOperands?_more
        (fun op' h' => h.operands op' (List.mem_cons_of_mem _ h')) hc h.others.2
      rw [trimLeft, List.dropWhile_cons_of_pos (by decide), ← trimLeft, trimLeft_eq_self hstart,
        ← hkinds, List.map_cons, readOperands?]
      simp only [Bool.false_eq_true, if_false, hread, hmore, Option.bind_eq_bind, Option.bind_some]
    have hstop : ∀ c ∈ (' ' :: (op.text o.format ++ trimRight (moreText o.format ops))).head?,
        ¬ isMnemonicChar c := by
      intro c hc'
      cases hc'
      decide
    rw [hrest, readText_name_append h.mem_table h.named hstop hops]
    exact h.made

theorem read_trim (h : i.Valid) : read (trim i.text) = .ok i := by
  have hquiet : cutComment (trim i.text) = trim i.text := by
    obtain ⟨b, -, hb⟩ := exists_trimRight i.text
    rw [trim_eq_trimRight h.startsDark_text.2.1]
    exact (hb ▸ h.quiet : Quiet .outside (trimRight i.text ++ b)).left
  rw [read, hquiet, trim_trim, h.readText_trim]

end Valid

/-! ### What is read is valid -/

theorem rest_of_isOther {k : OperandKind} {target : Option ReferenceKind} {s t : Text} {op : Operand}
    (h : Operand.read? k target s = some (op, t)) (ho : op.isOther) : t = [] := by
  unfold Operand.read? at h
  split at h <;> obtain ⟨⟨x, r⟩, hx, he⟩ := Option.map_eq_some_iff.1 h <;> cases he <;>
    try cases ho
  unfold Reference.read? at hx
  split at hx
  · obtain ⟨-, -, hsuits⟩ := Reference.exists_of_readString? hx
    cases x with
    | other => cases hsuits
    | _ => cases ho
  all_goals first
    | (cases hx; rfl)
    | (obtain ⟨y, -, he⟩ := Option.map_eq_some_iff.1 hx; cases he; cases ho)

theorem readOperands?_cons {o : Opcode} {started : Bool} {k : Nat} {kind : OperandKind}
    {kinds : List OperandKind} {s rest : Text} {ops : List Operand}
    (h : readOperands? o started k (kind :: kinds) s = some (ops, rest)) :
    ∃ t op r more, (if started then Register.readComma? s else some s) = some t ∧
      Operand.read? kind (o.referenceAt k) t = some (op, r) ∧
      readOperands? o true (if kind = .reference then k + 1 else k) kinds r = some (more, rest) ∧
      ops = op :: more := by
  rw [readOperands?] at h
  cases started <;>
    simp only [if_true, if_false, Bool.false_eq_true, Option.bind_eq_bind,
      Option.bind_eq_some_iff] at h <;>
    obtain ⟨t, ht, ⟨op, r⟩, hop, ⟨more, rest'⟩, hmore, he⟩ := h <;>
    cases he <;>
    exact ⟨t, op, r, more, ht, hop, hmore, rfl⟩

theorem valid_of_readOperands? {o : Opcode} {started : Bool} {k : Nat} {kinds : List OperandKind}
    {s rest : Text} {ops : List Operand} (h : readOperands? o started k kinds s = some (ops, rest))
    (hs : started = false → Unspaced s) (hn : '\n' ∉ s) :
    (∀ op ∈ ops, op.Valid) ∧ OthersLast ops := by
  induction kinds generalizing started k s ops with
  | nil =>
    cases h
    exact ⟨by simp, trivial⟩
  | cons kind kinds ih =>
    obtain ⟨t, op, r, more, ht, hop, hmore, rfl⟩ := readOperands?_cons h
    have htn : Unspaced t ∧ '\n' ∉ t := by
      cases started with
      | false =>
        cases ht
        exact ⟨hs rfl, hn⟩
      | true =>
        have hcomma : Register.readComma? s = some t := ht
        refine ⟨?_, fun hm => hn ((Register.passes_of_readComma? hcomma).mem hm)⟩
        obtain ⟨u, -, rfl⟩ := Option.map_eq_some_iff.1 hcomma
        exact unspaced_skipSpaces u
    have hr : '\n' ∉ r := fun hm => htn.2 ((Operand.suffix_of_read? hop).subset hm)
    obtain ⟨hmv, hml⟩ := ih hmore (by simp) hr
    refine ⟨?_, ?_, hml⟩
    · intro op' hop'
      rcases List.mem_cons.1 hop' with rfl | hop'
      · exact (Operand.valid_of_read? hop htn.1 htn.2).1
      · exact hmv op' hop'
    · intro ho
      rw [rest_of_isOther hop ho] at hmore
      cases kinds with
      | nil =>
        cases hmore
        rfl
      | cons kind' kinds =>
        obtain ⟨t', -, -, -, ht', -⟩ := readOperands?_cons hmore
        cases ht'

/-- An operand is written without a comment where it was read without one. Only in front of the
first reference may a string start, so only there the place has to be known. -/
theorem quiet_of_readOperand? {o : Opcode} (ho : o.secondReference? ≠ some .string) {k : Nat}
    {kind : OperandKind} {s r : Text} {op : Operand}
    (h : Operand.read? kind (o.referenceAt k) s = some (op, r)) (hv : op.Valid) {p : Literal}
    (hp : p ≠ .guarded) (hk : k = 0 → p = .outside) (hq : Quiet p s) :
    Quiet p (op.text o.format ++ r) ∧
      (p.after (op.text o.format) ≠ .guarded ∨ r = []) ∧
      (kind ≠ .reference → p.after (op.text o.format) = p) := by
  by_cases hs : op.isSimple
  · have hplain := fun c hc => Operand.isPlain_of_mem_text (c := c) hv hs o.format hc
    have hafter := (quiet_of_isPlain hp hplain).2
    have hr : Quiet p r := (Operand.passes_of_read? h hs).quiet hp hq
    exact ⟨(quiet_plain_append hp hplain r).2 hr, .inl (by rw [hafter]; exact hp), fun _ => hafter⟩
  · obtain ⟨x, rfl⟩ : ∃ x, op = .reference x := by
      cases op with
      | reference x => exact ⟨x, rfl⟩
      | _ => exact absurd rfl hs
    unfold Operand.read? at h
    split at h <;> obtain ⟨⟨y, t⟩, hy, he⟩ := Option.map_eq_some_iff.1 h <;> cases he
    have hstring : o.referenceAt k = some .string → p = .outside := by
      intro hkind
      rw [Opcode.referenceAt] at hkind
      split at hkind
      · next hk0 => exact hk hk0
      · exact absurd hkind ho
    obtain ⟨h1, h2⟩ := Reference.quiet_of_read? hy hp hstring hq
    exact ⟨h1, h2, fun hne => absurd rfl hne⟩

theorem quiet_of_readMore? {o : Opcode} (ho : o.secondReference? ≠ some .string) {k : Nat}
    {kinds : List OperandKind} {s rest : Text} {ops : List Operand}
    (h : readOperands? o true k kinds s = some (ops, rest)) (hv : ∀ op ∈ ops, op.Valid) {p : Literal}
    (hp : p ≠ .guarded ∨ s = []) (hk : k = 0 → p = .outside) (hq : Quiet p s) :
    Quiet p (moreText o.format ops) := by
  induction kinds generalizing k s ops p with
  | nil =>
    cases h
    exact quiet_nil p
  | cons kind kinds ih =>
    obtain ⟨t, op, r, more, ht, hop, hmore, rfl⟩ := readOperands?_cons h
    have hcomma : Register.readComma? s = some t := ht
    have hp' : p ≠ .guarded := by
      rcases hp with hp | rfl
      · exact hp
      · cases hcomma
    have hopv : op.Valid := hv op (List.mem_cons_self ..)
    obtain ⟨hq1, hplace, hsame⟩ := quiet_of_readOperand? ho hop hopv hp' hk
      ((Register.passes_of_readComma? hcomma).quiet hp' hq)
    have hk' : (if kind = .reference then k + 1 else k) = 0 → p.after (op.text o.format) = .outside := by
      intro h0
      split at h0
      · cases h0
      · next hne => rw [hsame hne, hk h0]
    have hrest := ih hmore (fun op' h' => hv op' (List.mem_cons_of_mem _ h')) hplace hk' hq1.right
    rw [moreText_cons, further, quiet_plain_append hp' (by decide)]
    exact quiet_append.2 ⟨hq1.left, hrest⟩

/-- What was read as the operands of an opcode starts no comment. -/
theorem quiet_text_of_readOperands? {o : Opcode} (hmem : o ∈ Opcode.table) {s rest : Text}
    {ops : List Operand} (h : readOperands? o false 0 o.format.operands s = some (ops, rest))
    (hkinds : ops.map Operand.kind = o.format.operands) (hv : ∀ op ∈ ops, op.Valid)
    (hq : Quiet .outside s) : Quiet .outside (text ⟨o, ops⟩) := by
  have hsecond := (Opcode.reference_facts o hmem).1
  have hplain := Opcode.isPlain_of_mem_name hmem
  cases ops with
  | nil =>
    rw [text, if_pos rfl, List.append_nil]
    exact (quiet_of_isPlain (by simp) hplain).1
  | cons op ops =>
    rw [← hkinds, List.map_cons] at h
    obtain ⟨t, op', r, more, ht, hop, hmore, he⟩ := readOperands?_cons h
    cases he
    cases ht
    obtain ⟨hq1, hplace, hsame⟩ := quiet_of_readOperand? hsecond hop
      (hv op (List.mem_cons_self ..)) (by simp) (fun _ => rfl) hq
    have hk : (if op.kind = .reference then 0 + 1 else 0) = 0 →
        Literal.after .outside (op.text o.format) = .outside := by
      intro h0
      split at h0
      · cases h0
      · next hne => exact hsame hne
    have hmoreq := quiet_of_readMore? hsecond hmore
      (fun op' h' => hv op' (List.mem_cons_of_mem _ h')) hplace hk hq1.right
    rw [text_cons, quiet_plain_append (by simp) hplain]
    exact quiet_cons.2 ⟨by simp, quiet_append.2 ⟨hq1.left, hmoreq⟩⟩

/-- An instruction is read as its mnemonic and operands that run to the end of the line. -/
theorem exists_of_readText {line : Text} {i : Instruction} (h : readText line = .ok i) :
    ∃ o ops rest, Opcode.ofName? (line.takeWhile isMnemonicChar) = some o ∧ i = ⟨o, ops⟩ ∧
      readOperands? o false 0 o.format.operands (trimLeft (line.dropWhile isMnemonicChar)) =
        some (ops, rest) ∧ make o ops = .ok i := by
  simp only [readText] at h
  split at h
  · cases h
  split at h
  · cases h
  next o ho =>
  split at h
  · cases h
  next ops rest hops =>
  split at h
  · exact ⟨o, ops, rest, ho, eq_of_make h, hops, h⟩
  · cases h

theorem valid_of_readText {line : Text} {i : Instruction} (h : readText line = .ok i)
    (hn : '\n' ∉ line) (hq : Quiet .outside line) : i.Valid := by
  obtain ⟨o, ops, rest, ho, rfl, hops, hmake⟩ := exists_of_readText h
  obtain ⟨hmem, hname⟩ := Opcode.mem_table_of_ofName? ho
  have hplain := Opcode.isPlain_of_mem_name hmem
  obtain ⟨b, hb, hrest⟩ := exists_trimLeft (line.dropWhile isMnemonicChar)
  have hline : line = o.name ++ (b ++ trimLeft (line.dropWhile isMnemonicChar)) := by
    rw [← hrest, hname, List.takeWhile_append_dropWhile]
  have hs : Quiet .outside (trimLeft (line.dropWhile isMnemonicChar)) := by
    rw [hline, quiet_plain_append (by simp) hplain, quiet_plain_append (by simp) hb.isPlain] at hq
    exact hq
  have hsn : '\n' ∉ trimLeft (line.dropWhile isMnemonicChar) := by
    intro hm
    apply hn
    rw [hline]
    simp [hm]
  obtain ⟨hv, hl⟩ := valid_of_readOperands? hops (fun _ => (startsDark_trimLeft _).unspaced) hsn
  have hnamed : Opcode.ofName? o.name = some o := by rwa [hname]
  exact ⟨hnamed, hmake, hv, hl,
    quiet_text_of_readOperands? hmem hops (checkOperands_of_make hmake).1 hv hs⟩

/-- An instruction that is read from a line is valid. -/
theorem valid_of_read {line : Text} {i : Instruction} (h : read line = .ok i) (hn : '\n' ∉ line) :
    i.Valid := by
  obtain ⟨a, b, ha, hb, hs⟩ := exists_trim (cutComment line)
  apply valid_of_readText h
  · intro hm
    exact hn (mem_of_mem_cutComment (mem_of_mem_trim hm))
  · have hq := quiet_cutComment line
    rw [hs, List.append_assoc, quiet_plain_append (by simp) ha.isPlain] at hq
    exact hq.left

/-- The instructions that are read from a text are valid. -/
theorem valid_of_readAll {s : Text} {block : List Instruction} (h : readAll s = .ok block) :
    ∀ i ∈ block, i.Valid := by
  have hlines : ∀ l ∈ (lines s).filter fun l => !(trim (cutComment l)).isEmpty, '\n' ∉ l :=
    fun l hl => not_mem_of_mem_lines (List.mem_filter.1 hl).1
  rw [readAll] at h
  generalize (lines s).filter (fun l => !(trim (cutComment l)).isEmpty) = ls at h hlines
  induction ls generalizing block with
  | nil =>
    cases h
    simp
  | cons l ls ih =>
    rw [List.mapM_cons] at h
    obtain ⟨i, hl, h⟩ := exists_of_bind h
    obtain ⟨is, hls, h⟩ := exists_of_bind h
    cases h
    intro j hj
    rcases List.mem_cons.1 hj with rfl | hj
    · exact valid_of_read hl (hlines l (List.mem_cons_self ..))
    · exact ih hls (fun l' hl' => hlines l' (List.mem_cons_of_mem _ hl')) j hj

/-! ### What is made is valid -/

/-- An instruction with simple operands is valid as soon as it can be made. -/
theorem valid_of_ofName {name : Text} {ops : List Operand} {i : Instruction}
    (h : ofName name ops = .ok i) (hv : ∀ op ∈ ops, op.Valid ∧ op.isSimple) : i.Valid := by
  obtain ⟨o, ho, hmake⟩ := ofName_eq_ok_iff.1 h
  obtain ⟨hmem, hname⟩ := Opcode.mem_table_of_ofName? ho
  obtain rfl := eq_of_make hmake
  have hplain := Opcode.isPlain_of_mem_name hmem
  have hop : ∀ op ∈ ops, ∀ c ∈ op.text o.format, IsPlain c :=
    fun op hop c hc => Operand.isPlain_of_mem_text (hv op hop).1 (hv op hop).2 o.format hc
  have hlast : OthersLast ops := by
    clear h hmake hop
    induction ops with
    | nil => trivial
    | cons op ops ih =>
      refine ⟨fun ho => ?_, ih fun op' h' => hv op' (List.mem_cons_of_mem _ h')⟩
      have := (hv op (List.mem_cons_self ..)).2
      cases op <;> simp_all [Operand.isSimple, Operand.isOther]
  refine ⟨by rw [Instruction.name, hname]; exact ho, hmake, fun op h' => (hv op h').1, hlast, ?_⟩
  cases ops with
  | nil =>
    rw [text, if_pos rfl, List.append_nil]
    exact (quiet_of_isPlain (by simp) hplain).1
  | cons op ops =>
    have hmore : ∀ c ∈ moreText o.format ops, IsPlain c := by
      intro c hc
      obtain ⟨op', hop', hc⟩ := List.mem_flatMap.1 hc
      rcases List.mem_append.1 hc with hc | hc
      · have : ∀ c ∈ (", " : Text), IsPlain c := by decide
        exact this c hc
      · exact hop op' (List.mem_cons_of_mem _ hop') c hc
    obtain ⟨hvalid, hsimple⟩ := hv op (List.mem_cons_self ..)
    exact (quiet_text_cons_iff hmem hvalid hsimple ops).2 (quiet_of_isPlain (by simp) hmore).1

theorem valid_of_stub {t : TypeDescriptor} {value : Bool} {block : List Instruction}
    (h : stub t value = .ok block) : ∀ i ∈ block, i.Valid := by
  have hlocal : firstLocal.Valid ∧ firstLocal.isSimple := ⟨trivial, rfl⟩
  simp only [stub] at h
  split at h
  · obtain ⟨i, hi, h⟩ := exists_of_bind h
    cases h
    intro j hj
    rw [List.mem_singleton.1 hj]
    exact valid_of_ofName hi (by simp)
  · obtain ⟨i, hi, h⟩ := exists_of_bind h
    obtain ⟨j, hj, h⟩ := exists_of_bind h
    cases h
    intro k hk
    rcases List.mem_cons.1 hk with rfl | hk
    · refine valid_of_ofName hi ?_
      intro op hop
      rcases List.mem_cons.1 hop with rfl | hop
      · exact hlocal
      · rw [List.mem_singleton.1 hop]
        exact ⟨trivial, rfl⟩
    · rw [List.mem_singleton.1 hk]
      refine valid_of_ofName hj ?_
      intro op hop
      rw [List.mem_singleton.1 hop]
      exact hlocal

/-! ### Other texts -/

theorem exists_of_replaceFirstOperand? {f : Operand → Option Operand} {ops ops' : List Operand}
    (h : replaceFirstOperand? f ops = some ops') :
    ∃ before op op' after, ops = before ++ op :: after ∧ f op = some op' ∧
      ops' = before ++ op' :: after := by
  induction ops generalizing ops' with
  | nil => cases h
  | cons op ops ih =>
    rw [replaceFirstOperand?] at h
    split at h
    · next op' hop =>
      cases h
      exact ⟨[], op, op', ops, rfl, hop, rfl⟩
    · obtain ⟨q, hq, rfl⟩ := Option.map_eq_some_iff.1 h
      obtain ⟨before, x, x', after, rfl, hx, rfl⟩ := ih hq
      exact ⟨op :: before, x, x', after, rfl, hx, rfl⟩

theorem suits_of_checkOperands {o : Opcode} {k : Nat} {ops : List Operand}
    (h : checkOperands o k ops = .ok ()) {r : Reference} (hr : .reference r ∈ ops) :
    ∃ k', (o.referenceAt k').any r.suits := by
  induction ops generalizing k with
  | nil => cases hr
  | cons op ops ih =>
    obtain ⟨h1, h2⟩ := checkOperands_cons h
    rcases List.mem_cons.1 hr with rfl | hr
    · exact ⟨k, h1 r rfl⟩
    · exact ih h2 hr

/-- An instruction that was made of an opcode of the table. -/
structure Made (i : Instruction) : Prop where
  listed : i.opcode ∈ Opcode.table
  fits : make i.opcode i.operands = .ok i

theorem Valid.isMade {i : Instruction} (h : i.Valid) : i.Made := ⟨h.mem_table, h.made⟩

/-- An instruction that refers to a string loads it into the register in front of it. -/
theorem Made.loads {o : Opcode} {before after : List Operand} {r : Reference}
    (h : (⟨o, before ++ .reference r :: after⟩ : Instruction).Made)
    (hr : ∀ k, r.suits k = true → k = .string) :
    o.reference? = some .string ∧ ∃ v, before = [.register v] ∧ after = [] := by
  obtain ⟨hkinds, hcheck⟩ := checkOperands_of_make h.fits
  obtain ⟨hsecond, hformat⟩ := Opcode.reference_facts o h.listed
  have hstring : o.reference? = some .string := by
    obtain ⟨k, hk⟩ := suits_of_checkOperands hcheck (r := r) (by simp)
    obtain ⟨kind, hkind, hs⟩ := (Option.any_eq_true _ _).1 hk
    obtain rfl := hr kind hs
    rw [Opcode.referenceAt] at hkind
    split at hkind
    · exact hkind
    · exact absurd hkind hsecond
  refine ⟨hstring, ?_⟩
  rw [hformat hstring] at hkinds
  cases before with
  | nil => simp [Operand.kind] at hkinds
  | cons x before =>
    cases before with
    | nil =>
      obtain ⟨hx, rfl⟩ : x.kind = .register ∧ after = [] := by
        simpa [Operand.kind] using hkinds
      cases x with
      | register v => exact ⟨v, rfl, rfl⟩
      | _ => cases hx
    | cons y before => simp at hkinds

/-- An instruction that loads a string is valid. -/
theorem valid_load {o : Opcode} (hmem : o ∈ Opcode.table) (hnamed : Opcode.ofName? o.name = some o)
    (hstring : o.reference? = some .string) (v : Register) {r : Reference} (hr : r.Valid)
    (hsuits : r.suits .string = true) :
    (⟨o, [.register v, .reference r]⟩ : Instruction).Valid := by
  have hfmt := (Opcode.reference_facts o hmem).2 hstring
  have hmade : make o [.register v, .reference r] = .ok ⟨o, [.register v, .reference r]⟩ := by
    simp [make, hfmt, Operand.kind, checkOperands, Opcode.referenceAt, hstring, hsuits, Except.map]
  have hlast : OthersLast [.register v, .reference r] :=
    ⟨(by intro h; cases h), fun _ => rfl, trivial⟩
  refine ⟨hnamed, hmade, ?_, hlast, ?_⟩
  · intro x hx
    rcases List.mem_cons.1 hx with rfl | hx
    · trivial
    · rw [List.mem_singleton.1 hx]
      exact hr
  · have hmore : moreText o.format [.reference r] = ", " ++ r.text := List.append_nil _
    have hregister : (Operand.register v).Valid := trivial
    rw [quiet_text_cons_iff hmem hregister rfl, hmore, quiet_plain_append (by simp) (by decide)]
    exact (Reference.quiet_text hsuits).1

/-- An instruction with another text is valid. -/
theorem Valid.withString? {i j : Instruction} (h : i.Valid) {s : Text}
    (hj : i.withString? s = some j) : j.Valid := by
  obtain ⟨o, ops⟩ := i
  obtain ⟨ops', hops', rfl⟩ := Option.map_eq_some_iff.1 hj
  obtain ⟨before, op, op', after, hbefore, hop, rfl⟩ := exists_of_replaceFirstOperand? hops'
  obtain rfl : ops = before ++ op :: after := hbefore
  obtain ⟨r, rfl, rfl, hsuits⟩ : ∃ r, op = .reference r ∧ op' = .reference (.string s) ∧
      ∀ k, r.suits k = true → k = .string := by
    unfold Operand.withString? at hop
    split at hop
    · cases hop
      exact ⟨_, rfl, rfl, fun k hk => by cases k <;> first | rfl | cases hk⟩
    · cases hop
      exact ⟨_, rfl, rfl, fun k hk => by cases k <;> first | rfl | cases hk⟩
    · cases hop
  obtain ⟨hstring, v, rfl, rfl⟩ := h.isMade.loads hsuits
  exact valid_load h.mem_table h.named hstring v (r := .string s) trivial rfl

end Instruction

end DalvikPatch
