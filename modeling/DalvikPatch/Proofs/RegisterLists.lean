import DalvikPatch.Proofs.Listings

/-! Registers in braces, a list or the two ends of a range. They are the first operand of an instruction, and
nothing but references stands behind them. Of a range only the kind of its ends is looked at, and of a list
nothing: not how many registers there are, nor the order of the ends. -/

namespace DalvikPatch

open Text

/-- The registers in braces that a format takes. -/
def Format.Takes : Format → Operand → Prop
  | f35c, .list _ | f45cc, .list _ => True
  | f3rc, .range r | f4rcc, .range r => r.first.isParameter = r.last.isParameter
  | _, _ => False

/-- Registers in braces. -/
def Operand.isBraced : Operand → Bool
  | list _ | range _ => true
  | _ => false

namespace Operand

variable {x y : Operand}

theorem valid_of_isBraced (h : x.isBraced) : x.Valid ∧ x.isSimple := by
  cases x with
  | list | range => exact ⟨trivial, rfl⟩
  | register | literal | label | reference => cases h

theorem kind_ne_reference (h : x.isBraced) : x.kind ≠ .reference := by
  cases x with
  | list | range => simp [kind]
  | register | literal | label | reference => cases h

theorem isBraced_of_kind (h : x.isBraced) (hk : y.kind = x.kind) : y.isBraced := by
  cases x with
  | list | range => cases y <;> first | rfl | cases hk
  | register | literal | label | reference => cases h

theorem isBraced_of_takes {f : Format} (h : f.Takes x) : x.isBraced := by
  unfold Format.Takes at h
  split at h <;> first | rfl | cases h

end Operand

namespace Format

variable {f : Format} {x : Operand}

/-- What a format takes is what it starts with, save mixed ranges. -/
theorem takes_iff (h : x.isBraced) :
    f.Takes x ↔ f.operands.head? = some x.kind ∧ ∀ r, x = .range r → r.isMixed = false := by
  cases x with
  | list rs => cases f <;> simp [Takes, operands, Operand.kind]
  | range r => cases f <;> simp [Takes, operands, Operand.kind, RegisterRange.isMixed]
  | register | literal | label | reference => cases h

/-- Registers in braces come first, and only references behind them. -/
theorem operands_of_braced (h : x.isBraced) (hmem : x.kind ∈ f.operands) :
    ∃ ks, f.operands = x.kind :: ks ∧ x.kind ∉ ks := by
  cases x with
  | list | range => cases f <;> revert hmem <;> simp [operands, Operand.kind]
  | register | literal | label | reference => cases h

end Format

namespace Instruction

variable {o : Opcode} {x y : Operand} {ops : List Operand}

/-- Registers in braces that an opcode takes are as good as any others. -/
theorem make_braced_iff (hx : x.isBraced) {i : Instruction} : make o (x :: ops) = .ok i ↔
    i = ⟨o, x :: ops⟩ ∧ o.format.Takes x ∧ ops.map Operand.kind = o.format.operands.tail ∧
      checkOperands o 0 ops = .ok () := by
  have hpasses : passes o 0 x ↔ ∀ r, x = .range r → r.isMixed = false := by
    cases x with
    | list rs => simp [passes]
    | range r => simp [passes]
    | register | literal | label | reference => cases hx
  rw [make_eq_ok_iff, checkOperands_cons_iff, if_neg (Operand.kind_ne_reference hx), Format.takes_iff hx,
    hpasses, List.map_cons]
  cases o.format.operands with
  | nil => simp
  | cons k ks =>
    rw [List.cons.injEq, List.head?_cons, List.tail_cons, Option.some.injEq, eq_comm (a := k)]
    tauto

/-- Registers in braces come first, and any others that the opcode takes can stand there. -/
theorem exists_of_make (hmake : make o ops = .ok ⟨o, ops⟩) (hx : x.isBraced) (hmem : x ∈ ops) :
    o.format.Takes x ∧ ∃ refs, ops = x :: refs ∧
      ∀ y, o.format.Takes y → make o (y :: refs) = .ok ⟨o, y :: refs⟩ := by
  obtain ⟨-, hkinds, -⟩ := make_eq_ok_iff.1 hmake
  obtain ⟨ks, hks, hnot⟩ := Format.operands_of_braced hx (hkinds ▸ List.mem_map_of_mem hmem)
  obtain ⟨z, refs, rfl, -, hrefs⟩ := List.map_eq_cons_iff.1 (hkinds.trans hks)
  obtain rfl : x = z := (List.mem_cons.1 hmem).resolve_right fun hx =>
    hnot (hrefs ▸ List.mem_map_of_mem hx)
  obtain ⟨-, htakes, htail, hcheck⟩ := (make_braced_iff hx).1 hmake
  exact ⟨htakes, refs, rfl, fun y hy =>
    (make_braced_iff (Operand.isBraced_of_takes hy)).2 ⟨rfl, hy, htail, hcheck⟩⟩

theorem Valid.with_braced {refs : List Operand} (h : (⟨o, x :: refs⟩ : Instruction).Valid) (hx : x.isBraced)
    (hy : o.format.Takes y) : (⟨o, y :: refs⟩ : Instruction).Valid := by
  obtain ⟨hvalid, hsimple⟩ := Operand.valid_of_isBraced hx
  obtain ⟨hvalid', hsimple'⟩ := Operand.valid_of_isBraced (Operand.isBraced_of_takes hy)
  obtain ⟨-, refs', hrefs, hmake⟩ := exists_of_make h.made hx (List.mem_cons_self ..)
  cases hrefs
  refine ⟨h.named, hmake y hy, List.forall_mem_cons.2 ⟨hvalid', (List.forall_mem_cons.1 h.operands).2⟩,
    ⟨fun hother => ?_, h.others.2⟩, ?_⟩
  · cases y <;> first | cases hother | cases hsimple'
  · exact (quiet_text_cons_iff h.mem_table hvalid' hsimple' refs).2
      ((quiet_text_cons_iff h.mem_table hvalid hsimple refs).1 h.quiet)

/-! ### What is taken -/

theorem exists_ofName_of_read {line : Text} {i : Instruction} (h : read line = .ok i) :
    ∃ name, ofName name i.operands = .ok i := by
  obtain ⟨o, ops, rest, ho, rfl, -, hmake⟩ := exists_of_readText h
  exact ⟨_, ofName_eq_ok_iff.2 ⟨o, ho, hmake⟩⟩

/-- A line of an opcode with registers in braces. -/
def bracedLine (o : Opcode) : Text :=
  o.name ++ " " ++ (if o.format = .f35c ∨ o.format = .f45cc then "{}, " else "{v0 .. v0}, ") ++
    match o.reference?, o.secondReference? with
    | some .type, _ => "[I"
    | some .method, none => "La;->a()V"
    | some .method, some _ => "La;->a()V, ()V"
    | _, _ => "a"

theorem bracedLine_facts : ∀ o ∈ Opcode.table, o.format ∈ [.f35c, .f45cc, .f3rc, .f4rcc] →
    '\n' ∉ bracedLine o ∧ (read (bracedLine o)).toOption.map Instruction.opcode = some o := by
  decide +kernel

/-- Every opcode with registers in braces is read in some line. -/
theorem exists_read_of_takes (ho : o ∈ Opcode.table) (hx : o.format.Takes x) : ∃ line y refs, '\n' ∉ line ∧
    read line = .ok ⟨o, y :: refs⟩ ∧ y.isBraced := by
  have hformat : o.format ∈ [.f35c, .f45cc, .f3rc, .f4rcc] := by
    unfold Format.Takes at hx
    split at hx <;> simp_all
  obtain ⟨hn, hopcode⟩ := bracedLine_facts o ho hformat
  obtain ⟨⟨o', ops⟩, hsome, rfl⟩ := Option.map_eq_some_iff.1 hopcode
  have hread : read (bracedLine o') = .ok ⟨o', ops⟩ := by
    cases h : read (bracedLine o') <;> rw [h] at hsome <;> cases hsome
    rfl
  have hkinds := (checkOperands_of_make (valid_of_read hread hn).made).1
  have hbraced := Operand.isBraced_of_takes hx
  obtain ⟨hhead, -⟩ := (Format.takes_iff hbraced).1 hx
  cases ops with
  | nil => rw [← hkinds] at hhead; cases hhead
  | cons y refs =>
    rw [← hkinds] at hhead
    exact ⟨_, y, refs, hn, hread, Operand.isBraced_of_kind hbraced (Option.some_inj.1 hhead)⟩

/-- The registers in braces that are taken by an opcode, with whatever references and from whatever line, are
all lists and all ranges that are not mixed. Any others may be put in their place. -/
theorem takes_registers (ho : o ∈ Opcode.table) (hx : x.isBraced) :
    ((∃ name ops, ofName name ops = .ok ⟨o, ops⟩ ∧ x ∈ ops) ↔ o.format.Takes x) ∧
    ((∃ line ops, read line = .ok ⟨o, ops⟩ ∧ x ∈ ops) ↔ o.format.Takes x) ∧
    (∀ name ops, ofName name ops = .ok ⟨o, ops⟩ → x ∈ ops → ∃ refs, ops = x :: refs ∧
      ∀ y, o.format.Takes y → ofName name (y :: refs) = .ok ⟨o, y :: refs⟩) ∧
    ∀ line ops, '\n' ∉ line → read line = .ok ⟨o, ops⟩ → x ∈ ops → ∃ refs, ops = x :: refs ∧
      ∀ y, o.format.Takes y → read (text ⟨o, y :: refs⟩) = .ok ⟨o, y :: refs⟩ := by
  have hnamed (name : Text) (ops : List Operand) (h : ofName name ops = .ok ⟨o, ops⟩) (hmem : x ∈ ops) :
      o.format.Takes x ∧ ∃ refs, ops = x :: refs ∧
        ∀ y, o.format.Takes y → ofName name (y :: refs) = .ok ⟨o, y :: refs⟩ := by
    obtain ⟨o', ho', hmake⟩ := ofName_eq_ok_iff.1 h
    obtain rfl : o = o' := congrArg Instruction.opcode (eq_of_make hmake)
    obtain ⟨htakes, refs, hrefs, hothers⟩ := exists_of_make hmake hx hmem
    exact ⟨htakes, refs, hrefs, fun y hy => ofName_eq_ok_iff.2 ⟨o, ho', hothers y hy⟩⟩
  have hline (line : Text) (ops : List Operand) (hn : '\n' ∉ line) (h : read line = .ok ⟨o, ops⟩)
      (hmem : x ∈ ops) : ∃ refs, ops = x :: refs ∧
        ∀ y, o.format.Takes y → read (text ⟨o, y :: refs⟩) = .ok ⟨o, y :: refs⟩ := by
    have hvalid := valid_of_read h hn
    obtain ⟨-, refs, rfl, -⟩ := exists_of_make hvalid.made hx hmem
    exact ⟨refs, rfl, fun y hy => (hvalid.with_braced hx hy).read_text⟩
  -- some line of the opcode is read, and `x` takes the place of the registers in it
  have hsome (htakes : o.format.Takes x) : ∃ refs, read (text ⟨o, x :: refs⟩) = .ok ⟨o, x :: refs⟩ := by
    obtain ⟨line, y, refs, hn, hread, hy⟩ := exists_read_of_takes ho htakes
    exact ⟨refs, ((valid_of_read hread hn).with_braced hy htakes).read_text⟩
  refine ⟨⟨fun ⟨name, ops, h, hmem⟩ => (hnamed name ops h hmem).1, fun htakes => ?_⟩,
    ⟨fun ⟨line, ops, h, hmem⟩ => ?_, fun htakes => ?_⟩,
    fun name ops h hmem => (hnamed name ops h hmem).2, hline⟩
  · obtain ⟨refs, hread⟩ := hsome htakes
    obtain ⟨name, hname⟩ := exists_ofName_of_read hread
    exact ⟨name, _, hname, List.mem_cons_self ..⟩
  · obtain ⟨name, hname⟩ := exists_ofName_of_read h
    exact (hnamed name ops hname hmem).1
  · obtain ⟨refs, hread⟩ := hsome htakes
    exact ⟨_, _, hread, List.mem_cons_self ..⟩

theorem takes_registers_six :
    let o := Opcode.refers 0x71 "invoke-static" .method .f35c Opcode.invokes
    let x := Operand.list [.v 0, .v 1, .v 2, .v 3, .v 4, .v 5]
    o ∈ Opcode.table ∧ x.isBraced ∧ ∃ line ops, read line = .ok ⟨o, ops⟩ ∧ x ∈ ops := by
  intro o x
  have ho : o ∈ Opcode.table := by decide +kernel
  exact ⟨ho, rfl, (takes_registers ho rfl).2.1.2 trivial⟩

/-- A list of six registers is read, although the format has room for five, and so are a range that ends
before its start and one of 256 registers. -/
theorem unencodable_registers :
    let list := fun rs => Instruction.mk (.refers 0x71 "invoke-static" .method .f35c Opcode.invokes)
      [.list rs, .reference (.method ⟨"La;", "a", "()V"⟩)]
    let range := fun a b => Instruction.mk (.refers 0x77 "invoke-static/range" .method .f3rc Opcode.invokes)
      [.range ⟨a, b⟩, .reference (.method ⟨"La;", "a", "()V"⟩)]
    read "invoke-static {v0, v1, v2, v3, v4, v5}, La;->a()V" =
        .ok (list [.v 0, .v 1, .v 2, .v 3, .v 4, .v 5]) ∧
      read "invoke-static/range {v5 .. v2}, La;->a()V" = .ok (range (.v 5) (.v 2)) ∧
      read "invoke-static/range {v0 .. v255}, La;->a()V" = .ok (range (.v 0) (.v 255)) := by
  decide +kernel

end Instruction

end DalvikPatch
