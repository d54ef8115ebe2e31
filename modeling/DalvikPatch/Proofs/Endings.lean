import DalvikPatch.Instruction.Reader
import DalvikPatch.Proofs.Escapes

/-! Where a literal ends. The reader of operands takes a literal as a run of characters and of guarded
pairs between two quotes; a line loses its comment by keeping track of the quotes that are open. Both
come to the same quote, so a comment is cut off behind a literal and never inside of it. -/

namespace DalvikPatch.Text

variable {p : Literal} {before b after s r v : Text}

/-! ### Runs between quotes -/

/-- The run of characters and of pairs behind a backslash up to the first quote that is in no pair, and
what follows it; there is none where a backslash has nothing behind it. -/
def run? : Text → Option (Text × Text)
  | [] => some ([], [])
  | ['\\'] => none
  | '\\' :: c :: s => (run? s).map fun p => ('\\' :: c :: p.1, p.2)
  | c :: s => if c = '"' then some ([], c :: s) else (run? s).map fun p => (c :: p.1, p.2)

/-- Reads a literal with its quotes, still escaped: a run between them, or nothing if there is no run. -/
def readQuoted? (s : Text) : Option (Text × Text) := do
  let s ← after? ['"'] s
  let p := (run? s).getD ([], s)
  some (p.1, ← after? ['"'] p.2)

/-- From inside of a literal a reader goes on to the quote behind the run. -/
theorem readLiteral?_eq (s : Text) :
    readLiteral? .inside s = (run? s).bind fun p => (after? ['"'] p.2).map fun r => (p.1, r) := by
  fun_induction run? s with
  | case1 => rfl
  | case2 => rfl
  | case3 c s ih =>
    have hpair := (enclosed_guarded c).read s
    rw [List.cons_append, List.singleton_append] at hpair
    rw [hpair, ih]
    cases run? s with
    | none => rfl
    | some p => simp [Function.comp_def]
  | case4 s => rfl
  | case5 c s hlast hpair hquote ih =>
    have hguard : c ≠ '\\' := by
      rintro rfl
      cases s with
      | nil => exact hlast rfl rfl
      | cons d s => exact hpair d s rfl rfl
    have hchar := (enclosed_char hquote hguard).read s
    rw [List.singleton_append] at hchar
    rw [hchar, ih]
    cases run? s with
    | none => rfl
    | some p => simp [Function.comp_def]

/-- A text that starts with a quote has no run of its own. -/
theorem after?_quote_of_run?_eq_none (h : run? s = none) : after? ['"'] s = none := by
  rw [Option.eq_none_iff_forall_not_mem]
  intro r hr
  rw [eq_append_of_after? hr] at h
  cases h

theorem readQuoted?_eq (s : Text) : readQuoted? s = (after? ['"'] s).bind (readLiteral? .inside) := by
  rw [readQuoted?]
  cases hs : after? ['"'] s with
  | none => rfl
  | some t =>
    rw [Option.bind_eq_bind, Option.bind_some, Option.bind_some, readLiteral?_eq]
    cases hrun : run? t with
    | none => simp [after?_quote_of_run?_eq_none hrun]
    | some p =>
      rw [Option.getD_some, Option.bind_some, Option.map_eq_bind]
      rfl

/-! ### Comments behind literals -/

/-- The quote that ends a literal ends it whatever follows. -/
theorem readLiteral?_append (h : readLiteral? p s = some (b, r)) (t : Text) :
    readLiteral? p (s ++ t) = some (b, r ++ t) := by
  fun_induction readLiteral? p s generalizing b with
  | case1 => cases h
  | case2 p c s hc =>
    cases h
    rw [List.cons_append, readLiteral?, if_pos hc]
  | case3 p c s hc ih =>
    obtain ⟨q, hq, he⟩ := Option.map_eq_some_iff.1 h
    cases he
    rw [List.cons_append, readLiteral?, if_neg hc, ih hq]
    rfl

/-- A line that starts with a literal keeps it and is cut behind it. -/
theorem cutComment_of_readQuoted? (h : readQuoted? s = some (b, r)) :
    cutComment s = quoted b ++ cutComment r := by
  rw [readQuoted?_eq] at h
  obtain ⟨t, ht, hread⟩ := Option.bind_eq_some_iff.1 h
  rw [eq_append_of_after? ht, cutComment, List.singleton_append, cutCommentFrom, if_neg (by simp)]
  have hopen : Literal.next '"' .outside = .inside := rfl
  rw [hopen, cutCommentFrom_of_readLiteral? (by simp) hread, quoted]
  simp [cutComment]

/-- Without a quote a reader stays outside. -/
theorem after_outside (h : '"' ∉ s) : Literal.after .outside s = .outside := by
  induction s with
  | nil => rfl
  | cons c s ih =>
    rw [List.mem_cons, not_or] at h
    rw [Literal.after_cons, Literal.next, if_neg (Ne.symm h.1), ih h.2]

/-- A literal that is read to the end of a text is read in front of any other. -/
theorem readQuoted?_quoted_append (h : readQuoted? (quoted b) = some (v, [])) (t : Text) :
    readQuoted? (quoted b ++ t) = some (b, t) := by
  have hopen : ∀ u, after? ['"'] ('"' :: u) = some u := fun u => after?_append ['"'] u
  rw [readQuoted?_eq, quoted, List.cons_append, hopen, Option.bind_some] at h
  obtain ⟨hend, -⟩ := exists_of_readLiteral? (by simp) h
  obtain rfl : b = v := List.append_cancel_right hend
  rw [readQuoted?_eq, quoted, List.cons_append, List.cons_append, hopen, Option.bind_some,
    readLiteral?_append h t, List.nil_append]

theorem cutComment_quoted (hbefore : '"' ∉ before ∧ '#' ∉ before) (hafter : '"' ∉ after ∧ '#' ∉ after)
    (hb : readQuoted? (quoted b) = some (v, [])) (comment : Text) :
    cutComment (before ++ quoted b ++ after ++ '#' :: comment) = before ++ quoted b ++ after := by
  have hrest : cutComment (after ++ '#' :: comment) = after := by
    rw [cutComment, cutCommentFrom_append (quiet_of_not_mem hafter.2), after_outside hafter.1,
      cutCommentFrom, if_pos ⟨rfl, rfl⟩, List.append_nil]
  calc cutComment (before ++ quoted b ++ after ++ '#' :: comment)
      = before ++ cutComment (quoted b ++ (after ++ '#' :: comment)) := by
        rw [List.append_assoc, List.append_assoc, cutComment, cutCommentFrom_append (quiet_of_not_mem hbefore.2),
          after_outside hbefore.1, cutComment]
    _ = before ++ (quoted b ++ cutComment (after ++ '#' :: comment)) := by
        rw [cutComment_of_readQuoted? (readQuoted?_quoted_append hb _)]
    _ = before ++ quoted b ++ after := by rw [hrest, List.append_assoc]

/-- A literal that is read as a run between quotes is the literal that an operand is read from, and it ends
where a line leaves it: behind any literal that the reader takes as a whole, whatever signs, quotes and
backslashes it holds, the first sign starts the comment. -/
theorem literals_end_alike :
    (∀ s, readQuoted? s = (after? ['"'] s).bind (readLiteral? .inside)) ∧
    ∀ before b after v comment : Text, ('"' ∉ before ∧ '#' ∉ before) → ('"' ∉ after ∧ '#' ∉ after) →
      readQuoted? (quoted b) = some (v, []) →
      v = b ∧ cutComment (before ++ quoted b ++ after ++ '#' :: comment) = before ++ quoted b ++ after := by
  refine ⟨readQuoted?_eq, fun before b after v comment hbefore hafter hb => ⟨?_, ?_⟩⟩
  · have hread := readQuoted?_quoted_append hb []
    rw [List.append_nil, hb] at hread
    exact congrArg Prod.fst (Option.some.inj hread)
  · exact cutComment_quoted hbefore hafter hb comment

/-- A guarded quote, a sign and a guarded backslash. -/
def guardedMarks : Text := "a\\\"#\\\\"

/-- The comment behind them may hold quotes. -/
theorem literals_end_alike_guarded :
    readQuoted? (quoted guardedMarks) = some (guardedMarks, []) ∧
    cutComment ("const-string v0, " ++ quoted guardedMarks ++ " " ++ '#' :: "b\"c") =
      "const-string v0, " ++ quoted guardedMarks ++ " " := by
  have hb : readQuoted? (quoted guardedMarks) = some (guardedMarks, []) := by decide
  exact ⟨hb, (literals_end_alike.2 "const-string v0, " guardedMarks " " _ "b\"c" (by decide) (by decide) hb).2⟩

end DalvikPatch.Text
