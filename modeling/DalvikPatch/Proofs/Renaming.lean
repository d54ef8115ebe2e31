import DalvikPatch.Proofs.Eager
import DalvikPatch.Proofs.Instructions

/-! A pass changes the texts that its chain changes, and nothing else. What it should do is said of
the operands, one by one, without the pass: an operand becomes another only if it is a text for
which the first rule that has something says another one. -/

namespace DalvikPatch

open Text

/-- The first rule of a chain that has something for `s` says `t`. -/
def Chain.Yields (c : Chain) (s t : Text) : Prop :=
  ∃ earlier r later, c = earlier ++ r :: later ∧ (∀ q ∈ earlier, q.rename s = none) ∧
    r.rename s = some t

/-- What a chain makes of an operand. -/
inductive Operand.Renamed (c : Chain) : Operand → Operand → Prop
  | changed {s t : Text} (hyields : c.Yields s t) (hne : t ≠ s) :
    Renamed c (.reference (.string s)) (.reference (.string t))
  | kept {op : Operand} (h : ∀ s t, op = .reference (.string s) → c.Yields s t → t = s) :
    Renamed c op op

structure Instruction.Renamed (c : Chain) (i j : Instruction) : Prop where
  opcode : j.opcode = i.opcode
  operands : List.Forall₂ (Operand.Renamed c) i.operands j.operands

inductive BodyItem.Renamed (c : Chain) : BodyItem → BodyItem → Prop
  | instruction {i j : Instruction} (h : i.Renamed c j) : Renamed c (.instruction i) (.instruction j)
  | other {item : BodyItem} (h : ¬ item.isInstruction) : Renamed c item item

/-- Only items of the body differ, and each is in its place. -/
def Method.Renamed (c : Chain) (m n : Method) : Prop :=
  n = { m with items := n.items } ∧ List.Forall₂ (BodyItem.Renamed c) m.items n.items

/-- Only bodies differ. -/
def Class.Renamed (c : Chain) (k l : Class) : Prop :=
  l = { k with methods := l.methods } ∧ List.Forall₂ (Method.Renamed c) k.methods l.methods

def BodyItem.operands : BodyItem → List Operand
  | instruction i => i.operands
  | _ => []

/-- The operands of all instructions of a class, in order. -/
def Class.operands (k : Class) : List Operand := k.items.flatMap BodyItem.operands

/-- The number of places at which operands differ. -/
def differences (before after : List Operand) : Nat :=
  (before.zip after).countP fun p => p.1 ≠ p.2

/-! ### Texts and instructions -/

/-- A chain changes a text if what its first rule says is another text. -/
theorem Chain.change?_eq_some_iff (c : Chain) (s t : Text) :
    c.change? s = some t ↔ c.Yields s t ∧ t ≠ s := by
  have hyields : (∃ name, c.apply s = some (name, t)) ↔ c.Yields s t := by
    simp only [apply, List.findSome?_eq_some_iff, Yields, Option.map_eq_some_iff,
      Option.map_eq_none_iff, Prod.mk.injEq]
    constructor
    · rintro ⟨name, earlier, r, later, hc, ⟨t', ht, -, rfl⟩, hnone⟩
      exact ⟨earlier, r, later, hc, hnone, ht⟩
    · rintro ⟨earlier, r, later, hc, hnone, ht⟩
      exact ⟨r.name, earlier, r, later, hc, ⟨t, ht, rfl, rfl⟩, hnone⟩
  rw [← hyields, change?, Option.bind_eq_some_iff]
  constructor
  · rintro ⟨⟨name, t'⟩, happly, ht⟩
    split at ht
    · cases ht
    · next hne =>
      cases ht
      exact ⟨⟨name, happly⟩, hne⟩
  · rintro ⟨⟨name, happly⟩, hne⟩
    exact ⟨(name, t), happly, if_neg hne⟩

namespace Instruction

variable {c : Chain} {i : Instruction}

/-- An instruction with a text among its operands loads it into a register, and has no other. -/
theorem Made.operands_of_mem (h : i.Made) {s : Text} (hs : .reference (.string s) ∈ i.operands) :
    ∃ v, i.operands = [.register v, .reference (.string s)] := by
  obtain ⟨before, after, hops⟩ := List.append_of_mem hs
  have hmade : (⟨i.opcode, before ++ .reference (.string s) :: after⟩ : Instruction).Made := by
    rwa [← hops]
  obtain ⟨-, v, rfl, rfl⟩ := hmade.loads fun k hk => by cases k <;> first | rfl | cases hk
  exact ⟨v, hops⟩

theorem mem_operands_of_string? {s : Text} (h : i.string? = some s) :
    .reference (.string s) ∈ i.operands := by
  have hmem : ∀ r, i.reference? = some r → .reference r ∈ i.operands := by
    intro r hr
    obtain ⟨op, hop, hr⟩ := List.exists_of_findSome?_eq_some hr
    cases op with
    | reference r' =>
      cases hr
      exact hop
    | _ => cases hr
  rw [string?] at h
  split at h
  · next hr =>
    cases h
    exact hmem _ hr
  · cases h

theorem Made.string?_eq_some_iff (h : i.Made) (s : Text) :
    i.string? = some s ↔ .reference (.string s) ∈ i.operands := by
  refine ⟨mem_operands_of_string?, fun hs => ?_⟩
  obtain ⟨v, hops⟩ := h.operands_of_mem hs
  simp [string?, reference?, hops]

/-- A made instruction stays, or it loads a text that becomes another. -/
theorem Made.change_cases (h : i.Made) (c : Chain) :
    (i.change? c = none ∧ ∀ s t, .reference (.string s) ∈ i.operands → c.Yields s t → t = s) ∨
    ∃ o v s t, i = ⟨o, [.register v, .reference (.string s)]⟩ ∧ (c.Yields s t ∧ t ≠ s) ∧
      i.change? c = some t := by
  cases hc : i.change? c with
  | none =>
    refine .inl ⟨rfl, fun s t hs hyields => ?_⟩
    by_contra hne
    have : i.change? c = some t := by
      rw [change?, (h.string?_eq_some_iff s).2 hs]
      exact (c.change?_eq_some_iff s t).2 ⟨hyields, hne⟩
    rw [hc] at this
    cases this
  | some t =>
    obtain ⟨s, hs, ht⟩ := Option.bind_eq_some_iff.1 hc
    obtain ⟨v, hops⟩ := h.operands_of_mem (mem_operands_of_string? hs)
    exact .inr ⟨i.opcode, v, s, t, by rw [← hops], (c.change?_eq_some_iff s t).1 ht, rfl⟩

end Instruction

/-! ### Operands -/

theorem differences_self (ops : List Operand) : differences ops ops = 0 := by
  have h : ∀ p ∈ ops.zip ops, p.1 = p.2 := by
    intro p hp
    induction ops with
    | nil => cases hp
    | cons op ops ih =>
      rcases List.mem_cons.1 hp with rfl | hp
      · rfl
      · exact ih hp
  simpa [differences, List.countP_eq_zero] using fun a b hab => h (a, b) hab

theorem differences_append {ops ops' more more' : List Operand} (h : ops.length = ops'.length) :
    differences (ops ++ more) (ops' ++ more') = differences ops ops' + differences more more' := by
  rw [differences, List.zip_append h, List.countP_append, differences, differences]

/-! ### Bodies -/

namespace BodyItem

def Made (item : BodyItem) : Prop := ∀ i, item = instruction i → i.Made

variable {c : Chain} {item : BodyItem}

/-- An item is renamed in its place; one operand differs if it changes, and none if not. -/
theorem Made.rename (h : item.Made) (c : Chain) : item.Renamed c (item.rename c) ∧
    item.operands.length = (item.rename c).operands.length ∧
    differences item.operands (item.rename c).operands = if item.isChanged c then 1 else 0 := by
  cases item with
  | instruction i =>
    obtain ⟨hnone, hkept⟩ | ⟨o, v, s, t, rfl, ⟨hyields, hne⟩, hchange⟩ := (h i rfl).change_cases c
    · have hsame : BodyItem.rename c (instruction i) = instruction i := by simp [BodyItem.rename, hnone]
      rw [hsame]
      refine ⟨.instruction ⟨rfl, ?_⟩, rfl, ?_⟩
      · refine List.forall₂_same.2 fun op hop => .kept ?_
        rintro s t rfl
        exact hkept s t hop
      · simp [differences_self, isChanged, instruction?, hnone]
    · have hrename : BodyItem.rename c (instruction ⟨o, [.register v, .reference (.string s)]⟩) =
          instruction ⟨o, [.register v, .reference (.string t)]⟩ := by
        rw [BodyItem.rename, hchange]
        rfl
      rw [hrename]
      refine ⟨.instruction ⟨rfl, .cons (.kept (by simp)) (.cons (.changed hyields hne) .nil)⟩, rfl, ?_⟩
      simp [differences, operands, isChanged, instruction?, hchange, hne.symm]
  | label | line | directive => exact ⟨.other (by simp [isInstruction, instruction?]), rfl, rfl⟩

end BodyItem

/-- The operands of items differ where the items change. -/
theorem differences_rename {items : List BodyItem} (h : ∀ item ∈ items, item.Made) (c : Chain) :
    differences (items.flatMap BodyItem.operands) ((items.map (·.rename c)).flatMap BodyItem.operands) =
      items.countP (·.isChanged c) := by
  induction items with
  | nil => rfl
  | cons item items ih =>
    obtain ⟨-, hlength, hdiffer⟩ := (h item (List.mem_cons_self ..)).rename c
    rw [List.map_cons, List.flatMap_cons, List.flatMap_cons, differences_append hlength, hdiffer,
      ih fun x hx => h x (List.mem_cons_of_mem _ hx), List.countP_cons, Nat.add_comm]

theorem Method.renamed_rename {m : Method} (h : ∀ item ∈ m.items, item.Made) (c : Chain) :
    m.Renamed c (m.rename c) := by
  refine ⟨rfl, ?_⟩
  rw [Method.rename, List.forall₂_map_right_iff]
  exact List.forall₂_same.2 fun item hitem => ((h item hitem).rename c).1

/-! ### Classes -/

namespace Class

/-- Every instruction of a class is one that can be made. -/
def Made (k : Class) : Prop := ∀ item ∈ k.items, item.Made

variable {k : Class}

theorem Made.renamed_rename (h : k.Made) (c : Chain) : k.Renamed c (k.rename c) := by
  refine ⟨rfl, ?_⟩
  rw [rename, List.forall₂_map_right_iff]
  exact List.forall₂_same.2 fun m hm =>
    Method.renamed_rename (fun item hi => h item (List.mem_flatMap.2 ⟨m, hm, hi⟩)) c

theorem items_rename (k : Class) (c : Chain) : (k.rename c).items = k.items.map (·.rename c) := by
  simp [items, rename, Method.rename, List.flatMap_map, List.map_flatMap]

theorem Made.differences_rename (h : k.Made) (c : Chain) :
    differences k.operands (k.rename c).operands = k.changes c := by
  rw [operands, operands, items_rename, DalvikPatch.differences_rename h, changes]

/-- The operands of classes differ where the items of the classes change. -/
theorem differences_flatMap_rename {classes : List Class} (h : ∀ k ∈ classes, k.Made) (c : Chain) :
    differences (classes.flatMap operands) ((classes.map (·.rename c)).flatMap operands) =
      (classes.flatMap items).countP (·.isChanged c) := by
  have hbefore : classes.flatMap operands = (classes.flatMap items).flatMap BodyItem.operands :=
    List.flatMap_assoc.symm
  have hafter : (classes.map (·.rename c)).flatMap operands =
      ((classes.flatMap items).map (·.rename c)).flatMap BodyItem.operands := by
    simp only [List.flatMap_map, List.map_flatMap, List.flatMap_assoc, operands, items_rename]
  rw [hbefore, hafter]
  refine DalvikPatch.differences_rename (fun item hitem => ?_) c
  obtain ⟨k, hk, hitem⟩ := List.mem_flatMap.1 hitem
  exact h k hk item hitem

end Class

namespace Context

/-- A pass writes what its chain says for each text of the classes, as the run shows them, and
nothing else. It counts the operands that differ and the classes with one, and these classes are
the ones it opens. -/
theorem rename_exact (c : Context) (chain : Chain) (h : ∀ k ∈ c.workspace.classes, k.Made) :
    ∃ report w, exec (Run.rename chain) c = (.ok report, { c with workspace := w }) ∧
      w.pool = c.pool ∧
      List.Forall₂ (Class.Renamed chain) c.workspace.classes w.classes ∧
      report.literals = differences (c.workspace.classes.flatMap Class.operands)
        (w.classes.flatMap Class.operands) ∧
      let changed := List.zipWith (fun k l => differences k.operands l.operands)
        c.workspace.classes w.classes
      report.classes = changed.countP (0 < ·) ∧
      ∀ j, w.isOpen j ↔ c.workspace.isOpen j ∨ ∃ n, changed[j]? = some n ∧ 0 < n := by
  refine ⟨_, _, exec_rename c chain, c.workspace.pool_rename chain, ?_, ?_, ?_⟩
  · rw [Workspace.classes_rename, List.forall₂_map_right_iff]
    exact List.forall₂_same.2 fun k hk => (h k hk).renamed_rename chain
  · rw [Workspace.classes_rename, Class.differences_flatMap_rename h, Workspace.passReport]
  · have hchanged : List.zipWith (fun k l => differences k.operands l.operands)
        c.workspace.classes (c.workspace.rename chain).classes =
        c.workspace.classes.map fun k => k.changes chain := by
      rw [Workspace.classes_rename, List.zipWith_map_right, List.zipWith_self]
      exact List.map_congr_left fun k hk => (h k hk).differences_rename chain
    rw [hchanged]
    refine ⟨?_, fun j => ?_⟩
    · have hpos : (fun k : Class => decide (0 < k.changes chain)) = fun k => k.changes chain != 0 := by
        funext k
        rw [Bool.eq_iff_iff]
        simp [Nat.pos_iff_ne_zero]
      rw [List.countP_map, Function.comp_def, hpos, Workspace.passReport]
    · simp [Workspace.isOpen_rename, Nat.pos_iff_ne_zero]

def constString : Opcode := .refers 0x1a "const-string" .string .f21c Opcode.throwsSets

/-- Loads of texts, or of code units, one after another. -/
def loading (rs : List Reference) : Class where
  name := ⟨"a"⟩
  flags := .empty
  source? := none
  super? := none
  interfaces := []
  annotations := []
  fields := []
  methods := [⟨"a", .empty, ⟨[], .void⟩, none, .label ⟨"l"⟩ :: rs.map fun r =>
    .instruction ⟨constString, [.register (.v 0), .reference r]⟩⟩]
  file? := none

theorem made_loading {rs : List Reference} (h : ∀ r ∈ rs, r.suits .string) : (loading rs).Made := by
  rintro item hitem i rfl
  obtain ⟨r, hr, rfl⟩ : ∃ r ∈ rs, i = ⟨constString, [.register (.v 0), .reference r]⟩ := by
    simpa [loading, Class.items, eq_comm] using hitem
  refine ⟨show constString ∈ Opcode.table by decide, ?_⟩
  simp [Instruction.make, Instruction.checkOperands, constString, Opcode.refers, Opcode.referenceAt,
    Format.operands, Operand.kind, h r hr, Except.map]

/-- Three classes, of which the first has been written to. -/
def loadingContext : Context :=
  { start .empty .empty none .empty with
    workspace := ⟨[⟨loading [.string "z"], some (loading [.string "a", .units [0xd800], .string "ab"])⟩,
      ⟨loading [.string "b", .string "a"], none⟩, ⟨loading [.string "b", .string "z"], none⟩]⟩ }

def loadingChain : Chain := [.exactly "r" "a" "b", .leading "s" "a" "c", .exactly "t" "a" "d"]

/-- Texts are written for the copy of the first class and for the second, which is opened. -/
theorem rename_exact_copied : (∀ k ∈ loadingContext.workspace.classes, k.Made) ∧
    ∃ w, exec (Run.rename loadingChain) loadingContext =
        (.ok ⟨3, 2⟩, { loadingContext with workspace := w }) ∧
      List.Forall₂ (Class.Renamed loadingChain) loadingContext.workspace.classes w.classes ∧
      w.classes = [loading [.string "b", .units [0xd800], .string "cb"],
        loading [.string "b", .string "b"], loading [.string "b", .string "z"]] ∧
      w.isOpen 0 ∧ w.isOpen 1 ∧ ¬ w.isOpen 2 := by
  have hmade : ∀ k ∈ loadingContext.workspace.classes, k.Made := by
    intro k hk
    simp only [loadingContext, Workspace.classes, List.map_cons, List.map_nil, List.mem_cons,
      List.not_mem_nil, or_false] at hk
    rcases hk with rfl | rfl | rfl <;> exact made_loading (by decide)
  obtain ⟨report, w, hexec, -, hrenamed, -⟩ := rename_exact loadingContext loadingChain hmade
  have hrun : exec (Run.rename loadingChain) loadingContext =
      (.ok ⟨3, 2⟩, { loadingContext with workspace := loadingContext.workspace.rename loadingChain }) := by
    rw [exec_rename]
    rfl
  rw [hrun] at hexec
  have hw : loadingContext.workspace.rename loadingChain = w :=
    congrArg (fun r => r.2.workspace) hexec
  subst hw
  refine ⟨hmade, _, hrun, hrenamed, by decide +kernel, ?_⟩
  decide +kernel

end Context

end DalvikPatch
