import DalvikPatch.Proofs.Scan
import DalvikPatch.Proofs.Fields

/-! Places of texts. A fingerprint says at which index a body loads each of its texts first, and an editor
says which instruction has an index. Both count the instructions of a body in which labels, line numbers
and directives stand between them, and both count the same. -/

namespace DalvikPatch

open Text

namespace Method

/-- Of the texts that a body loads, the first that is the one looked for belongs to the first instruction
that loads it. -/
theorem find?_strings (m : Method) (s : Text) :
    m.strings.find? (fun p => p.2 == s) =
      (m.instructions.findIdx? fun i => i.string? == some s).map fun k => (k, s) := by
  have hfrom : ∀ (is : List Instruction) (n : Nat),
      ((is.zipIdx n).filterMap fun p => p.1.string?.map fun t => (p.2, t)).find? (fun p => p.2 == s) =
        (is.findIdx? fun i => i.string? == some s).map fun k => (n + k, s) := by
    intro is
    induction is with
    | nil => exact fun _ => rfl
    | cons i is ih =>
      intro n
      rw [List.zipIdx_cons, List.filterMap_cons, List.findIdx?_cons]
      -- an index in the rest is greater by one in the whole
      have hshift : (fun k => (n + 1 + k, s)) = (fun k => (n + k, s)) ∘ (· + 1) := by
        funext k
        simp only [Function.comp_apply, Nat.add_right_comm, Nat.add_assoc]
      cases i.string? with
      | none => simp [ih, hshift]
      | some t =>
        by_cases ht : t = s
        · simp [ht]
        · simp [ht, ih, hshift]
  rw [strings, hfrom]
  simp only [Nat.zero_add]

/-- The first instruction with a property, as it stands among the items. -/
theorem exists_split_of_findIdx? {m : Method} {p : Instruction → Bool} {k : Nat}
    (h : m.instructions.findIdx? p = some k) : ∃ before i after, m.items = before ++ .instruction i :: after ∧
      (before.filterMap BodyItem.instruction?).length = k ∧ p i ∧
      (∀ j ∈ before.filterMap BodyItem.instruction?, ¬ p j) ∧ m.place? k = some before.length ∧
      m.instructions[k]? = some i := by
  obtain ⟨hk, hfound, hnone⟩ := List.findIdx?_eq_some_iff_getElem.1 h
  obtain ⟨place, hplace⟩ := exists_placeIn? hk
  obtain ⟨before, i, after, hitems, rfl, rfl⟩ := eq_of_placeIn? hplace
  have hlist : m.instructions = before.filterMap BodyItem.instruction? ++ i ::
      after.filterMap BodyItem.instruction? := by
    rw [instructions, hitems, List.filterMap_append]
    rfl
  simp only [hlist] at hfound hnone ⊢
  refine ⟨before, i, after, hitems, rfl, ?_, ?_, hplace, ?_⟩
  · simpa using hfound
  · intro j hj
    obtain ⟨n, hn, rfl⟩ := List.mem_iff_getElem.1 hj
    have := hnone n hn
    rwa [List.getElem_append_left hn] at this
  · simp

end Method

namespace Fingerprint

theorem locate?_eq_some_iff {m : Method} {s : Text} {q : StringMatch} : locate? m s = some q ↔
    q.string = s ∧ (m.instructions.findIdx? fun i => i.string? == some s) = some q.index := by
  rw [locate?, Method.find?_strings, Option.map_map, Option.map_eq_some_iff]
  constructor
  · rintro ⟨k, hk, rfl⟩
    exact ⟨rfl, hk⟩
  · rintro ⟨rfl, hk⟩
    exact ⟨q.index, hk, rfl⟩

/-- A method that matches has one place for each of the texts, in their order. -/
theorem places_of_match? {f : Fingerprint} {m : Method} {c : Class} {places : List StringMatch}
    (h : f.match? m c = .ok (some places)) :
    places.map StringMatch.string = f.strings ∧ ∀ q ∈ places, locate? m q.string = some q := by
  have hmap : ∀ {ss : List Text} {qs : List StringMatch}, ss.mapM (locate? m) = some qs →
      qs.map StringMatch.string = ss ∧ ∀ q ∈ qs, locate? m q.string = some q := by
    intro ss
    induction ss with
    | nil =>
      intro qs h
      cases h
      exact ⟨rfl, by simp⟩
    | cons s ss ih =>
      intro qs h
      rw [List.mapM_cons] at h
      obtain ⟨q, hq, hrest⟩ := Option.bind_eq_some_iff.1 h
      obtain ⟨qs, hqs, ⟨⟩⟩ := Option.bind_eq_some_iff.1 hrest
      obtain ⟨hstrings, hplaces⟩ := ih hqs
      obtain ⟨rfl, -⟩ := locate?_eq_some_iff.1 hq
      exact ⟨by rw [List.map_cons, hstrings], List.forall_mem_cons.2 ⟨hq, hplaces⟩⟩
  have heligible : f.eligible? m = some places := by
    rw [match?] at h
    split at h
    · cases h
    · next places' h' =>
      split at h <;> cases h
      exact h'
  rw [eligible?] at heligible
  split at heligible
  · exact hmap heligible
  · cases heligible

/-- Where a method matches, the places come in the order of the texts, each text with its place. What stands
at a place loads the text and is the first instruction to do so, and an editor of that method has the same
instruction at the same index, for looking it up, finding it and writing over it. -/
theorem matched_places {f : Fingerprint} {m : Method} {c : Class} {places : List StringMatch}
    (h : f.match? m c = .ok (some places)) :
    places.map StringMatch.string = f.strings ∧ ∀ q ∈ places, ∃ before i after,
      (m.items = before ++ .instruction i :: after ∧ i.string? = some q.string ∧
        (before.filterMap BodyItem.instruction?).length = q.index ∧
        ∀ j ∈ before.filterMap BodyItem.instruction?, j.string? ≠ some q.string) ∧
      ∀ reference e, Editor.open? reference m = .ok e →
        exec (Edit.instruction q.index) e = (.ok i, e) ∧
        e.indexOf? (fun j => j.string? == some q.string) = some q.index ∧
        e.method.place? q.index = some before.length := by
  obtain ⟨hstrings, hplaces⟩ := places_of_match? h
  refine ⟨hstrings, fun q hq => ?_⟩
  obtain ⟨-, hfirst⟩ := locate?_eq_some_iff.1 (hplaces q hq)
  obtain ⟨before, i, after, hitems, hlength, hi, hbefore, hplace, hget⟩ :=
    Method.exists_split_of_findIdx? hfirst
  refine ⟨before, i, after, ⟨hitems, by simpa using hi, hlength, by simpa using hbefore⟩, ?_⟩
  intro reference e he
  obtain rfl : e = ⟨reference, m⟩ := by
    rw [Editor.open?] at he
    split at he
    · exact (Except.ok.inj he).symm
    · cases he
  refine ⟨?_, hfirst, hplace⟩
  rw [Edit.instruction, exec_bind, exec_get]
  simp only [hget]
  rfl

/-- An instruction that loads a text, or code units that are none. -/
def load (r : Reference) : Instruction :=
  ⟨.refers 0x1a "const-string" .string .f21c Opcode.throwsSets, [.register (.v 0), .reference r]⟩

/-- A body in which other items stand between the loads, and one load is of half a character. -/
def mixed : Method where
  name := "a"
  flags := .isStatic
  prototype := ⟨[], .void⟩
  frame? := some (.locals 1)
  items := [.directive ⟨[".annotation La;", ".end annotation"]⟩, .line 1, .label ⟨"a"⟩,
    .instruction (load (.units [0xd800])), .line 2, .instruction (load (.string "b")), .label ⟨"b"⟩,
    .instruction (load (.string "a")), .instruction (load (.string "b"))]

def mixedClass : Class where
  name := ⟨"a"⟩
  flags := .empty
  source? := none
  super? := none
  interfaces := []
  annotations := []
  fields := []
  methods := [mixed]
  file? := none

/-- Wants one of its texts twice. -/
def repeating : Fingerprint where
  identity := 0
  name := "f"
  flags? := none
  result? := none
  parameters? := none
  strings := ["a", "b", "a"]
  condition? := none

theorem matched_places_mixed :
    let e : Editor := ⟨"La;->a()V", mixed⟩
    repeating.match? mixed mixedClass = .ok (some [⟨"a", 2⟩, ⟨"b", 1⟩, ⟨"a", 2⟩]) ∧
    Editor.open? e.reference mixed = .ok e ∧
    (∃ i, i.string? = some ("a" : Text) ∧ exec (Edit.instruction 2) e = (.ok i, e)) ∧
    e.indexOf? (fun i => i.string? == some ("a" : Text)) = some 2 := by
  intro e
  have hmatch : repeating.match? mixed mixedClass = .ok (some [⟨"a", 2⟩, ⟨"b", 1⟩, ⟨"a", 2⟩]) := by rfl
  have hopen : Editor.open? e.reference mixed = .ok e := by rfl
  obtain ⟨before, i, after, ⟨-, hi, -⟩, heditor⟩ := (matched_places hmatch).2 ⟨"a", 2⟩ (by simp)
  obtain ⟨hexec, hindex, -⟩ := heditor _ e hopen
  exact ⟨hmatch, hopen, ⟨i, hi, hexec⟩, hindex⟩

end Fingerprint

end DalvikPatch
