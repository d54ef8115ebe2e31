import DalvikPatch.Proofs.Steps
import DalvikPatch.Proofs.Trees
import DalvikPatch.Run.Resources

/-! Accesses of files in a run. One that succeeds has done what it was asked, whatever the system was going to
say. One that fails has left the files as they were, unless the system broke it off; a file that was there to be
written over then holds a beginning of its new text. -/

namespace DalvikPatch

open Text

/-! ### Files that are written over -/

namespace FileTree

variable {t : FileTree} {l : Location} {p s s' : Text}

theorem put_put (t : FileTree) (l : Location) (n n' : Node) : (t.put l n).put l n' = t.put l n' := by
  simp [put, List.filter_filter]

theorem read_eq_ok_iff : t.read p = .ok s ↔ ∃ l, t.locate p = .ok l ∧ t.node? l = some (.file s) := by
  rw [read]
  cases t.locate p with
  | error e => simp [bind, Except.bind]
  | ok l =>
    simp only [bind, Except.bind, Except.ok.injEq, exists_eq_left']
    rcases t.node? l with _ | (_ | s') <;> simp

/-- A path that leads to a file does not end in a slash: behind one it could only go on in a folder. -/
theorem endsWith_of_file (hl : t.locate p = .ok l) (hs : t.node? l = some (.file s)) : endsWith "/" p = false := by
  rw [Bool.eq_false_iff]
  intro hend
  obtain ⟨r, hr⟩ := startsWith_iff.1 hend
  obtain rfl : p = r.reverse ++ ['/'] := by
    rw [← List.reverse_reverse p, hr]
    simp
  have hwalk := (locate_eq_ok_iff.1 hl).2
  have hparts : Path.parts (r.reverse ++ ['/']) = Path.parts r.reverse ++ [[]] := pieces_append '/' r.reverse []
  rw [hparts, walk_append] at hwalk
  obtain ⟨l', -, hlast⟩ := exists_of_bind hwalk
  rw [walk] at hlast
  split at hlast
  · cases hlast
  · cases hlast
  · next hfolder =>
    cases hlast
    rw [hfolder] at hs
    cases hs

/-- A file that is there can be written over, as far as the files go. -/
theorem write_over (hl : t.locate p = .ok l) (hs : t.node? l = some (.file s)) (s' : Text) :
    t.write p s' = .ok (t.put l (.file s')) := by
  obtain ⟨hcheck, hwalk⟩ := locate_eq_ok_iff.1 hl
  have hend := endsWith_of_file hl hs
  rw [write, hcheck, Path.dropWhile_reverse_parts (checkPath_eq_ok_iff.1 hcheck).2 hend, hwalk, hend]
  simp [bind, Except.bind, hs]

end FileTree

theorem Outcome.of_ofFile {α : Type} {p : Text} {x : Except FileFault α} {a : α}
    (h : Outcome.ofFile p x = .ok a) : x = .ok a := by
  cases x with
  | error e => cases h
  | ok b => exact congrArg _ (Except.ok.inj h)

namespace Context

variable {c c' : Context} {p s : Text}

/-! ### Single accesses -/

theorem exec_nextRefusal (c : Context) :
    exec Run.nextRefusal c = (.ok c.refusals.head?.join, { c with refusals := c.refusals.tail }) := rfl

/-- What reading a file gives next. -/
def fileAt (c : Context) (p : Text) : Outcome Text :=
  match c.refusals.head?.join with
  | some r => .fault (.file p (.refused r.reason))
  | none => Outcome.ofFile p (c.files.read p)

theorem exec_readFile (c : Context) (p : Text) :
    exec (Run.readFile p) c = (c.fileAt p, { c with refusals := c.refusals.tail }) := by
  rw [Run.readFile, exec_bind, exec_nextRefusal, fileAt]
  cases c.refusals.head?.join <;> rfl

/-- How a change of the files at a path can end, and what it leaves. -/
inductive Changed (c : Context) (p : Text) (part : Nat → Except FileFault FileTree)
    (whole : Except FileFault FileTree) : Outcome Unit × Context → Prop
  | done {t} : whole = .ok t → Changed c p part whole (.ok (), { c with files := t, refusals := c.refusals.tail })
  | impossible {f} : whole = .error f →
      Changed c p part whole (.error (.fault (.file p f)), { c with refusals := c.refusals.tail })
  | refused {r} : some r ∈ c.refusals → Changed c p part whole
      (.error (.fault (.file p (.refused r.reason))), { c with refusals := c.refusals.tail })
  | brokenOff {r n t} : some r ∈ c.refusals → part n = .ok t → Changed c p part whole
      (.error (.fault (.file p (.refused r.reason))), { c with files := t, refusals := c.refusals.tail })

theorem mem_refusals {r : Refusal} (h : c.refusals.head?.join = some r) : some r ∈ c.refusals :=
  List.mem_of_mem_head? (Option.join_eq_some_iff.1 h)

theorem changed_changeFiles (c : Context) (p : Text) (part : Nat → Except FileFault FileTree)
    (whole : Except FileFault FileTree) : Changed c p part whole (exec (Run.changeFiles p part whole) c) := by
  rw [Run.changeFiles, exec_bind, exec_nextRefusal]
  cases hnext : c.refusals.head?.join with
  | none =>
    cases hwhole : whole with
    | error f => exact .impossible rfl
    | ok t => exact .done rfl
  | some r =>
    have hr := mem_refusals hnext
    cases hpart : r.done?.bind fun n => (part n).toOption with
    | none =>
      simp only [exec_bind, hpart]
      exact .refused hr
    | some t =>
      obtain ⟨n, -, ht⟩ := Option.bind_eq_some_iff.1 hpart
      simp only [exec_bind, hpart]
      refine .brokenOff hr (n := n) ?_
      cases hn : part n with
      | error f =>
        rw [hn] at ht
        cases ht
      | ok t' =>
        rw [hn] at ht
        cases ht
        rfl

/-- A change that succeeds is the whole change. -/
theorem exec_changeFiles {part : Nat → Except FileFault FileTree} {whole : Except FileFault FileTree}
    (h : exec (Run.changeFiles p part whole) c = (.ok (), c')) :
    whole = .ok c'.files ∧ c' = { c with files := c'.files, refusals := c'.refusals } := by
  have hchanged := changed_changeFiles c p part whole
  rw [h] at hchanged
  cases hchanged with
  | done hwhole => exact ⟨hwhole, rfl⟩

theorem exec_writeFile (h : exec (Run.writeFile p s) c = (.ok (), c')) :
    c.files.write p s = .ok c'.files ∧ c' = { c with files := c'.files, refusals := c'.refusals } :=
  exec_changeFiles h

theorem exec_makeFolders (h : exec (Run.makeFolders p) c = (.ok (), c')) :
    c.files.makeFolders p = .ok c'.files ∧ c' = { c with files := c'.files, refusals := c'.refusals } :=
  exec_changeFiles h

end Context

end DalvikPatch
