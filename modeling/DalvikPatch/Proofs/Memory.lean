import DalvikPatch.Proofs.Operations
import DalvikPatch.Proofs.Scan
import Mathlib.Data.List.Induction

/-! What a run remembers. Fingerprints are looked for among the loaded classes, which no operation
changes, so what is remembered is what a scan would say now; only a failed scan is done again. -/

namespace DalvikPatch

open Text

namespace Workspace

/-! ### The loaded classes -/

@[simp] theorem pool_openClass (w : Workspace) (k : Nat) : (w.openClass k).pool = w.pool :=
  pool_change w k id

@[simp] theorem pool_changeMethod (w : Workspace) (id : MethodId) (g : Method → Method) :
    (w.changeMethod id g).pool = w.pool :=
  pool_change w id.owner _

@[simp] theorem pool_rename (w : Workspace) (chain : Chain) : (w.rename chain).pool = w.pool := by
  have h : Slot.loaded ∘ Slot.rename chain = Slot.loaded := by
    funext s
    simp only [Function.comp, Slot.rename]
    split <;> rfl
  simp [rename, pool, h]

end Workspace

namespace Context

theorem pool_opened (w : Workspace) (id : MethodId) : (opened w id).2.pool = w.pool := by
  simp only [opened]
  split
  · rfl
  · split <;> simp

theorem pool_edited {α : Type} (w : Workspace) (id : MethodId) (x : Edit α) :
    (edited w id x).2.pool = w.pool := by
  rw [edited, ← pool_opened w id]
  rcases opened w id with ⟨_ | _, v⟩ <;> simp

/-- No operation changes the loaded classes. -/
theorem pool_run (c : Context) (o : Operation) : (o.run c).pool = c.pool := by
  cases o with
  | resolve f => simpa [Operation.run, Operation.step, exec_resolve] using pool_looked c f
  | probe f => simpa [Operation.run, Operation.step, exec_probe] using pool_looked c f
  | change k g => exact Workspace.pool_change c.workspace k g
  | edit id x =>
    simpa [Operation.run, Operation.step, exec_edit, pool] using pool_edited c.workspace id x
  | rename chain =>
    rw [run_rename]
    exact Workspace.pool_rename c.workspace chain

/-! ### What is remembered -/

/-- The memory of a run in which some fingerprints have been looked up: it holds answers of their
scans, and an answer for each whose scan did not fail. -/
structure Remembers (c : Context) (p : Pool) (called : List Fingerprint) : Prop where
  pool_eq : c.pool = p
  scanned : ∀ i r, c.resolutions.lookup i = some r → ∃ f ∈ called, f.identity = i ∧ f.scan p = .ok r
  kept : ∀ f ∈ called, ∀ r, f.scan p = .ok r → (c.resolutions.lookup f.identity).isSome

theorem remembers_start (p : Pool) (options : Options) (resources? : Option Text)
    (files : FileTree) : (start p options resources? files).Remembers p [] where
  pool_eq := Workspace.pool_ofPool p
  scanned _ _ h := by simp [start] at h
  kept _ h := by simp at h

variable {c : Context} {p : Pool} {called : List Fingerprint}

theorem Remembers.of_resolutions_eq {d : Context} (h : c.Remembers p called) (hp : d.pool = c.pool)
    (hr : d.resolutions = c.resolutions) : d.Remembers p called where
  pool_eq := hp.trans h.pool_eq
  scanned := hr ▸ h.scanned
  kept := hr ▸ h.kept

/-- A look-up adds its fingerprint to those that have been looked up. -/
theorem Remembers.looked (h : c.Remembers p called) (f : Fingerprint) :
    (c.looked f).Remembers p (called ++ [f]) := by
  have hscanned : ∀ i r, c.resolutions.lookup i = some r →
      ∃ g ∈ called ++ [f], g.identity = i ∧ g.scan p = .ok r := by
    intro i r hr
    obtain ⟨g, hg, hi⟩ := h.scanned i r hr
    exact ⟨g, List.mem_append_left _ hg, hi⟩
  refine ⟨(pool_looked c f).trans h.pool_eq, ?_, ?_⟩
  · intro i r hr
    rw [Context.looked, h.pool_eq] at hr
    split at hr
    · exact hscanned i r hr
    · cases hs : f.scan p with
      | error s => exact hscanned i r (by simpa [hs] using hr)
      | ok r' =>
        simp only [hs, List.lookup_cons] at hr
        split at hr
        · next hi =>
          cases hr
          exact ⟨f, by simp, (beq_iff_eq.1 hi).symm, hs⟩
        · exact hscanned i r hr
  · intro g hg r hr
    rw [Context.looked, h.pool_eq]
    rcases List.mem_append.1 hg with hg | hg
    · have hk := h.kept g hg r hr
      split
      · exact hk
      · cases f.scan p with
        | error s => exact hk
        | ok r' =>
          simp only [List.lookup_cons]
          split
          · rfl
          · exact hk
    · cases List.mem_singleton.1 hg
      split
      · next hl => simp [hl]
      · simp [hr]

theorem Remembers.run (h : c.Remembers p called) (o : Operation) :
    (o.run c).Remembers p (called ++ o.fingerprint?.toList) := by
  cases o with
  | resolve f => simpa [Operation.run, Operation.step, exec_resolve, Operation.fingerprint?] using h.looked f
  | probe f => simpa [Operation.run, Operation.step, exec_probe, Operation.fingerprint?] using h.looked f
  | change k g => simpa [Operation.fingerprint?] using h.of_resolutions_eq (pool_run c (.change k g)) rfl
  | edit id x =>
    simpa [Operation.fingerprint?] using h.of_resolutions_eq (pool_run c (.edit id x))
      (by simp [Operation.run, Operation.step, exec_edit])
  | rename chain =>
    simpa [Operation.fingerprint?] using h.of_resolutions_eq (pool_run c (.rename chain))
      (by rw [run_rename])

theorem Remembers.after (h : c.Remembers p []) (os : List Operation) :
    (c.after os).Remembers p (os.filterMap Operation.fingerprint?) := by
  induction os using List.reverseRecOn with
  | nil => exact h
  | append_singleton os o ih =>
    have ho : [o].filterMap Operation.fingerprint? = o.fingerprint?.toList := by
      cases ho : o.fingerprint? <;> simp [ho]
    rw [after_append, List.filterMap_append, ho]
    exact ih.run o

/-! ### Looking up again -/

variable {f : Fingerprint}

/-- What a look-up finds is what a scan of the loaded classes says. -/
theorem Remembers.found (h : c.Remembers p called)
    (distinct : ∀ g ∈ called, g.identity = f.identity → g = f) : c.found f = f.scan p := by
  rw [Context.found, h.pool_eq]
  split
  · next r hr =>
    obtain ⟨g, hg, hi, hs⟩ := h.scanned _ _ hr
    rw [← distinct g hg hi, hs]
  · rfl

/-- A look-up asks nothing if an earlier one had an answer, and otherwise all that a scan asks. -/
theorem Remembers.asked (h : c.Remembers p called)
    (distinct : ∀ g ∈ called, g.identity = f.identity → g = f) :
    ((f ∈ called ∧ ∃ r, f.scan p = .ok r) → (c.looked f).asked = c.asked) ∧
    (¬ (f ∈ called ∧ ∃ r, f.scan p = .ok r) → (c.looked f).asked =
      c.asked ++ (f.scanRecorded p).2.map fun e => (f.identity, e.id)) := by
  obtain ⟨new, hrun, hid, -⟩ := f.run_matchesAsking p.entries []
  have hnew : (f.scanRecorded p).2.map (fun e => (f.identity, e.id)) =
      (f.asked p.entries).map fun id => (f.identity, id) := by
    simp [Fingerprint.scanRecorded, hrun, ← hid]
  rw [Context.looked, h.pool_eq, hnew]
  constructor
  · rintro ⟨hf, r, hr⟩
    obtain ⟨r', hl⟩ := Option.isSome_iff_exists.1 (h.kept f hf r hr)
    simp [hl]
  · intro hno
    have hl : c.resolutions.lookup f.identity = none := by
      by_contra hl
      obtain ⟨r, hr⟩ := Option.ne_none_iff_exists'.1 hl
      obtain ⟨g, hg, hi, hs⟩ := h.scanned _ _ hr
      cases distinct g hg hi
      exact hno ⟨hg, r, hs⟩
    simp [hl]

/-- A resolution is no fault of an unresolved fingerprint unless nothing was found. -/
theorem resolve_eq_unresolved_iff :
    f.resolve p = .fault (.unresolved f.name) ↔ f.scan p = .ok .notFound := by
  have herr : ∀ s, f.scan p = .error s → ∃ reason, s = .fault (.predicate f.name reason) := by
    intro s hs
    rcases f.answers_or_fails (f.eligibleIn p.entries) with h | ⟨_, _, _, reason, h, hb, he⟩
    · obtain ⟨ms, hms, -⟩ := Fingerprint.scan_of_answers h
      simp [hms] at hs
    · rw [Fingerprint.scan_of_fails h hb he] at hs
      exact ⟨reason, (Except.error.inj hs).symm⟩
  rw [Fingerprint.resolve]
  cases hs : f.scan p with
  | error s =>
    obtain ⟨reason, rfl⟩ := herr s hs
    simp [bind, Except.bind, Outcome.fault]
  | ok r => cases r <;> simp [bind, Except.bind, Resolution.unique, Outcome.fault]

/-- Whatever was done before in a run, with fingerprints of different identities: a look-up answers
what the fingerprint resolves to among the loaded classes, the probing one takes an absence for an
answer and nothing else, and the condition is asked again only if no look-up before had an answer. -/
theorem resolve_after (p : Pool) (options : Options) (resources? : Option Text) (files : FileTree)
    (os : List Operation) (f : Fingerprint)
    (distinct : ∀ g ∈ os.filterMap Operation.fingerprint?, g.identity = f.identity → g = f) :
    let c := (start p options resources? files).after os
    let resolved := exec (Run.resolve f) c
    let probed := exec (Run.resolve? f) c
    let known := f ∈ os.filterMap Operation.fingerprint? ∧ ∃ r, f.scan p = .ok r
    let asked := (f.scanRecorded p).2.map fun e => (f.identity, e.id)
    resolved.1 = f.resolve p ∧
    (probed.1 = .ok none ↔ f.resolve p = .fault (.unresolved f.name)) ∧
    (f.resolve p ≠ .fault (.unresolved f.name) → probed.1 = (f.resolve p).map some) ∧
    (known → resolved.2.asked = c.asked ∧ probed.2.asked = c.asked) ∧
    (¬ known → resolved.2.asked = c.asked ++ asked ∧ probed.2.asked = c.asked ++ asked) := by
  have h := (remembers_start p options resources? files).after os
  have hfound := h.found distinct
  obtain ⟨hknown, hnew⟩ := h.asked distinct
  simp only [exec_resolve, exec_probe, hfound, h.pool_eq, resolve_eq_unresolved_iff]
  refine ⟨rfl, ?_, ?_, fun hk => ⟨hknown hk, hknown hk⟩, fun hk => ⟨hnew hk, hnew hk⟩⟩
  · rcases f.scan p with s | _ | _ | _ <;>
      simp [Except.bind, Resolution.unique, Outcome.fault, Except.map]
  · rw [Fingerprint.resolve]
    rcases f.scan p with s | _ | _ | _ <;>
      simp [Except.bind, Resolution.unique, Outcome.fault, Except.map, bind]

/-- A class with the method `a()V`, and the fingerprint of that name. -/
def lonePool : Pool :=
  ⟨[⟨⟨"A"⟩, .empty, none, none, [], [], [], [⟨"a", .empty, ⟨[], .void⟩, none, []⟩], none⟩]⟩

def loneFingerprint : Fingerprint :=
  ⟨0, "a", none, none, none, [], some fun m _ => .ok (m.name == ("a" : Text))⟩

/-- A second look-up still finds a method that was taken out of its class after the first one. -/
theorem resolve_after_emptied_class :
    (∀ g ∈ [Operation.resolve loneFingerprint, .change 0 fun k => { k with methods := [] }].filterMap
      Operation.fingerprint?, g.identity = loneFingerprint.identity → g = loneFingerprint) ∧
    (exec (Run.resolve loneFingerprint) ((start lonePool .empty none ⟨[]⟩).after
      [.resolve loneFingerprint, .change 0 fun k => { k with methods := [] }])).1 =
        .ok ⟨"a", ⟨0, 0⟩, []⟩ := by
  have distinct : ∀ g ∈ [Operation.resolve loneFingerprint, .change 0 fun k =>
      { k with methods := [] }].filterMap Operation.fingerprint?,
      g.identity = loneFingerprint.identity → g = loneFingerprint := by
    simp [Operation.fingerprint?]
  exact ⟨distinct, (resolve_after lonePool .empty none ⟨[]⟩ _ loneFingerprint distinct).1.trans rfl⟩

end Context

end DalvikPatch
