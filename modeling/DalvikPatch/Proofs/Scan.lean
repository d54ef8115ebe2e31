import DalvikPatch.Fingerprint.Basic
import Mathlib.Data.List.Forall2

/-! What a scan answers. A method is eligible if all of a fingerprint but its condition holds of
it; the scan asks the condition about eligible methods only, in the order of the pool, stops at
the first failure, and otherwise counts the methods on which the condition holds. -/

namespace DalvikPatch

open Text

/-! ### Eligible methods -/

/-- The types that a pattern stands for. -/
def TypePattern.Admits : TypePattern → TypeDescriptor → Prop
  | anyObject, t => ∃ n, t = .object n
  | anyArray, t => ∃ e, t = .array e
  | exactly d, t => t.jni = d

theorem TypePattern.accepts_iff {q : TypePattern} {t : TypeDescriptor} :
    q.accepts t = true ↔ q.Admits t := by
  cases q <;> cases t <;> simp [accepts, Admits]

/-- Patterns as they are written: `L` and `[` stand for all objects and all arrays. -/
theorem TypePattern.admits_ofText_iff {s : Text} {t : TypeDescriptor} :
    (ofText s).Admits t ↔ (s = "L" ∧ ∃ n, t = .object n) ∨ (s = "[" ∧ ∃ e, t = .array e) ∨
      (s ≠ "L" ∧ s ≠ "[" ∧ t.jni = s) := by
  have hl : ("L" : Text) = ['L'] := rfl
  have ha : ("[" : Text) = ['['] := rfl
  rw [hl, ha, ofText]
  split
  · next h => subst h; simp [Admits]
  · split
    · next h => subst h; simp [Admits]
    · simp [Admits, *]

namespace Fingerprint

/-- All but the condition holds of a method. -/
structure Eligible (f : Fingerprint) (m : Method) : Prop where
  flags : ∀ g, f.flags? = some g → ∀ k, g.bits.getLsbD k → m.flags.bits.getLsbD k
  parameters : ∀ qs, f.parameters? = some qs →
    List.Forall₂ TypePattern.Admits qs m.prototype.parameters
  result : ∀ d, f.result? = some d → m.prototype.result.jni = d
  strings : ∀ s ∈ f.strings, ∃ i ∈ m.instructions, i.string? = some s

theorem contains_iff {f g : AccessFlags} :
    f.contains g = true ↔ ∀ k, g.bits.getLsbD k → f.bits.getLsbD k := by
  simp only [AccessFlags.contains, beq_iff_eq]
  constructor
  · intro h k hk
    rw [← h] at hk
    simpa using And.left (by simpa using hk)
  · intro h
    ext k hk
    have := h k
    simp only [BitVec.getLsbD_eq_getElem hk] at this
    cases hg : g.bits[k] <;> simp_all

theorem acceptsParameters_iff {qs : List TypePattern} {ts : List TypeDescriptor} :
    acceptsParameters qs ts = true ↔ List.Forall₂ TypePattern.Admits qs ts := by
  rw [List.forall₂_iff_zip]
  simp only [acceptsParameters, Bool.and_eq_true, beq_iff_eq, List.all_eq_true]
  constructor
  · rintro ⟨hl, h⟩
    exact ⟨hl, fun {q t} hm => TypePattern.accepts_iff.1 (h (q, t) hm)⟩
  · rintro ⟨hl, h⟩
    exact ⟨hl, fun x hx => TypePattern.accepts_iff.2 (h hx)⟩

theorem locate?_isSome_iff {m : Method} {s : Text} :
    (locate? m s).isSome = true ↔ ∃ i ∈ m.instructions, i.string? = some s := by
  simp only [locate?, Option.isSome_map, List.find?_isSome, Method.strings, List.mem_filterMap]
  constructor
  · rintro ⟨q, ⟨⟨i, k⟩, hi, hq⟩, he⟩
    obtain ⟨t, ht, rfl⟩ := Option.map_eq_some_iff.1 hq
    exact ⟨i, List.fst_mem_of_mem_zipIdx hi, by simpa using ht.trans (by simpa using he)⟩
  · rintro ⟨i, hi, hs⟩
    obtain ⟨k, hk⟩ := List.mem_iff_getElem?.1 hi
    exact ⟨(k, s), ⟨(i, k), List.mem_zipIdx_iff_getElem?.2 hk, by simp [hs]⟩, by simp⟩

theorem fits_iff {f : Fingerprint} {m : Method} :
    f.fits m = true ↔ (∀ g, f.flags? = some g → m.flags.contains g) ∧
      (∀ qs, f.parameters? = some qs → acceptsParameters qs m.prototype.parameters) ∧
      (∀ d, f.result? = some d → m.prototype.result.jni = d) := by
  simp only [fits, Bool.and_eq_true, Option.all_eq_true, beq_iff_eq, and_assoc]

theorem isSome_mapM_iff {α β : Type} {g : α → Option β} {xs : List α} :
    (xs.mapM g).isSome = true ↔ ∀ x ∈ xs, (g x).isSome = true := by
  induction xs with
  | nil => simp
  | cons x xs ih =>
    simp only [List.mapM_cons, List.forall_mem_cons, ← ih]
    cases g x <;> cases xs.mapM g <;> simp

/-- The places of the texts are known exactly for the eligible methods. -/
theorem eligible?_isSome_iff {f : Fingerprint} {m : Method} :
    (f.eligible? m).isSome = true ↔ f.Eligible m := by
  have hs : (f.strings.mapM (locate? m)).isSome = true ↔
      ∀ s ∈ f.strings, ∃ i ∈ m.instructions, i.string? = some s := by
    simp only [isSome_mapM_iff, locate?_isSome_iff]
  rw [eligible?]
  split
  · next h =>
    obtain ⟨hf, hp, hr⟩ := fits_iff.1 h
    rw [hs]
    exact ⟨fun h => ⟨fun g hg => contains_iff.1 (hf g hg),
      fun qs hq => acceptsParameters_iff.1 (hp qs hq), hr, h⟩, Eligible.strings⟩
  · next h =>
    simp only [Option.isSome_none, Bool.false_eq_true, false_iff]
    intro he
    exact h (fits_iff.2 ⟨fun g hg => contains_iff.2 (he.flags g hg),
      fun qs hq => acceptsParameters_iff.2 (he.parameters qs hq), he.result⟩)

instance (f : Fingerprint) (m : Method) : Decidable (f.Eligible m) :=
  decidable_of_iff _ eligible?_isSome_iff

/-! ### One method -/

theorem match?_of_not_eligible {f : Fingerprint} {m : Method} (c : Class) (h : ¬ f.Eligible m) :
    f.match? m c = .ok none := by
  have : f.eligible? m = none := by simpa [← eligible?_isSome_iff] using h
  simp [match?, this]

theorem match?_of_holds {f : Fingerprint} {m : Method} {c : Class} (h : f.Eligible m)
    (hc : f.holds m c = .ok true) : ∃ places, f.match? m c = .ok (some places) := by
  obtain ⟨places, hp⟩ := Option.isSome_iff_exists.1 (eligible?_isSome_iff.2 h)
  exact ⟨places, by simp [match?, hp, hc]⟩

theorem match?_of_not_holds {f : Fingerprint} {m : Method} {c : Class}
    (hc : f.holds m c = .ok false) : f.match? m c = .ok none := by
  rw [match?]
  split <;> simp [hc]

theorem match?_of_fails {f : Fingerprint} {m : Method} {c : Class} {reason : Text}
    (h : f.Eligible m) (hc : f.holds m c = .error reason) :
    f.match? m c = .fault (.predicate f.name reason) := by
  obtain ⟨places, hp⟩ := Option.isSome_iff_exists.1 (eligible?_isSome_iff.2 h)
  simp [match?, hp, hc]

/-! ### All methods -/

variable {f : Fingerprint}

/-- Whether the condition holds of a method; a fingerprint without one has none to fail. -/
def Holds (f : Fingerprint) (e : Pool.Entry) : Prop := f.holds e.method e.owner = .ok true

instance (f : Fingerprint) (e : Pool.Entry) : Decidable (f.Holds e) :=
  match h : f.holds e.method e.owner with
  | .ok true => isTrue h
  | .ok false => isFalse (by simp [Holds, h])
  | .error _ => isFalse (by simp [Holds, h])

/-- The condition has an answer on a method, whatever it is. -/
def Answers (f : Fingerprint) (e : Pool.Entry) : Prop := ∃ b, f.holds e.method e.owner = .ok b

/-- The methods that the condition is to decide about, in their order. -/
def eligibleIn (f : Fingerprint) (es : List Pool.Entry) : List Pool.Entry :=
  es.filter fun e => f.Eligible e.method

/-- The eligible methods on which the condition holds, in their order. -/
def hitsIn (f : Fingerprint) (es : List Pool.Entry) : List Pool.Entry :=
  (f.eligibleIn es).filter fun e => f.Holds e

theorem matchesIn_cons (e : Pool.Entry) (es : List Pool.Entry) :
    f.matchesIn (e :: es) =
      match f.match? e.method e.owner with
      | .error s => .error s
      | .ok none => f.matchesIn es
      | .ok (some places) => (f.matchesIn es).map (⟨f.name, e.id, places⟩ :: ·) := by
  simp only [matchesIn, List.mapM_cons]
  cases f.match? e.method e.owner with
  | error s => rfl
  | ok r =>
    cases r <;>
      cases h : es.mapM (fun e => do
        return (← f.match? e.method e.owner).map fun places => (⟨f.name, e.id, places⟩ : Match)) <;>
      simp_all [bind, Except.bind, pure, Except.pure, Except.map]

/-- Where every question has an answer, the matches are the hits. -/
theorem matchesIn_of_answers {es : List Pool.Entry} (h : ∀ e ∈ f.eligibleIn es, f.Answers e) :
    ∃ ms, f.matchesIn es = .ok ms ∧ ms.map Match.id = (f.hitsIn es).map Pool.Entry.id ∧
      ∀ m ∈ ms, m.fingerprint = f.name := by
  induction es with
  | nil => exact ⟨[], rfl, rfl, by simp⟩
  | cons e es ih =>
    obtain ⟨ms, hms, hid, hname⟩ := ih fun d hd => h d (by
      simp only [eligibleIn, List.mem_filter, List.mem_cons] at hd ⊢
      exact ⟨.inr hd.1, hd.2⟩)
    by_cases he : f.Eligible e.method
    · obtain ⟨b, hb⟩ := h e (by simp [eligibleIn, he])
      cases b with
      | true =>
        obtain ⟨places, hp⟩ := match?_of_holds he hb
        refine ⟨⟨f.name, e.id, places⟩ :: ms, by simp [matchesIn_cons, hp, hms, Except.map], ?_, ?_⟩
        · simpa [hitsIn, eligibleIn, he, Holds, hb] using hid
        · simpa using hname
      | false =>
        refine ⟨ms, by simp [matchesIn_cons, match?_of_not_holds hb, hms], ?_, hname⟩
        simpa [hitsIn, eligibleIn, he, Holds, hb] using hid
    · refine ⟨ms, by simp [matchesIn_cons, match?_of_not_eligible e.owner he, hms], ?_, hname⟩
      simpa [hitsIn, eligibleIn, he] using hid

/-- The first eligible method on which the condition fails ends the scan. -/
theorem matchesIn_of_fails {es before after : List Pool.Entry} {e : Pool.Entry} {reason : Text}
    (hs : f.eligibleIn es = before ++ e :: after) (hb : ∀ b ∈ before, f.Answers b)
    (he : f.holds e.method e.owner = .error reason) :
    f.matchesIn es = .fault (.predicate f.name reason) := by
  induction es generalizing before with
  | nil => simp [eligibleIn] at hs
  | cons d es ih =>
    by_cases hd : f.Eligible d.method
    · have hs' : d :: f.eligibleIn es = before ++ e :: after := by
        simpa [eligibleIn, hd] using hs
      cases before with
      | nil =>
        obtain ⟨rfl, -⟩ := List.cons.inj hs'
        simp [matchesIn_cons, match?_of_fails hd he, Outcome.fault]
      | cons b before =>
        obtain ⟨rfl, ht⟩ := List.cons.inj hs'
        have ih := ih ht fun c hc => hb c (by simp [hc])
        obtain ⟨v, hv⟩ := hb d (by simp)
        cases v with
        | true =>
          obtain ⟨places, hp⟩ := match?_of_holds hd hv
          simp [matchesIn_cons, hp, ih, Outcome.fault, Except.map]
        | false => simp [matchesIn_cons, match?_of_not_holds hv, ih]
    · rw [matchesIn_cons, match?_of_not_eligible d.owner hd]
      exact ih (by simpa [eligibleIn, hd] using hs) hb

/-- Either all questions have answers or there is a first one that has none. -/
theorem answers_or_fails (es : List Pool.Entry) :
    (∀ e ∈ es, f.Answers e) ∨ ∃ before e after reason, es = before ++ e :: after ∧
      (∀ b ∈ before, f.Answers b) ∧ f.holds e.method e.owner = .error reason := by
  induction es with
  | nil => exact .inl (by simp)
  | cons e es ih =>
    cases he : f.holds e.method e.owner with
    | error reason => exact .inr ⟨[], e, es, reason, rfl, by simp, he⟩
    | ok b =>
      rcases ih with ih | ⟨before, d, after, reason, rfl, hb, hd⟩
      · exact .inl (List.forall_mem_cons.2 ⟨⟨b, he⟩, ih⟩)
      · exact .inr ⟨e :: before, d, after, reason, rfl, List.forall_mem_cons.2 ⟨⟨b, he⟩, hb⟩, hd⟩

/-! ### Questions

The same scan in any monad: `ask` answers for the condition and may do more than that. -/

section Asking
variable {m : Type → Type} [Monad m]

def matchAsking? (ask : Pool.Entry → m (Except Text Bool)) (f : Fingerprint) (e : Pool.Entry) :
    m (Outcome (Option (List StringMatch))) :=
  match f.eligible? e.method with
  | none => return .ok none
  | some places => do
    match ← ask e with
    | .ok true => return .ok (some places)
    | .ok false => return .ok none
    | .error reason => return .fault (.predicate f.name reason)

def matchesAsking (ask : Pool.Entry → m (Except Text Bool)) (f : Fingerprint) :
    List Pool.Entry → m (Outcome (List Match))
  | [] => return .ok []
  | e :: es => do
    match ← f.matchAsking? ask e with
    | .error s => return .error s
    | .ok none => matchesAsking ask f es
    | .ok (some places) =>
      let ms ← matchesAsking ask f es
      return ms.map (⟨f.name, e.id, places⟩ :: ·)

end Asking

/-- Asks the condition and writes down the method that it was asked about. -/
def askRecorded (f : Fingerprint) (e : Pool.Entry) : StateM (List Pool.Entry) (Except Text Bool) :=
  fun asked => (f.holds e.method e.owner, if f.condition?.isSome then asked ++ [e] else asked)

theorem run_askRecorded (e : Pool.Entry) (asked : List Pool.Entry) :
    (f.askRecorded e).run asked =
      (f.holds e.method e.owner, if f.condition?.isSome then asked ++ [e] else asked) := rfl

/-- A scan with the methods that its condition was asked about. -/
def scanRecorded (f : Fingerprint) (p : Pool) : Outcome Resolution × List Pool.Entry :=
  let r := (f.matchesAsking f.askRecorded p.entries).run []
  (r.1.map Resolution.ofMatches, r.2)

/-- One step of the recorded scan: at most the method itself is written down. -/
theorem run_matchAsking? (e : Pool.Entry) (asked : List Pool.Entry) :
    (f.matchAsking? f.askRecorded e).run asked = (f.match? e.method e.owner,
      asked ++ if f.asks e.method then [e] else []) := by
  obtain he | ⟨places, he⟩ := Option.eq_none_or_eq_some (f.eligible? e.method)
  · simp only [matchAsking?, match?, asks, he, Option.isSome_none, Bool.and_false, Bool.false_eq_true,
      if_false, List.append_nil]
    rfl
  · obtain hc | ⟨p, hc⟩ := Option.eq_none_or_eq_some f.condition? <;>
      rcases h : f.holds e.method e.owner with reason | _ | _ <;>
      simp only [matchAsking?, match?, asks, StateT.run_bind, run_askRecorded, he, hc, h,
        Option.isSome_none, Option.isSome_some, Bool.and_self, Bool.false_and, Bool.false_eq_true,
        if_true, if_false, List.append_nil] <;>
      rfl

theorem run_matchesAsking_cons (e : Pool.Entry) (es asked : List Pool.Entry) :
    (f.matchesAsking f.askRecorded (e :: es)).run asked =
      match f.match? e.method e.owner with
      | .error s => (.error s, asked ++ if f.asks e.method then [e] else [])
      | .ok none =>
        (f.matchesAsking f.askRecorded es).run (asked ++ if f.asks e.method then [e] else [])
      | .ok (some places) =>
        let r := (f.matchesAsking f.askRecorded es).run (asked ++ if f.asks e.method then [e] else [])
        (r.1.map (⟨f.name, e.id, places⟩ :: ·), r.2) := by
  have h := f.run_matchAsking? e asked
  simp only [StateT.run] at h
  simp only [matchesAsking, bind, StateT.bind, StateT.run, h]
  rcases f.match? e.method e.owner with s | _ | places <;> rfl

/-- The questions that a run counts end where the scan does. -/
theorem asked_cons (e : Pool.Entry) (es : List Pool.Entry) :
    f.asked (e :: es) = (if f.asks e.method then [e.id] else []) ++
      match f.match? e.method e.owner with
      | .error _ => []
      | .ok _ => f.asked es := by
  simp only [asked, asks, match?]
  obtain he | ⟨places, he⟩ := Option.eq_none_or_eq_some (f.eligible? e.method)
  · simp [he]
  · obtain hc | ⟨p, hc⟩ := Option.eq_none_or_eq_some f.condition?
    · simp [he, hc, holds]
    · rcases h : f.holds e.method e.owner with reason | _ | _ <;>
        simp [he, hc, Except.toOption, Outcome.fault]

/-- Writing the questions down changes no answer, and they are the ones that a run counts. -/
theorem run_matchesAsking (es asked : List Pool.Entry) :
    ∃ new, (f.matchesAsking f.askRecorded es).run asked = (f.matchesIn es, asked ++ new) ∧
      new.map Pool.Entry.id = f.asked es ∧ ∀ e ∈ new, e ∈ es ∧ f.Eligible e.method := by
  induction es generalizing asked with
  | nil => exact ⟨[], by rw [List.append_nil]; rfl, rfl, by simp⟩
  | cons e es ih =>
    have hask : ∀ d ∈ if f.asks e.method then [e] else [], d ∈ e :: es ∧ f.Eligible d.method := by
      intro d hd
      split at hd
      · next h =>
        cases List.mem_singleton.1 hd
        exact ⟨by simp, eligible?_isSome_iff.1 (by simp only [asks, Bool.and_eq_true] at h; exact h.2)⟩
      · simp at hd
    obtain ⟨new, hrun, hid, hmem⟩ := ih (asked ++ if f.asks e.method then [e] else [])
    have hmem' : ∀ d ∈ (if f.asks e.method then [e] else []) ++ new,
        d ∈ e :: es ∧ f.Eligible d.method := by
      intro d hd
      rcases List.mem_append.1 hd with hd | hd
      · exact hask d hd
      · exact ⟨List.mem_cons_of_mem _ (hmem d hd).1, (hmem d hd).2⟩
    rw [run_matchesAsking_cons, matchesIn_cons, asked_cons, hrun]
    rcases f.match? e.method e.owner with s | _ | places
    · exact ⟨_, rfl, by split <;> simp, hask⟩
    · exact ⟨_, by simp, by split <;> simp [hid], hmem'⟩
    · exact ⟨_, by simp, by split <;> simp [hid], hmem'⟩

/-! ### The scan of a pool -/

/-- Where every question has an answer, the hits decide what the scan says. -/
theorem scan_of_answers {p : Pool} (h : ∀ e ∈ f.eligibleIn p.entries, f.Answers e) :
    ∃ ms, f.scan p = .ok (.ofMatches ms) ∧
      ms.map Match.id = (f.hitsIn p.entries).map Pool.Entry.id ∧ ∀ m ∈ ms, m.fingerprint = f.name := by
  obtain ⟨ms, hms, hid, hname⟩ := matchesIn_of_answers h
  exact ⟨ms, by simp [scan, hms, Except.map], hid, hname⟩

theorem scan_of_fails {p : Pool} {before after : List Pool.Entry} {e : Pool.Entry} {reason : Text}
    (hs : f.eligibleIn p.entries = before ++ e :: after) (hb : ∀ b ∈ before, f.Answers b)
    (he : f.holds e.method e.owner = .error reason) :
    f.scan p = .fault (.predicate f.name reason) := by
  simp [scan, matchesIn_of_fails hs hb he, Outcome.fault, Except.map]

/-- An answer of a scan is one of three, by the number of hits. -/
theorem ofMatches_cases {ms : List Match} {hits : List Pool.Entry}
    (hid : ms.map Match.id = hits.map Pool.Entry.id) (hname : ∀ m ∈ ms, m.fingerprint = f.name) :
    (hits = [] ∧ Resolution.ofMatches ms = .notFound) ∨
    (∃ e places, hits = [e] ∧ Resolution.ofMatches ms = .found ⟨f.name, e.id, places⟩) ∨
    (2 ≤ hits.length ∧ Resolution.ofMatches ms = .ambiguous (hits.map Pool.Entry.id)) := by
  match ms, hits with
  | [], [] => exact .inl ⟨rfl, rfl⟩
  | [⟨name, id, places⟩], [e] =>
    obtain rfl : name = f.name := hname ⟨name, id, places⟩ (by simp)
    obtain rfl : id = e.id := List.singleton_inj.1 hid
    exact .inr (.inl ⟨e, places, rfl, rfl⟩)
  | m :: n :: ms, d :: e :: hits => exact .inr (.inr ⟨by simp, congrArg Resolution.ambiguous hid⟩)
  | [], _ :: _ | _ :: _, [] | [_], _ :: _ :: _ | _ :: _ :: _, [_] => simp at hid

end Fingerprint

/-- The order of methods: by class, then by place in the class. -/
def MethodId.Before (a b : MethodId) : Prop :=
  a.owner < b.owner ∨ a.owner = b.owner ∧ a.index < b.index

theorem pairwise_zipIdx {α : Type} (xs : List α) : xs.zipIdx.Pairwise fun a b => a.2 < b.2 := by
  have : (xs.zipIdx.map Prod.snd).Pairwise (· < ·) := by
    rw [List.zipIdx_map_snd]
    exact List.pairwise_lt_range'
  exact List.pairwise_map.1 this

/-- A pool has its methods in order. -/
theorem Pool.pairwise_entries (p : Pool) : p.entries.Pairwise fun a b => a.id.Before b.id := by
  rw [entries, List.pairwise_flatMap]
  constructor
  · intro c _
    exact List.pairwise_map.2 ((pairwise_zipIdx _).imp fun h => .inr ⟨rfl, h⟩)
  · refine (pairwise_zipIdx _).imp fun h => ?_
    intro x hx y hy
    obtain ⟨a, -, rfl⟩ := List.mem_map.1 hx
    obtain ⟨b, -, rfl⟩ := List.mem_map.1 hy
    exact .inl h

namespace Fingerprint

variable {f : Fingerprint}

/-- A scan fails exactly if the condition fails on an eligible method, with the reason of the first
one. Otherwise it tells no hit, one hit and several apart, and names the hits, in order and each
once. The condition is asked about eligible methods only. -/
theorem scan_decides (f : Fingerprint) (p : Pool) :
    (∀ s, f.scan p = .error s ↔ ∃ before e after reason,
      f.eligibleIn p.entries = before ++ e :: after ∧ (∀ b ∈ before, f.Answers b) ∧
        f.holds e.method e.owner = .error reason ∧ s = .fault (.predicate f.name reason)) ∧
    (f.scan p = .ok .notFound ↔
      (∀ e ∈ f.eligibleIn p.entries, f.Answers e) ∧ f.hitsIn p.entries = []) ∧
    (∀ id, (∃ places, f.scan p = .ok (.found ⟨f.name, id, places⟩)) ↔
      (∀ e ∈ f.eligibleIn p.entries, f.Answers e) ∧ ∃ e, f.hitsIn p.entries = [e] ∧ e.id = id) ∧
    (∀ ids, f.scan p = .ok (.ambiguous ids) ↔
      (∀ e ∈ f.eligibleIn p.entries, f.Answers e) ∧ 2 ≤ (f.hitsIn p.entries).length ∧
        ids = (f.hitsIn p.entries).map Pool.Entry.id) ∧
    ((f.hitsIn p.entries).map Pool.Entry.id).Pairwise MethodId.Before ∧
    ((f.scanRecorded p).1 = f.scan p ∧
      ∀ e ∈ (f.scanRecorded p).2, e ∈ p.entries ∧ f.Eligible e.method) ∧
    ∀ s t, (TypePattern.ofText s).Admits t ↔ (s = "L" ∧ ∃ n, t = .object n) ∨
      (s = "[" ∧ ∃ e, t = .array e) ∨ (s ≠ "L" ∧ s ≠ "[" ∧ t.jni = s) := by
  have horder : ((f.hitsIn p.entries).map Pool.Entry.id).Pairwise MethodId.Before :=
    List.pairwise_map.2 ((p.pairwise_entries.filter _).filter _)
  obtain ⟨new, hrun, -, hnew⟩ := f.run_matchesAsking p.entries []
  have hrecord : f.scanRecorded p = (f.scan p, new) := by
    simp [scanRecorded, hrun, scan]
  rw [hrecord]
  rcases f.answers_or_fails (f.eligibleIn p.entries) with h | ⟨before, e, after, reason, hs, hb, he⟩
  · obtain ⟨ms, hscan, hid, hname⟩ := scan_of_answers h
    have hnone : ∀ before e after reason, f.eligibleIn p.entries = before ++ e :: after →
        f.holds e.method e.owner ≠ .error reason := by
      intro before e after reason hs he
      obtain ⟨b, hb⟩ := h e (by simp [hs])
      simp [hb] at he
    simp only [hscan, iff_true_intro h, true_and]
    refine ⟨fun s => ⟨by simp, fun ⟨_, _, _, _, hs, _, he, _⟩ => (hnone _ _ _ _ hs he).elim⟩, ?_, ?_,
      ?_, horder, hnew, fun _ _ => TypePattern.admits_ofText_iff⟩
    all_goals
      rcases ofMatches_cases hid hname with ⟨hhits, hms⟩ | ⟨e, places, hhits, hms⟩ | ⟨hhits, hms⟩
    · simp [hhits, hms]
    · simp [hhits, hms]
    · grind
    · simp [hhits, hms]
    · simp [hhits, hms]
    · grind
    · simp [hhits, hms]
    · simp [hhits, hms]
    · grind
  · have hscan := scan_of_fails hs hb he
    have hno : ¬ ∀ e ∈ f.eligibleIn p.entries, f.Answers e := by
      intro h
      obtain ⟨b, hb⟩ := h e (by simp [hs])
      simp [hb] at he
    refine ⟨fun s => ⟨fun h => ⟨before, e, after, reason, hs, hb, he, ?_⟩, ?_⟩, ?_, ?_, ?_, horder, ⟨rfl,
      hnew⟩, fun _ _ => TypePattern.admits_ofText_iff⟩
    · exact Except.error.inj (h.symm.trans hscan)
    · rintro ⟨_, _, _, _, hs, hb, he, rfl⟩
      exact scan_of_fails hs hb he
    all_goals simp [hscan, hno, Outcome.fault]

end Fingerprint

end DalvikPatch
