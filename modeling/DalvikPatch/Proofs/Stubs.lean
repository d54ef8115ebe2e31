import DalvikPatch.Proofs.Discovery
import DalvikPatch.Proofs.Eager
import DalvikPatch.Proofs.Frames

/-! How often the patch of the code puts a stub into a method. Each fingerprint of a method to be left
at once is looked up among the loaded classes, and the method it names gets a stub in front of
what it has, be that a stub already. Two fingerprints may name one method. -/

namespace DalvikPatch

open Text

/-! ### One stub -/

/-- The instructions by which a method returns nothing, zero or null. -/
def Method.stub (m : Method) : List Instruction :=
  (DalvikPatch.stub m.prototype.result false).toOption.getD []

namespace Method

theorem isStub_stub (m : Method) : IsStub m.prototype.result false m.stub := by
  obtain ⟨block, hblock⟩ := exists_isStub m.prototype.result false nofun
  rw [stub, hblock.made]
  exact hblock

theorem stub_eq (m : Method) : DalvikPatch.stub m.prototype.result false = .ok m.stub := m.isStub_stub.made

theorem length_stub (m : Method) :
    m.stub.length = if ReturnKind.ofType m.prototype.result = .nothing then 1 else 2 := m.isStub_stub.length

end Method

namespace Edit

variable {e e' : Editor}

/-- A stub stands in front of what a method had. -/
theorem returnEarly_cases (h : exec (returnEarly false) e = (.ok (), e')) :
    e'.method.prototype = e.method.prototype ∧
    e'.method.instructions = e.method.stub ++ e.method.instructions := by
  rcases exec_returnEarly false e with
    ⟨m', block, e₁, hgrown, hstub, hinsert, hrun⟩ | ⟨-, s, hrun⟩ | ⟨-, m', -, hrun⟩
  · rw [hrun] at h
    cases h
    obtain ⟨rfl, hinstructions, -⟩ := insert_front hinsert
    have hblock : block = e.method.stub := Except.ok.inj (hstub.made.symm.trans e.method.stub_eq)
    refine ⟨?_, ?_⟩
    · rw [hgrown.same]
    · rw [hinstructions, hblock, hgrown.instructions]
  · rw [hrun] at h
    cases h
  · rw [hrun] at h
    cases h

theorem replace_keeps {k : Nat} {i : Instruction} (h : exec (replace k i) e = (.ok (), e')) :
    e'.method.prototype = e.method.prototype ∧
    e'.method.instructions = e.method.instructions.set k i := by
  obtain ⟨he', -, hinstructions, -⟩ := ListEdit.step_refines (o := .replace k i) h
  exact ⟨by rw [he'], hinstructions⟩

/-- A text that replaces an instruction holds one. -/
theorem replaceText_cases {k : Nat} {s : Text} (h : exec (replaceText k s) e = (.ok (), e')) :
    ∃ i, Instruction.readAll s = .ok [i] ∧ exec (replace k i) e = (.ok (), e') := by
  obtain ⟨block, e₁, hread, h⟩ := exists_of_exec_bind h
  cases hs : Instruction.readAll s with
  | error f => simp [check, hs, Outcome.ofInstruction] at hread
  | ok block' =>
    obtain ⟨rfl, rfl⟩ : block' = block ∧ e = e₁ := by simpa [check, hs, Outcome.ofInstruction] using hread
    split at h
    · exact ⟨_, rfl, h⟩
    · simp at h

end Edit

/-- One instruction is replaced in the method that hands out the package name. -/
theorem GmsCore.editPrime_cases {old new : Text} {e e' : Editor}
    (h : exec (GmsCore.editPrime old new) e = (.ok (), e')) :
    e'.method.prototype = e.method.prototype ∧
    e'.method.instructions.length = e.method.instructions.length := by
  have hlooks : ∀ what p k e₁, exec (Edit.findFirst what p) e = (.ok k, e₁) → e₁ = e := by
    intro what p k e₁ hfind
    cases hp : e.indexOf? p <;> simp_all [Edit.findFirst]
  obtain ⟨k, e₁, hfind, h₁⟩ := exists_of_exec_bind h
  obtain rfl := hlooks _ _ _ _ hfind
  obtain ⟨i, e₂, hlook, h₂⟩ := exists_of_exec_bind h₁
  obtain rfl : e₂ = e₁ := by
    cases hi : e₁.method.instructions[k]? <;> simp_all [Edit.instruction]
  obtain ⟨load, e₃, hcheck, h₃⟩ := exists_of_exec_bind h₂
  obtain rfl : e₃ = e₂ := (congrArg Prod.snd hcheck).symm
  obtain ⟨hprototype, hinstructions⟩ := Edit.replace_keeps h₃
  exact ⟨hprototype, by rw [hinstructions, List.length_set]⟩

/-! ### Methods of a run -/

theorem Method.length_instructions_rename (m : Method) (chain : Chain) :
    (m.rename chain).instructions.length = m.instructions.length := by
  have hsome : ∀ item : BodyItem,
      (item.rename chain).instruction?.isSome = item.instruction?.isSome := by
    rintro (i | l | n | d) <;> rfl
  simp only [instructions, rename, List.filterMap_map, List.length_filterMap_eq_countP, Function.comp,
    hsome]

namespace Workspace

theorem method?_rename (w : Workspace) (chain : Chain) (id : MethodId) :
    (w.rename chain).method? id = (w.method? id).map (·.rename chain) := by
  rw [method?, method?, class?, class?, classes_rename, List.getElem?_map]
  cases w.classes[id.owner]? with
  | none => rfl
  | some k => exact List.getElem?_map

theorem method?_ofPool (p : Pool) (id : MethodId) : (ofPool p).method? id = p.method? id := by
  rw [method?, class?, classes_ofPool, Pool.method?, Pool.class?]

theorem method?_of_modify {w w' : Workspace} {id : MethodId} {m m' : Method} (hm : w.method? id = some m)
    (h : w'.classes = w.classes.modify id.owner fun k =>
      { k with methods := k.methods.modify id.index fun _ => m' }) (j : MethodId) :
    w'.method? j = if j = id then some m' else w.method? j := by
  obtain ⟨k, hk, hm⟩ := Option.bind_eq_some_iff.1 hm
  rw [class?] at hk
  obtain ⟨owner, index⟩ := j
  rw [method?, class?, h, List.getElem?_modify, method?, class?]
  by_cases howner : id.owner = owner
  · subst howner
    by_cases hindex : id.index = index
    · subst hindex
      simp [hk, hm]
    · have hne : (⟨id.owner, index⟩ : MethodId) ≠ id := fun hid => hindex (congrArg MethodId.index hid).symm
      simp [hk, hne, hindex]
  · have hne : (⟨owner, index⟩ : MethodId) ≠ id := fun hid => howner (congrArg MethodId.owner hid).symm
    simp [hne, howner]

end Workspace

namespace Context

variable {c c' : Context}

/-- An edit that succeeds makes one method what the edit makes of it. -/
theorem exec_edit_cases {α : Type} {id : MethodId} {x : Edit α} {a : α}
    (h : exec (Run.edit id x) c = (.ok a, c')) :
    ∃ m e, c.workspace.method? id = some m ∧ exec x ⟨c.pool.describe id, m⟩ = (.ok a, e) ∧
      (c'.pool = c.pool ∧ c'.resolutions = c.resolutions) ∧
      ∀ j, c'.workspace.method? j = if j = id then some e.method else c.workspace.method? j := by
  obtain ⟨hanswer, hclasses⟩ := edited_eq c.workspace id x
  rw [exec_edit, hanswer] at h
  obtain ⟨hanswer, rfl⟩ := Prod.mk.inj h
  simp only [Operation.editCopies] at hanswer hclasses
  split at hanswer
  · next m₀ m hp hm =>
    rw [Editor.open?] at hanswer
    simp only [hp, hm, Editor.open?] at hclasses
    by_cases hbody : m.hasImplementation
    · simp only [hbody, if_true] at hanswer hclasses
      exact ⟨m, _, hm, Prod.ext hanswer rfl, ⟨pool_edited c.workspace id x, rfl⟩,
        Workspace.method?_of_modify hm hclasses⟩
    · simp [hbody, Outcome.fault] at hanswer
  · cases hanswer

/-- What an edit does to any method that it succeeds on, it has done to the one that was edited. -/
theorem exec_edit_methods {α : Type} {id : MethodId} {x : Edit α} {a : α} {P : Method → Method → Prop}
    (h : exec (Run.edit id x) c = (.ok a, c'))
    (hx : ∀ e e', exec x e = (.ok a, e') → P e.method e'.method) {j : MethodId} {m : Method}
    (hm : c.workspace.method? j = some m) :
    ∃ m', c'.workspace.method? j = some m' ∧ if j = id then P m m' else m' = m := by
  obtain ⟨m₀, e, hm₀, hexec, -, hmethods⟩ := exec_edit_cases h
  rw [hmethods]
  by_cases hj : j = id
  · rw [hj, hm₀] at hm
    cases hm
    exact ⟨e.method, if_pos hj, by rw [if_pos hj]; exact hx _ e hexec⟩
  · exact ⟨m, by rw [if_neg hj, hm], by rw [if_neg hj]⟩

/-! ### What a run recalls -/

/-- A run in which no other fingerprints have been looked up among the loaded classes. -/
def Recalls (c : Context) (p : Pool) (known : List Fingerprint) : Prop :=
  ∃ called, called ⊆ known ∧ c.Remembers p called

variable {p : Pool} {known : List Fingerprint} {f : Fingerprint}

theorem Recalls.of_resolutions_eq (h : c.Recalls p known) (hp : c'.pool = c.pool)
    (hr : c'.resolutions = c.resolutions) : c'.Recalls p known := by
  obtain ⟨called, hcalled, h⟩ := h
  exact ⟨called, hcalled, h.of_resolutions_eq hp hr⟩

theorem Recalls.looked (h : c.Recalls p known) (hf : f ∈ known) : (c.looked f).Recalls p known := by
  obtain ⟨called, hcalled, h⟩ := h
  exact ⟨called ++ [f], List.append_subset.2 ⟨hcalled, by simpa using hf⟩, h.looked f⟩

theorem Recalls.found_eq (h : c.Recalls p known)
    (distinct : ∀ g ∈ known, g.identity = f.identity → g = f) : c.found f = f.scan p := by
  obtain ⟨called, hcalled, h⟩ := h
  exact h.found fun g hg => distinct g (hcalled hg)

theorem Recalls.pool_eq (h : c.Recalls p known) : c.pool = p := by
  obtain ⟨called, -, h⟩ := h
  exact h.pool_eq

theorem Recalls.exec_resolve (h : c.Recalls p known)
    (distinct : ∀ g ∈ known, g.identity = f.identity → g = f) :
    exec (Run.resolve f) c = (f.resolve p, c.looked f) := by
  rw [Context.exec_resolve, h.found_eq distinct, h.pool_eq]
  rfl

/-- Looking for a method that need not be there. -/
theorem Recalls.exec_probe (h : c.Recalls p known)
    (distinct : ∀ g ∈ known, g.identity = f.identity → g = f) {m? : Option Match}
    (hrun : exec (Run.resolve? f) c = (.ok m?, c')) :
    c' = c.looked f ∧ m? = (f.resolve p).toOption ∧
      ((∃ m, f.resolve p = .ok m) ∨ f.resolve p = .fault (.unresolved f.name)) := by
  rw [Context.exec_probe, h.found_eq distinct, h.pool_eq] at hrun
  obtain ⟨hanswer, rfl⟩ := Prod.mk.inj hrun
  refine ⟨rfl, ?_⟩
  rw [Fingerprint.resolve]
  cases hs : f.scan p with
  | error s => simp [hs, Except.bind] at hanswer
  | ok r =>
    cases r with
    | found m =>
      obtain rfl : some m = m? := by simpa [hs, Except.bind, Resolution.unique, Except.map] using hanswer
      exact ⟨rfl, .inl ⟨m, rfl⟩⟩
    | notFound =>
      obtain rfl : none = m? := by simpa [hs, Except.bind] using hanswer
      exact ⟨rfl, .inr rfl⟩
    | ambiguous ids => simp [hs, Except.bind, Resolution.unique, Except.map, Outcome.fault] at hanswer

end Context

/-! ### Stubs in a run -/

/-- The method that a fingerprint names. -/
def Fingerprint.method? (f : Fingerprint) (p : Pool) : Option MethodId :=
  (f.resolve p).toOption.map Match.id

/-- Stubs were put in front of methods, one for each time that a method is listed. -/
def Workspace.Stubbed (w w' : Workspace) (ids : List MethodId) : Prop :=
  ∀ id m, w.method? id = some m → ∃ m', w'.method? id = some m' ∧ m'.prototype = m.prototype ∧
    m'.instructions = (List.replicate (ids.count id) m.stub).flatten ++ m.instructions

namespace Workspace.Stubbed

variable {w w' w'' : Workspace} {ids ids' : List MethodId}

theorem refl (w : Workspace) : w.Stubbed w [] := fun _ m hm => ⟨m, hm, rfl, rfl⟩

theorem trans (h : w.Stubbed w' ids) (h' : w'.Stubbed w'' ids') : w.Stubbed w'' (ids ++ ids') := by
  intro id m hm
  obtain ⟨m', hm', hprototype, hinstructions⟩ := h id m hm
  obtain ⟨m'', hm'', hprototype', hinstructions'⟩ := h' id m' hm'
  have hstub : m'.stub = m.stub := by rw [Method.stub, hprototype, Method.stub]
  refine ⟨m'', hm'', hprototype'.trans hprototype, ?_⟩
  rw [hinstructions', hinstructions, hstub, List.count_append, Nat.add_comm, List.replicate_add,
    List.flatten_append, List.append_assoc]

end Workspace.Stubbed

namespace Context

variable {c c' : Context}

theorem stubbed_of_edit {id : MethodId} (h : exec (Run.edit id (Edit.returnEarly false)) c = (.ok (), c')) :
    c.workspace.Stubbed c'.workspace [id] := by
  intro j m hm
  obtain ⟨m', hm', hedited⟩ := exec_edit_methods h
    (P := fun m m' => m'.prototype = m.prototype ∧ m'.instructions = m.stub ++ m.instructions)
    (fun _ _ => Edit.returnEarly_cases) hm
  refine ⟨m', hm', ?_⟩
  by_cases hj : j = id
  · rw [if_pos hj] at hedited
    simpa [hj] using hedited
  · rw [if_neg hj] at hedited
    simp [hedited, Ne.symm hj]

/-- The methods that fingerprints name were stubbed, and nothing is forgotten. -/
structure Stubs (p : Pool) (known : List Fingerprint) (c : Context) (fs : List Fingerprint)
    (c' : Context) : Prop where
  recalls : c'.Recalls p known
  stubbed : c.workspace.Stubbed c'.workspace (fs.filterMap fun f => f.method? p)

variable {p : Pool} {known fs fs' : List Fingerprint} {f : Fingerprint}

theorem Stubs.trans {c'' : Context} (h : Stubs p known c fs c') (h' : Stubs p known c' fs' c'') :
    Stubs p known c (fs ++ fs') c'' :=
  ⟨h'.recalls, by
    rw [List.filterMap_append]
    exact h.stubbed.trans h'.stubbed⟩

/-- A method that was just looked up is stubbed. -/
theorem Recalls.stub {r : Match} (h : c.Recalls p known) (hf : f ∈ known) (hr : f.resolve p = .ok r)
    (hrun : exec (Run.edit r.id (Edit.returnEarly false)) (c.looked f) = (.ok (), c')) :
    Stubs p known c [f] c' := by
  obtain ⟨-, -, -, -, ⟨hpool, hresolutions⟩, -⟩ := exec_edit_cases hrun
  have hids : [f].filterMap (fun f => f.method? p) = [r.id] := by
    simp [Fingerprint.method?, hr, Except.toOption]
  refine ⟨(h.looked hf).of_resolutions_eq hpool hresolutions, ?_⟩
  rw [hids, ← workspace_looked c f]
  exact stubbed_of_edit hrun

section

variable (distinct : ∀ f ∈ known, ∀ g ∈ known, g.identity = f.identity → g = f)

include distinct

theorem Recalls.returnEarly (h : c.Recalls p known) (hf : f ∈ known)
    (hrun : exec (Patch.returnEarly f) c = (.ok (), c')) :
    (∃ r, f.resolve p = .ok r) ∧ Stubs p known c [f] c' := by
  obtain ⟨r, c₁, hresolve, hedit⟩ := exists_of_exec_bind hrun
  rw [h.exec_resolve (distinct f hf)] at hresolve
  obtain ⟨hr, rfl⟩ := Prod.mk.inj hresolve
  exact ⟨⟨r, hr⟩, h.stub hf hr hedit⟩

theorem Recalls.forM_returnEarly (h : c.Recalls p known) (hfs : fs ⊆ known)
    (hrun : exec (fs.forM Patch.returnEarly) c = (.ok (), c')) :
    (∀ f ∈ fs, ∃ r, f.resolve p = .ok r) ∧ Stubs p known c fs c' := by
  induction fs generalizing c with
  | nil =>
    cases hrun
    exact ⟨nofun, h, .refl _⟩
  | cons f fs ih =>
    obtain ⟨hf, hfs⟩ := List.cons_subset.1 hfs
    obtain ⟨⟨⟩, c₁, hfirst, hrest⟩ := exists_of_exec_bind hrun
    obtain ⟨hr, hstubs⟩ := h.returnEarly distinct hf hfirst
    obtain ⟨hrs, hstubs'⟩ := ih hstubs.recalls hfs hrest
    exact ⟨List.forall_mem_cons.2 ⟨hr, hrs⟩, hstubs.trans hstubs'⟩

/-- A stub for a method that need not be there. -/
theorem Recalls.returnEarly? (h : c.Recalls p known) (hf : f ∈ known)
    (hrun : exec (GmsCore.returnEarly? f) c = (.ok (), c')) :
    ((∃ r, f.resolve p = .ok r) ∨ f.resolve p = .fault (.unresolved f.name)) ∧
      Stubs p known c [f] c' := by
  obtain ⟨r?, c₁, hprobe, hedit⟩ := exists_of_exec_bind hrun
  obtain ⟨rfl, rfl, hr⟩ := h.exec_probe (distinct f hf) hprobe
  refine ⟨hr, ?_⟩
  cases hm : f.resolve p with
  | error s =>
    rw [hm] at hedit
    cases hedit
    refine ⟨h.looked hf, ?_⟩
    have hids : [f].filterMap (fun f => f.method? p) = [] := by
      simp [Fingerprint.method?, hm, Except.toOption]
    rw [hids, workspace_looked]
    exact .refl _
  | ok r =>
    rw [hm] at hedit
    exact h.stub hf hm hedit

/-- The method that hands out the package name is edited, with as many instructions as before. -/
theorem Recalls.editPrimeMethod (h : c.Recalls p known) {prime? : Option Fingerprint}
    {early : List Fingerprint} (hprime : ∀ f ∈ prime?, f ∈ known) {old new : Text}
    (hrun : exec (GmsCore.editPrimeMethod ⟨prime?, early⟩ old new) c = (.ok (), c')) :
    c'.Recalls p known ∧ ∀ id m, c.workspace.method? id = some m → ∃ m', c'.workspace.method? id = some m' ∧
      m'.prototype = m.prototype ∧ m'.instructions.length = m.instructions.length ∧
      ((∀ f ∈ prime?, f.method? p ≠ some id) → m' = m) := by
  cases prime? with
  | none =>
    cases hrun
    exact ⟨h, fun _ m hm => ⟨m, hm, rfl, rfl, fun _ => rfl⟩⟩
  | some f =>
    have hf := hprime f rfl
    obtain ⟨r, c₁, hresolve, hedit⟩ := exists_of_exec_bind (g := fun r : Match => Run.edit r.id _) hrun
    rw [h.exec_resolve (distinct f hf)] at hresolve
    obtain ⟨hr, rfl⟩ := Prod.mk.inj hresolve
    obtain ⟨-, -, -, -, ⟨hpool, hresolutions⟩, -⟩ := exec_edit_cases hedit
    refine ⟨(h.looked hf).of_resolutions_eq hpool hresolutions, fun id m hm => ?_⟩
    rw [← workspace_looked c f] at hm
    obtain ⟨m', hm', hedited⟩ := exec_edit_methods hedit
      (P := fun m m' => m'.prototype = m.prototype ∧ m'.instructions.length = m.instructions.length)
      (fun _ _ => GmsCore.editPrime_cases) hm
    refine ⟨m', hm', ?_⟩
    by_cases hid : id = r.id
    · rw [if_pos hid] at hedited
      refine ⟨hedited.1, hedited.2, fun hno => ?_⟩
      exact absurd (by simp [Fingerprint.method?, hr, Except.toOption, hid]) (hno f rfl)
    · rw [if_neg hid] at hedited
      exact ⟨by rw [hedited], by rw [hedited], fun _ => hedited⟩

/-- The first instruction of the method that tells the vendor is replaced with another. -/
theorem Recalls.tellVendor (h : c.Recalls p known) (hf : GmsCore.gmsCoreSupport ∈ known) {vendor : Text}
    (hrun : exec (GmsCore.tellVendor vendor) c = (.ok (), c')) :
    ∃ r i, GmsCore.gmsCoreSupport.resolve p = .ok r ∧
      Instruction.readAll (GmsCore.vendorLoad vendor) = .ok [i] ∧
      ∀ id m, c.workspace.method? id = some m → ∃ m', c'.workspace.method? id = some m' ∧
        m'.instructions = if id = r.id then m.instructions.set 0 i else m.instructions := by
  obtain ⟨r, c₁, hresolve, hedit⟩ := exists_of_exec_bind hrun
  rw [h.exec_resolve (distinct _ hf)] at hresolve
  obtain ⟨hr, rfl⟩ := Prod.mk.inj hresolve
  obtain ⟨_, _, -, hexec, -⟩ := exec_edit_cases hedit
  obtain ⟨i, hi, -⟩ := Edit.replaceText_cases hexec
  refine ⟨r, i, hr, hi, fun id m hm => ?_⟩
  rw [← workspace_looked c] at hm
  have hreplaced : ∀ e e', exec (Edit.replaceText 0 (GmsCore.vendorLoad vendor)) e = (.ok (), e') →
      e'.method.instructions = e.method.instructions.set 0 i := by
    intro e e' he
    obtain ⟨j, hj, hreplace⟩ := Edit.replaceText_cases he
    obtain rfl : i = j := by simpa [hi] using hj
    exact (Edit.replace_keeps hreplace).2
  obtain ⟨m', hm', hedited⟩ := exec_edit_methods hedit
    (P := fun m m' => m'.instructions = m.instructions.set 0 i) hreplaced hm
  refine ⟨m', hm', ?_⟩
  by_cases hid : id = r.id
  · rwa [if_pos hid] at hedited ⊢
  · rw [if_neg hid] at hedited ⊢
    rw [hedited]

end

end Context

/-- A fingerprint names a method that is there. -/
theorem Fingerprint.isSome_of_mem_method? {f : Fingerprint} {p : Pool} {id : MethodId}
    (h : f.method? p = some id) : (p.method? id).isSome := by
  obtain ⟨r, hr, rfl⟩ := Option.map_eq_some_iff.1 h
  rw [resolve] at hr
  rcases f.answers_or_fails (f.eligibleIn p.entries) with ha | ⟨_, _, _, _, hs, hb, he⟩
  · obtain ⟨ms, hms, hid, hname⟩ := scan_of_answers ha
    rw [hms] at hr
    rcases ofMatches_cases hid hname with ⟨-, hm⟩ | ⟨e, places, hhits, hm⟩ | ⟨-, hm⟩
    · simp [hm, bind, Except.bind, Resolution.unique, Outcome.fault, Except.toOption] at hr
    · obtain rfl : ⟨f.name, e.id, places⟩ = r := by
        simpa [hm, bind, Except.bind, Resolution.unique, Except.toOption] using hr
      have he : e ∈ f.hitsIn p.entries := by simp [hhits]
      obtain ⟨howner, hmethod⟩ := Pool.mem_entries.1 (List.mem_of_mem_filter (List.mem_of_mem_filter he))
      simp [Pool.method?, howner, hmethod]
    · simp [hm, bind, Except.bind, Resolution.unique, Outcome.fault, Except.toOption] at hr
  · rw [scan_of_fails hs hb he] at hr
    simp [bind, Except.bind, Outcome.fault, Except.toOption] at hr

namespace GmsCore

/-- The fingerprints of methods that get a stub. -/
def AppMethods.stubbing (app : AppMethods) : List Fingerprint :=
  app.early ++ [serviceCheck, googlePlayUtility, googlePlayUtility2]

/-- All fingerprints that are looked up. -/
def AppMethods.fingerprints (app : AppMethods) : List Fingerprint :=
  app.prime?.toList ++ app.stubbing ++ [gmsCoreSupport]

/-- The methods that get a stub, each as often as fingerprints name it. -/
def AppMethods.stubbed (app : AppMethods) (p : Pool) : List MethodId :=
  app.stubbing.filterMap fun f => f.method? p

variable {p : Pool} {known : List Fingerprint} {app : AppMethods} {c c' : Context}

theorem returnAllEarly_cases (hc : c.Recalls p known) (hknown : app.stubbing ⊆ known)
    (distinct : ∀ f ∈ known, ∀ g ∈ known, g.identity = f.identity → g = f)
    (h : exec (returnAllEarly app) c = (.ok (), c')) :
    (∀ f ∈ app.early ++ [serviceCheck], ∃ r, f.resolve p = .ok r) ∧
    (∀ f ∈ [googlePlayUtility, googlePlayUtility2],
      (∃ r, f.resolve p = .ok r) ∨ f.resolve p = .fault (.unresolved f.name)) ∧
    Context.Stubs p known c app.stubbing c' := by
  obtain ⟨hearly, hrest⟩ := List.append_subset.1 hknown
  obtain ⟨⟨⟩, c₁, hstubs, h₁⟩ := exists_of_exec_bind h
  obtain ⟨⟨⟩, c₂, hcheck, h₂⟩ := exists_of_exec_bind h₁
  obtain ⟨⟨⟩, c₃, hplay, hplay2⟩ := exists_of_exec_bind h₂
  obtain ⟨hr, hc₁⟩ := hc.forM_returnEarly distinct hearly hstubs
  obtain ⟨hr₂, hc₂⟩ := hc₁.recalls.returnEarly distinct (hrest (by simp)) hcheck
  obtain ⟨hr₃, hc₃⟩ := hc₂.recalls.returnEarly? distinct (hrest (by simp)) hplay
  obtain ⟨hr₄, hc₄⟩ := hc₃.recalls.returnEarly? distinct (hrest (by simp)) hplay2
  refine ⟨?_, ?_, ?_⟩
  · intro f hf
    rcases List.mem_append.1 hf with hf | hf
    · exact hr f hf
    · exact List.mem_singleton.1 hf ▸ hr₂
  · simpa using ⟨hr₃, hr₄⟩
  · simpa [AppMethods.stubbing] using hc₁.trans (hc₂.trans (hc₃.trans hc₄))

/-- What the patch of the code makes of a method that is named `n` times: that many stubs in front of
its own instructions, which are as many as before. -/
theorem patchCode_cases (hc : c.Recalls p app.fingerprints)
    (hp : ∀ id, c.workspace.method? id = p.method? id)
    (distinct : ∀ f ∈ app.fingerprints, ∀ g ∈ app.fingerprints, g.identity = f.identity → g = f)
    (h : exec (patchCode app) c = (.ok (), c')) :
    ∃ vendor old new getter load,
      (vendorSetting.require c.options = .ok vendor ∧ c.packages.declared = .ok old ∧
        c.packages.target = .ok new) ∧
      (gmsCoreSupport.resolve p = .ok getter ∧ Instruction.readAll (vendorLoad vendor) = .ok [load]) ∧
      ((∀ f ∈ app.early ++ [serviceCheck], ∃ r, f.resolve p = .ok r) ∧
        ∀ f ∈ [googlePlayUtility, googlePlayUtility2],
          (∃ r, f.resolve p = .ok r) ∨ f.resolve p = .fault (.unresolved f.name)) ∧
      ∀ id m, p.method? id = some m → ∃ m' body, c'.workspace.method? id = some m' ∧
        body.length = m.instructionCount ∧
        ((∀ f ∈ app.prime?, f.method? p ≠ some id) → body = (m.rename (rules vendor old new)).instructions) ∧
        m'.instructions =
          let all := (List.replicate ((app.stubbed p).count id) m.stub).flatten ++ body
          if id = getter.id then all.set 0 load else all := by
  have hprime : ∀ f ∈ app.prime?, f ∈ app.fingerprints := fun f hf => by
    simp_all [AppMethods.fingerprints]
  have hstubbing : app.stubbing ⊆ app.fingerprints := fun f hf => by
    simp_all [AppMethods.fingerprints]
  have hgetter : gmsCoreSupport ∈ app.fingerprints := by simp [AppMethods.fingerprints]
  rw [patchCode_eq] at h
  obtain ⟨options, c₁, hoptions, h₁⟩ := exists_of_exec_bind h
  cases hoptions
  obtain ⟨vendor, c₁, hoption, h₂⟩ := exists_of_exec_bind h₁
  obtain ⟨hvendor, rfl⟩ := Prod.mk.inj hoption
  obtain ⟨old, c₁, hdeclared, h₃⟩ := exists_of_exec_bind h₂
  obtain ⟨hold, rfl⟩ := Prod.mk.inj hdeclared
  obtain ⟨new, c₁, htarget, h₄⟩ := exists_of_exec_bind h₃
  obtain ⟨hnew, rfl⟩ := Prod.mk.inj htarget
  obtain ⟨report, c₁, hrename, h₅⟩ := exists_of_exec_bind h₄
  rw [Context.exec_rename] at hrename
  obtain ⟨-, rfl⟩ := Prod.mk.inj hrename
  obtain ⟨⟨⟩, c₂, hedit, h₆⟩ := exists_of_exec_bind h₅
  obtain ⟨⟨⟩, c₃, hstubs, htell⟩ := exists_of_exec_bind h₆
  have hc₁ : ({ c with workspace := c.workspace.rename (rules vendor old new) } : Context).Recalls p
      app.fingerprints := hc.of_resolutions_eq (Workspace.pool_rename _ _) rfl
  obtain ⟨hc₂, hedited⟩ := hc₁.editPrimeMethod distinct hprime hedit
  obtain ⟨hresolved, hplay, hc₃⟩ := returnAllEarly_cases hc₂ hstubbing distinct hstubs
  obtain ⟨getter, load, hr, hload, htold⟩ := hc₃.recalls.tellVendor distinct hgetter htell
  refine ⟨vendor, old, new, getter, load, ⟨hvendor, hold, hnew⟩, ⟨hr, hload⟩, ⟨hresolved, hplay⟩,
    fun id m hm => ?_⟩
  have hrenamed : ({ c with workspace := c.workspace.rename (rules vendor old new) } : Context).workspace.method?
      id = some (m.rename (rules vendor old new)) := by
    rw [Workspace.method?_rename, hp, hm]
    rfl
  obtain ⟨m₂, hm₂, hprototype, hlength, hsame⟩ := hedited id _ hrenamed
  obtain ⟨m₃, hm₃, -, hinstructions⟩ := hc₃.stubbed id m₂ hm₂
  obtain ⟨m₄, hm₄, hfirst⟩ := htold id m₃ hm₃
  have hstub : m₂.stub = m.stub := by
    rw [Method.stub, hprototype]
    rfl
  refine ⟨m₄, m₂.instructions, hm₄, ?_, fun hno => by rw [hsame hno], ?_⟩
  · rw [hlength, Method.length_instructions_rename, Method.instructionCount]
  · rw [hfirst, hinstructions, hstub]
    rfl

/-- The patch of the code in a new run, with any names. Every fingerprint of a method to be left at once
is resolved among the loaded classes, where only those of the Play utility need not be found, and a
method gets as many stubs as fingerprints name it, one in front of the other. Behind them it has as
many instructions as before, renamed unless it is the one that hands out the package name. So no
method gets more than one stub exactly if no two of the fingerprints name one method, which
nothing keeps them from. -/
theorem stubbed_for_each (p : Pool) (options : Options) (resources? : Option Text) (files : FileTree)
    (names : PackageNames) (app : AppMethods)
    (distinct : ∀ f ∈ app.fingerprints, ∀ g ∈ app.fingerprints, g.identity = f.identity → g = f)
    {c' : Context}
    (h : exec (patchCode app) { Context.start p options resources? files with packages := names } =
      (.ok (), c')) :
    ∃ vendor old new getter load,
      (vendorSetting.require options = .ok vendor ∧ names.declared = .ok old ∧ names.target = .ok new) ∧
      (gmsCoreSupport.resolve p = .ok getter ∧ Instruction.readAll (vendorLoad vendor) = .ok [load]) ∧
      ((∀ f ∈ app.early ++ [serviceCheck], ∃ r, f.resolve p = .ok r) ∧
        ∀ f ∈ [googlePlayUtility, googlePlayUtility2],
          (∃ r, f.resolve p = .ok r) ∨ f.resolve p = .fault (.unresolved f.name)) ∧
      (∀ id m, p.method? id = some m → ∃ m' body, c'.workspace.method? id = some m' ∧
        (body.length = m.instructionCount ∧
          ((∀ f ∈ app.prime?, f.method? p ≠ some id) →
            body = (m.rename (rules vendor old new)).instructions)) ∧
        (m'.instructions =
          let all := (List.replicate ((app.stubbed p).count id) m.stub).flatten ++ body
          if id = getter.id then all.set 0 load else all) ∧
        m'.instructionCount = m.instructionCount + (app.stubbed p).count id * m.stub.length) ∧
      (∀ m : Method, DalvikPatch.stub m.prototype.result false = .ok m.stub ∧
        m.stub.length = if ReturnKind.ofType m.prototype.result = .nothing then 1 else 2) ∧
      ((∀ id m m', p.method? id = some m → c'.workspace.method? id = some m' →
        m'.instructionCount ≤ m.instructionCount + m.stub.length) ↔ (app.stubbed p).Nodup) := by
  have hstart : ({ Context.start p options resources? files with packages := names } : Context).Recalls p
      app.fingerprints :=
    ⟨[], List.nil_subset _, (Context.remembers_start p options resources? files).of_resolutions_eq rfl rfl⟩
  obtain ⟨vendor, old, new, getter, load, hsettings, hgetter, hresolved, hmethods⟩ :=
    patchCode_cases hstart (Workspace.method?_ofPool p) distinct h
  have hcount : ∀ id m, p.method? id = some m → ∃ m', c'.workspace.method? id = some m' ∧
      m'.instructionCount = m.instructionCount + (app.stubbed p).count id * m.stub.length := by
    intro id m hm
    obtain ⟨m', body, hm', hbody, -, hinstructions⟩ := hmethods id m hm
    refine ⟨m', hm', ?_⟩
    rw [Method.instructionCount, hinstructions, ← hbody]
    split <;> simp [Nat.add_comm]
  refine ⟨vendor, old, new, getter, load, hsettings, hgetter, hresolved, fun id m hm => ?_,
    fun m => ⟨m.stub_eq, m.length_stub⟩, ?_⟩
  · obtain ⟨m', body, hm', hbody, hsame, hinstructions⟩ := hmethods id m hm
    obtain ⟨m'', hm'', hlength⟩ := hcount id m hm
    obtain rfl : m' = m'' := Option.some.inj (hm'.symm.trans hm'')
    exact ⟨m', body, hm', ⟨hbody, hsame⟩, hinstructions, hlength⟩
  · rw [List.nodup_iff_count_le_one]
    constructor
    · intro hgrown id
      by_cases hid : id ∈ app.stubbed p
      · obtain ⟨f, -, hf⟩ := List.mem_filterMap.1 hid
        obtain ⟨m, hm⟩ := Option.isSome_iff_exists.1 (Fingerprint.isSome_of_mem_method? hf)
        obtain ⟨m', hm', hlength⟩ := hcount id m hm
        have hstub : 0 < m.stub.length := by
          rw [m.length_stub]
          split <;> simp
        have hle := hgrown id m m' hm hm'
        rw [hlength] at hle
        exact Nat.le_of_mul_le_mul_right (by omega) hstub
      · rw [List.count_eq_zero.2 hid]
        exact Nat.zero_le 1
    · intro honce id m m' hm hm'
      obtain ⟨m'', hm'', hlength⟩ := hcount id m hm
      obtain rfl : m' = m'' := Option.some.inj (hm'.symm.trans hm'')
      rw [hlength]
      have := Nat.mul_le_mul_right m.stub.length (honce id)
      omega

/-- A method of a utility that loads texts. -/
def utilityMethod (name : Text) (result : TypeDescriptor) (texts : List Text) : Method where
  name := name
  flags := publicStatic
  prototype := ⟨[.object ⟨"android/content/Context"⟩, .int], result⟩
  frame? := some (.locals 1)
  items := texts.map fun s => .instruction ⟨Context.constString, [.register (.v 0), .reference (.string s)]⟩

/-- The texts of both fingerprints of the Play utility. -/
def playMethod : Method :=
  utilityMethod "a" .int ["This should never happen.", "MetadataValueReader", "com.google.android.gms",
    "com.android.vending"]

def utilityClass : Class := { Context.loading [] with
  methods := [playMethod, utilityMethod "b" .void ["Google Play Services not available"]] }

def vendorClass : Class := { Context.loading [] with
  name := ⟨"b/GmsCoreSupport"⟩
  methods := [utilityMethod vendorGetter (.object ⟨"java/lang/String"⟩) ["app.revanced"]] }

def utilityRun : Context :=
  { Context.start ⟨[utilityClass, vendorClass]⟩ .empty none ⟨[]⟩ with packages := ⟨some "a.b", none⟩ }

/-- The patch of an app that adds no methods succeeds, and begins the method with two stubs. -/
theorem exec_utilityRun : ∃ c', exec (patchCode ⟨none, []⟩) utilityRun = (.ok (), c') ∧
    ∃ m' ∈ c'.workspace.method? ⟨0, 0⟩,
      m'.instructions.take 4 = playMethod.stub ++ playMethod.stub ∧
      m'.instructionCount = playMethod.instructionCount + 2 * playMethod.stub.length := by
  have hpair : ∀ r : Except Stop Unit × Context, r.1 = .ok () → r = (.ok (), r.2) :=
    fun r hr => Prod.ext hr rfl
  have hrun : (exec (patchCode ⟨none, []⟩) utilityRun).1 = .ok () ∧
      ∃ m' ∈ (exec (patchCode ⟨none, []⟩) utilityRun).2.workspace.method? ⟨0, 0⟩,
        m'.instructions.take 4 = playMethod.stub ++ playMethod.stub ∧
        m'.instructionCount = playMethod.instructionCount + 2 * playMethod.stub.length := by
    decide +kernel
  exact ⟨_, hpair _ hrun.1, hrun.2⟩

theorem stubbed_for_each_utility :
    (∀ f ∈ (⟨none, []⟩ : AppMethods).fingerprints, ∀ g ∈ (⟨none, []⟩ : AppMethods).fingerprints,
      g.identity = f.identity → g = f) ∧
    ∃ c' m', exec (patchCode ⟨none, []⟩) utilityRun = (.ok (), c') ∧
      c'.workspace.method? ⟨0, 0⟩ = some m' ∧ m'.instructionCount =
        4 + ((⟨none, []⟩ : AppMethods).stubbed ⟨[utilityClass, vendorClass]⟩).count ⟨0, 0⟩ * 2 := by
  have distinct : ∀ f ∈ (⟨none, []⟩ : AppMethods).fingerprints,
      ∀ g ∈ (⟨none, []⟩ : AppMethods).fingerprints, g.identity = f.identity → g = f := by
    simp [AppMethods.fingerprints, AppMethods.stubbing, serviceCheck, googlePlayUtility, googlePlayUtility2,
      gmsCoreSupport, utility]
  obtain ⟨c', hrun, -⟩ := exec_utilityRun
  obtain ⟨_, _, _, _, _, -, -, -, hmethods, -⟩ := stubbed_for_each ⟨[utilityClass, vendorClass]⟩ .empty none
    ⟨[]⟩ ⟨some "a.b", none⟩ ⟨none, []⟩ distinct hrun
  obtain ⟨m', -, hm', -, -, hcount⟩ := hmethods ⟨0, 0⟩ playMethod rfl
  have hsize : playMethod.instructionCount = 4 := rfl
  have hstub : playMethod.stub.length = 2 := playMethod.length_stub
  rw [hsize, hstub] at hcount
  exact ⟨distinct, c', m', hrun, hm', hcount⟩

/-- Both fingerprints of the Play utility name one method, and it begins with two stubs. -/
theorem stubbed_twice : ∃ c' m', exec (patchCode ⟨none, []⟩) utilityRun = (.ok (), c') ∧
    utilityRun.pool.method? ⟨0, 0⟩ = some playMethod ∧ c'.workspace.method? ⟨0, 0⟩ = some m' ∧
    (stub playMethod.prototype.result false = .ok playMethod.stub ∧ playMethod.stub.length = 2) ∧
    m'.instructions.take 4 = playMethod.stub ++ playMethod.stub ∧
    m'.instructionCount = playMethod.instructionCount + 2 * playMethod.stub.length := by
  obtain ⟨c', hrun, m', hm', htwo, hcount⟩ := exec_utilityRun
  exact ⟨c', m', hrun, rfl, hm', ⟨playMethod.stub_eq, playMethod.length_stub⟩, htwo, hcount⟩

end GmsCore

end DalvikPatch
