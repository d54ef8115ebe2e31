import DalvikPatch.GmsCore.Patches
import DalvikPatch.Proofs.Accesses
import DalvikPatch.Proofs.Applying
import DalvikPatch.Proofs.Renaming

/-! The patches of GmsCore's support, applied in any order. The patch of the code does nothing until the
package of the app is known, and only the patch of the resources finds it out; that one may still
fail after it has, and then the code is patched although the manifest is as it was, or, if the system broke off a
write of it, is not yet what it was to become. -/

namespace DalvikPatch

open Text

/-! ### Resources -/

namespace Context

/-- The path of a resource. -/
def resourcePath? (c : Context) (name : Text) : Option Text :=
  c.resources?.map fun folder => Path.below folder name

/-- What reading a resource gives next. -/
def resource (c : Context) (name : Text) : Outcome Text :=
  match c.resourcePath? name with
  | none => .fault .missingResources
  | some p => c.fileAt p

/-- A resource is the file at a place, with some text. -/
structure ResourceAt (c : Context) (name p : Text) (l : Location) (s : Text) : Prop where
  path : c.resourcePath? name = some p
  place : c.files.locate p = .ok l
  node : c.files.node? l = some (.file s)

variable {c : Context} {name p s : Text} {l : Location}

theorem exists_resourceAt (h : c.resource name = .ok s) : ∃ p l, c.ResourceAt name p l s := by
  rw [resource] at h
  split at h
  · cases h
  · next p hp =>
    rw [fileAt] at h
    split at h
    · cases h
    · obtain ⟨l, hl, hs⟩ := FileTree.read_eq_ok_iff.1 (Outcome.of_ofFile h)
      exact ⟨p, l, hp, hl, hs⟩

/-- The resource with another text, whatever the system is going to say. -/
theorem ResourceAt.put (h : c.ResourceAt name p l s) (s' : Text) (rs : List (Option Refusal)) :
    ResourceAt { c with files := c.files.put l (.file s'), refusals := rs } name p l s' where
  path := h.path
  place := (FileTree.locate_put_file h.node s' p).trans h.place
  node := by rw [FileTree.node?_put_file h.node, if_pos rfl]

theorem exec_resourcePath (c : Context) (name : Text) : exec (Run.resourcePath name) c =
    ((c.resourcePath? name).elim (Outcome.fault .missingResources) .ok, c) := by
  simp only [Run.resourcePath, exec_bind, exec_get, resourcePath?]
  cases c.resources? <;> rfl

theorem ResourceAt.exec_path (h : c.ResourceAt name p l s) : exec (Run.resourcePath name) c = (.ok p, c) := by
  rw [exec_resourcePath, h.path]
  rfl

theorem exec_readResource (c : Context) (name : Text) : ∃ rs, rs <:+ c.refusals ∧
    exec (Run.readResource name) c = (c.resource name, { c with refusals := rs }) := by
  rw [Run.readResource, exec_bind, exec_resourcePath, resource]
  cases c.resourcePath? name with
  | none => exact ⟨c.refusals, List.suffix_refl _, rfl⟩
  | some p => exact ⟨c.refusals.tail, List.tail_suffix _, exec_readFile c p⟩

/-- How an edit of a resource that is there can end, and what it leaves: the text that was made of it, or a
beginning of that if the system breaks off the write, or nothing new. -/
inductive Edited (c : Context) (p : Text) (l : Location) (made : Outcome Text) : Outcome Unit × Context → Prop
  | done {s rs} : made = .ok s → rs <:+ c.refusals →
      Edited c p l made (.ok (), { c with files := c.files.put l (.file s), refusals := rs })
  | failed {e rs} : made = .error e → Edited c p l made (.error e, { c with refusals := rs })
  | refused {r rs} : some r ∈ c.refusals →
      Edited c p l made (.error (.fault (.file p (.refused r.reason))), { c with refusals := rs })
  | brokenOff {r s part rs} : some r ∈ c.refusals → made = .ok s → part <+: s →
      Edited c p l made (.error (.fault (.file p (.refused r.reason))),
        { c with files := c.files.put l (.file part), refusals := rs })

theorem ResourceAt.edited_of_changed (h : c.ResourceAt name p l s) {s' : Text} {x : Outcome Unit × Context}
    (hx : Changed c p (fun n => c.files.write p (s'.take n)) (c.files.write p s') x) : Edited c p l (.ok s') x := by
  have hover := FileTree.write_over h.place h.node
  cases hx with
  | done hwhole =>
    rw [hover] at hwhole
    cases hwhole
    exact .done rfl (List.tail_suffix _)
  | impossible hwhole =>
    rw [hover] at hwhole
    cases hwhole
  | refused hr => exact .refused hr
  | @brokenOff r n t hr hpart =>
    rw [hover] at hpart
    cases hpart
    exact .brokenOff hr rfl (List.take_prefix n s')

theorem ResourceAt.edited_write (h : c.ResourceAt name p l s) (s' : Text) :
    Edited c p l (.ok s') (exec (Run.writeResource name s') c) := by
  have hwrite : exec (Run.writeResource name s') c =
      exec (Run.changeFiles p (fun n => c.files.write p (s'.take n)) (c.files.write p s')) c := by
    rw [Run.writeResource, exec_bind, h.exec_path]
    rfl
  exact hwrite ▸ h.edited_of_changed (changed_changeFiles ..)

/-- An edit goes on with what the system is left to say. -/
theorem Edited.of_suffix {made : Outcome Text} {rs : List (Option Refusal)} {x : Outcome Unit × Context}
    (hrs : rs <:+ c.refusals) (h : Edited { c with refusals := rs } p l made x) : Edited c p l made x := by
  cases h with
  | done hmade hrs' => exact .done hmade (hrs'.trans hrs)
  | failed hmade => exact .failed hmade
  | refused hr => exact .refused (hrs.subset hr)
  | brokenOff hr hmade hpart => exact .brokenOff (hrs.subset hr) hmade hpart

theorem ResourceAt.edited (h : c.ResourceAt name p l s) (f : Text → Outcome Text) :
    Edited c p l (f s) (exec (Run.editResource name f) c) := by
  have hread : c.files.read p = .ok s := FileTree.read_eq_ok_iff.2 ⟨l, h.place, h.node⟩
  have hedit : exec (Run.editResource name f) c = match c.fileAt p with
      | .ok s => exec (do Run.writeResource name (← Run.lift (f s))) { c with refusals := c.refusals.tail }
      | .error e => (.error e, { c with refusals := c.refusals.tail }) := by
    rw [Run.editResource, exec_bind, Run.readResource, exec_bind, h.exec_path]
    dsimp only
    rw [exec_readFile]
    cases c.fileAt p <;> rfl
  rw [hedit, fileAt, hread]
  cases hnext : c.refusals.head?.join with
  | some r => exact .refused (mem_refusals hnext)
  | none =>
    have h' : ResourceAt { c with refusals := c.refusals.tail } name p l s := ⟨h.path, h.place, h.node⟩
    simp only [Outcome.ofFile, exec_bind, Run.exec_lift]
    cases hmade : f s with
    | error e => exact .failed rfl
    | ok s' => exact (h'.edited_write s').of_suffix (List.tail_suffix _)

end Context

namespace GmsCore

/-! ### The patch of the resources -/

/-- What the patch of the resources finds out before it sets the names: the options, the manifest, and
the package that it declares. -/
structure Discovery where
  vendor : Text
  signature? : Option Text
  chosen? : Option Text
  manifest : Text
  package : Text
  deriving DecidableEq

structure Discovers (c : Context) (d : Discovery) : Prop where
  vendor : vendorSetting.require c.options = .ok d.vendor
  signature : signatureSetting.resolve c.options = .ok d.signature?
  chosen : packageSetting.resolve c.options = .ok d.chosen?
  manifest : c.resource Manifest.file = .ok d.manifest
  package : Manifest.package? d.manifest = some d.package

/-- The names after a discovery. -/
def Discovery.names (d : Discovery) (p : PackageNames) : PackageNames :=
  ⟨some d.package, d.chosen?.or p.chosen?⟩

/-- What the patch of the resources does to the manifest. -/
def changeManifest (d : Discovery) (target : Text) : Run Unit := do
  Run.editResource Manifest.file (insertMetaData d.vendor d.package d.signature?)
  Run.substitute Manifest.file (manifestRenaming d.vendor d.package target)

/-- What the patch of the resources does once it knows the package. -/
def renamePackage (d : Discovery) : Run Unit := do
  Run.setDeclared d.package
  d.chosen?.forM Run.setTarget
  changeManifest d (← Run.targetPackage)

/-- The patch of the resources makes its discovery and goes on from there, or does nothing. -/
theorem patchResources_cases (c : Context) : ∃ rs, rs <:+ c.refusals ∧
    ((∃ d, Discovers c d ∧ exec patchResources c = exec (renamePackage d) { c with refusals := rs }) ∨
      ((∀ d, ¬ Discovers c d) ∧ ∃ s, exec patchResources c = (.error s, { c with refusals := rs }))) := by
  have hself : c.refusals <:+ c.refusals := List.suffix_refl _
  cases hv : vendorSetting.require c.options with
  | error e =>
    exact ⟨c.refusals, hself, .inr ⟨fun d hd => by simpa [hv] using hd.vendor, e,
      by simp [patchResources, Run.options, hv]⟩⟩
  | ok vendor =>
  cases hs : signatureSetting.resolve c.options with
  | error e =>
    exact ⟨c.refusals, hself, .inr ⟨fun d hd => by simpa [hs] using hd.signature, e,
      by simp [patchResources, Run.options, hv, hs]⟩⟩
  | ok signature? =>
  cases hc : packageSetting.resolve c.options with
  | error e =>
    exact ⟨c.refusals, hself, .inr ⟨fun d hd => by simpa [hc] using hd.chosen, e,
      by simp [patchResources, Run.options, hv, hs, hc]⟩⟩
  | ok chosen? =>
  obtain ⟨rs, hrs, hread⟩ := Context.exec_readResource c Manifest.file
  refine ⟨rs, hrs, ?_⟩
  cases hm : c.resource Manifest.file with
  | error e =>
    exact .inr ⟨fun d hd => by simpa [hm] using hd.manifest, e,
      by simp [patchResources, Run.options, hread, hv, hs, hc, hm]⟩
  | ok manifest =>
  cases hp : Manifest.package? manifest with
  | none =>
    refine .inr ⟨fun d hd => ?_, .fault (.parse (.text Manifest.file) .noPackage),
      by simp [patchResources, Run.options, hread, packageOf, hv, hs, hc, hm, hp, Outcome.fault]⟩
    obtain rfl : manifest = d.manifest := Except.ok.inj (hm.symm.trans hd.manifest)
    simpa [hp] using hd.package
  | some package =>
    exact .inl ⟨⟨vendor, signature?, chosen?, manifest, package⟩, ⟨hv, hs, hc, hm, hp⟩,
      by simp [patchResources, renamePackage, changeManifest, Run.options, hread, packageOf, hv, hs, hc, hm, hp]⟩

/-- What the manifest becomes, with the metadata and then with the package renamed. -/
structure Discovery.Makes (d : Discovery) (target text renamed : Text) : Prop where
  tells : insertMetaData d.vendor d.package d.signature? d.manifest = .ok text
  renames : Substitution.applyAll text (manifestRenaming d.vendor d.package target) = renamed

/-- How the change of the manifest can end: it is renamed, or all is as it was, or the system has broken off one
of the writes. -/
theorem exec_changeManifest {c : Context} {d : Discovery} {p : Text} {l : Location}
    (h : c.ResourceAt Manifest.file p l d.manifest) (target : Text) :
    (∃ text renamed rs, d.Makes target text renamed ∧ exec (changeManifest d target) c =
      (.ok (), { c with files := c.files.put l (.file renamed), refusals := rs })) ∨
    (∃ s rs, exec (changeManifest d target) c = (.error s, { c with refusals := rs })) ∨
    ∃ text renamed part r rs, d.Makes target text renamed ∧ (part <+: text ∨ part <+: renamed) ∧
      some r ∈ c.refusals ∧ exec (changeManifest d target) c =
        (.error (.fault (.file p (.refused r.reason))),
          { c with files := c.files.put l (.file part), refusals := rs }) := by
  have hfirst := h.edited (insertMetaData d.vendor d.package d.signature?)
  rw [changeManifest, exec_bind]
  generalize exec (Run.editResource Manifest.file _) c = x at hfirst ⊢
  cases hfirst with
  | failed hmade => exact .inr (.inl ⟨_, _, rfl⟩)
  | refused hr => exact .inr (.inl ⟨_, _, rfl⟩)
  | brokenOff hr hmade hpart => exact .inr (.inr ⟨_, _, _, _, _, ⟨hmade, rfl⟩, .inl hpart, hr, rfl⟩)
  | @done text rs hmade hrs =>
    have hsecond := (h.put text rs).edited fun s =>
      .ok (Substitution.applyAll s (manifestRenaming d.vendor d.package target))
    dsimp only [Run.substitute]
    generalize exec (Run.editResource Manifest.file _) _ = x at hsecond ⊢
    have hmakes : d.Makes target text _ := ⟨hmade, rfl⟩
    cases hsecond with
    | failed hmade' => cases hmade'
    | refused hr => exact .inr (.inr ⟨_, _, text, _, _, hmakes, .inl (List.prefix_refl _), hrs.subset hr, rfl⟩)
    | brokenOff hr hmade' hpart =>
      cases hmade'
      exact .inr (.inr ⟨_, _, _, _, _, hmakes, .inr hpart, hrs.subset hr, by rw [FileTree.put_put]⟩)
    | done hmade' hrs' =>
      cases hmade'
      exact .inl ⟨_, _, _, hmakes, by rw [FileTree.put_put]⟩

/-- The names are known when the manifest is changed. -/
theorem exec_renamePackage (c : Context) (d : Discovery) : ∃ target, (d.names c.packages).target = .ok target ∧
    exec (renamePackage d) c = exec (changeManifest d target) { c with packages := d.names c.packages } := by
  obtain ⟨vendor, signature?, _ | chosen, manifest, package⟩ := d
  · cases h : c.packages.chosen? with
    | none =>
      refine ⟨package ++ ".revanced", ?_⟩
      simp [renamePackage, Run.setDeclared, Run.targetPackage, PackageNames.target, PackageNames.declared,
        Discovery.names, Option.forM, h, Except.map]
    | some chosen =>
      refine ⟨chosen, ?_⟩
      simp [renamePackage, Run.setDeclared, Run.targetPackage, PackageNames.target, Discovery.names,
        Option.forM, h]
  · refine ⟨chosen, ?_⟩
    simp [renamePackage, Run.setDeclared, Run.setTarget, Run.targetPackage, PackageNames.target,
      Discovery.names, Option.forM]

/-- The system has broken off a write of the manifest, of the path `p`, after a discovery: the names are known, and
the file holds a beginning of one of the texts that it was to hold. -/
def BrokenOff (c : Context) (d : Discovery) (p : Text) (r : Refusal) (c' : Context) : Prop :=
  some r ∈ c.refusals ∧ ∃ l target text renamed part,
    c.ResourceAt Manifest.file p l d.manifest ∧ (d.names c.packages).target = .ok target ∧
    d.Makes target text renamed ∧ (part <+: text ∨ part <+: renamed) ∧
    c' = { c with
      packages := d.names c.packages
      files := c.files.put l (.file part)
      refusals := c'.refusals }

theorem BrokenOff.packages {c c' : Context} {d : Discovery} {p : Text} {r : Refusal} (h : BrokenOff c d p r c') :
    c'.packages = d.names c.packages := by
  obtain ⟨-, l, target, text, renamed, part, -, -, -, -, hc'⟩ := h
  rw [hc']

/-- What the patch of the resources does: it changes the manifest, or fails with the files as they were, or is
broken off; and it fails with nothing changed unless it makes its discovery. -/
theorem exec_patchResources (c : Context) :
    (∃ d, Discovers c d ∧
      ((∃ t rs, exec patchResources c =
        (.ok (), { c with packages := d.names c.packages, files := t, refusals := rs })) ∨
      (∃ s rs, exec patchResources c = (.error s, { c with packages := d.names c.packages, refusals := rs })) ∨
      ∃ p r c', exec patchResources c = (.error (.fault (.file p (.refused r.reason))), c') ∧
        BrokenOff c d p r c')) ∨
    ((∀ d, ¬ Discovers c d) ∧ ∃ s rs, exec patchResources c = (.error s, { c with refusals := rs })) := by
  obtain ⟨rs, hrs, ⟨d, hd, h⟩ | ⟨hno, s, h⟩⟩ := patchResources_cases c
  · obtain ⟨target, htarget, hrename⟩ := exec_renamePackage { c with refusals := rs } d
    obtain ⟨p, l, hat⟩ := Context.exists_resourceAt hd.manifest
    have hat' : Context.ResourceAt { c with packages := d.names c.packages, refusals := rs } Manifest.file p l
        d.manifest := ⟨hat.path, hat.place, hat.node⟩
    rw [h, hrename]
    refine .inl ⟨d, hd, ?_⟩
    rcases exec_changeManifest hat' target with ⟨text, renamed, rs', hmakes, h⟩ | ⟨s, rs', h⟩ |
        ⟨text, renamed, part, r, rs', hmakes, hpart, hr, h⟩
    · exact .inl ⟨_, _, h⟩
    · exact .inr (.inl ⟨_, _, h⟩)
    · exact .inr (.inr ⟨p, r, _, h, hrs.subset hr, l, target, text, renamed, part, hat, htarget, hmakes, hpart, rfl⟩)
  · exact .inr ⟨hno, s, rs, h⟩

/-! ### The patch of the code -/

/-- Makes the method of a fingerprint return at once, if there is one. -/
def returnEarly? (f : Fingerprint) : Run Unit := do
  (← Run.resolve? f).forM fun m => Run.edit m.id (Edit.returnEarly false)

def editPrimeMethod (app : AppMethods) (old new : Text) : Run Unit :=
  app.prime?.forM fun f => do Run.edit (← Run.resolve f).id (editPrime old new)

/-- Makes all methods return at once that have to. -/
def returnAllEarly (app : AppMethods) : Run Unit := do
  app.early.forM Patch.returnEarly
  Patch.returnEarly serviceCheck
  returnEarly? googlePlayUtility
  returnEarly? googlePlayUtility2

def tellVendor (vendor : Text) : Run Unit := do
  Run.edit (← Run.resolve gmsCoreSupport).id (Edit.replaceText 0 (vendorLoad vendor))

/-- The patch of the code in its parts, with the loop over two fingerprints written out. -/
theorem patchCode_eq (app : AppMethods) : patchCode app = (do
    let vendor ← Run.lift (vendorSetting.require (← Run.options))
    let old ← Run.declaredPackage
    let new ← Run.targetPackage
    let _ ← Run.rename (rules vendor old new)
    editPrimeMethod app old new
    returnAllEarly app
    tellVendor vendor) := by
  simp [patchCode, editPrimeMethod, returnAllEarly, returnEarly?, tellVendor]

theorem stays_patchCode (app : AppMethods) : (patchCode app).Stays := by
  have hearly? : ∀ f, (returnEarly? f).Stays := fun f =>
    (Run.stays_resolve? f).bind fun _ => Run.stays_forM? fun _ => Run.stays_edit _ _
  have hprime : ∀ old new, (editPrimeMethod app old new).Stays := fun old new =>
    Run.stays_forM? fun f => (Run.stays_resolve f).bind fun _ => Run.stays_edit _ _
  have hearly : (returnAllEarly app).Stays :=
    (Run.stays_forM Run.stays_returnEarly).bind fun _ => (Run.stays_returnEarly _).bind fun _ =>
      (hearly? _).bind fun _ => hearly? _
  have htell : ∀ vendor, (tellVendor vendor).Stays := fun _ =>
    (Run.stays_resolve _).bind fun _ => Run.stays_edit _ _
  rw [patchCode_eq]
  exact Run.stays_options.bind fun _ => (Run.stays_lift _).bind fun vendor =>
    Run.stays_declaredPackage.bind fun old => Run.stays_targetPackage.bind fun new =>
    (Run.stays_rename _).bind fun _ => (hprime old new).bind fun _ => hearly.bind fun _ => htell vendor

/-- The patch of the code does nothing while the package is not known. -/
theorem exec_patchCode_of_unknown {c : Context} (app : AppMethods) (h : c.packages.declared? = none) :
    ∃ s, exec (patchCode app) c = (.error s, c) := by
  cases hv : vendorSetting.require c.options with
  | error s => exact ⟨s, by simp [patchCode, Run.options, hv]⟩
  | ok vendor =>
    refine ⟨.fault .unknownPackage, ?_⟩
    simp [patchCode, Run.options, hv, Run.declaredPackage, PackageNames.declared, h, Outcome.fault]

/-! ### Runs of patches -/

/-- A patch of the support: the one of the resources, or one of the code of an app. -/
inductive Support where
  | resources
  | code (app : AppMethods)

def Support.patch : Support → Patch
  | resources => resourcePatch
  | code app => codePatch app

/-- A patch that was applied, from the context that it found to the one that it left. -/
structure Application where
  support : Support
  before : Context
  answer : Outcome Unit
  after : Context

namespace Application

def of (s : Support) (c : Context) : Application :=
  let r := exec s.patch.apply c
  ⟨s, c, r.1, r.2⟩

/-- The applications of several patches in one call, which an abort ends. -/
def inOrder (c : Context) : List Support → List Application
  | [] => []
  | s :: ss =>
    let a := of s c
    a :: match a.answer with
      | .error (.abort _) => []
      | _ => inOrder a.after ss

end Application

/-- A call: of one patch, or of several in order. -/
inductive Call where
  | apply (s : Support)
  | applyAll (ss : List Support)

namespace Call

def step : Call → Run Unit
  | apply s => s.patch.apply
  | applyAll ss => do let _ ← Patch.applyAll (ss.map Support.patch)

def applications (c : Context) : Call → List Application
  | apply s => [Application.of s c]
  | applyAll ss => Application.inOrder c ss

end Call

/-- The applications of a run of calls. A call that fails keeps what it did, and the run goes on. -/
def trace (c : Context) : List Call → List Application
  | [] => []
  | call :: calls => call.applications c ++ trace (exec call.step c).2 calls

/-- Applications one after another, each in the context that the one before left. -/
inductive Applied : Context → List Application → Context → Prop
  | nil (c : Context) : Applied c [] c
  | cons {c c' : Context} {as : List Application} (s : Support) (rest : Applied (Application.of s c).after as c') :
      Applied c (.of s c :: as) c'

namespace Applied

variable {c c' c'' : Context} {as as' before later : List Application} {a : Application}

theorem append (h : Applied c as c') (h' : Applied c' as' c'') : Applied c (as ++ as') c'' := by
  induction h with
  | nil => exact h'
  | cons s _ ih => exact .cons s (ih h')

theorem inOrder (c : Context) (ss : List Support) :
    Applied c (Application.inOrder c ss) (exec (Patch.applyAll (ss.map Support.patch)) c).2 := by
  induction ss generalizing c with
  | nil => exact .nil c
  | cons s ss ih =>
    have hcons := exec_applyAll_cons s.patch (ss.map Support.patch) c
    rw [← List.map_cons] at hcons
    rw [hcons, Application.inOrder]
    refine .cons s ?_
    simp only [Application.of]
    rcases exec s.patch.apply c with ⟨(f | x) | ⟨⟩, d⟩
    · exact ih d
    · exact .nil d
    · exact ih d

theorem applications (c : Context) (call : Call) : Applied c (call.applications c) (exec call.step c).2 := by
  cases call with
  | apply s => exact .cons s (.nil (Application.of s c).after)
  | applyAll ss =>
    have h : (exec (Call.applyAll ss).step c).2 =
        (exec (Patch.applyAll (ss.map Support.patch)) c).2 := by
      rw [Call.step, exec_bind]
      rcases exec (Patch.applyAll (ss.map Support.patch)) c with ⟨_ | _, _⟩ <;> rfl
    rw [h]
    exact inOrder c ss

theorem trace (c : Context) (calls : List Call) : ∃ c', Applied c (GmsCore.trace c calls) c' := by
  induction calls generalizing c with
  | nil => exact ⟨c, .nil c⟩
  | cons call calls ih =>
    obtain ⟨c', h⟩ := ih (exec call.step c).2
    exact ⟨c', (applications c call).append h⟩

/-- An application starts where those before it ended. -/
theorem split (h : Applied c (before ++ a :: later) c') :
    Applied c before a.before ∧ a = .of a.support a.before := by
  induction before generalizing c with
  | nil =>
    cases h with
    | cons s _ => exact ⟨.nil c, rfl⟩
  | cons b before ih =>
    cases h with
    | cons s h =>
      obtain ⟨hbefore, ha⟩ := ih h
      exact ⟨.cons s hbefore, ha⟩

end Applied

/-! ### The package is found first -/

namespace Application

/-- What an application of the patch of the resources leaves when it fails after its discovery: the names are known
and all else is as it was, or the system has broken off a write of the manifest. -/
def Fails (a : Application) (d : Discovery) : Prop :=
  a.after = { a.before with packages := d.names a.before.packages, refusals := a.after.refusals } ∨
  ∃ p r, a.answer = Outcome.fault (.patch resourcePatch.name (.file p (.refused r.reason))) ∧
    BrokenOff a.before d p r a.after

/-- An application of the patch of the resources that has found out the package. -/
structure Finds (a : Application) : Prop where
  support : a.support = .resources
  found : ∃ d, Discovers a.before d ∧ a.after.packages = d.names a.before.packages ∧
    (a.answer ≠ .ok () → a.Fails d)

theorem of_resources (c : Context) : (of .resources c).Finds ∨
    (∀ d, ¬ Discovers c d) ∧ (of .resources c).answer ≠ .ok () ∧
      (of .resources c).after = { c with refusals := (of .resources c).after.refusals } := by
  have hof : of .resources c = ⟨.resources, c, Patch.told resourcePatch.name (exec patchResources c).1,
      (exec patchResources c).2⟩ := by
    rw [of, Support.patch, exec_apply]
    rfl
  have htold : ∀ s, Patch.told resourcePatch.name (.error s) ≠ .ok () := by
    rintro (f | x) <;> nofun
  rw [hof]
  rcases exec_patchResources c with
    ⟨d, hd, ⟨t, rs, h⟩ | ⟨s, rs, h⟩ | ⟨p, r, c', h, hbroken⟩⟩ | ⟨hno, s, rs, h⟩ <;> rw [h]
  · exact .inl ⟨rfl, d, hd, rfl, fun herr => absurd rfl herr⟩
  · exact .inl ⟨rfl, d, hd, rfl, fun _ => .inl rfl⟩
  · exact .inl ⟨rfl, d, hd, hbroken.packages, fun _ => .inr ⟨p, r, rfl, hbroken⟩⟩
  · exact .inr ⟨hno, htold s, rfl⟩

theorem of_code {c : Context} (app : AppMethods) (h : c.packages.declared? = none) :
    (of (.code app) c).after = c := by
  obtain ⟨s, hs⟩ := exec_patchCode_of_unknown app h
  rw [of, Support.patch, exec_apply]
  exact congrArg Prod.snd hs

theorem surroundings_of_code (app : AppMethods) (c : Context) :
    (of (.code app) c).after.surroundings = c.surroundings := by
  rw [of, Support.patch, exec_apply]
  exact stays_patchCode app c

end Application

/-- The package becomes known only by an application that finds it out. -/
theorem Applied.exists_finds {c c' : Context} {as : List Application} (h : Applied c as c')
    (hc : c.packages.declared? = none) (hc' : c'.packages.declared? ≠ none) : ∃ a ∈ as, a.Finds := by
  induction h with
  | nil => exact absurd hc hc'
  | @cons c c' as s rest ih =>
    by_cases hs : (Application.of s c).Finds
    · exact ⟨_, List.mem_cons_self, hs⟩
    · have hpackages : (Application.of s c).after.packages = c.packages := by
        cases s with
        | resources => rw [((Application.of_resources c).resolve_left hs).2.2]
        | code app => rw [Application.of_code app hc]
      obtain ⟨a, ha, hfinds⟩ := ih (hpackages ▸ hc) hc'
      exact ⟨a, List.mem_cons_of_mem _ ha, hfinds⟩

/-- Calls of the patches in any order, from a start where the package is not known, whatever the system says to
the accesses of files. The patch of the code changes or copies a class only after an application of the patch of
the resources that has found out the package; that one may have failed afterwards. It never touches names and
files. The patch of the resources, when it fails, leaves everything as it was, except that the names are known if
it had found out the package; and if it had, and the system broke off a write of the manifest, that holds a
beginning of what it was to hold. -/
theorem found_before_changed {c : Context} (hc : c.packages.declared? = none) {calls : List Call}
    {before later : List Application} {a : Application} (htrace : trace c calls = before ++ a :: later) :
    a = .of a.support a.before ∧
    (∀ app, a.support = .code app → a.after.surroundings = a.before.surroundings ∧
      (a.after.workspace ≠ a.before.workspace → ∃ r ∈ before, r.Finds)) ∧
    (a.support = .resources → a.answer ≠ .ok () →
      ((∀ d, ¬ Discovers a.before d) ∧ a.after = { a.before with refusals := a.after.refusals }) ∨
      ∃ d, Discovers a.before d ∧ a.Fails d) := by
  obtain ⟨c', happlied⟩ := Applied.trace c calls
  obtain ⟨hbefore, ha⟩ := (htrace ▸ happlied).split
  refine ⟨ha, fun app happ => ⟨?_, fun hchanged => hbefore.exists_finds hc fun hnone => hchanged ?_⟩,
    fun hres herr => ?_⟩
  · rw [ha, happ]
    exact Application.surroundings_of_code app a.before
  · have hafter := Application.of_code app hnone
    rw [← happ, ← ha] at hafter
    rw [hafter]
  · rw [hres] at ha
    rcases Application.of_resources a.before with hfinds | ⟨hno, -, hafter⟩
    · rw [← ha] at hfinds
      obtain ⟨-, d, hd, -, hfails⟩ := hfinds
      exact .inr ⟨d, hd, hfails herr⟩
    · rw [← ha] at hafter
      exact .inl ⟨hno, hafter⟩

/-- A run on a class that loads the name of GmsCore, with a manifest. -/
def namingRun (manifest : Text) : Context :=
  .start ⟨[Context.loading [.string "com.google"]]⟩ .empty (some "") ⟨[([Manifest.file], .file manifest)]⟩

def resourcesFirst (manifest : Text) : Application := .of .resources (namingRun manifest)

def codeSecond (manifest : Text) : Application := .of (.code ⟨none, []⟩) (resourcesFirst manifest).after

theorem trace_naming (manifest : Text) :
    trace (namingRun manifest) [.apply .resources, .apply (.code ⟨none, []⟩)] =
      [resourcesFirst manifest, codeSecond manifest] := rfl

def wholeManifest : Text := "<manifest package=\"a.b\"><application></application></manifest>"

theorem found_before_changed_whole :
    (namingRun wholeManifest).packages.declared? = none ∧
    (codeSecond wholeManifest).after.workspace ≠ (codeSecond wholeManifest).before.workspace ∧
    ∃ r ∈ [resourcesFirst wholeManifest], r.Finds := by
  have hchanged : (codeSecond wholeManifest).after.workspace ≠
      (codeSecond wholeManifest).before.workspace := by decide +kernel
  exact ⟨rfl, hchanged,
    ((found_before_changed rfl (trace_naming wholeManifest)).2.1 ⟨none, []⟩ rfl).2 hchanged⟩

/-- A manifest without an application: the patch of the resources fails, but has found out the package, and the
patch of the code changes a class. -/
def bareManifest : Text := "<manifest package=\"a.b\"/>"

/-- The disk is full when the manifest is written for the second time: the file has been emptied by then. -/
def crowded : Application := .of .resources
  { namingRun wholeManifest with
    refusals := [none, none, none, none, some ⟨"No space left on device (os error 28)", some 0⟩] }

theorem changed_after_failure :
    (trace (namingRun bareManifest) [.apply .resources, .apply (.code ⟨none, []⟩)] =
      [resourcesFirst bareManifest, codeSecond bareManifest] ∧
    (resourcesFirst bareManifest).before.packages = .unknown ∧
    (resourcesFirst bareManifest).answer =
      Outcome.fault (.patch "GmsCore support resources" (.parse (.text Manifest.file) .noApplication)) ∧
    (resourcesFirst bareManifest).after.packages = ⟨some "a.b", none⟩ ∧
    (codeSecond bareManifest).before.workspace.openIndices = [] ∧
    (codeSecond bareManifest).after.workspace.openIndices = [0]) ∧
    crowded.answer = Outcome.fault (.patch "GmsCore support resources"
      (.file Manifest.file (.refused "No space left on device (os error 28)"))) ∧
    crowded.before.files.textAt [Manifest.file] = wholeManifest ∧
    crowded.after.files.textAt [Manifest.file] = [] := by
  refine ⟨⟨trace_naming bareManifest, ?_⟩, ?_⟩
  · decide +kernel
  · decide +kernel

end GmsCore

end DalvikPatch
