import DalvikPatch.Proofs.Accesses
import DalvikPatch.Proofs.Saving

/-! Saving the classes of a run and loading the same folders again. Each class that was written to goes
back to the file that it was read from, and nothing else changes; so what is loaded then are the
classes as the run shows them, in their order, if each of those that were written is read back. -/

namespace DalvikPatch

open Text

/-- A source as it is loaded. -/
structure Source where
  path : Text
  place : Location
  text : Text

def Source.read (s : Source) : Outcome Class := Class.ofFile s.path s.text

namespace FileTree

variable {t t' : FileTree}

/-- The sources below a folder that is at a place. -/
def sourcesIn (t : FileTree) (root : Text × Location) : List Source :=
  (t.sources root.2).map fun f => ⟨Path.below root.1 (Path.ofParts f.1), root.2 ++ f.1, f.2⟩

/-- The sources below several folders, one folder after the other. -/
def sourcesBelow (t : FileTree) (roots : List (Text × Location)) : List Source :=
  roots.flatMap t.sourcesIn

/-- Folders of which none is inside of another, and none is another. -/
def Apart (t : FileTree) (folder folder' : Text) : Prop :=
  ∀ l l', t.folder folder = .ok l → t.folder folder' = .ok l' → ¬ l <+: l' ∧ ¬ l' <+: l

/-! ### Loading -/

theorem readClasses_eq {root : Text × Location} (h : t.folder root.1 = .ok root.2) :
    t.readClasses root.1 = (t.sourcesIn root).mapM Source.read := by
  rw [readClasses, h, sourcesIn, List.mapM_map]
  rfl

/-- Folders that could be loaded have places. -/
theorem exists_roots {folders : List Text} {p : Pool} (h : t.readPool folders = .ok p) :
    ∃ roots : List (Text × Location), roots.map Prod.fst = folders ∧
      ∀ r ∈ roots, t.folder r.1 = .ok r.2 := by
  obtain ⟨ks, hks, -⟩ := exists_of_bind h
  clear h
  induction folders generalizing ks with
  | nil => exact ⟨[], rfl, by simp⟩
  | cons f folders ih =>
    rw [List.mapM_cons] at hks
    obtain ⟨k, hk, hks⟩ := exists_of_bind hks
    obtain ⟨ks', hks', -⟩ := exists_of_bind hks
    obtain ⟨roots, hroots, hplaces⟩ := ih ks' hks'
    cases hl : t.folder f with
    | error e =>
      rw [readClasses, hl] at hk
      cases hk
    | ok l =>
      exact ⟨(f, l) :: roots, by rw [List.map_cons, hroots], List.forall_mem_cons.2 ⟨hl, hplaces⟩⟩

/-- A pool is the list of the classes of all sources. -/
theorem readPool_eq {roots : List (Text × Location)} (h : ∀ r ∈ roots, t.folder r.1 = .ok r.2) :
    t.readPool (roots.map Prod.fst) = ((t.sourcesBelow roots).mapM Source.read).map Pool.mk := by
  have hflatten : ((roots.map Prod.fst).mapM t.readClasses).map List.flatten =
      (t.sourcesBelow roots).mapM Source.read := by
    induction roots with
    | nil => rfl
    | cons r roots ih =>
      obtain ⟨hr, hroots⟩ := List.forall_mem_cons.1 h
      rw [List.map_cons, List.mapM_cons, readClasses_eq hr, sourcesBelow, List.flatMap_cons,
        List.mapM_append, ← sourcesBelow, ← ih hroots]
      cases (t.sourcesIn r).mapM Source.read <;> cases (roots.map Prod.fst).mapM t.readClasses <;> rfl
  rw [← hflatten, readPool]
  cases (roots.map Prod.fst).mapM t.readClasses <;> rfl

/-- A source is the file at its place, and its path leads there. -/
theorem WellFormed.of_mem_sourcesBelow (h : t.WellFormed) {roots : List (Text × Location)}
    (hroots : ∀ r ∈ roots, t.folder r.1 = .ok r.2) {s : Source} (hs : s ∈ t.sourcesBelow roots) :
    t.node? s.place = some (.file s.text) ∧ ∀ l, t.locate s.path = .ok l → l = s.place := by
  obtain ⟨r, hr, hs⟩ := List.mem_flatMap.1 hs
  obtain ⟨⟨names, text⟩, hf, rfl⟩ := List.mem_map.1 hs
  obtain ⟨hnode, -⟩ := h.mem_sources.1 hf
  have hne : names ≠ [] := by
    rintro rfl
    rw [List.append_nil, (folder_eq_ok_iff.1 (hroots r hr)).2] at hnode
    cases hnode
  have hnames : ∀ name ∈ names, Path.IsName name := fun name hname =>
    h.names_of_node? hnode name (List.mem_append_right _ hname)
  exact ⟨hnode, fun l hl => locate_below (hroots r hr) hne hnames hl⟩

/-- Sources below folders that are apart are at places of their own. -/
theorem WellFormed.pairwise_place (h : t.WellFormed) {roots : List (Text × Location)}
    (hroots : ∀ r ∈ roots, t.folder r.1 = .ok r.2) (hapart : (roots.map Prod.fst).Pairwise t.Apart) :
    (t.sourcesBelow roots).Pairwise fun s s' => s.place ≠ s'.place := by
  rw [sourcesBelow, List.pairwise_flatMap]
  constructor
  · intro r _
    refine List.pairwise_map.2 ((List.pairwise_map.1 (h.nodup_sources r.2)).imp fun hne hplace => hne ?_)
    exact List.append_cancel_left hplace
  · refine (List.pairwise_map.1 hapart).imp_of_mem fun {r r'} hr hr' hfolders => ?_
    intro s hs s' hs' hplace
    obtain ⟨hfirst, hsecond⟩ := hfolders r.2 r'.2 (hroots r hr) (hroots r' hr')
    obtain ⟨f, -, rfl⟩ := List.mem_map.1 hs
    obtain ⟨f', -, rfl⟩ := List.mem_map.1 hs'
    have hprefix : r'.2 <+: r.2 ++ f.1 := ⟨f'.1, hplace.symm⟩
    rcases List.prefix_or_prefix_of_prefix (List.prefix_append r.2 f.1) hprefix with hp | hp
    · exact hfirst hp
    · exact hsecond hp

/-- Two trees with files at the same places have the same sources below the same folders, save for
their texts. -/
theorem WellFormed.sourcesBelow_eq (h : t.WellFormed) (h' : t'.WellFormed)
    (hfiles : ∀ l, (∃ s, t'.node? l = some (.file s)) ↔ ∃ s, t.node? l = some (.file s))
    (roots : List (Text × Location)) : t'.sourcesBelow roots =
      (t.sourcesBelow roots).map fun s => { s with text := t'.textAt s.place } := by
  rw [sourcesBelow, sourcesBelow, List.map_flatMap]
  congr 1
  funext r
  rw [sourcesIn, sourcesIn, h.sources_eq h' hfiles, List.map_map, List.map_map]
  rfl

/-! ### Saving -/

/-- The file that a class was read from is at a place. -/
def Home (t : FileTree) (k : Class) (l : Location) : Prop := ∃ p, k.file? = some p ∧ t.locate p = .ok l

/-- A tree in which some classes have been saved: the files of these classes hold their texts, and
whatever else stands anywhere is what stood there before. -/
structure Saved (t : FileTree) (ks : List Class) (t' : FileTree) : Prop where
  wellFormed : t'.WellFormed
  folder : ∀ p, t'.folder p = t.folder p
  files : ∀ l, (∃ s, t'.node? l = some (.file s)) ↔ ∃ s, t.node? l = some (.file s)
  kept : ∀ l, (∀ k ∈ ks, ¬ t.Home k l) → t'.node? l = t.node? l
  written : ∀ k ∈ ks, ∃ l, t.Home k l ∧ t'.node? l = some (.file k.text)

/-- Classes are saved one after another, each to its file. -/
inductive Saves : FileTree → List Class → FileTree → Prop
  | nil (t : FileTree) : Saves t [] t
  | cons {t t₁ t' : FileTree} {k : Class} {ks : List Class} {p : Text} (file : k.file? = some p)
      (write : t.write p k.text = .ok t₁) (rest : Saves t₁ ks t') : Saves t (k :: ks) t'

theorem home_put_file {l : Location} {s₀ : Text} (hl : t.node? l = some (.file s₀)) (s : Text) (k : Class)
    (m : Location) : (t.put l (.file s)).Home k m ↔ t.Home k m := by
  simp only [Home, locate_put_file hl]

/-- One class is written over its file, and others after it over files of theirs. -/
theorem Saved.cons {k : Class} {ks : List Class} {l : Location} {s₀ : Text}
    (hl : t.node? l = some (.file s₀)) (hhome : t.Home k l) (hapart : ∀ k' ∈ ks, ¬ t.Home k' l)
    (h : (t.put l (.file k.text)).Saved ks t') : t.Saved (k :: ks) t' where
  wellFormed := h.wellFormed
  folder p := (h.folder p).trans (folder_put_file hl _ p)
  files m := (h.files m).trans (exists_file_put_iff hl _ m)
  kept m hm := by
    obtain ⟨hmk, hmks⟩ := List.forall_mem_cons.1 hm
    have hne : m ≠ l := by
      rintro rfl
      exact hmk hhome
    rw [h.kept m fun k' hk' hm' => hmks k' hk' ((home_put_file hl _ k' m).1 hm'), node?_put_file hl,
      if_neg hne]
  written := by
    refine List.forall_mem_cons.2 ⟨⟨l, hhome, ?_⟩, fun k' hk' => ?_⟩
    · rw [h.kept l fun k' hk' hm => hapart k' hk' ((home_put_file hl _ k' l).1 hm), node?_put_file hl,
        if_pos rfl]
    · obtain ⟨m, hm, hnode⟩ := h.written k' hk'
      exact ⟨m, (home_put_file hl _ k' m).1 hm, hnode⟩

/-- Classes that are saved one after another, each over a file of its own. -/
theorem WellFormed.saved (h : t.WellFormed) {ks : List Class}
    (hfile : ∀ k ∈ ks, ∀ l, t.Home k l → ∃ s, t.node? l = some (.file s))
    (hapart : ks.Pairwise fun k k' => ∀ l, t.Home k l → ¬ t.Home k' l)
    (hsave : t.Saves ks t') : t.Saved ks t' := by
  induction hsave with
  | nil t => exact ⟨h, fun _ => rfl, fun _ => Iff.rfl, fun _ _ => rfl, by simp⟩
  | @cons t t₁ t' k ks p hpath hwrite _ ih =>
    obtain ⟨hk, hks⟩ := List.pairwise_cons.1 hapart
    obtain ⟨hfilek, hfileks⟩ := List.forall_mem_cons.1 hfile
    obtain ⟨l, hplace, -, rfl⟩ := exists_of_write hwrite
    have hhome : t.Home k l := ⟨p, hpath, hplace⟩
    obtain ⟨s₀, hl⟩ := hfilek l hhome
    refine .cons hl hhome (fun k' hk' => hk k' hk' l hhome) (ih (h.put_file hl k.text) ?_ ?_)
    · intro k' hk' m hm
      exact (exists_file_put_iff hl _ m).2 (hfileks k' hk' m ((home_put_file hl _ k' m).1 hm))
    · simpa only [home_put_file hl] using hks

end FileTree

/-! ### Reading again -/

/-- A class that was loaded from a file and revised is read back from the file with its text, unless a
character is split on the way. -/
theorem Class.ofFile_revised {path text : Text} {k : Class} (hload : ofFile path text = .ok k)
    {ms : List Method}
    (hms : (∀ m ∈ k.methods, m.Valid) → List.Forall₂ Method.Revises ms k.methods)
    (hvalue : ∀ f ∈ k.fields, f.value? ≠ some []) :
    ofFile path { k with methods := ms }.text =
      if { k with methods := ms }.splits then Outcome.abort .splitCharacter
      else .ok { k with methods := ms } := by
  rw [ofFile] at hload
  cases hread : Class.read text with
  | error e => rw [hread] at hload; cases hload
  | ok d =>
    rw [hread] at hload
    cases hload
    have hwell := wellFormed_of_read hread hvalue
    have hrevises := hwell.revises_of_methods (hms hwell.methods)
    have htext := hrevises.wellFormed.read_text
    have hsame : { d with file? := some path, methods := ms }.text = { d with methods := ms }.text := rfl
    have hsplits : { d with file? := some path, methods := ms }.splits = { d with methods := ms }.splits := rfl
    rw [hsame, hsplits, ofFile, htext]
    cases { d with methods := ms }.splits <;> rfl

/-- A list of readings of which some abort in one way. -/
theorem mapM_eq_ite {α β : Type} {zs : List α} {f : α → Outcome β} {bad : α → Bool} {g : α → β}
    {a : Abort} (h : ∀ z ∈ zs, f z = if bad z then Outcome.abort a else .ok (g z)) :
    zs.mapM f = if zs.any bad then Outcome.abort a else .ok (zs.map g) := by
  induction zs with
  | nil => rfl
  | cons z zs ih =>
    obtain ⟨hz, hzs⟩ := List.forall_mem_cons.1 h
    rw [List.mapM_cons, hz, ih hzs, List.any_cons]
    cases bad z <;> cases zs.any bad <;> rfl

namespace Context

theorem files_run (c : Context) (o : Operation) : (o.run c).files = c.files := by
  have hlooked : ∀ f, (c.looked f).files = c.files := by
    intro f
    rw [looked]
    split <;> rfl
  cases o with
  | resolve f => simpa [Operation.run, Operation.step, exec_resolve] using hlooked f
  | probe f => simpa [Operation.run, Operation.step, exec_probe] using hlooked f
  | change k g => rfl
  | edit id x => simp [Operation.run, Operation.step, exec_edit]
  | rename chain => rw [run_rename]

theorem files_after (c : Context) (os : List Operation) : (c.after os).files = c.files := by
  induction os using List.reverseRecOn with
  | nil => rfl
  | append_singleton os o ih => rw [after_append, files_run, ih]

/-- In a run that revises classes, a copy differs from its loaded class in the methods. -/
theorem copy_after (p : Pool) (options : Options) (resources? : Option Text) (files : FileTree)
    (rs : List Revision) {s : Slot}
    (hs : s ∈ ((start p options resources? files).after (rs.map Revision.operation)).workspace.slots)
    {k : Class} (hk : s.copy? = some k) :
    ∃ ms, k = { s.loaded with methods := ms } ∧
      ((∀ m ∈ s.loaded.methods, m.Valid) → List.Forall₂ Method.Revises ms s.loaded.methods) := by
  obtain ⟨hpool, hclasses⟩ := agrees p options resources? files (rs.map Revision.operation)
  obtain ⟨j, hj⟩ := List.mem_iff_getElem?.1 hs
  have hloaded : p.class? j = some s.loaded := by
    rw [← hpool, pool, Workspace.pool, Pool.class?, List.getElem?_map, hj]
    rfl
  have hcurrent : s.current = k := by rw [Slot.current, hk, Option.getD_some]
  obtain ⟨ms, hms, hrevises⟩ := Revision.methods_copiesAfter rs hloaded
  rw [← hclasses, Workspace.classes, List.getElem?_map, hj, Option.map_some, hcurrent,
    Option.some.injEq] at hms
  exact ⟨ms, hms, hrevises⟩

/-! ### Saving the modified classes -/

theorem exec_saveClass {c c' : Context} {k : Class} (h : exec (Run.saveClass k) c = (.ok (), c')) :
    ∃ p, k.file? = some p ∧ c.files.write p k.text = .ok c'.files ∧
      c' = { c with files := c'.files, refusals := c'.refusals } := by
  rw [Run.saveClass] at h
  cases hp : k.file? with
  | none =>
    rw [hp] at h
    cases h
  | some p =>
    rw [hp] at h
    obtain ⟨hwrite, hc'⟩ := exec_writeFile h
    exact ⟨p, rfl, hwrite, hc'⟩

theorem exec_saveAll {c c' : Context} {ks : List Class} (h : exec (ks.forM Run.saveClass) c = (.ok (), c')) :
    c' = { c with files := c'.files, refusals := c'.refusals } ∧ c.files.Saves ks c'.files := by
  induction ks generalizing c with
  | nil =>
    cases h
    exact ⟨rfl, .nil _⟩
  | cons k ks ih =>
    obtain ⟨⟨⟩, c₁, hk, hks⟩ := exists_of_exec_bind h
    obtain ⟨p, hp, hwrite, hc₁⟩ := exec_saveClass hk
    obtain ⟨hc', hsaves⟩ := ih hks
    exact ⟨by rw [hc', hc₁], .cons hp hwrite hsaves⟩

theorem exec_saveModified {c c' : Context} {n : Nat} (h : exec Run.saveModified c = (.ok n, c')) :
    n = c.workspace.modified.length ∧ c' = { c with files := c'.files, refusals := c'.refusals } ∧
      c.files.Saves c.workspace.modified c'.files := by
  rw [Run.saveModified, exec_bind, exec_get] at h
  obtain ⟨⟨⟩, d, hall, hend⟩ := exists_of_exec_bind h
  cases hend
  obtain ⟨hd, hsaves⟩ := exec_saveAll hall
  exact ⟨rfl, hd, hsaves⟩

theorem length_modified (w : Workspace) : w.modified.length = w.openIndices.length := by
  have h : w.slots.zipIdx.map Prod.fst = w.slots := List.zipIdx_map_fst 0 w.slots
  rw [Workspace.modified, ← h, List.filterMap_map, Workspace.openIndices,
    List.length_filterMap_eq_countP, List.length_filterMap_eq_countP]
  congr 1
  funext s
  obtain ⟨⟨loaded, copy?⟩, k⟩ := s
  cases copy? <;> rfl

/-- Sources and slots of the classes that were read from them, pair by pair. -/
theorem exists_pairs {sources : List Source} {slots : List Slot}
    (h : sources.mapM Source.read = .ok (slots.map Slot.loaded)) :
    ∃ zs : List (Source × Slot), zs.map Prod.fst = sources ∧ zs.map Prod.snd = slots ∧
      ∀ z ∈ zs, z.1.read = .ok z.2.loaded := by
  induction sources generalizing slots with
  | nil =>
    cases slots with
    | nil => exact ⟨[], rfl, rfl, by simp⟩
    | cons s slots => cases h
  | cons src sources ih =>
    rw [List.mapM_cons] at h
    obtain ⟨k, hk, h⟩ := exists_of_bind h
    obtain ⟨ks, hks, h⟩ := exists_of_bind h
    cases slots with
    | nil => cases h
    | cons s slots =>
      obtain ⟨rfl, rfl⟩ := List.cons.inj (Except.ok.inj h)
      obtain ⟨zs, hsources, hslots, hread⟩ := ih hks
      exact ⟨(src, s) :: zs, by rw [List.map_cons, hsources], by rw [List.map_cons, hslots],
        List.forall_mem_cons.2 ⟨hk, hread⟩⟩

/-- The slots of a run, each with the source that its class was loaded from. -/
structure Linked (t : FileTree) (zs : List (Source × Slot)) : Prop where
  read : ∀ z ∈ zs, z.1.read = .ok z.2.loaded
  revised : ∀ z ∈ zs, ∀ k, z.2.copy? = some k → ∃ ms, k = { z.2.loaded with methods := ms } ∧
    ((∀ m ∈ z.2.loaded.methods, m.Valid) → List.Forall₂ Method.Revises ms z.2.loaded.methods)
  node : ∀ z ∈ zs, t.node? z.1.place = some (.file z.1.text)
  place : ∀ z ∈ zs, ∀ l, t.locate z.1.path = .ok l → l = z.1.place
  apart : zs.Pairwise fun z z' => z.1.place ≠ z'.1.place

/-- The copies among some slots. -/
def copies (zs : List (Source × Slot)) : List Class := zs.filterMap fun z => z.2.copy?

namespace Linked

variable {t t' : FileTree} {zs : List (Source × Slot)}

/-- The file of a copy is that of its source. -/
theorem eq_place_of_home (h : Linked t zs) {z : Source × Slot} (hz : z ∈ zs) {k : Class}
    (hk : z.2.copy? = some k) {l : Location} (hl : t.Home k l) : l = z.1.place := by
  obtain ⟨p, hp, hl⟩ := hl
  obtain ⟨ms, rfl, -⟩ := h.revised z hz k hk
  have hread := h.read z hz
  rw [Source.read, Class.ofFile] at hread
  split at hread
  · rw [← Except.ok.inj hread, Option.some.injEq] at hp
    exact h.place z hz l (hp ▸ hl)
  · cases hread

/-- Saving the copies writes over the sources that they are from. -/
theorem saved (h : Linked t zs) (ht : t.WellFormed)
    (hsave : t.Saves (copies zs) t') : t.Saved (copies zs) t' := by
  have hapart : zs.Pairwise fun z z' => ∀ k, z.2.copy? = some k → ∀ k', z'.2.copy? = some k' →
      ∀ l, t.Home k l → ¬ t.Home k' l := by
    refine h.apart.imp_of_mem fun hz hz' hne k hk k' hk' l hl hl' => hne ?_
    rw [← h.eq_place_of_home hz hk hl, ← h.eq_place_of_home hz' hk' hl']
  refine ht.saved (fun k hk l hl => ?_) (hapart.filterMap _ fun z z' hzz' => hzz') hsave
  obtain ⟨z, hz, hcopy⟩ := List.mem_filterMap.1 hk
  exact ⟨z.1.text, (h.eq_place_of_home hz hcopy hl) ▸ h.node z hz⟩

/-- After saving, the source of a slot holds the text of the copy, if there is one, and its own if not. -/
theorem node?_saved (h : Linked t zs) (hsaved : t.Saved (copies zs) t') {z : Source × Slot} (hz : z ∈ zs) :
    t'.node? z.1.place = some (.file ((z.2.copy?.map Class.text).getD z.1.text)) := by
  cases hcopy : z.2.copy? with
  | some k =>
    obtain ⟨l, hl, hnode⟩ := hsaved.written k (List.mem_filterMap.2 ⟨z, hz, hcopy⟩)
    rwa [h.eq_place_of_home hz hcopy hl] at hnode
  | none =>
    rw [hsaved.kept z.1.place, h.node z hz]
    · rfl
    · intro k hk hl
      obtain ⟨z', hz', hcopy'⟩ := List.mem_filterMap.1 hk
      have hplaces : (zs.map fun z => z.1.place).Nodup := List.pairwise_map.2 h.apart
      obtain rfl := List.inj_on_of_nodup_map hplaces hz hz' (h.eq_place_of_home hz' hcopy' hl)
      rw [hcopy] at hcopy'
      cases hcopy'

/-- The text of a slot is read back as its class, unless a character is split on the way. -/
theorem ofFile_eq (h : Linked t zs) {z : Source × Slot} (hz : z ∈ zs)
    (hvalue : ∀ k, z.2.copy? = some k → ∀ f ∈ k.fields, f.value? ≠ some []) :
    Class.ofFile z.1.path ((z.2.copy?.map Class.text).getD z.1.text) =
      if z.2.copy?.any Class.splits then Outcome.abort .splitCharacter else .ok z.2.current := by
  cases hcopy : z.2.copy? with
  | none =>
    rw [Slot.current, hcopy]
    exact h.read z hz
  | some k =>
    obtain ⟨ms, rfl, hms⟩ := h.revised z hz k hcopy
    rw [Slot.current, hcopy]
    have hfields := hvalue _ hcopy
    exact Class.ofFile_revised (h.read z hz) hms hfields

/-- Reading the folders of the sources again gives the slots as they are now. -/
theorem readPool_eq (h : Linked t zs) (ht : t.WellFormed) (hsaved : t.Saved (copies zs) t')
    {roots : List (Text × Location)} (hroots : ∀ r ∈ roots, t.folder r.1 = .ok r.2)
    (hsources : zs.map Prod.fst = t.sourcesBelow roots)
    (hvalue : ∀ k ∈ copies zs, ∀ f ∈ k.fields, f.value? ≠ some []) :
    t'.readPool (roots.map Prod.fst) =
      if (copies zs).any Class.splits then Outcome.abort .splitCharacter
      else .ok ⟨zs.map fun z => z.2.current⟩ := by
  have hreadings : ∀ z ∈ zs, Class.ofFile z.1.path (t'.textAt z.1.place) =
      if z.2.copy?.any Class.splits then Outcome.abort .splitCharacter else .ok z.2.current := by
    intro z hz
    rw [FileTree.textAt, h.node?_saved hsaved hz]
    exact h.ofFile_eq hz fun k hk => hvalue k (List.mem_filterMap.2 ⟨z, hz, hk⟩)
  have hroots' : ∀ r ∈ roots, t'.folder r.1 = .ok r.2 := fun r hr =>
    (hsaved.folder r.1).trans (hroots r hr)
  have hany : (copies zs).any Class.splits = zs.any fun z => z.2.copy?.any Class.splits := by
    rw [copies, List.any_filterMap]
    rfl
  rw [FileTree.readPool_eq hroots', ht.sourcesBelow_eq hsaved.wellFormed hsaved.files, ← hsources,
    List.map_map, List.mapM_map, hany]
  refine (congrArg (Except.map Pool.mk) (mapM_eq_ite hreadings)).trans ?_
  split <;> rfl

end Linked

/-- A run on the classes of a tree links its slots to the sources. -/
theorem exists_linked {t : FileTree} (ht : t.WellFormed) {roots : List (Text × Location)}
    (hroots : ∀ r ∈ roots, t.folder r.1 = .ok r.2) (hapart : (roots.map Prod.fst).Pairwise t.Apart)
    {p : Pool} (hload : t.readPool (roots.map Prod.fst) = .ok p) (options : Options)
    (resources? : Option Text) (rs : List Revision) :
    ∃ zs, zs.map Prod.fst = t.sourcesBelow roots ∧ zs.map Prod.snd =
      ((start p options resources? t).after (rs.map Revision.operation)).workspace.slots ∧
      Linked t zs := by
  have hsources : (t.sourcesBelow roots).mapM Source.read =
      .ok (((start p options resources? t).after (rs.map Revision.operation)).workspace.slots.map
        Slot.loaded) := by
    obtain ⟨ks, hks, hp⟩ := exists_of_map ((FileTree.readPool_eq hroots).symm.trans hload)
    have hpool := (agrees p options resources? t (rs.map Revision.operation)).1
    rw [hks, ← Pool.mk.inj (hpool.trans hp.symm)]
  obtain ⟨zs, hzsources, hzslots, hzread⟩ := exists_pairs hsources
  have hmem : ∀ z ∈ zs, z.1 ∈ t.sourcesBelow roots := by
    intro z hz
    rw [← hzsources]
    exact List.mem_map_of_mem hz
  have hslot : ∀ z ∈ zs, z.2 ∈
      ((start p options resources? t).after (rs.map Revision.operation)).workspace.slots := by
    intro z hz
    rw [← hzslots]
    exact List.mem_map_of_mem hz
  have hplaces := ht.pairwise_place hroots hapart
  rw [← hzsources, List.pairwise_map] at hplaces
  exact ⟨zs, hzsources, hzslots, hzread,
    fun z hz _ hk => copy_after p options resources? t rs (hslot z hz) hk,
    fun z hz => (ht.of_mem_sourcesBelow hroots (hmem z hz)).1,
    fun z hz => (ht.of_mem_sourcesBelow hroots (hmem z hz)).2, hplaces⟩

/-- The modified classes of a run are saved, which the system could have refused, and the same folders are loaded
again. Only the files of the modified classes change; each then holds the text of its class. What is loaded are
the classes that the run shows, each with its file and in its place, unless the look-ahead of a parameter of a
modified class splits a character, which stops the reading. -/
theorem reload_after {t : FileTree} (ht : t.WellFormed) {folders : List Text} {p : Pool}
    (hapart : folders.Pairwise t.Apart) (hload : t.readPool folders = .ok p)
    (options : Options) (resources? : Option Text) (rs : List Revision) {c c' : Context} {n : Nat}
    (hrun : c = (start p options resources? t).after (rs.map Revision.operation))
    (hvalue : ∀ k ∈ c.workspace.modified, ∀ f ∈ k.fields, f.value? ≠ some [])
    {refusals : List (Option Refusal)} (hsave : exec Run.saveModified { c with refusals := refusals } = (.ok n, c')) :
    n = c.workspace.openIndices.length ∧
    c' = { c with files := c'.files, refusals := c'.refusals } ∧
    (∀ l, (∀ k ∈ c.workspace.modified, ¬ t.Home k l) → c'.files.node? l = t.node? l) ∧
    (∀ k ∈ c.workspace.modified, ∃ l, t.Home k l ∧ c'.files.node? l = some (.file k.text)) ∧
    c'.files.readPool folders = if c.workspace.modified.any Class.splits then
        Outcome.abort .splitCharacter
      else .ok ⟨c.workspace.classes⟩ := by
  obtain ⟨hcount, hcontext, hsaves⟩ := exec_saveModified hsave
  obtain ⟨roots, rfl, hroots⟩ := FileTree.exists_roots hload
  obtain ⟨zs, hsources, hslots, hlinked⟩ := exists_linked ht hroots hapart hload options resources? rs
  rw [← hrun] at hslots
  have hfiles : c.files = t := by
    rw [hrun, files_after]
    rfl
  have hcopies : c.workspace.modified = copies zs := by
    rw [Workspace.modified, ← hslots, List.filterMap_map]
    rfl
  have hclasses : c.workspace.classes = zs.map fun z => z.2.current := by
    rw [Workspace.classes, ← hslots, List.map_map]
    rfl
  rw [hfiles, hcopies] at hsaves
  have hsaved := hlinked.saved ht hsaves
  rw [hcopies, hclasses]
  exact ⟨hcount.trans (length_modified _), hcontext, hsaved.kept, hsaved.written,
    hlinked.readPool_eq ht hsaved hroots hsources (hcopies ▸ hvalue)⟩

/-- The class whose text cannot be read, in its file, and a run that puts an instruction into it. -/
def crossedTree : FileTree :=
  ⟨[(["smali", "a.smali"], .file Class.crossedDocument), (["smali"], .folder)]⟩

def crossedPool : Pool := ⟨[{ Class.crossed with file? := some "smali/a.smali" }]⟩

def crossedRun : Context :=
  (start crossedPool .empty none crossedTree).after
    ([.edit ⟨0, 0⟩ (.insert 0 "return-void")].map Revision.operation)

/-- The folder is loaded, its class edited and saved, and then the folder cannot be loaded again. -/
theorem crossed_not_reloaded :
    FileTree.ofFiles [("smali/a.smali", Class.crossedDocument)] = .ok crossedTree ∧
    crossedTree.readPool ["smali"] = .ok crossedPool ∧
    (∀ k ∈ crossedRun.workspace.modified, ∀ f ∈ k.fields, f.value? ≠ some []) ∧
    (exec Run.saveModified crossedRun).1 = .ok 1 ∧
    (exec Run.saveModified crossedRun).2.files.readPool ["smali"] = Outcome.abort .splitCharacter :=
  ⟨rfl, by decide +kernel, by decide +kernel, by decide +kernel, by decide +kernel⟩

/-- Two folders with a source in each. -/
def nestedFiles : List (Text × Text) :=
  [("a/c/a.smali", Class.nestedDocument), ("a/c.txt", ".class"), ("b/a.smali", ".class Lb;\n")]

def nestedFolders : List Text := ["a", "b/"]

def nestedTree : FileTree :=
  ⟨[(["b", "a.smali"], .file ".class Lb;\n"), (["b"], .folder), (["a", "c.txt"], .file ".class"),
    (["a", "c", "a.smali"], .file Class.nestedDocument), (["a", "c"], .folder), (["a"], .folder)]⟩

def nestedPool : Pool :=
  ⟨[{ Class.nested with file? := some "a/c/a.smali" },
    { Class.nested with name := ⟨"b"⟩, methods := [], file? := some "b/a.smali" }]⟩

def nestedRevisions : List Revision :=
  [.edit ⟨0, 0⟩ (.insert 0 "return-void"), .edit ⟨0, 0⟩ (.ensureLocals 2)]

def nestedRun : Context :=
  (start nestedPool .empty none nestedTree).after (nestedRevisions.map Revision.operation)

/-- The first class is edited and saved, and the second stays. -/
theorem reload_after_nested : nestedTree.WellFormed ∧ nestedFolders.Pairwise nestedTree.Apart ∧
    nestedTree.readPool nestedFolders = .ok nestedPool ∧
    (∀ k ∈ nestedRun.workspace.modified, ∀ f ∈ k.fields, f.value? ≠ some []) ∧
    ∃ c', exec Run.saveModified nestedRun = (.ok 1, c') ∧
      c'.files.readPool nestedFolders = .ok ⟨nestedRun.workspace.classes⟩ := by
  have htree : nestedTree.WellFormed := by
    have hmade : FileTree.ofFiles nestedFiles = .ok nestedTree := by rfl
    exact FileTree.wellFormed_ofFiles hmade
  have hapart : nestedFolders.Pairwise nestedTree.Apart := by
    have hfirst : nestedTree.folder "a" = .ok ["a"] := by rfl
    have hsecond : nestedTree.folder "b/" = .ok ["b"] := by rfl
    refine List.pairwise_pair.2 fun l l' hl hl' => ?_
    rw [hfirst] at hl
    rw [hsecond] at hl'
    cases hl
    cases hl'
    decide
  have hload : nestedTree.readPool nestedFolders = .ok nestedPool := by decide +kernel
  have hvalue : ∀ k ∈ nestedRun.workspace.modified, ∀ f ∈ k.fields, f.value? ≠ some [] := by
    decide +kernel
  have hsplits : nestedRun.workspace.modified.any Class.splits = false := by decide +kernel
  have hcount : (exec Run.saveModified nestedRun).1 = .ok 1 := by decide +kernel
  obtain ⟨c', hsave⟩ : ∃ c', exec Run.saveModified nestedRun = (.ok 1, c') := by
    generalize exec Run.saveModified nestedRun = saved at hcount
    obtain ⟨answer, c'⟩ := saved
    exact ⟨c', Prod.ext hcount rfl⟩
  have hrun : nestedRun = (start nestedPool .empty none nestedTree).after
      (nestedRevisions.map Revision.operation) := rfl
  obtain ⟨-, -, -, -, hreload⟩ :=
    reload_after htree hapart hload .empty none nestedRevisions hrun hvalue hsave
  rw [hsplits] at hreload
  exact ⟨htree, hapart, hload, hvalue, c', hsave, hreload⟩

end Context

end DalvikPatch
