import DalvikPatch.Proofs.Accesses
import Mathlib.Data.List.Induction

/-! Where the modified classes are written below a folder. A class goes to the place that its name leads
to, with the extension of sources in the place of what follows the last dot; of several classes
with one place the last one stays. Names without dots lead to places of their own below the
folder, other names need not. -/

namespace DalvikPatch

open Text

namespace Path

/-! ### Places -/

/-- The parts that lead elsewhere. -/
def active (ps : List Text) : List Text := ps.filter fun part => !isIdle part

/-- The place that parts lead to, where two dots take back the name before. -/
def place (here : Location) : List Text → Location
  | [] => here
  | part :: parts =>
    if isIdle part then place here parts
    else if part = ".." then place here.dropLast parts
    else place (here ++ [part]) parts

@[simp] theorem active_append (ps qs : List Text) : active (ps ++ qs) = active ps ++ active qs :=
  List.filter_append ..

theorem active_of_idle {part : Text} (h : isIdle part) : active [part] = [] := by
  simp [active, h]

theorem active_of_not_idle {part : Text} (h : isIdle part = false) : active [part] = [part] := by
  simp [active, h]

theorem not_idle_of_mem_active {ps : List Text} {part : Text} (h : part ∈ active ps) : isIdle part = false := by
  simpa using (List.mem_filter.1 h).2

theorem place_append (here : Location) (ps qs : List Text) :
    place here (ps ++ qs) = place (place here ps) qs := by
  induction ps generalizing here with
  | nil => rfl
  | cons p ps ih =>
    rw [List.cons_append, place, place]
    split
    · exact ih here
    · split
      · exact ih here.dropLast
      · exact ih (here ++ [p])

theorem place_active (here : Location) (ps : List Text) : place here (active ps) = place here ps := by
  induction ps generalizing here with
  | nil => rfl
  | cons p ps ih =>
    by_cases hp : isIdle p
    · rw [place, if_pos hp, ← ih here]
      simp [active, hp]
    · have hcons : active (p :: ps) = p :: active ps := by simp [active, hp]
      rw [hcons, place, place, if_neg hp, if_neg hp, ih, ih]

/-- Names lead down. -/
theorem place_of_down {ps : List Text} (hactive : ∀ p ∈ ps, isIdle p = false) (hdown : ∀ p ∈ ps, p ≠ "..")
    (here : Location) : place here ps = here ++ ps := by
  induction ps generalizing here with
  | nil => exact (List.append_nil here).symm
  | cons p ps ih =>
    obtain ⟨hp, hps⟩ := List.forall_mem_cons.1 hactive
    obtain ⟨hp', hps'⟩ := List.forall_mem_cons.1 hdown
    rw [place, if_neg (by simp [hp]), if_neg hp', ih hps hps', List.append_assoc, List.singleton_append]

/-! ### Paths below a folder -/

theorem active_parts_below (folder : Text) {part : Text} (h : '/' ∉ part) :
    active (parts (below folder part)) = active (parts folder) ++ active [part] := by
  have hstart : startsWith "/" part = false := by
    rw [Bool.eq_false_iff]
    intro hs
    obtain ⟨s, rfl⟩ := startsWith_iff.1 hs
    exact h (by simp)
  rw [below, hstart, if_neg (by simp)]
  split
  · next hfolder =>
    rcases hfolder with rfl | hend
    · rw [List.nil_append, parts, pieces_of_not_mem h]
      rfl
    · obtain ⟨s, hs⟩ := startsWith_iff.1 hend
      obtain rfl : folder = s.reverse ++ ['/'] := by
        rw [← List.reverse_reverse folder, hs]
        simp
      have hidle : active (pieces '/' []) = [] := active_of_idle rfl
      rw [List.append_assoc, List.singleton_append, parts, parts, pieces_append, pieces_append,
        pieces_of_not_mem h, active_append, active_append, hidle, List.append_nil]
  · rw [List.append_assoc, parts]
    have hslash : ("/" : Text) ++ part = '/' :: part := rfl
    rw [hslash, pieces_append, pieces_of_not_mem h, active_append]
    rfl

theorem active_parts_foldl {ps : List Text} (h : ∀ p ∈ ps, '/' ∉ p) (folder : Text) :
    active (parts (ps.foldl below folder)) = active (parts folder) ++ active ps := by
  induction ps generalizing folder with
  | nil => exact (List.append_nil _).symm
  | cons p ps ih =>
    obtain ⟨hp, hps⟩ := List.forall_mem_cons.1 h
    rw [List.foldl_cons, ih hps, active_parts_below folder hp, List.append_assoc, ← active_append]
    rfl

/-! ### Extensions -/

/-- Settled parts end in the last part that leads elsewhere. -/
theorem settle_cases (ps : List Text) : (settle ps = [] ∧ active ps = []) ∨
    ∃ init name, settle ps = init ++ [name] ∧ active ps = active init ++ [name] ∧ init ++ [name] <+: ps := by
  induction ps using List.reverseRecOn with
  | nil => exact .inl ⟨rfl, rfl⟩
  | append_singleton ps p ih =>
    by_cases hp : isIdle p
    · have hsettle : settle (ps ++ [p]) = settle ps := by simp [settle, hp]
      rw [hsettle, active_append, active_of_idle hp, List.append_nil]
      rcases ih with ih | ⟨init, name, hsettle, hactive, hinit⟩
      · exact .inl ih
      · exact .inr ⟨init, name, hsettle, hactive, hinit.trans (List.prefix_append ps [p])⟩
    · refine .inr ⟨ps, p, by simp [settle, hp], ?_, List.prefix_refl _⟩
      rw [active_append, active_of_not_idle (Bool.eq_false_iff.2 hp)]

/-- A name with the extension of sources. -/
def sourceName (name : Text) : Text := (splitName name).1 ++ "." ++ sourceExtension

/-- Parts with the extension of sources on the last of them. -/
def asSource (ps : List Text) : List Text :=
  match ps.getLast? with
  | none => []
  | some name => if name = ".." then ps else ps.dropLast ++ [sourceName name]

theorem asSource_append_singleton (ps : List Text) {name : Text} (h : name ≠ "..") :
    asSource (ps ++ [name]) = ps ++ [sourceName name] := by
  rw [asSource, List.getLast?_concat, List.dropLast_concat]
  exact if_neg h

theorem slash_not_mem_sourceName {name : Text} (h : '/' ∉ name) : '/' ∉ sourceName name := by
  have hstem : '/' ∉ (splitName name).1 := by
    rw [splitName]
    split
    · next stem e hcut =>
      split
      · exact h
      · intro hs
        exact h (by rw [eq_of_cutLast? hcut]; simp [hs])
    · exact h
  simpa [sourceName, sourceExtension] using hstem

theorem sourceName_active (name : Text) : isIdle (sourceName name) = false ∧ sourceName name ≠ ".." := by
  have hlength : 6 ≤ (sourceName name).length := by simp [sourceName, sourceExtension]
  refine ⟨?_, fun h => by simp [h] at hlength⟩
  rw [isIdle, Bool.or_eq_false_iff]
  constructor <;> exact beq_eq_false_iff_ne.2 fun h => by simp [h] at hlength

theorem active_parts_withExtension (p : Text) :
    active (parts (withExtension sourceExtension p)) = asSource (active (parts p)) := by
  rw [withExtension]
  rcases settle_cases (parts p) with ⟨hsettle, hactive⟩ | ⟨init, name, hsettle, hactive, hinit⟩
  · rw [hsettle, hactive]
    exact hactive
  · rw [hsettle, hactive, List.getLast?_concat]
    dsimp only
    split
    · next hname => rw [hactive, hname, asSource, List.getLast?_concat]; simp
    · next hname =>
      have hslash : ∀ q ∈ init ++ [sourceName name], '/' ∉ q := by
        have hparts : ∀ q ∈ init ++ [name], '/' ∉ q := fun q hq =>
          slash_not_mem_pieces p q (hinit.subset hq)
        intro q hq
        rcases List.mem_append.1 hq with hq | hq
        · exact hparts q (List.mem_append_left _ hq)
        · rw [List.mem_singleton.1 hq]
          exact slash_not_mem_sourceName (hparts name (by simp))
      rw [asSource_append_singleton _ hname, List.dropLast_concat]
      change active (parts (ofParts (init ++ [sourceName name]))) = _
      rw [parts_ofParts (by simp) hslash, active_append, active_of_not_idle (sourceName_active name).1]

end Path

/-! ### Places of classes -/

/-- The parts of a name that lead elsewhere, without what follows the last dot. -/
def ClassName.stems (n : ClassName) : List Text :=
  let ps := Path.active (Path.parts n.path)
  ps.dropLast ++ (ps.getLast?.map fun name => (Path.splitName name).1).toList

/-- A name that leads somewhere, and never up. -/
structure ClassName.LeadsDown (n : ClassName) : Prop where
  active : Path.active (Path.parts n.path) ≠ []
  down : ∀ part ∈ Path.parts n.path, part ≠ ".."

/-- A name of parts that are names, where no dot separates an extension. -/
structure ClassName.IsPlain (n : ClassName) : Prop where
  names : ∀ part ∈ Path.parts n.path, Path.IsName part
  whole : ∀ name ∈ (Path.parts n.path).getLast?, (Path.splitName name).2 = none

instance (name : Text) : Decidable (Path.IsName name) :=
  decidable_of_iff (Path.isIdle name = false ∧ name ≠ ".." ∧ '/' ∉ name)
    ⟨fun h => ⟨h.1, h.2.1, h.2.2⟩, fun h => ⟨h.active, h.down, h.slash⟩⟩

instance (n : ClassName) : Decidable n.IsPlain :=
  decidable_of_iff ((∀ part ∈ Path.parts n.path, Path.IsName part) ∧
      ∀ name ∈ (Path.parts n.path).getLast?, (Path.splitName name).2 = none)
    ⟨fun h => ⟨h.1, h.2⟩, fun h => ⟨h.names, h.whole⟩⟩

namespace Class

/-- The place of a class below a folder. -/
def placeBelow (folder : Text) (k : Class) : Location :=
  Path.place [] (Path.asSource (Path.active (Path.parts folder) ++ Path.active (Path.parts k.name.path)))

variable {k d : Class}

theorem place_pathBelow (folder : Text) (k : Class) :
    Path.place [] (Path.parts (k.pathBelow folder)) = k.placeBelow folder := by
  rw [← Path.place_active, pathBelow, Path.active_parts_withExtension,
    Path.active_parts_foldl (Path.slash_not_mem_pieces k.name.path), placeBelow]
  rfl

/-- A class whose name leads down goes below the folder, and how is decided by its stems. -/
theorem placeBelow_eq (h : k.name.LeadsDown) (folder : Text) : ∃ init last,
    k.name.stems = init ++ [last] ∧
      k.placeBelow folder = Path.place [] (Path.parts folder) ++ init ++ [last ++ "." ++ sourceExtension] := by
  obtain ⟨init, name, hparts⟩ := (List.eq_nil_or_concat' _).resolve_left h.active
  have hdown : ∀ p ∈ init ++ [name], p ≠ ".." := by
    intro p hp
    rw [← hparts] at hp
    exact h.down p (List.mem_of_mem_filter hp)
  have hactive : ∀ p ∈ init ++ [name], Path.isIdle p = false := by
    intro p hp
    rw [← hparts] at hp
    exact Path.not_idle_of_mem_active hp
  obtain ⟨hsource, hup⟩ := Path.sourceName_active name
  refine ⟨init, (Path.splitName name).1, by simp [ClassName.stems, hparts], ?_⟩
  rw [placeBelow, hparts, ← List.append_assoc, Path.asSource_append_singleton _ (hdown name (by simp)),
    List.append_assoc, Path.place_append, Path.place_active, List.append_assoc]
  refine Path.place_of_down ?_ ?_ _
  · intro p hp
    rcases List.mem_append.1 hp with hp | hp
    · exact hactive p (List.mem_append_left _ hp)
    · exact List.mem_singleton.1 hp ▸ hsource
  · intro p hp
    rcases List.mem_append.1 hp with hp | hp
    · exact hdown p (List.mem_append_left _ hp)
    · exact List.mem_singleton.1 hp ▸ hup

/-- Of two classes whose names lead down, the places are the same if the stems are. -/
theorem placeBelow_eq_iff (hk : k.name.LeadsDown) (hd : d.name.LeadsDown) (folder : Text) :
    k.placeBelow folder = d.placeBelow folder ↔ k.name.stems = d.name.stems := by
  obtain ⟨init, last, hstems, hplace⟩ := placeBelow_eq hk folder
  obtain ⟨init', last', hstems', hplace'⟩ := placeBelow_eq hd folder
  rw [hstems, hstems', hplace, hplace', List.append_assoc, List.append_assoc, List.append_assoc,
    List.append_assoc, List.append_right_inj, List.append_singleton_inj, List.append_singleton_inj,
    List.append_left_inj]

end Class

namespace ClassName.IsPlain

variable {n n' : ClassName}

theorem active_eq (h : n.IsPlain) : Path.active (Path.parts n.path) = Path.parts n.path :=
  List.filter_eq_self.2 fun part hpart => by simp [(h.names part hpart).active]

theorem leadsDown (h : n.IsPlain) : n.LeadsDown where
  active := by
    rw [h.active_eq]
    exact pieces_ne_nil '/' n.path
  down := fun part hpart => (h.names part hpart).down

theorem stems_eq (h : n.IsPlain) : n.stems = Path.parts n.path := by
  have hlast : ∀ name ∈ (Path.parts n.path).getLast?, (Path.splitName name).1 = name := by
    intro name hname
    have hwhole := h.whole name hname
    rw [Path.splitName] at hwhole ⊢
    split at hwhole
    · split at hwhole
      · next hstem => simp_all
      · cases hwhole
    · rfl
  obtain ⟨init, name, hparts⟩ := (List.eq_nil_or_concat' _).resolve_left (pieces_ne_nil '/' n.path)
  rw [stems, h.active_eq]
  change Path.parts n.path = init ++ [name] at hparts
  rw [hparts] at hlast ⊢
  simp [hlast name (by simp)]

/-- Plain names have stems of their own. -/
theorem eq_of_stems_eq (h : n.IsPlain) (h' : n'.IsPlain) (hstems : n.stems = n'.stems) : n = n' := by
  rw [h.stems_eq, h'.stems_eq] at hstems
  have hpath : n.path = n'.path := by
    rw [← Path.ofParts_parts n.path, hstems, Path.ofParts_parts]
  cases n
  cases n'
  exact congrArg _ hpath

end ClassName.IsPlain

/-! ### Files that are written -/

namespace FileTree

variable {t t' : FileTree}

/-- A walk that succeeds ends at the place of its parts. -/
theorem eq_place_of_walk {here l : Location} {ps : List Text} (h : t.walk here ps = .ok l) :
    l = Path.place here ps := by
  induction ps generalizing here with
  | nil => exact (Except.ok.inj h).symm
  | cons p ps ih =>
    rw [walk] at h
    rw [Path.place]
    split at h
    · cases h
    · cases h
    · split at h
      · next hidle =>
        rw [if_pos hidle]
        exact ih h
      · next hidle =>
        rw [if_neg hidle]
        split at h
        · next hup =>
          rw [if_pos hup]
          exact ih h
        · next hup =>
          rw [if_neg hup]
          exact ih h

/-- Two trees with the same files. -/
def SameFiles (t t' : FileTree) : Prop :=
  ∀ l s, t'.node? l = some (.file s) ↔ t.node? l = some (.file s)

/-- Folders are made where nothing was. -/
theorem sameFiles_walkMaking {here : Location} {ps : List Text} (h : t.walkMaking here ps = .ok t') :
    t.SameFiles t' := by
  induction ps generalizing t here with
  | nil =>
    cases h
    exact fun _ _ => .rfl
  | cons p ps ih =>
    rw [walkMaking] at h
    split at h
    · exact ih h
    · split at h
      · exact ih h
      · split at h
        · exact ih h
        · cases h
        · next hnone =>
          intro l s
          rw [ih h l s]
          by_cases hl : l = here ++ [p]
          · rw [hl, node?_put (by simp), hnone]
            simp
          · rw [node?_put_of_ne hl]

theorem sameFiles_makeFolders {p : Text} (h : t.makeFolders p = .ok t') : t.SameFiles t' :=
  sameFiles_walkMaking (exists_of_makeFolders h).2

/-- A file that was written stands at the place of its path, and every other file where it was. -/
theorem node?_write {p s : Text} (h : t.write p s = .ok t') (l : Location) :
    t'.node? l = if l = Path.place [] (Path.parts p) then some (.file s) else t.node? l := by
  obtain ⟨m, hm, hfree, rfl⟩ := exists_of_write h
  obtain rfl := eq_place_of_walk (locate_eq_ok_iff.1 hm).2
  split
  · next hl => rw [hl, node?_put (ne_nil_of_not_folder hfree)]
  · next hl => exact node?_put_of_ne hl

end FileTree

namespace Context

variable {c c' : Context} {folder : Text}

/-- Writing a class below a folder puts its text at its place, and moves no other file. -/
theorem exec_writeBelow {k : Class} {p : Text} (h : exec (Run.writeBelow folder k) c = (.ok p, c')) :
    p = k.pathBelow folder ∧ c' = { c with files := c'.files, refusals := c'.refusals } ∧
      ∀ l s, c'.files.node? l = some (.file s) ↔
        if l = k.placeBelow folder then s = k.text else c.files.node? l = some (.file s) := by
  obtain ⟨⟨⟩, c₁, hmake, h⟩ := exists_of_exec_bind h
  obtain ⟨⟨⟩, c₂, hwrite, h⟩ := exists_of_exec_bind h
  cases h
  obtain ⟨hfolders, hc₁⟩ := exec_makeFolders hmake
  obtain ⟨hfile, hc'⟩ := exec_writeFile hwrite
  refine ⟨rfl, by rw [hc', hc₁], fun l s => ?_⟩
  rw [FileTree.node?_write hfile, Class.place_pathBelow]
  split
  · simp [eq_comm]
  · exact FileTree.sameFiles_makeFolders hfolders l s

/-- Writing classes one after another: the last one at a place stays. -/
theorem exec_mapM_writeBelow {ks : List Class} {paths : List Text}
    (h : exec (ks.mapM (Run.writeBelow folder)) c = (.ok paths, c')) :
    paths = ks.map (Class.pathBelow folder) ∧ c' = { c with files := c'.files, refusals := c'.refusals } ∧
      ∀ l s, c'.files.node? l = some (.file s) ↔
        match (ks.filter fun k => k.placeBelow folder = l).getLast? with
        | some k => s = k.text
        | none => c.files.node? l = some (.file s) := by
  induction ks generalizing c paths with
  | nil =>
    cases h
    exact ⟨rfl, rfl, fun _ _ => .rfl⟩
  | cons k ks ih =>
    rw [List.mapM_cons] at h
    obtain ⟨p, c₁, hfirst, h₁⟩ := exists_of_exec_bind h
    obtain ⟨paths', c₂, hrest, h₂⟩ := exists_of_exec_bind h₁
    cases h₂
    obtain ⟨rfl, hc₁, hfiles₁⟩ := exec_writeBelow hfirst
    obtain ⟨rfl, hc', hfiles⟩ := ih hrest
    refine ⟨rfl, ?_, fun l s => ?_⟩
    · rw [hc', hc₁]
    · rw [hfiles l s]
      rcases List.eq_nil_or_concat' (ks.filter fun k => k.placeBelow folder = l) with hnil | ⟨init, d, hlast⟩
      · rw [hnil, List.getLast?_nil, hfiles₁, List.filter_cons, hnil]
        by_cases hl : l = k.placeBelow folder
        · simp [hl]
        · simp [hl, Ne.symm hl]
      · have hcons : ∃ init', (k :: ks).filter (fun k => k.placeBelow folder = l) = init' ++ [d] := by
          rw [List.filter_cons, hlast]
          split
          · exact ⟨k :: init, rfl⟩
          · exact ⟨init, rfl⟩
        obtain ⟨init', hcons⟩ := hcons
        rw [hlast, hcons, List.getLast?_concat, List.getLast?_concat]

/-- Writing the modified classes below a folder. The paths follow the names and lead to the places of the
classes. Every file that is not at one of these places stays, and at each of them stands the text
of the last class that goes there. A class whose name leads down goes below the folder, and two
such classes go to one place exactly if their names have the same stems, so that one is lost.
Classes with different plain names go to different places, and none of them is lost. -/
theorem written_to_places {c c' : Context} {folder : Text} {paths : List Text}
    (h : exec (Run.writeModified folder) c = (.ok paths, c')) :
    let ks := c.workspace.modified
    (paths = ks.map (Class.pathBelow folder) ∧ c' = { c with files := c'.files, refusals := c'.refusals } ∧
      ∀ k ∈ ks, Path.place [] (Path.parts (k.pathBelow folder)) = k.placeBelow folder) ∧
    (∀ l s, c'.files.node? l = some (.file s) ↔
      match (ks.filter fun k => k.placeBelow folder = l).getLast? with
      | some k => s = k.text
      | none => c.files.node? l = some (.file s)) ∧
    (∀ k : Class, k.name.LeadsDown → ∃ init last, k.name.stems = init ++ [last] ∧
      k.placeBelow folder = Path.place [] (Path.parts folder) ++ init ++ [last ++ "." ++ sourceExtension]) ∧
    (∀ k d : Class, k.name.LeadsDown → d.name.LeadsDown →
      (k.placeBelow folder = d.placeBelow folder ↔ k.name.stems = d.name.stems)) ∧
    (∀ k d : Class, k.name.IsPlain → d.name.IsPlain → k.name ≠ d.name →
      (k.name.LeadsDown ∧ d.name.LeadsDown) ∧ k.placeBelow folder ≠ d.placeBelow folder) ∧
    ((∀ k ∈ ks, k.name.IsPlain) → (ks.map Class.name).Nodup →
      ∀ k ∈ ks, c'.files.node? (k.placeBelow folder) = some (.file k.text)) := by
  intro ks
  obtain ⟨now, c₁, hget, hrun⟩ := exists_of_exec_bind h
  cases hget
  obtain ⟨hpaths, hc', hfiles⟩ := exec_mapM_writeBelow hrun
  have hplain : ∀ k d : Class, k.name.IsPlain → d.name.IsPlain →
      k.placeBelow folder = d.placeBelow folder → k.name = d.name := by
    intro k d hk hd hplace
    exact hk.eq_of_stems_eq hd ((Class.placeBelow_eq_iff hk.leadsDown hd.leadsDown folder).1 hplace)
  refine ⟨⟨hpaths, hc', fun k _ => Class.place_pathBelow folder k⟩, hfiles,
    fun k hk => Class.placeBelow_eq hk folder, fun k d hk hd => Class.placeBelow_eq_iff hk hd folder,
    fun k d hk hd hne => ⟨⟨hk.leadsDown, hd.leadsDown⟩, fun hplace => hne (hplain k d hk hd hplace)⟩,
    fun hall hnodup k hk => ?_⟩
  -- no other class goes to the place of this one
  have hsame : ∀ d ∈ ks, (d.placeBelow folder = k.placeBelow folder ↔ d = k) := by
    intro d hd
    refine ⟨fun hplace => ?_, fun hdk => by rw [hdk]⟩
    exact List.inj_on_of_nodup_map hnodup hd hk (hplain d k (hall d hd) (hall k hk) hplace)
  have honly : ks.filter (fun d => d.placeBelow folder = k.placeBelow folder) = [k] := by
    rw [List.filter_congr fun d hd => decide_eq_decide.2 (hsame d hd), List.filter_eq,
      List.count_eq_one_of_mem (hnodup.of_map _) hk, List.replicate_one]
  rw [hfiles, honly]
  rfl

/-- A class of a name and nothing else. -/
def emptyClass (path : Text) : Class where
  name := ⟨path⟩
  flags := .empty
  source? := none
  super? := none
  interfaces := []
  annotations := []
  fields := []
  methods := []
  file? := none

/-- A run in which all classes have been opened. -/
def openedRun (ks : List Class) : Context :=
  { start ⟨ks⟩ .empty none ⟨[]⟩ with workspace := ⟨ks.map fun k => ⟨k, some k⟩⟩ }

/-- The run after its classes are written below a folder. -/
def writtenRun (ks : List Class) : Context := (exec (Run.writeModified "out") (openedRun ks)).2

theorem written_to_places_plain :
    exec (Run.writeModified "out") (openedRun [emptyClass "a/b", emptyClass "c"]) =
      (.ok ["out/a/b.smali", "out/c.smali"], writtenRun [emptyClass "a/b", emptyClass "c"]) ∧
    (∀ k ∈ (openedRun [emptyClass "a/b", emptyClass "c"]).workspace.modified, k.name.IsPlain) ∧
    ∀ k ∈ [emptyClass "a/b", emptyClass "c"],
      (writtenRun [emptyClass "a/b", emptyClass "c"]).files.node? (k.placeBelow "out") =
        some (.file k.text) := by
  have hrun : exec (Run.writeModified "out") (openedRun [emptyClass "a/b", emptyClass "c"]) =
      (.ok ["out/a/b.smali", "out/c.smali"], writtenRun [emptyClass "a/b", emptyClass "c"]) :=
    Prod.ext (by decide +kernel) rfl
  have hplain : ∀ k ∈ [emptyClass "a/b", emptyClass "c"], k.name.IsPlain := by decide +kernel
  exact ⟨hrun, hplain, (written_to_places hrun).2.2.2.2.2 hplain (by decide)⟩

/-- Two classes whose names differ after a dot go to one file, and one whose name starts with two dots
goes to a file outside of the folder. -/
theorem overwritten_and_outside :
    (Class.read ".class La.b;\n" = .ok (emptyClass "a.b") ∧
      Class.read ".class La.c;\n" = .ok (emptyClass "a.c") ∧
      Class.read ".class L../a;\n" = .ok (emptyClass "../a")) ∧
    (exec (Run.writeModified "out") (openedRun [emptyClass "a.b", emptyClass "a.c"])).1 =
      .ok ["out/a.smali", "out/a.smali"] ∧
    (exec (Run.writeModified "out") (openedRun [emptyClass "a.b", emptyClass "a.c"])).2.files.files =
      [(("out/a.smali" : Text), (emptyClass "a.c").text)] ∧
    (exec (Run.writeModified "out") (openedRun [emptyClass "../a"])).2.files.files =
      [(("a.smali" : Text), (emptyClass "../a").text)] := by
  decide +kernel

end Context

end DalvikPatch
