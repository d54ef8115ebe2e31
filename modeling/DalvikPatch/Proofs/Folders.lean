import DalvikPatch.File.Folder
import DalvikPatch.Proofs.Trees

/-! Discovery folder by folder. Whatever order a listing gives the things in each folder, their names put them
in one order, and going into the folders in that order visits the sources in the order of their places;
so the classes that are found, or the first source that fails, do not depend on the listing. -/

namespace DalvikPatch

open Text

/-- A place comes before another one. -/
def Location.Before (l m : Location) : Prop := l ≠ m ∧ isUpTo l m

/-- Places in order are the places that are among them. -/
theorem Location.eq_of_ordered {ls ms : List Location} (hl : ls.Pairwise Before) (hm : ms.Pairwise Before)
    (h : ∀ l, l ∈ ls ↔ l ∈ ms) : ls = ms := by
  have hnodup : ∀ {ls : List Location}, ls.Pairwise Before → ls.Nodup := fun hp => hp.imp And.left
  refine List.Perm.eq_of_pairwise (fun l m _ _ => isOrder_isUpTo.antisymm l m) (hl.imp And.right)
    (hm.imp And.right) ?_
  exact (List.perm_ext_iff_of_nodup (hnodup hl) (hnodup hm)).2 h

namespace FileTree

variable {t : FileTree} {l : Location} {name : Text} {listing : Location → List Text}

/-! ### Names in a folder -/

theorem nameIn_eq_some_iff {m : Location} :
    (if m.dropLast = l then m.getLast? else none) = some name ↔ m = l ++ [name] := by
  rw [Option.ite_none_right_eq_some]
  constructor
  · rintro ⟨hl, hname⟩
    obtain ⟨m', rfl⟩ := List.getLast?_eq_some_iff.1 hname
    rw [List.dropLast_concat] at hl
    rw [hl]
  · rintro rfl
    simp

theorem WellFormed.mem_namesIn (h : t.WellFormed) : name ∈ t.namesIn l ↔ t.node? (l ++ [name]) ≠ none := by
  rw [namesIn, List.mem_filterMap, Option.ne_none_iff_exists']
  constructor
  · rintro ⟨⟨m, n⟩, hmem, hm⟩
    obtain rfl := nameIn_eq_some_iff.1 hm
    exact ⟨n, (h.mem_entries.1 hmem).2⟩
  · rintro ⟨n, hn⟩
    exact ⟨(l ++ [name], n), h.mem_entries.2 ⟨by simp, hn⟩, nameIn_eq_some_iff.2 rfl⟩

theorem WellFormed.nodup_namesIn (h : t.WellFormed) (l : Location) : (t.namesIn l).Nodup := by
  have hentries : t.entries.Pairwise fun e e' => e.1 ≠ e'.1 := List.pairwise_map.1 h.keys
  refine hentries.filterMap _ fun e e' hne a ha a' ha' hsame => hne ?_
  rw [nameIn_eq_some_iff.1 ha, nameIn_eq_some_iff.1 ha', hsame]

/-! ### Listings -/

/-- A listing has everything that stands in a folder, once and in whatever order. -/
def Lists (t : FileTree) (listing : Location → List Text) : Prop :=
  ∀ l, t.node? l = some .folder → (listing l).Perm (t.namesIn l)

/-- The names that are listed, in order. -/
theorem Lists.pairwise (h : t.Lists listing) (ht : t.WellFormed) (hl : t.node? l = some .folder) :
    ((listing l).mergeSort Text.isUpTo).Pairwise fun a b => a ≠ b ∧ Text.isUpTo a b := by
  have hsorted : ((listing l).mergeSort Text.isUpTo).Pairwise fun a b => Text.isUpTo a b = true :=
    List.pairwise_mergeSort Text.isOrder_isUpTo.trans Text.isOrder_isUpTo.total _
  have hnodup : ((listing l).mergeSort Text.isUpTo).Nodup :=
    ((List.mergeSort_perm _ _).trans (h l hl)).nodup_iff.2 (ht.nodup_namesIn l)
  exact hnodup.and hsorted

theorem Lists.mem_iff (h : t.Lists listing) (ht : t.WellFormed) (hl : t.node? l = some .folder) :
    name ∈ (listing l).mergeSort Text.isUpTo ↔ t.node? (l ++ [name]) ≠ none := by
  rw [List.mem_mergeSort, (h l hl).mem_iff, ht.mem_namesIn]

/-! ### Places of sources -/

/-- The places of the sources below a folder, as the names from there. -/
def places (t : FileTree) (l : Location) : List Location := (t.sources l).map Prod.fst

theorem WellFormed.mem_places (h : t.WellFormed) {r : Location} :
    r ∈ t.places l ↔ (∃ s, t.node? (l ++ r) = some (.file s)) ∧ isSource r := by
  rw [places, List.mem_map]
  constructor
  · rintro ⟨⟨r, s⟩, hmem, rfl⟩
    obtain ⟨hs, hr⟩ := h.mem_sources.1 hmem
    exact ⟨⟨s, hs⟩, hr⟩
  · rintro ⟨⟨s, hs⟩, hr⟩
    exact ⟨(r, s), h.mem_sources.2 ⟨hs, hr⟩, rfl⟩

theorem WellFormed.pairwise_places (h : t.WellFormed) (l : Location) : (t.places l).Pairwise Location.Before :=
  (h.nodup_sources l).and (List.pairwise_map.2 (t.pairwise_sources l))

theorem isSource_append {l r : Location} (hr : r ≠ []) : isSource (l ++ r) = isSource r := by
  rw [isSource, isSource, List.getLast?_append_of_ne_nil _ hr]

/-- The places of the sources below a folder that are in a thing of it. -/
def placesIn (t : FileTree) (l : Location) (name : Text) : List Location :=
  match t.node? (l ++ [name]) with
  | some .folder => (t.places (l ++ [name])).map (name :: ·)
  | some (.file _) => if isSource (l ++ [name]) then [[name]] else []
  | none => []

theorem exists_of_mem_placesIn {r : Location} (h : r ∈ t.placesIn l name) : ∃ r', r = name :: r' := by
  rw [placesIn] at h
  split at h
  · obtain ⟨r', -, rfl⟩ := List.mem_map.1 h
    exact ⟨r', rfl⟩
  · split at h
    · exact ⟨[], List.mem_singleton.1 h⟩
    · cases h
  · cases h

theorem before_cons {r r' : Location} : Location.Before (name :: r) (name :: r') ↔ Location.Before r r' := by
  simp [Location.Before, Location.isUpTo]

theorem WellFormed.pairwise_placesIn (h : t.WellFormed) : (t.placesIn l name).Pairwise Location.Before := by
  rw [placesIn]
  split
  · exact List.pairwise_map.2 ((h.pairwise_places _).imp before_cons.2)
  · split
    · exact List.pairwise_singleton ..
    · exact List.Pairwise.nil
  · exact List.Pairwise.nil

theorem IsTree.mem_placesIn (h : t.IsTree) {r : Location} :
    name :: r ∈ t.placesIn l name ↔
      (∃ s, t.node? (l ++ name :: r) = some (.file s)) ∧ isSource (name :: r) := by
  have hcons : l ++ name :: r = l ++ [name] ++ r := by simp
  -- what stands further down stands in a folder
  have hfolder : r ≠ [] → (∃ s, t.node? (l ++ name :: r) = some (.file s)) →
      t.node? (l ++ [name]) = some .folder := by
    rintro hr ⟨s, hs⟩
    exact h.folder_of_append hr (by simp [← hcons, hs])
  rw [placesIn]
  split
  · next hnode =>
    by_cases hr : r = []
    · subst hr
      have hroot : [] ∉ t.places (l ++ [name]) := by
        rw [h.mem_places, List.append_nil, hnode]
        simp
      simp [hnode, hroot]
    · rw [List.mem_map_of_injective (List.cons_injective), h.mem_places, ← hcons,
        ← isSource_append (l := [name]) hr, List.singleton_append]
  · next s hnode =>
    by_cases hr : r = []
    · subst hr
      rw [isSource_append (by simp), hnode]
      simp
    · have hno : ¬ ∃ s, t.node? (l ++ name :: r) = some (.file s) := by
        intro hs
        rw [hfolder hr hs] at hnode
        cases hnode
      have hmem : name :: r ∉ (if isSource (l ++ [name]) then [[name]] else []) := by
        split <;> simp [hr]
      simp only [hmem, hno, false_and]
  · next hnode =>
    have hno : ¬ ∃ s, t.node? (l ++ name :: r) = some (.file s) := by
      rintro ⟨s, hs⟩
      by_cases hr : r = []
      · subst hr
        rw [hnode] at hs
        cases hs
      · rw [hfolder hr ⟨s, hs⟩] at hnode
        cases hnode
    simp only [hno, false_and, List.not_mem_nil]

/-- In order of their names the things in a folder have the sources in the order of their places. -/
theorem IsTree.flatMap_placesIn (h : t.IsTree) (hlist : t.Lists listing) (hl : t.node? l = some .folder) :
    ((listing l).mergeSort Text.isUpTo).flatMap (t.placesIn l) = t.places l := by
  refine Location.eq_of_ordered ?_ (h.pairwise_places l) fun r => ?_
  · rw [List.pairwise_flatMap]
    refine ⟨fun name _ => h.pairwise_placesIn, (hlist.pairwise h.toWellFormed hl).imp ?_⟩
    rintro name name' ⟨hne, hle⟩ r hr r' hr'
    obtain ⟨r, rfl⟩ := exists_of_mem_placesIn hr
    obtain ⟨r', rfl⟩ := exists_of_mem_placesIn hr'
    refine ⟨fun heq => hne (List.cons.inj heq).1, ?_⟩
    rw [Location.isUpTo, if_neg hne]
    exact hle
  · rw [List.mem_flatMap, h.mem_places]
    constructor
    · rintro ⟨name, -, hr⟩
      obtain ⟨r, rfl⟩ := exists_of_mem_placesIn hr
      exact h.mem_placesIn.1 hr
    · rintro ⟨⟨s, hs⟩, hr⟩
      cases r with
      | nil =>
        rw [List.append_nil, hl] at hs
        cases hs
      | cons name r =>
        refine ⟨name, (hlist.mem_iff h.toWellFormed hl).2 ?_, h.mem_placesIn.2 ⟨⟨s, hs⟩, hr⟩⟩
        by_cases hr : r = []
        · simp [← hr, hs]
        · have hcons : l ++ name :: r = l ++ [name] ++ r := by simp
          rw [h.folder_of_append hr (by simp [← hcons, hs])]
          simp

/-! ### Paths -/

section

variable {p : Text} {r : List Text}

theorem endsWith_append_name (p : Text) (h : Path.IsName name) : endsWith "/" (p ++ name) = false := by
  obtain ⟨s, c, rfl⟩ := List.eq_nil_or_concat name |>.resolve_left h.ne_nil
  have hc : c ≠ '/' := fun hc => h.slash (by simp [hc])
  simp [endsWith, startsWith, after?, Ne.symm hc]

theorem below_eq_append {q : Text} (h : startsWith "/" q = false) :
    Path.below p q = (if p = [] ∨ endsWith "/" p then p else p ++ "/") ++ q := by
  rw [Path.below, h, if_neg (by simp)]
  split <;> rfl

/-- A path below a folder of a folder is a longer path below that. -/
theorem below_ofParts_cons (p : Text) (hname : Path.IsName name) (hne : r ≠ [])
    (h : ∀ n ∈ r, Path.IsName n) :
    Path.below (Path.below p name) (Path.ofParts r) = Path.below p (Path.ofParts (name :: r)) := by
  have hlong : Path.ofParts (name :: r) = name ++ ("/" ++ Path.ofParts r) := by
    obtain ⟨n, r, rfl⟩ := List.exists_cons_of_ne_nil hne
    simp [Path.ofParts, join]
  have hstart : startsWith "/" name = false :=
    Path.startsWith_ofParts (r := [name]) (by simp) (by simpa using hname)
  have hfull := Path.startsWith_ofParts (List.cons_ne_nil name r) (List.forall_mem_cons.2 ⟨hname, h⟩)
  rw [below_eq_append hfull, below_eq_append (Path.startsWith_ofParts hne h), below_eq_append hstart, hlong,
    if_neg]
  · simp only [List.append_assoc]
  · rw [endsWith_append_name _ hname]
    simp [hname.ne_nil]

theorem checkPath_below (h : checkPath p = .ok ()) (hne : r ≠ []) (hr : ∀ n ∈ r, Path.IsName n)
    (hplain : ∀ n ∈ r, '\x00' ∉ n) : checkPath (Path.below p (Path.ofParts r)) = .ok () := by
  obtain ⟨hnull, hp⟩ := checkPath_eq_ok_iff.1 h
  have hnull' : '\x00' ∉ Path.ofParts r := by
    intro hmem
    rcases mem_of_mem_join hmem with hmem | ⟨n, hn, hmem⟩
    · exact absurd hmem (by decide)
    · exact hplain n hn hmem
  rw [below_eq_append (Path.startsWith_ofParts hne hr), checkPath_eq_ok_iff]
  split
  · simp [hnull, hnull', hp]
  · simp [hnull, hnull', hp]

end

theorem IsTree.walk_names (h : t.IsTree) (hl : t.node? l = some .folder) {r : List Text}
    (hr : ∀ n ∈ r, Path.IsName n) (hnode : t.node? (l ++ r) ≠ none) : t.walk l r = .ok (l ++ r) := by
  induction r generalizing l with
  | nil => rw [walk, List.append_nil]
  | cons name r ih =>
    obtain ⟨hname, hr'⟩ := List.forall_mem_cons.1 hr
    have hcons : l ++ name :: r = l ++ [name] ++ r := by simp
    rw [walk, hl]
    dsimp only
    rw [if_neg (by simp [hname.active]), if_neg hname.down]
    by_cases hnil : r = []
    · rw [hnil, walk]
    · rw [hcons] at hnode ⊢
      exact ih (h.folder_of_append hnil hnode) hr' hnode

/-- The path of a file below a folder leads to its place. -/
theorem IsTree.locate_file (h : t.IsTree) {folder : Text} (hfolder : t.folder folder = .ok l) {r : List Text}
    {s : Text} (hs : t.node? (l ++ r) = some (.file s)) :
    t.locate (Path.below folder (Path.ofParts r)) = .ok (l ++ r) := by
  obtain ⟨hlocate, hl⟩ := folder_eq_ok_iff.1 hfolder
  have hne : r ≠ [] := by
    rintro rfl
    rw [List.append_nil, hl] at hs
    cases hs
  have hmem := h.mem_entries.2 ⟨by simp [hne], hs⟩
  have hr : ∀ n ∈ r, Path.IsName n := fun n hn => h.names _ hmem n (List.mem_append_right _ hn)
  have hplain : ∀ n ∈ r, '\x00' ∉ n := fun n hn => h.plain _ hmem n (List.mem_append_right _ hn)
  obtain ⟨ps, hparts, hwalk⟩ := exists_walk_below hfolder hne hr
  refine locate_eq_ok_iff.2 ⟨checkPath_below (locate_eq_ok_iff.1 hlocate).1 hne hr hplain, ?_⟩
  rw [hparts, walk_append, hwalk]
  exact h.walk_names hl hr (by simp [hs])

/-! ### Discovery -/

section

variable {ε α β γ : Type}

theorem mapM_congr {xs : List α} {f g : α → Except ε β} (h : ∀ x ∈ xs, f x = g x) :
    xs.mapM f = xs.mapM g := by
  induction xs with
  | nil => rfl
  | cons x xs ih =>
    obtain ⟨hx, hxs⟩ := List.forall_mem_cons.1 h
    rw [List.mapM_cons, List.mapM_cons, hx, ih hxs]

theorem mapM_flatMap (xs : List α) (f : α → List β) (g : β → Except ε γ) :
    (xs.flatMap f).mapM g = (xs.mapM fun x => (f x).mapM g).map List.flatten := by
  induction xs with
  | nil => rfl
  | cons x xs ih =>
    rw [List.flatMap_cons, List.mapM_append, List.mapM_cons, ih]
    cases (f x).mapM g <;> cases (xs.mapM fun x => (f x).mapM g) <;> rfl

theorem mapM_eq_ok_iff {f : α → Except ε β} {xs : List α} {ys : List β} :
    xs.mapM f = .ok ys ↔ List.Forall₂ (fun x y => f x = .ok y) xs ys := by
  induction xs generalizing ys with
  | nil =>
    rw [List.mapM_nil, List.forall₂_nil_left_iff]
    exact ⟨fun h => (Except.ok.inj h).symm, fun h => h ▸ rfl⟩
  | cons x xs ih =>
    rw [List.mapM_cons, List.forall₂_cons_left_iff]
    cases hx : f x with
    | error e => simp [bind, Except.bind]
    | ok y =>
      cases hxs : xs.mapM f with
      | error e => simp [← ih, hxs, bind, Except.bind]
      | ok ys' => simp [← ih, hxs, bind, Except.bind, pure, Except.pure, eq_comm]

/-- The first one that fails decides the error. -/
theorem mapM_eq_error_iff {f : α → Except ε β} {xs : List α} {e : ε} :
    xs.mapM f = .error e ↔
      ∃ before x after, xs = before ++ x :: after ∧ (∀ y ∈ before, ∃ b, f y = .ok b) ∧ f x = .error e := by
  induction xs with
  | nil => simp [pure, Except.pure]
  | cons x xs ih =>
    rw [List.mapM_cons]
    cases hx : f x with
    | error e' =>
      constructor
      · intro h
        cases h
        exact ⟨[], x, xs, rfl, by simp, hx⟩
      · rintro ⟨before, y, after, hxs, hbefore, hy⟩
        cases before with
        | nil =>
          obtain ⟨rfl, -⟩ := List.cons.inj hxs
          rw [Except.error.inj (hx.symm.trans hy)]
          rfl
        | cons z before =>
          obtain ⟨rfl, -⟩ := List.cons.inj hxs
          obtain ⟨b, hb⟩ := hbefore x List.mem_cons_self
          rw [hx] at hb
          cases hb
    | ok b =>
      have htail : (do let ys ← xs.mapM f; pure (b :: ys)) = .error e ↔ xs.mapM f = .error e := by
        cases xs.mapM f <;> simp [bind, Except.bind, pure, Except.pure]
      refine htail.trans (ih.trans ?_)
      constructor
      · rintro ⟨before, y, after, rfl, hbefore, hy⟩
        exact ⟨x :: before, y, after, rfl, List.forall_mem_cons.2 ⟨⟨b, hx⟩, hbefore⟩, hy⟩
      · rintro ⟨before, y, after, hxs, hbefore, hy⟩
        cases before with
        | nil =>
          obtain ⟨rfl, -⟩ := List.cons.inj hxs
          rw [hx] at hy
          cases hy
        | cons z before =>
          obtain ⟨rfl, rfl⟩ := List.cons.inj hxs
          exact ⟨before, y, after, rfl, (List.forall_mem_cons.1 hbefore).2, hy⟩

end

section

variable (contents : Location → Except FileFault Text) (p : Text)

/-- The class of the source at a place below the folder of a path. -/
def classAt (l r : Location) : Outcome Class :=
  Class.ofContents (Path.below p (Path.ofParts r)) (contents (l ++ r))

/-- A folder in a folder has its sources where they are below the outer one. -/
theorem IsTree.mapM_placesIn_folder (h : t.IsTree) (hnode : t.node? (l ++ [name]) = some .folder) :
    (t.placesIn l name).mapM (classAt contents p l) =
      (t.places (l ++ [name])).mapM (classAt contents (Path.below p name) (l ++ [name])) := by
  rw [placesIn, hnode]
  dsimp only
  rw [List.mapM_map]
  refine mapM_congr fun r hr => ?_
  obtain ⟨⟨s, hs⟩, -⟩ := h.mem_places.1 hr
  have hnames := h.names_of_node? hs
  have hne : r ≠ [] := by
    rintro rfl
    rw [List.append_nil, hnode] at hs
    cases hs
  have hbelow := below_ofParts_cons p (hnames name (by simp)) hne fun n hn => hnames n (by simp [hn])
  rw [Function.comp_apply, classAt, classAt, hbelow, List.append_assoc, List.singleton_append]

/-- What is found folder by folder are the classes of the sources in the order of their places. -/
theorem IsTree.discover_eq (h : t.IsTree) (hlist : t.Lists listing) (hl : t.node? l = some .folder) :
    t.discover listing contents p l = (t.places l).mapM (classAt contents p l) := by
  induction hn : t.depth - l.length using Nat.strong_induction_on generalizing l p with
  | _ n ih =>
    subst hn
    rw [discover, ← h.flatMap_placesIn hlist hl, mapM_flatMap,
      mapM_congr (g := fun name => (t.placesIn l name).mapM (classAt contents p l))]
    · exact bind_pure_comp ..
    · intro name _
      split
      · next hnode =>
        have hlt : t.depth - (l ++ [name]).length < t.depth - l.length := by
          have := length_le_depth hnode
          rw [List.length_append, List.length_singleton] at *
          omega
        rw [h.mapM_placesIn_folder contents p hnode, ih _ hlt _ hnode rfl]
      · next s hnode =>
        rw [placesIn, hnode]
        dsimp only
        split
        · have hpath : Path.ofParts [name] = name := rfl
          rw [List.mapM_cons, List.mapM_nil, classAt, hpath]
          cases Class.ofContents (Path.below p name) (contents (l ++ [name])) <;> rfl
        · rfl
      · next hnode =>
        rw [placesIn, hnode]
        rfl

/-- What is read at the places of the sources is what they hold. -/
theorem IsTree.discover_eq_readClasses (h : t.IsTree) (hlist : t.Lists listing)
    (hfolder : t.folder p = .ok l) : t.discover listing t.contents p l = t.readClasses p := by
  rw [h.discover_eq _ _ hlist (folder_eq_ok_iff.1 hfolder).2, places, List.mapM_map, readClasses, hfolder]
  refine mapM_congr fun f hf => ?_
  have hs := (h.mem_sources.1 hf).1
  rw [Function.comp_apply, classAt, FileTree.contents, hs]
  rfl

theorem file?_of_classAt {r : Location} {c : Class} (h : classAt contents p l r = .ok c) :
    c.file? = some (Path.below p (Path.ofParts r)) := by
  obtain ⟨s, -, hs⟩ := exists_of_bind h
  rw [Class.ofFile] at hs
  split at hs
  · cases hs
    rfl
  · cases hs

/-- However the folders are listed, what is found are the classes of exactly the sources below a folder, each
once, in the order of their places and each with the path that leads to its file; or the fault of the
first source in that order that cannot be read. -/
theorem classes_discovered (h : t.IsTree) (hfolder : t.folder p = .ok l) :
    (∀ r, r ∈ t.places l ↔ (∃ s, t.node? (l ++ r) = some (.file s)) ∧ isSource r) ∧
    (t.places l).Pairwise Location.Before ∧
    (∀ r ∈ t.places l, t.locate (Path.below p (Path.ofParts r)) = .ok (l ++ r)) ∧
    (∀ r c, classAt contents p l r = .ok c → c.file? = some (Path.below p (Path.ofParts r))) ∧
    ∀ listing, t.Lists listing →
      (∀ cs, t.discover listing contents p l = .ok cs ↔
        List.Forall₂ (fun r c => classAt contents p l r = .ok c) (t.places l) cs) ∧
      (∀ e, t.discover listing contents p l = .error e ↔
        ∃ before r after, t.places l = before ++ r :: after ∧
          (∀ q ∈ before, ∃ c, classAt contents p l q = .ok c) ∧ classAt contents p l r = .error e) ∧
      t.discover listing t.contents p l = t.readClasses p := by
  refine ⟨fun r => h.mem_places, h.pairwise_places l, fun r hr => ?_, fun r c => file?_of_classAt contents p,
    fun listing hlist => ?_⟩
  · obtain ⟨⟨s, hs⟩, -⟩ := h.mem_places.1 hr
    exact h.locate_file hfolder hs
  · rw [h.discover_eq contents p hlist (folder_eq_ok_iff.1 hfolder).2]
    exact ⟨fun cs => mapM_eq_ok_iff, fun e => mapM_eq_error_iff, h.discover_eq_readClasses p hlist hfolder⟩

end

/-- A folder with a folder and a source that comes after it, although its name goes on with a dot. -/
def mixedFiles : List (Text × Text) :=
  [("s/b.smali", ".class Lb;\n"), ("s/a.smali", ".class La;\n"), ("s/a/c.smali", ".class Lc;\n"),
    ("s/a/c.txt", "c")]

def mixedTree : FileTree :=
  ⟨[(["s", "a", "c.txt"], .file "c"), (["s", "a", "c.smali"], .file ".class Lc;\n"), (["s", "a"], .folder),
    (["s", "a.smali"], .file ".class La;\n"), (["s", "b.smali"], .file ".class Lb;\n"), (["s"], .folder)]⟩

/-- Two sources that cannot be read. -/
def mixedContents (l : Location) : Except FileFault Text :=
  if l = ["s", "b.smali"] then .error .isFolder
  else if l = ["s", "a.smali"] then .error .missing
  else mixedTree.contents l

theorem sources_mixedTree : mixedTree.sources ["s"] = ([(["a", "c.smali"], ".class Lc;\n"),
    (["a.smali"], ".class La;\n"), (["b.smali"], ".class Lb;\n")] : List (Location × Text)) := by
  rw [FileTree.sources, List.mergeSort_of_pairwise (by decide)]
  decide

/-- Whichever way the folders are listed, the classes are found in one order, and of the two sources that
cannot be read the same one is the first. -/
theorem classes_discovered_mixed : mixedTree.IsTree ∧ mixedTree.folder "s" = .ok ["s"] ∧
    ∀ listing ∈ [mixedTree.namesIn, fun l => (mixedTree.namesIn l).reverse],
      mixedTree.Lists listing ∧
      (mixedTree.discover listing mixedTree.contents "s" ["s"]).map (List.map Class.file?) =
        .ok [some "s/a/c.smali".toList, some "s/a.smali".toList, some "s/b.smali".toList] ∧
      mixedTree.discover listing mixedContents "s" ["s"] = .fault (.file "s/a.smali" .missing) := by
  have htree : mixedTree.IsTree := by
    have hmade : ofFiles mixedFiles = .ok mixedTree := by rfl
    exact isTree_ofFiles hmade
  have hfolder : mixedTree.folder "s" = .ok ["s"] := by rfl
  refine ⟨htree, hfolder, fun listing hmem => ?_⟩
  have hlist : mixedTree.Lists listing := by
    rcases List.mem_pair.1 hmem with rfl | rfl
    · exact fun l _ => .refl _
    · exact fun l _ => List.reverse_perm _
  obtain ⟨-, -, -, -, hfound⟩ := classes_discovered mixedContents "s" htree hfolder
  obtain ⟨-, hfault, hclasses⟩ := hfound listing hlist
  refine ⟨hlist, ?_, (hfault _).2 ⟨[["a", "c.smali"]], ["a.smali"], [["b.smali"]], ?_, ?_, ?_⟩⟩
  · rw [hclasses, readClasses, hfolder]
    simp only [Outcome.ofFile, bind, Except.bind]
    rw [sources_mixedTree]
    decide +kernel
  · rw [places, sources_mixedTree]
    rfl
  · have hok : (classAt mixedContents "s" ["s"] ["a", "c.smali"]).isOk := by decide +kernel
    rw [List.forall_mem_singleton]
    cases hc : classAt mixedContents "s" ["s"] ["a", "c.smali"] with
    | error e =>
      rw [hc] at hok
      cases hok
    | ok c => exact ⟨c, rfl⟩
  · decide +kernel

end FileTree

end DalvikPatch
