import DalvikPatch.File.Source
import Mathlib.Data.List.Induction
import Mathlib.Data.List.Sort

/-! Trees of files. What stands at each place decides what is read below a folder and in which order,
however the entries are kept; and a file that is written over another changes what stands at its
place and nothing else, not even the way there. In a tree that is made of files everything stands
in a folder. -/

namespace DalvikPatch

open Text

/-! ### The order of places -/

/-- Any two come in an order, and in only one unless they are the same. -/
structure IsOrder {α : Type} (le : α → α → Bool) : Prop where
  total : ∀ a b, le a b || le b a
  trans : ∀ a b c, le a b → le b c → le a c
  antisymm : ∀ a b, le a b → le b a → a = b

/-- Lists that are compared by the first elements that differ. -/
theorem IsOrder.lists {α : Type} [DecidableEq α] {le : α → α → Bool} (h : IsOrder le)
    {f : List α → List α → Bool} (hnil : ∀ m, f [] m = true) (hlong : ∀ a l, f (a :: l) [] = false)
    (hcons : ∀ a l b m, f (a :: l) (b :: m) = if a = b then f l m else le a b) : IsOrder f where
  total l m := by
    induction l generalizing m with
    | nil => simp [hnil]
    | cons a l ih =>
      cases m with
      | nil => simp [hnil]
      | cons b m =>
        by_cases hab : a = b
        · simpa [hcons, hab] using ih m
        · simpa [hcons, hab, Ne.symm hab] using h.total a b
  trans l m n hlm hmn := by
    induction l generalizing m n with
    | nil => exact hnil n
    | cons a l ih =>
      cases m with
      | nil => rw [hlong] at hlm; cases hlm
      | cons b m =>
        cases n with
        | nil => rw [hlong] at hmn; cases hmn
        | cons c n =>
          rw [hcons] at hlm hmn ⊢
          by_cases hab : a = b
          · subst hab
            rw [if_pos rfl] at hlm
            split
            · next hac => exact ih m n hlm (by rwa [if_pos hac] at hmn)
            · next hac => rwa [if_neg hac] at hmn
          · rw [if_neg hab] at hlm
            by_cases hbc : b = c
            · subst hbc
              rwa [if_neg hab]
            · rw [if_neg hbc] at hmn
              have hac : a ≠ c := by
                rintro rfl
                exact hab (h.antisymm a b hlm hmn)
              rw [if_neg hac]
              exact h.trans a b c hlm hmn
  antisymm l m hlm hml := by
    induction l generalizing m with
    | nil =>
      cases m with
      | nil => rfl
      | cons b m => rw [hlong] at hml; cases hml
    | cons a l ih =>
      cases m with
      | nil => rw [hlong] at hlm; cases hlm
      | cons b m =>
        rw [hcons] at hlm hml
        by_cases hab : a = b
        · subst hab
          rw [if_pos rfl] at hlm hml
          rw [ih m hlm hml]
        · rw [if_neg hab] at hlm
          rw [if_neg (Ne.symm hab)] at hml
          exact absurd (h.antisymm a b hlm hml) hab

theorem Text.isOrder_isUpTo : IsOrder isUpTo := by
  have hchars : IsOrder fun c d : Char => decide (c ≤ d) := by
    refine ⟨fun c d => ?_, fun c d e => ?_, fun c d => ?_⟩ <;>
      simp only [Bool.or_eq_true, decide_eq_true_eq]
    · exact Char.le_total c d
    · exact Char.le_trans
    · exact Char.le_antisymm
  refine hchars.lists (fun m => by rw [isUpTo]) (fun a l => by rw [isUpTo]) fun c s d t => ?_
  rw [isUpTo]
  split
  · rfl
  · next hcd =>
    rw [Bool.eq_iff_iff, decide_eq_true_iff, decide_eq_true_iff]
    exact ⟨fun hlt => Char.not_lt.1 fun hgt => Char.lt_irrefl c (Char.lt_trans hlt hgt),
      fun hle => Char.not_le.1 fun hge => hcd (Char.le_antisymm hle hge)⟩

theorem Location.isOrder_isUpTo : IsOrder isUpTo :=
  Text.isOrder_isUpTo.lists (fun m => by rw [isUpTo]) (fun a l => by rw [isUpTo]) fun a l b m => by
    rw [isUpTo]

/-! ### Names -/

namespace Path

/-- A name that something in a folder can have. -/
structure IsName (name : Text) : Prop where
  active : isIdle name = false
  down : name ≠ ".."
  slash : '/' ∉ name

theorem IsName.ne_nil {name : Text} (h : IsName name) : name ≠ [] := by
  rintro rfl
  exact absurd h.active (by decide)

theorem names_append {names : List Text} (h : ∀ name ∈ names, IsName name) {name : Text}
    (hname : IsName name) : ∀ n ∈ names ++ [name], IsName n := by
  intro n hn
  rcases List.mem_append.1 hn with hn | hn
  · exact h n hn
  · rwa [List.mem_singleton.1 hn]

/-! ### Parts -/

theorem slash_not_mem_pieces (s : Text) : ∀ p ∈ pieces '/' s, '/' ∉ p := by
  induction s with
  | nil => simp [pieces]
  | cons c s ih =>
    rw [pieces]
    split
    · simpa using ih
    · next hc =>
      obtain ⟨w, ws, hw⟩ := List.exists_cons_of_ne_nil (pieces_ne_nil '/' s)
      rw [hw] at ih ⊢
      obtain ⟨hfirst, hrest⟩ := List.forall_mem_cons.1 ih
      exact List.forall_mem_cons.2 ⟨by simpa [Ne.symm hc] using hfirst, hrest⟩

theorem parts_ofParts {ps : List Text} (hne : ps ≠ []) (h : ∀ p ∈ ps, '/' ∉ p) :
    parts (ofParts ps) = ps := by
  induction ps with
  | nil => exact absurd rfl hne
  | cons p ps ih =>
    obtain ⟨hp, hps⟩ := List.forall_mem_cons.1 h
    cases ps with
    | nil => exact pieces_of_not_mem hp
    | cons q ps =>
      have hcons : ofParts (p :: q :: ps) = p ++ '/' :: ofParts (q :: ps) := by simp [ofParts, join]
      rw [hcons, parts, pieces_append, pieces_of_not_mem hp]
      exact congrArg (p :: ·) (ih (by simp) hps)

theorem exists_pieces_concat {mark c : Char} (hc : c ≠ mark) (s : Text) :
    ∃ ps w, pieces mark (s ++ [c]) = ps ++ [w ++ [c]] := by
  induction s with
  | nil => exact ⟨[], [], pieces_of_not_mem (by simpa using hc.symm)⟩
  | cons d s ih =>
    obtain ⟨ps, w, hs⟩ := ih
    rw [List.cons_append, pieces, hs]
    split
    · exact ⟨[] :: ps, w, rfl⟩
    · cases ps with
      | nil => exact ⟨[], d :: w, rfl⟩
      | cons p ps => exact ⟨(d :: p) :: ps, w, rfl⟩

/-- A path that does not end in a slash has a last part. -/
theorem dropWhile_reverse_parts {p : Text} (hne : p ≠ []) (hend : endsWith "/" p = false) :
    ((parts p).reverse.dropWhile (· == [])).reverse = parts p := by
  obtain ⟨s, c, rfl⟩ := List.eq_nil_or_concat p |>.resolve_left hne
  have hc : c ≠ '/' := by
    rintro rfl
    simp [endsWith, startsWith, after?] at hend
  obtain ⟨ps, w, hparts⟩ := exists_pieces_concat hc s
  rw [parts, List.concat_eq_append, hparts]
  simp

theorem startsWith_ofParts {r : List Text} (hne : r ≠ []) (h : ∀ name ∈ r, IsName name) :
    startsWith "/" (ofParts r) = false := by
  have hparts := parts_ofParts hne fun name hname => (h name hname).slash
  rw [Bool.eq_false_iff]
  intro hs
  obtain ⟨s, hs⟩ := startsWith_iff.1 hs
  rw [hs] at hparts
  have hnil : [] ∈ r := by
    rw [← hparts, parts]
    exact List.mem_cons_self ..
  exact (h [] hnil).ne_nil rfl

/-- A path below a folder is the way to the folder and then the path; the folder may have been written
with a slash at its end. -/
theorem exists_parts_below (folder : Text) {r : List Text} (hne : r ≠ [])
    (h : ∀ name ∈ r, IsName name) :
    ∃ ps, parts (below folder (ofParts r)) = ps ++ r ∧ (parts folder = ps ∨ parts folder = ps ++ [[]]) := by
  have hparts := parts_ofParts hne fun name hname => (h name hname).slash
  rw [below, startsWith_ofParts hne h, if_neg (by simp)]
  split
  · next hfolder =>
    rcases hfolder with rfl | hend
    · exact ⟨[], by rw [List.nil_append, hparts, List.nil_append], .inr rfl⟩
    · obtain ⟨s, hs⟩ := startsWith_iff.1 hend
      obtain rfl : folder = s.reverse ++ ['/'] := by
        rw [← List.reverse_reverse folder, hs]
        simp
      refine ⟨parts s.reverse, ?_, .inr (pieces_append '/' s.reverse [])⟩
      rw [List.append_assoc, parts, List.singleton_append, pieces_append]
      exact congrArg (pieces '/' s.reverse ++ ·) hparts
  · refine ⟨parts folder, ?_, .inl rfl⟩
    rw [List.append_assoc, parts]
    exact (pieces_append '/' folder _).trans (congrArg (pieces '/' folder ++ ·) hparts)

end Path

namespace FileTree

/-- A tree with one entry at a place, and names on the way to it. -/
structure WellFormed (t : FileTree) : Prop where
  keys : (t.entries.map Prod.fst).Nodup
  inside : ∀ e ∈ t.entries, e.1 ≠ []
  names : ∀ e ∈ t.entries, ∀ name ∈ e.1, Path.IsName name

variable {t t' : FileTree}

/-! ### Files below a folder -/

theorem lookup_eq_some_of_mem {es : List (Location × Node)} (h : (es.map Prod.fst).Nodup) {l : Location}
    {n : Node} (hmem : (l, n) ∈ es) : es.lookup l = some n := by
  induction es with
  | nil => cases hmem
  | cons e es ih =>
    obtain ⟨hnew, hes⟩ := List.nodup_cons.1 h
    rcases List.mem_cons.1 hmem with rfl | hmem
    · exact List.lookup_cons_self
    · have hne : l ≠ e.1 := by
        intro hl
        exact hnew (List.mem_map.2 ⟨_, hmem, hl⟩)
      rw [List.lookup_cons, beq_eq_false_iff_ne.2 hne]
      exact ih hes hmem

theorem WellFormed.mem_entries (h : t.WellFormed) {l : Location} {n : Node} :
    (l, n) ∈ t.entries ↔ l ≠ [] ∧ t.node? l = some n := by
  constructor
  · intro hmem
    have hl : l ≠ [] := h.inside _ hmem
    exact ⟨hl, by rw [node?, if_neg hl, lookup_eq_some_of_mem h.keys hmem]⟩
  · rintro ⟨hl, hn⟩
    rw [node?, if_neg hl] at hn
    obtain ⟨before, after, hes, -⟩ := List.lookup_eq_some_iff.1 hn
    rw [hes]
    simp

theorem WellFormed.put (h : t.WellFormed) {l : Location} (hne : l ≠ [])
    (hl : ∀ name ∈ l, Path.IsName name) (n : Node) : (t.put l n).WellFormed := by
  have hmem : ∀ e ∈ (t.put l n).entries, e.1 = l ∨ e ∈ t.entries := by
    intro e he
    rcases List.mem_cons.1 he with rfl | he
    · exact .inl rfl
    · exact .inr (List.mem_filter.1 he).1
  refine ⟨?_, fun e he => ?_, fun e he => ?_⟩
  · rw [FileTree.put, List.map_cons, List.nodup_cons]
    refine ⟨by simp, h.keys.sublist (List.filter_sublist.map _)⟩
  · rcases hmem e he with rfl | he
    · exact hne
    · exact h.inside e he
  · rcases hmem e he with rfl | he
    · exact hl
    · exact h.names e he

theorem WellFormed.names_of_node? (h : t.WellFormed) {l : Location} {s : Text}
    (hl : t.node? l = some (.file s)) : ∀ name ∈ l, Path.IsName name := by
  have hne : l ≠ [] := by
    rintro rfl
    cases hl
  exact h.names _ (h.mem_entries.2 ⟨hne, hl⟩)

/-- What an entry has below a place. -/
theorem entry_below {l : Location} {e : Location × Node} {f : Location × Text} :
    (match e.2 with
      | .file s => if l.isPrefixOf e.1 then some (e.1.drop l.length, s) else none
      | .folder => none) = some f ↔ e = (l ++ f.1, .file f.2) := by
  obtain ⟨m, n⟩ := e
  obtain ⟨r, s⟩ := f
  cases n with
  | folder => simp
  | file s' =>
    simp only [Option.ite_none_right_eq_some, List.isPrefixOf_iff_prefix, List.prefix_iff_eq_append]
    constructor
    · rintro ⟨hl, hf⟩
      cases hf
      rw [hl]
    · intro he
      cases he
      simp

theorem mem_filesBelow_iff {l r : Location} {s : Text} :
    (r, s) ∈ t.filesBelow l ↔ (l ++ r, .file s) ∈ t.entries := by
  rw [filesBelow, List.mem_filterMap]
  constructor
  · rintro ⟨e, hmem, he⟩
    rwa [← entry_below.1 he]
  · exact fun hmem => ⟨_, hmem, (entry_below (l := l) (e := (l ++ r, .file s)) (f := (r, s))).2 rfl⟩

/-- The sources below a folder are the files there that have the extension. -/
theorem WellFormed.mem_sources (h : t.WellFormed) {l r : Location} {s : Text} :
    (r, s) ∈ t.sources l ↔ t.node? (l ++ r) = some (.file s) ∧ isSource r := by
  have hroot : t.node? (l ++ r) = some (.file s) → l ++ r ≠ [] := by
    intro hs hnil
    rw [hnil] at hs
    cases hs
  rw [sources, List.mem_mergeSort, List.mem_filter, mem_filesBelow_iff, h.mem_entries]
  exact ⟨fun ⟨⟨_, hs⟩, hr⟩ => ⟨hs, hr⟩, fun ⟨hs, hr⟩ => ⟨⟨hroot hs, hs⟩, hr⟩⟩

theorem WellFormed.nodup_sources (h : t.WellFormed) (l : Location) :
    ((t.sources l).map Prod.fst).Nodup := by
  have hentries : t.entries.Pairwise fun e e' => e.1 ≠ e'.1 := List.pairwise_map.1 h.keys
  have hbelow : (t.filesBelow l).Pairwise fun f f' => f.1 ≠ f'.1 := by
    refine hentries.filterMap _ fun e e' hne f hf f' hf' hsame => hne ?_
    rw [entry_below.1 hf, entry_below.1 hf', hsame]
  have hfilter := hbelow.filter fun f => isSource f.1
  exact (((List.mergeSort_perm _ _).map _).nodup_iff).2 (List.pairwise_map.2 hfilter)

theorem pairwise_sources (t : FileTree) (l : Location) :
    (t.sources l).Pairwise fun f f' => Location.isUpTo f.1 f'.1 := by
  apply List.pairwise_mergeSort
  · exact fun f f' f'' => Location.isOrder_isUpTo.trans f.1 f'.1 f''.1
  · exact fun f f' => Location.isOrder_isUpTo.total f.1 f'.1

/-- The text of the file at a place. -/
def textAt (t : FileTree) (l : Location) : Text :=
  match t.node? l with
  | some (.file s) => s
  | _ => []

/-- Two trees with files at the same places have the same sources, save for their texts. -/
theorem WellFormed.sources_eq (h : t.WellFormed) (h' : t'.WellFormed)
    (hfiles : ∀ l, (∃ s, t'.node? l = some (.file s)) ↔ ∃ s, t.node? l = some (.file s))
    (l : Location) : t'.sources l = (t.sources l).map fun f => (f.1, t'.textAt (l ++ f.1)) := by
  have htext : ∀ r s, (r, s) ∈ t'.sources l → s = t'.textAt (l ++ r) := by
    intro r s hmem
    rw [textAt, (h'.mem_sources.1 hmem).1]
  have hmap : ∀ r s, (r, s) ∈ (t.sources l).map (fun f => (f.1, t'.textAt (l ++ f.1))) →
      s = t'.textAt (l ++ r) := by
    intro r s hmem
    obtain ⟨f, -, hf⟩ := List.mem_map.1 hmem
    cases hf
    rfl
  have hsame : ∀ f f' : Location × Text, f ∈ t'.sources l →
      f' ∈ (t.sources l).map (fun f => (f.1, t'.textAt (l ++ f.1))) →
      Location.isUpTo f.1 f'.1 → Location.isUpTo f'.1 f.1 → f = f' := by
    rintro ⟨r, s⟩ ⟨r', s'⟩ hmem hmem' hle hle'
    have hr : r = r' := Location.isOrder_isUpTo.antisymm r r' hle hle'
    rw [htext r s hmem, hmap r' s' hmem', hr]
  have hnodup : ((t.sources l).map fun f => (f.1, t'.textAt (l ++ f.1))).Nodup := by
    refine List.Nodup.of_map Prod.fst ?_
    rw [List.map_map]
    exact h.nodup_sources l
  refine List.Perm.eq_of_pairwise hsame (t'.pairwise_sources l)
    (List.pairwise_map.2 (t.pairwise_sources l)) ?_
  rw [List.perm_ext_iff_of_nodup ((h'.nodup_sources l).of_map _) hnodup]
  rintro ⟨r, s⟩
  constructor
  · intro hmem
    obtain ⟨hs, hr⟩ := h'.mem_sources.1 hmem
    obtain ⟨s₀, hs₀⟩ := (hfiles _).1 ⟨s, hs⟩
    exact List.mem_map.2 ⟨(r, s₀), h.mem_sources.2 ⟨hs₀, hr⟩, by rw [← htext r s hmem]⟩
  · intro hmem
    obtain ⟨⟨r₀, s₀⟩, hmem₀, hf⟩ := List.mem_map.1 hmem
    obtain ⟨hs₀, hr⟩ := h.mem_sources.1 hmem₀
    obtain ⟨s', hs'⟩ := (hfiles _).2 ⟨s₀, hs₀⟩
    cases hf
    rw [textAt, hs']
    exact h'.mem_sources.2 ⟨hs', hr⟩

/-! ### The way to a file -/

theorem walk_append (t : FileTree) (here : Location) (ps qs : List Text) :
    t.walk here (ps ++ qs) = (t.walk here ps).bind fun l => t.walk l qs := by
  induction ps generalizing here with
  | nil => rfl
  | cons p ps ih =>
    rw [List.cons_append, walk, walk]
    rcases t.node? here with _ | (_ | s)
    · rfl
    · dsimp only
      split
      · exact ih here
      · split
        · exact ih here.dropLast
        · exact ih (here ++ [p])
    · rfl

/-- Names lead down. -/
theorem eq_of_walk_names {here l : Location} {r : List Text} (h : t.walk here r = .ok l)
    (hr : ∀ name ∈ r, Path.IsName name) : l = here ++ r := by
  induction r generalizing here with
  | nil =>
    rw [walk] at h
    cases h
    exact (List.append_nil _).symm
  | cons name r ih =>
    obtain ⟨hname, hr'⟩ := List.forall_mem_cons.1 hr
    rw [walk] at h
    split at h
    · cases h
    · cases h
    · rw [if_neg (by simp [hname.active]), if_neg hname.down] at h
      rw [ih h hr', List.append_assoc, List.singleton_append]

theorem locate_eq_ok_iff {p : Text} {l : Location} :
    t.locate p = .ok l ↔ checkPath p = .ok () ∧ t.walk [] (Path.parts p) = .ok l := by
  rw [locate]
  cases checkPath p <;> simp [bind, Except.bind]

theorem folder_eq_ok_iff {p : Text} {l : Location} :
    t.folder p = .ok l ↔ t.locate p = .ok l ∧ t.node? l = some .folder := by
  rw [folder]
  cases t.locate p with
  | error e => simp [bind, Except.bind]
  | ok m =>
    simp only [bind, Except.bind, Except.ok.injEq]
    constructor
    · intro h
      split at h
      · next hm =>
        cases h
        exact ⟨rfl, hm⟩
      · cases h
      · cases h
    · rintro ⟨rfl, hm⟩
      simp only [hm]

/-- The way along a path below a folder goes over the place of the folder. -/
theorem exists_walk_below {folder : Text} {l : Location} {r : List Text} (hfolder : t.folder folder = .ok l)
    (hne : r ≠ []) (hr : ∀ name ∈ r, Path.IsName name) :
    ∃ ps, Path.parts (Path.below folder (Path.ofParts r)) = ps ++ r ∧ t.walk [] ps = .ok l := by
  obtain ⟨ps, hparts, hps⟩ := Path.exists_parts_below folder hne hr
  refine ⟨ps, hparts, ?_⟩
  have hl := (locate_eq_ok_iff.1 (folder_eq_ok_iff.1 hfolder).1).2
  rcases hps with hps | hps
  · rwa [hps] at hl
  · rw [hps, walk_append] at hl
    obtain ⟨l', hw, hidle⟩ := exists_of_bind hl
    rw [walk] at hidle
    split at hidle
    · cases hidle
    · cases hidle
    · cases hidle
      exact hw

/-- The place of a file is below the folder it was found in. -/
theorem locate_below {folder : Text} {l m : Location} {r : List Text} (hfolder : t.folder folder = .ok l)
    (hne : r ≠ []) (hr : ∀ name ∈ r, Path.IsName name)
    (h : t.locate (Path.below folder (Path.ofParts r)) = .ok m) : m = l ++ r := by
  obtain ⟨ps, hparts, hwalk⟩ := exists_walk_below hfolder hne hr
  have hm := (locate_eq_ok_iff.1 h).2
  rw [hparts, walk_append, hwalk] at hm
  exact eq_of_walk_names hm hr

/-! ### Writing over a file -/

theorem ne_nil_of_not_folder {l : Location} (h : t.node? l ≠ some .folder) : l ≠ [] := by
  rintro rfl
  exact h rfl

/-- A file that could be written is at the place of its path, where no folder was. -/
theorem exists_of_write {p s : Text} (h : t.write p s = .ok t') :
    ∃ l, t.locate p = .ok l ∧ t.node? l ≠ some .folder ∧ t' = t.put l (.file s) := by
  obtain ⟨⟨⟩, hc, h⟩ := exists_of_bind h
  obtain ⟨l, hw, h⟩ := exists_of_bind h
  split at h
  · cases h
  · next hwrite =>
    cases h
    obtain ⟨hend, hfolder⟩ := not_or.1 hwrite
    have hp : p ≠ [] := by
      rintro rfl
      cases hw
      exact hfolder rfl
    rw [Path.dropWhile_reverse_parts hp (Bool.eq_false_iff.2 hend)] at hw
    exact ⟨l, locate_eq_ok_iff.2 ⟨hc, hw⟩, hfolder, rfl⟩

section

variable {l : Location} {s₀ : Text}

theorem node?_put_file (hl : t.node? l = some (.file s₀)) (s : Text) (m : Location) :
    (t.put l (.file s)).node? m = if m = l then some (.file s) else t.node? m := by
  have hne : l ≠ [] := by
    rintro rfl
    cases hl
  split
  · next hm => rw [hm, node?_put hne]
  · next hm => exact node?_put_of_ne hm

/-- A file in the place of a file leaves the ways as they are. -/
theorem walk_put_file (hl : t.node? l = some (.file s₀)) (s : Text) (here : Location) (ps : List Text) :
    (t.put l (.file s)).walk here ps = t.walk here ps := by
  induction ps generalizing here with
  | nil => rfl
  | cons p ps ih =>
    rw [walk, walk, node?_put_file hl]
    by_cases hhere : here = l
    · rw [if_pos hhere, hhere, hl]
    · simp only [if_neg hhere, ih]

theorem locate_put_file (hl : t.node? l = some (.file s₀)) (s p : Text) :
    (t.put l (.file s)).locate p = t.locate p := by
  rw [locate, locate, walk_put_file hl]

theorem folder_put_file (hl : t.node? l = some (.file s₀)) (s p : Text) :
    (t.put l (.file s)).folder p = t.folder p := by
  rw [folder, folder, locate_put_file hl]
  cases t.locate p with
  | error e => rfl
  | ok m =>
    simp only [bind, Except.bind, node?_put_file hl]
    by_cases hm : m = l
    · rw [if_pos hm, hm, hl]
    · rw [if_neg hm]

theorem exists_file_put_iff (hl : t.node? l = some (.file s₀)) (s : Text) (m : Location) :
    (∃ s', (t.put l (.file s)).node? m = some (.file s')) ↔ ∃ s', t.node? m = some (.file s') := by
  rw [node?_put_file hl]
  by_cases hm : m = l
  · rw [if_pos hm, hm]
    exact ⟨fun _ => ⟨s₀, hl⟩, fun _ => ⟨s, rfl⟩⟩
  · rw [if_neg hm]

theorem WellFormed.put_file (h : t.WellFormed) (hl : t.node? l = some (.file s₀)) (s : Text) :
    (t.put l (.file s)).WellFormed := by
  refine h.put ?_ (h.names_of_node? hl) _
  rintro rfl
  cases hl

end

/-! ### Trees whose nodes stand in folders -/

variable {l : Location} {name : Text}

/-- A tree in which whatever there is stands in a folder, and can be asked for by its names. -/
structure IsTree (t : FileTree) : Prop extends WellFormed t where
  plain : ∀ e ∈ t.entries, ∀ name ∈ e.1, '\x00' ∉ name
  parents : ∀ l name, t.node? (l ++ [name]) ≠ none → t.node? l = some .folder

theorem IsTree.folder_of_append (h : t.IsTree) {r : List Text} (hr : r ≠ []) (hl : t.node? (l ++ r) ≠ none) :
    t.node? l = some .folder := by
  induction r using List.reverseRecOn with
  | nil => exact absurd rfl hr
  | append_singleton r name ih =>
    rw [← List.append_assoc] at hl
    have hfolder := h.parents (l ++ r) name hl
    by_cases hnil : r = []
    · rwa [hnil, List.append_nil] at hfolder
    · exact ih hnil (by simp [hfolder])

/-- A place where something may stand: below names that can be asked for, in a folder. -/
structure Stands (t : FileTree) (l : Location) : Prop where
  names : ∀ name ∈ l, Path.IsName name
  plain : ∀ name ∈ l, '\x00' ∉ name
  parent : l ≠ [] → t.node? l.dropLast = some .folder

theorem IsTree.stands (h : t.IsTree) (hl : t.node? l = some .folder) : t.Stands l := by
  rcases List.eq_nil_or_concat l with rfl | ⟨m, name, rfl⟩
  · exact ⟨by simp, by simp, by simp⟩
  · rw [List.concat_eq_append] at hl ⊢
    have hmem := h.mem_entries.2 ⟨by simp, hl⟩
    refine ⟨h.names _ hmem, h.plain _ hmem, fun _ => ?_⟩
    rw [List.dropLast_concat]
    exact h.parents m name (by simp [hl])

/-- A folder's folder. -/
theorem IsTree.folder_dropLast (h : t.IsTree) (hl : t.node? l = some .folder) :
    t.node? l.dropLast = some .folder := by
  by_cases hne : l = []
  · rw [hne]
    rfl
  · exact (h.stands hl).parent hne

theorem Stands.below (h : t.Stands l) (hl : t.node? l = some .folder) (hname : Path.IsName name)
    (hplain : '\x00' ∉ name) : t.Stands (l ++ [name]) where
  names := Path.names_append h.names hname
  plain := by
    intro n hn
    rcases List.mem_append.1 hn with hn | hn
    · exact h.plain n hn
    · rwa [List.mem_singleton.1 hn]
  parent := fun _ => by rwa [List.dropLast_concat]

/-- Something that is put in a folder, where no folder was unless it is one itself. -/
theorem IsTree.put (h : t.IsTree) {n : Node} (hne : l ≠ []) (hl : t.Stands l)
    (hn : t.node? l = some .folder → n = .folder) : (t.put l n).IsTree := by
  refine ⟨h.toWellFormed.put hne hl.names n, fun e he => ?_, fun m name hm => ?_⟩
  · rcases List.mem_cons.1 he with rfl | he
    · exact hl.plain
    · exact h.plain e (List.mem_filter.1 he).1
  · by_cases hml : m = l
    · subst hml
      rw [node?_put_of_ne (by simp)] at hm
      rw [node?_put hne, hn (h.parents m name hm)]
    · rw [node?_put_of_ne hml]
      by_cases hname : m ++ [name] = l
      · have hparent := hl.parent hne
        rwa [← hname, List.dropLast_concat] at hparent
      · rw [node?_put_of_ne hname] at hm
        exact h.parents m name hm

/-! ### Trees that are made -/

theorem wellFormed_empty : empty.WellFormed where
  keys := List.nodup_nil
  inside := by simp [empty]
  names := by simp [empty]

theorem isTree_empty : empty.IsTree where
  toWellFormed := wellFormed_empty
  plain := by simp [empty]
  parents := fun l name h => by simp [node?, empty] at h

theorem checkPath_eq_ok_iff {p : Text} : checkPath p = .ok () ↔ '\x00' ∉ p ∧ p ≠ [] := by
  rw [checkPath]
  split
  · next hnull => simp [hnull]
  · next hnull => split <;> simp [*]

/-- A part of a path that can be asked for. -/
theorem not_mem_of_mem_parts {p : Text} (h : '\x00' ∉ p) : ∀ part ∈ Path.parts p, '\x00' ∉ part := by
  intro part hpart hnull
  refine h ?_
  rw [← Path.ofParts_parts p]
  exact mem_join_of_mem hpart hnull

theorem exists_of_makeFolders {p : Text} (h : t.makeFolders p = .ok t') :
    '\x00' ∉ p ∧ t.walkMaking [] (Path.parts p) = .ok t' := by
  by_cases hp : p = []
  · subst hp
    exact ⟨by simp, h⟩
  · rw [makeFolders, if_pos hp] at h
    obtain ⟨⟨⟩, hcheck, h⟩ := exists_of_bind h
    exact ⟨(checkPath_eq_ok_iff.1 hcheck).1, h⟩

/-- A walk ends where something may stand. -/
theorem IsTree.stands_of_walk (h : t.IsTree) {here : Location} {ps : List Text} (hwalk : t.walk here ps = .ok l)
    (hhere : t.Stands here) (hslash : ∀ p ∈ ps, '/' ∉ p) (hplain : ∀ p ∈ ps, '\x00' ∉ p) :
    t.Stands l := by
  induction ps generalizing here with
  | nil =>
    cases hwalk
    exact hhere
  | cons p ps ih =>
    obtain ⟨hp, hps⟩ := List.forall_mem_cons.1 hslash
    obtain ⟨hp', hps'⟩ := List.forall_mem_cons.1 hplain
    rw [walk] at hwalk
    split at hwalk
    · cases hwalk
    · cases hwalk
    · next hnode =>
      split at hwalk
      · exact ih hwalk hhere hps hps'
      · next hidle =>
        split at hwalk
        · exact ih hwalk (h.stands (h.folder_dropLast hnode)) hps hps'
        · next hdown =>
          exact ih hwalk (hhere.below hnode ⟨Bool.eq_false_iff.2 hidle, hdown, hp⟩ hp') hps hps'

theorem IsTree.walkMaking (h : t.IsTree) {here : Location} {ps : List Text} (hhere : t.node? here = some .folder)
    (hslash : ∀ p ∈ ps, '/' ∉ p) (hplain : ∀ p ∈ ps, '\x00' ∉ p) (hmake : t.walkMaking here ps = .ok t') :
    t'.IsTree := by
  induction ps generalizing t here with
  | nil =>
    cases hmake
    exact h
  | cons p ps ih =>
    obtain ⟨hp, hps⟩ := List.forall_mem_cons.1 hslash
    obtain ⟨hp', hps'⟩ := List.forall_mem_cons.1 hplain
    rw [FileTree.walkMaking] at hmake
    split at hmake
    · exact ih h hhere hps hps' hmake
    · next hidle =>
      split at hmake
      · exact ih h (h.folder_dropLast hhere) hps hps' hmake
      · next hdown =>
        have hstands := (h.stands hhere).below hhere ⟨Bool.eq_false_iff.2 hidle, hdown, hp⟩ hp'
        split at hmake
        · next hnode => exact ih h hnode hps hps' hmake
        · cases hmake
        · exact ih (h.put (by simp) hstands fun _ => rfl) (node?_put (by simp)) hps hps' hmake

theorem IsTree.write (h : t.IsTree) {p s : Text} (hwrite : t.write p s = .ok t') : t'.IsTree := by
  obtain ⟨l, hl, hfree, rfl⟩ := exists_of_write hwrite
  obtain ⟨hcheck, hwalk⟩ := locate_eq_ok_iff.1 hl
  have hstands := h.stands_of_walk hwalk ⟨by simp, by simp, by simp⟩ (Path.slash_not_mem_pieces p)
    (not_mem_of_mem_parts (checkPath_eq_ok_iff.1 hcheck).1)
  exact h.put (ne_nil_of_not_folder hfree) hstands fun hfolder => absurd hfolder hfree

theorem IsTree.add (h : t.IsTree) {p s : Text} (hadd : t.add p s = .ok t') : t'.IsTree := by
  obtain ⟨t₁, hmake, hwrite⟩ := exists_of_bind hadd
  obtain ⟨hnull, hmake⟩ := exists_of_makeFolders hmake
  exact (h.walkMaking rfl (Path.slash_not_mem_pieces _) (not_mem_of_mem_parts hnull) hmake).write hwrite

/-- In a tree that is made of files everything stands in a folder. -/
theorem isTree_ofFiles {files : List (Text × Text)} (h : ofFiles files = .ok t) : t.IsTree := by
  have hstart := isTree_empty
  rw [ofFiles] at h
  generalize empty = t₀ at h hstart
  induction files generalizing t₀ with
  | nil =>
    cases h
    exact hstart
  | cons f files ih =>
    rw [List.foldlM_cons] at h
    obtain ⟨t₁, hadd, h⟩ := exists_of_bind h
    exact ih t₁ h (hstart.add hadd)

theorem wellFormed_ofFiles {files : List (Text × Text)} (h : ofFiles files = .ok t) : t.WellFormed :=
  (isTree_ofFiles h).toWellFormed

end FileTree

end DalvikPatch
