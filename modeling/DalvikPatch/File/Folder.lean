import DalvikPatch.File.Source

/-! Sources found folder by folder. A listing says in which order the things in a folder come; they are put in
the order of their names, and then those that are sources are read and those that are folders gone
into, one after the other, up to the first that fails. -/

namespace DalvikPatch

/-- The class of a file, from what reading the file gave. -/
def Class.ofContents (p : Text) (contents : Except FileFault Text) : Outcome Class := do
  Class.ofFile p (← Outcome.ofFile p contents)

namespace FileTree

/-- What reading the file at a place gives. -/
def contents (t : FileTree) (l : Location) : Except FileFault Text :=
  match t.node? l with
  | some (.file s) => .ok s
  | some .folder => .error .isFolder
  | none => .error .missing

/-- The names of what stands in a folder. -/
def namesIn (t : FileTree) (l : Location) : List Text :=
  t.entries.filterMap fun e => if e.1.dropLast = l then e.1.getLast? else none

/-- The number of names on the longest way down. -/
def depth (t : FileTree) : Nat := t.entries.foldr (fun e n => max e.1.length n) 0

theorem length_le_depth {t : FileTree} {l : Location} {n : Node} (h : t.node? l = some n) :
    l.length ≤ t.depth := by
  by_cases hl : l = []
  · simp [hl]
  · rw [node?, if_neg hl] at h
    obtain ⟨before, after, hes, -⟩ := List.lookup_eq_some_iff.1 h
    have hmem : (l, n) ∈ t.entries := by simp [hes]
    rw [depth]
    clear hes h
    generalize t.entries = es at hmem
    induction es with
    | nil => cases hmem
    | cons e es ih =>
      rcases List.mem_cons.1 hmem with rfl | hmem
      · exact Nat.le_max_left _ _
      · exact Nat.le_trans (ih hmem) (Nat.le_max_right _ _)

/-- The classes below the folder of path `p` at the place `l`, each folder as the listing has it. -/
def discover (t : FileTree) (listing : Location → List Text) (contents : Location → Except FileFault Text)
    (p : Text) (l : Location) : Outcome (List Class) := do
  let found ← ((listing l).mergeSort Text.isUpTo).mapM fun name =>
    match _ : t.node? (l ++ [name]) with
    | some .folder => t.discover listing contents (Path.below p name) (l ++ [name])
    | some (.file _) =>
      if isSource (l ++ [name]) then
        (Class.ofContents (Path.below p name) (contents (l ++ [name]))).map fun c => [c]
      else .ok []
    | none => .ok []
  return found.flatten
termination_by t.depth - l.length
decreasing_by
  have := length_le_depth ‹t.node? (l ++ [name]) = some .folder›
  rw [List.length_append, List.length_singleton] at *
  omega

end FileTree

end DalvikPatch
